/-!
# Blank and control characters

The two character classes that decide how a line falls into tokens and which keys can be put on a
request line: *blank* is the Unicode property White_Space, *control* is the general category Cc.
Both are closed tables of code points (`blankRanges`, `isControl`).

A text falls into its `words`, the maximal runs of characters that are not blank.
-/

namespace MemcachedClient.Text

/-- The code points with the property White_Space, as closed ranges in ascending order. -/
def blankRanges : List (Nat × Nat) :=
  [(0x9, 0xD), (0x20, 0x20), (0x85, 0x85), (0xA0, 0xA0), (0x1680, 0x1680), (0x2000, 0x200A),
    (0x2028, 0x2029), (0x202F, 0x202F), (0x205F, 0x205F), (0x3000, 0x3000)]

/-- Whether a code point lies in one of the closed ranges. -/
def inRanges (ranges : List (Nat × Nat)) (code : Nat) : Bool :=
  ranges.any fun range => range.1 ≤ code && code ≤ range.2

/-- A blank separates tokens. -/
def isBlank (c : Char) : Bool :=
  inRanges blankRanges c.toNat

/-- A control character: the C0 controls, DEL and the C1 controls. -/
def isControl (c : Char) : Bool :=
  c.toNat < 0x20 || (0x7F ≤ c.toNat && c.toNat ≤ 0x9F)

/-- The run of characters before the first blank, and the words after that run. -/
def headRun : List Char → List Char × List (List Char)
  | [] => ([], [])
  | c :: cs =>
    let (run, rest) := headRun cs
    if isBlank c then ([], if run.isEmpty then rest else run :: rest) else (c :: run, rest)

/-- The maximal runs of characters that are not blank, in the order of the text. -/
def words (cs : List Char) : List (List Char) :=
  let (run, rest) := headRun cs
  if run.isEmpty then rest else run :: rest

/-- The text without the blanks at its two ends. -/
def trim (cs : List Char) : List Char :=
  ((cs.dropWhile isBlank).reverse.dropWhile isBlank).reverse

@[simp] theorem words_nil : words [] = [] := rfl

/-- A leading blank does not change the words. -/
theorem words_cons_of_isBlank {c : Char} (h : isBlank c = true) (cs : List Char) :
    words (c :: cs) = words cs := by
  simp [words, headRun, h]

end MemcachedClient.Text
