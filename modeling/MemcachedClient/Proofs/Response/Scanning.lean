import MemcachedClient.Proofs.Key
import MemcachedClient.Proofs.Response.Encoding
import MemcachedClient.Proofs.Response.Pieces
import MemcachedClient.Proofs.Text.Decimal
import Mathlib.Data.Option.Basic

/-!
# Scanning what a server says

What a scanner makes of a line of tokens, of the block of an item, and of the end line, with any bytes behind:
it takes exactly those bytes, and what it answers is what they say (`Line.scan_line`,
`ItemState.scan_block`, `ItemState.scan_end`). The scanner of a block changes between lines and a value of
known length; the length that it counts is the one that the header says.
-/

namespace MemcachedClient.Response

open Text

namespace Line

/-- Bytes without a line end are kept. -/
theorem scan_text (checked : Bool) (raw : Array UInt8) {text : Bytes}
    (h : ∀ b ∈ text, b ≠ Bytes.lineFeed ∧ b ≠ Bytes.carriageReturn) :
    scan (step checked) raw text = (.more (raw ++ text.toArray), []) := by
  induction text generalizing raw with
  | nil => simp
  | cons b text ih =>
    rw [List.forall_mem_cons] at h
    simp only [scan, step, if_neg h.1.1, if_neg h.1.2]
    rw [ih (raw.push b) h.2]
    simp

/-- The line of some tokens. -/
def ofWords (tokens : List String) : Line := ⟨" ".intercalate tokens, tokens⟩

/-- A line of tokens is read as these tokens, whatever comes after. -/
theorem scan_line {checked : Bool} {tokens : List String} (h : ∀ token ∈ tokens, IsToken token)
    (hcheck : checked = true → (ofWords tokens).check = .ok ()) (rest : Bytes) :
    scan (step checked) #[] (lineOf tokens ++ rest) = (.done (.ok (ofWords tokens)), rest) := by
  have hline : Line.ofText (" ".intercalate tokens) = ofWords tokens := by
    rw [Line.ofText, words_line h, List.map_map, ofWords]
    simp [Function.comp_def]
  have hbytes : ofBytes checked (Bytes.ofText (" ".intercalate tokens)) = .ok (ofWords tokens) := by
    rw [ofBytes, Bytes.toText?_ofText]
    cases checked with
    | false => simp [hline]
    | true => simp [hline, hcheck rfl]
  rw [lineOf, List.append_assoc, scan_append, scan_text checked #[] fun _ => ne_of_mem_line h]
  simp [Bytes.crlf, scan, step, Bytes.lineFeed, Bytes.carriageReturn, hbytes]

end Line

theorem isToken_of_mem_headerOf {item : Item} (h : Legible item) :
    ∀ token ∈ headerOf item, IsToken token := by
  have hvalue : IsToken "VALUE" := by decide
  intro token hmem
  simp only [headerOf, List.cons_append, List.nil_append, List.mem_cons, Option.mem_toList,
    Option.map_eq_some_iff] at hmem
  rcases hmem with rfl | rfl | rfl | rfl | ⟨cas, -, rfl⟩
  · exact hvalue
  · exact h.1
  all_goals exact (isWord_repr _).isToken

/-- The header line of an item gives what is known of the item before its value. -/
theorem ofTokens?_headerOf {item : Item} (h : Legible item) : Header.ofTokens? (headerOf item) =
    some ⟨item.key, item.flags, item.data.length, item.cas⟩ := by
  have hword : sameWord "VALUE" "VALUE" = true := by decide
  have hlength := numeral?_repr h.2
  obtain ⟨key, flags, cas, data⟩ := item
  dsimp only at hlength
  cases cas with
  | none => simp [headerOf, Header.ofTokens?, hword, word32?_repr, hlength, -Nat.toList_repr]
  | some cas =>
    simp [headerOf, Header.ofTokens?, hword, word32?_repr, word64?_repr, hlength, -Nat.toList_repr]

namespace ItemState

/-- What a header line leads to, or one that could not be read. -/
def ofRead : Except ClientError Line → Step ItemState (Except ClientError (Option Item))
  | .error cause => .done (.error cause)
  | .ok line => ofLine line

theorem step_header (raw : Array UInt8) (byte : UInt8) :
    step (header raw) byte = (Line.step true raw byte).embed header ofRead := by
  rw [step]
  cases Line.step true raw byte with
  | more raw => rfl
  | held raw => rfl
  | done answer => cases answer <;> rfl

/-- A line at the start of a block leads to what the line says. -/
theorem scan_words {tokens : List String} (h : ∀ token ∈ tokens, IsToken token)
    (hcheck : (Line.ofWords tokens).check = .ok ()) (rest : Bytes) :
    scan step start (lineOf tokens ++ rest) = (ofLine (Line.ofWords tokens)).goOn step rest :=
  scan_embed step_header (Line.scan_line h (fun _ => hcheck) rest)

/-- The end line ends the items. -/
theorem scan_end (rest : Bytes) :
    scan step start (lineOf ["END"] ++ rest) = (.done (.ok none), rest) := by
  have hline : ofLine (Line.ofWords ["END"]) = .done (.ok none) := by
    rw [ofLine, if_pos (by decide)]
  rw [scan_words (by decide) (by decide), hline]
  rfl

/-- Bytes of the value are kept, whatever they are, until their number is that of the header. -/
theorem scan_data {h : Header} (read : Array UInt8) {bytes : Bytes} (hne : bytes ≠ [])
    (hlength : read.size + bytes.length = h.length) :
    scan step (data h read) bytes = (.more (terminator h (read ++ bytes.toArray)), []) := by
  induction bytes generalizing read with
  | nil => exact absurd rfl hne
  | cons byte bytes ih =>
    rw [List.length_cons] at hlength
    simp only [scan, step, Array.size_push]
    by_cases hlast : bytes = []
    · subst hlast
      rw [List.length_nil] at hlength
      rw [if_neg (by omega)]
      simp
    · have hpos := List.length_pos_iff.mpr hlast
      rw [if_pos (by omega)]
      dsimp only
      rw [ih (read.push byte) hlast (by rw [Array.size_push]; omega)]
      simp

/-- After a header, the value is read as it is, and its line end is taken with it. -/
theorem scan_value {h : Header} {value : Bytes} (hlength : h.length = value.length) (rest : Bytes) :
    scan step (afterHeader h) (value ++ (Bytes.crlf ++ rest)) =
      (.done (.ok (some (item h value.toArray))), rest) := by
  have hend : scan step (terminator h value.toArray) (Bytes.crlf ++ rest) =
      (.done (.ok (some (item h value.toArray))), rest) := by
    simp [Bytes.crlf, scan, step]
  by_cases hempty : value = []
  · subst hempty
    rw [List.length_nil] at hlength
    rw [afterHeader, if_pos hlength]
    exact hend
  · have hpos := List.length_pos_iff.mpr hempty
    rw [afterHeader, if_neg (by omega), scan_append, scan_data #[] hempty (by simp [hlength])]
    simpa using hend

/-- **A block is read as its item**, byte for byte, and nothing behind it is taken. -/
theorem scan_block {item : Item} (h : Legible item) (rest : Bytes) :
    scan step start (blockOf item ++ rest) = (.done (.ok (some item)), rest) := by
  have hcheck : (Line.ofWords (headerOf item)).check = .ok () := by
    have herror : Line.errorVerbs.any (sameWord "VALUE") = false := by decide
    simp [Line.check, Line.ofWords, headerOf, herror]
  have hline : ofLine (Line.ofWords (headerOf item)) =
      .more (afterHeader ⟨item.key, item.flags, item.data.length, item.cas⟩) := by
    have hfirst : sameWord (Line.ofWords (headerOf item)).first "END" = false := by
      have : sameWord "VALUE" "END" = false := by decide
      simpa [Line.first, Line.ofWords, headerOf] using this
    rw [ofLine, hfirst, Line.ofWords, ofTokens?_headerOf h]
    rfl
  rw [blockOf, List.append_assoc, List.append_assoc, scan_words (isToken_of_mem_headerOf h) hcheck, hline]
  exact scan_value rfl rest

end ItemState

end MemcachedClient.Response
