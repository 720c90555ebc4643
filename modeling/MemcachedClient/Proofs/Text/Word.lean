import MemcachedClient.Text.Blank
import MemcachedClient.Proofs.Text.Utf8

/-!
# Words on a line

A word is what can stand between the spaces of a line: it has a character, and none of its characters is blank
or a control. A line of words falls back into them, whether its reader takes it apart by characters
(`Text.words_line`) or by bytes (`Text.splitOn_line`), and no byte of it ends the line (`Text.ne_of_mem_line`).
By characters that holds of any tokens: these may have controls in them that are not blank.
-/

namespace MemcachedClient.Text

/-- Whether a text can stand between the spaces of a line. -/
def IsWord (token : String) : Prop :=
  token ≠ "" ∧ ∀ c ∈ token.toList, isBlank c = false ∧ isControl c = false

-- the instance is named because another one would go through all characters there are
instance : DecidablePred IsWord := fun token =>
  @instDecidableAnd _ _ inferInstance (List.decidableBAll _ token.toList)

/-- Whether a text stands on a line as one token. -/
def IsToken (token : String) : Prop :=
  token ≠ "" ∧ ∀ c ∈ token.toList, isBlank c = false

instance : DecidablePred IsToken := fun token =>
  @instDecidableAnd _ _ inferInstance (List.decidableBAll _ token.toList)

variable {token : String} {tokens : List String} {b : UInt8}

theorem IsWord.isToken (h : IsWord token) : IsToken token :=
  ⟨h.1, fun c hc => (h.2 c hc).1⟩

/-- The space, the line ends, and every byte below them, are blank or control characters. -/
theorem IsWord.lt_of_mem (h : IsWord token) (hmem : b ∈ Bytes.ofText token) : 32 < b.toNat := by
  by_contra hle
  obtain ⟨c, hc, hcode⟩ := Bytes.exists_char_of_mem hmem (by omega)
  obtain ⟨hblank, hcontrol⟩ := h.2 c hc
  rcases Nat.lt_or_ge c.toNat 0x20 with hlt | hge
  · simp [isControl, hlt] at hcontrol
  · have hspace : c.toNat = 0x20 := by omega
    rw [isBlank, hspace] at hblank
    exact absurd hblank (by decide)

/-- The line ends are blank characters. -/
theorem IsToken.ne_of_mem (h : IsToken token) (hmem : b ∈ Bytes.ofText token) :
    b ≠ Bytes.lineFeed ∧ b ≠ Bytes.carriageReturn := by
  constructor <;>
  · rintro rfl
    obtain ⟨c, hc, hcode⟩ := Bytes.exists_char_of_mem hmem (by decide)
    have hblank := h.2 c hc
    rw [isBlank, hcode] at hblank
    exact absurd hblank (by decide)

/-- A digit is neither blank nor a control. -/
theorem visible_of_isDigit {c : Char} (h : c.isDigit = true) : isBlank c = false ∧ isControl c = false := by
  have hcode : 48 ≤ c.toNat ∧ c.toNat ≤ 57 := by
    rw [Char.isDigit, Bool.and_eq_true, decide_eq_true_eq, decide_eq_true_eq, ge_iff_le,
      UInt32.le_iff_toNat_le, UInt32.le_iff_toNat_le] at h
    exact h
  constructor
  · simp only [isBlank, inRanges, blankRanges, List.any_cons, List.any_nil, Bool.or_false,
      Bool.or_eq_false_iff, Bool.and_eq_false_iff, decide_eq_false_iff_not]
    omega
  · simp only [isControl, Bool.or_eq_false_iff, Bool.and_eq_false_iff, decide_eq_false_iff_not]
    omega

theorem isDigit_of_mem_repr {n : ℕ} {c : Char} (h : c ∈ (Nat.repr n).toList) : c.isDigit = true := by
  rw [Nat.toList_repr] at h
  exact Nat.isDigit_of_mem_toDigits (by decide) (by decide) h

theorem repr_ne_empty (n : ℕ) : Nat.repr n ≠ "" := by
  intro h
  have := congrArg String.toList h
  rw [Nat.toList_repr] at this
  exact Nat.toDigits_ne_nil this

theorem isWord_repr (n : ℕ) : IsWord (Nat.repr n) :=
  ⟨repr_ne_empty n, fun _ hc => visible_of_isDigit (isDigit_of_mem_repr hc)⟩

/-! ### Lines -/

/-- The bytes of a line of tokens. -/
theorem ofText_line (tokens : List String) :
    Bytes.ofText (" ".intercalate tokens) = [32].intercalate (tokens.map Bytes.ofText) :=
  Bytes.ofText_intercalate " " tokens

theorem mem_or_mem_of_mem_intercalate {separator : Bytes} {parts : List Bytes}
    (h : b ∈ separator.intercalate parts) : b ∈ separator ∨ ∃ part ∈ parts, b ∈ part := by
  induction parts with
  | nil => simp [List.intercalate] at h
  | cons part rest ih =>
    by_cases hrest : rest = []
    · subst hrest
      exact .inr ⟨part, List.mem_cons_self, by simpa [List.intercalate] using h⟩
    · rw [List.intercalate_cons_of_ne_nil hrest, List.append_assoc, List.mem_append,
        List.mem_append] at h
      rcases h with h | h | h
      · exact .inr ⟨part, List.mem_cons_self, h⟩
      · exact .inl h
      · rcases ih h with h | ⟨other, hother, h⟩
        · exact .inl h
        · exact .inr ⟨other, List.mem_cons_of_mem _ hother, h⟩

/-- No byte of a line of tokens ends the line. -/
theorem ne_of_mem_line (h : ∀ token ∈ tokens, IsToken token)
    (hmem : b ∈ Bytes.ofText (" ".intercalate tokens)) : b ≠ Bytes.lineFeed ∧ b ≠ Bytes.carriageReturn := by
  rw [ofText_line] at hmem
  rcases mem_or_mem_of_mem_intercalate hmem with hmem | ⟨bytes, hbytes, hmem⟩
  · rw [List.mem_singleton] at hmem
    subst hmem
    decide
  · obtain ⟨token, htoken, rfl⟩ := List.mem_map.mp hbytes
    exact (h token htoken).ne_of_mem hmem

/-- By bytes, a line of words falls into the words. -/
theorem splitOn_line (hne : tokens ≠ []) (h : ∀ token ∈ tokens, IsWord token) :
    (Bytes.ofText (" ".intercalate tokens)).splitOn 32 = tokens.map Bytes.ofText := by
  rw [ofText_line, List.splitOn_intercalate]
  · intro bytes hbytes hmem
    obtain ⟨token, htoken, rfl⟩ := List.mem_map.mp hbytes
    exact absurd ((h token htoken).lt_of_mem hmem) (by decide)
  · simpa using hne

/-- The first run of characters that are not blank is all of them, or ends at a blank. -/
theorem headRun_append {run : List Char} (h : ∀ c ∈ run, isBlank c = false) (cs : List Char) :
    headRun (run ++ cs) = (run ++ (headRun cs).1, (headRun cs).2) := by
  induction run with
  | nil => rfl
  | cons c run ih =>
    rw [List.forall_mem_cons] at h
    rw [List.cons_append, headRun, ih h.2]
    simp [h.1]

theorem words_of_isToken (h : IsToken token) : words token.toList = [token.toList] := by
  have hrun := headRun_append h.2 ([] : List Char)
  simp only [List.append_nil, headRun] at hrun
  rw [words, hrun]
  simp [h.1]

theorem words_append_space (h : IsToken token) (cs : List Char) :
    words (token.toList ++ ' ' :: cs) = token.toList :: words cs := by
  have hspace : isBlank ' ' = true := by decide
  have hrest : headRun (' ' :: cs) = ([], words cs) := by
    rw [headRun, words]
    simp [hspace]
  rw [words, headRun_append h.2, hrest]
  simp [h.1]

/-- By characters, a line of tokens falls into the tokens. -/
theorem words_line (h : ∀ token ∈ tokens, IsToken token) :
    words (" ".intercalate tokens).toList = tokens.map String.toList := by
  induction tokens with
  | nil => rfl
  | cons token rest ih =>
    rw [List.forall_mem_cons] at h
    cases rest with
    | nil => simpa using words_of_isToken h.1
    | cons next rest =>
      have hspace : (" " : String).toList = [' '] := rfl
      rw [String.intercalate_cons_cons, String.toList_append, String.toList_append, hspace,
        List.append_assoc, List.singleton_append, words_append_space h.1, ih h.2]
      rfl

end MemcachedClient.Text
