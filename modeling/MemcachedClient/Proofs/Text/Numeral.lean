import MemcachedClient.Proofs.Text.Decimal

/-!
# What a numeral is

The grammar of the number fields of a response, said without their reader: one or more decimal digits
(`IsDigits`), and perhaps a plus sign before them (`IsNumeral`). There may be zeros in front, and the text may be as
long as it likes. The reader of numerals takes exactly the texts of this grammar whose value stays below its bound
(`numeral?_eq_some_iff`).
-/

namespace MemcachedClient.Text

/-- The text is one or more decimal digits, and this is their value. -/
structure IsDigits (cs : List Char) (n : ℕ) : Prop where
  /-- There is a digit. -/
  nonempty : cs ≠ []
  /-- There is nothing else. -/
  digits : ∀ c ∈ cs, c.isDigit = true
  /-- The value, to the base of ten. -/
  value : Nat.ofDigitChars 10 cs 0 = n

/-- The text is digits of this value, with or without a plus sign before them. -/
inductive IsNumeral : List Char → ℕ → Prop where
  /-- Digits alone. -/
  | plain {cs : List Char} {n : ℕ} (digits : IsDigits cs n) : IsNumeral cs n
  /-- A plus sign and digits. -/
  | signed {cs : List Char} {n : ℕ} (digits : IsDigits cs n) : IsNumeral ('+' :: cs) n

variable {bound n : ℕ} {cs : List Char}

theorem isDigit_of_digit? {c : Char} {d : ℕ} (h : digit? c = some d) :
    c.isDigit = true ∧ c.toNat - '0'.toNat = d := by
  unfold digit? at h
  split at h
  · next hrange =>
    rw [Char.isDigit, Bool.and_eq_true, decide_eq_true_eq, decide_eq_true_eq]
    exact ⟨hrange, Option.some.inj h⟩
  · cases h

/-- What is read has only digits in it, and its value is theirs. -/
theorem value_of_digitsFrom? {acc : ℕ} (h : digitsFrom? bound acc cs = some n) :
    (∀ c ∈ cs, c.isDigit = true) ∧ Nat.ofDigitChars 10 cs acc = n := by
  induction cs generalizing acc with
  | nil => exact ⟨by simp, Option.some.inj h⟩
  | cons c cs ih =>
    obtain ⟨d, hd, h⟩ := Option.bind_eq_some_iff.mp h
    split at h
    · obtain ⟨hdigits, hvalue⟩ := ih h
      obtain ⟨hdigit, rfl⟩ := isDigit_of_digit? hd
      rw [List.forall_mem_cons, Nat.ofDigitChars_cons]
      exact ⟨⟨hdigit, hdigits⟩, hvalue⟩
    · cases h

theorem digits?_eq_some_iff : digits? bound cs = some n ↔ IsDigits cs n ∧ n < bound := by
  cases cs with
  | nil =>
    constructor
    · intro h
      cases h
    · rintro ⟨h, -⟩
      exact absurd rfl h.nonempty
  | cons c cs =>
    constructor
    · intro h
      obtain ⟨hdigits, hvalue⟩ := value_of_digitsFrom? h
      exact ⟨⟨List.cons_ne_nil c cs, hdigits, hvalue⟩, lt_of_digits? h⟩
    · rintro ⟨⟨-, hdigits, rfl⟩, hlt⟩
      exact digitsFrom?_of_lt hdigits hlt

/-- A plus sign is not a digit. -/
theorem not_isDigits_signed : ¬ IsDigits ('+' :: cs) n := fun h =>
  absurd (h.digits '+' List.mem_cons_self) (by decide)

/-- **A field is read as a number exactly if it is a numeral below the bound.** -/
theorem numeral?_eq_some_iff : numeral? bound cs = some n ↔ IsNumeral cs n ∧ n < bound := by
  unfold numeral?
  split
  · next cs =>
    rw [digits?_eq_some_iff]
    constructor
    · rintro ⟨h, hlt⟩
      exact ⟨.signed h, hlt⟩
    · rintro ⟨h, hlt⟩
      cases h with
      | plain h => exact absurd h not_isDigits_signed
      | signed h => exact ⟨h, hlt⟩
  · next hplus =>
    rw [digits?_eq_some_iff]
    constructor
    · rintro ⟨h, hlt⟩
      exact ⟨.plain h, hlt⟩
    · rintro ⟨h, hlt⟩
      cases h with
      | plain h => exact ⟨h, hlt⟩
      | signed h => exact absurd rfl (hplus _)

theorem IsNumeral.isDigit_or_plus (h : IsNumeral cs n) : ∀ c ∈ cs, c = '+' ∨ c.isDigit = true := by
  cases h with
  | plain h => exact fun c hc => .inr (h.digits c hc)
  | signed h => exact List.forall_mem_cons.mpr ⟨.inl rfl, fun c hc => .inr (h.digits c hc)⟩

theorem toLower_of_isDigit {c : Char} (h : c.isDigit = true) : c.toLower = c := by
  rw [Char.isDigit, Bool.and_eq_true, decide_eq_true_eq, decide_eq_true_eq] at h
  have hle : c.val.toNat ≤ 57 := UInt32.le_iff_toNat_le.mp h.2
  refine dif_neg fun hupper => ?_
  have hge : 65 ≤ c.val.toNat := UInt32.le_iff_toNat_le.mp hupper.1
  omega

/-- There are no letters in a numeral. -/
theorem IsNumeral.map_toLower (h : IsNumeral cs n) : cs.map Char.toLower = cs := by
  have hsame : ∀ c ∈ cs, c.toLower = id c := by
    intro c hc
    rcases h.isDigit_or_plus c hc with rfl | hdigit
    · decide
    · exact toLower_of_isDigit hdigit
  rw [List.map_congr_left hsame, List.map_id]

theorem word32?_eq_some_iff {w : UInt32} :
    word32? cs = some w ↔ ∃ n, IsNumeral cs n ∧ n < UInt32.size ∧ UInt32.ofNat n = w := by
  simp only [word32?, Option.map_eq_some_iff, numeral?_eq_some_iff, and_assoc]

theorem word64?_eq_some_iff {w : UInt64} :
    word64? cs = some w ↔ ∃ n, IsNumeral cs n ∧ n < UInt64.size ∧ UInt64.ofNat n = w := by
  simp only [word64?, Option.map_eq_some_iff, numeral?_eq_some_iff, and_assoc]

end MemcachedClient.Text
