import MemcachedClient.Text.Decimal
import MemcachedClient.Proofs.Text.Word

/-!
# Numerals read as their numbers

A number below a bound, written in decimal digits, is read as itself under that bound.
-/

namespace MemcachedClient.Text

variable {bound n : ℕ}

theorem digit?_of_isDigit {c : Char} (h : c.isDigit = true) : digit? c = some (c.toNat - '0'.toNat) := by
  rw [Char.isDigit, Bool.and_eq_true, decide_eq_true_eq, decide_eq_true_eq] at h
  exact if_pos h

/-- Digits whose value stays below the bound are read as that value: no part of them reaches it either. -/
theorem digitsFrom?_of_lt {cs : List Char} (hdigits : ∀ c ∈ cs, c.isDigit = true) {acc : ℕ}
    (hlt : Nat.ofDigitChars 10 cs acc < bound) :
    digitsFrom? bound acc cs = some (Nat.ofDigitChars 10 cs acc) := by
  induction cs generalizing acc with
  | nil => rfl
  | cons c cs ih =>
    rw [List.forall_mem_cons] at hdigits
    rw [Nat.ofDigitChars_cons] at hlt ⊢
    have hle : 10 * acc + (c.toNat - '0'.toNat) ≤
        Nat.ofDigitChars 10 cs (10 * acc + (c.toNat - '0'.toNat)) := by
      rw [Nat.ofDigitChars_eq_ofDigitChars_zero]
      exact Nat.le_trans (Nat.le_mul_of_pos_left _ (Nat.pow_pos (by decide))) (Nat.le_add_right _ _)
    rw [digitsFrom?, digit?_of_isDigit hdigits.1, Option.bind_some, if_pos (Nat.lt_of_le_of_lt hle hlt),
      ih hdigits.2 hlt]

theorem digits?_repr (h : n < bound) : digits? bound (Nat.repr n).toList = some n := by
  have hvalue : Nat.ofDigitChars 10 (Nat.repr n).toList 0 = n := by
    rw [Nat.toList_repr, Nat.ofDigitChars_ten_toDigits]
  have hread : digitsFrom? bound 0 (Nat.repr n).toList = some n := by
    rw [digitsFrom?_of_lt (fun _ => isDigit_of_mem_repr) (by rwa [hvalue]), hvalue]
  cases hcs : (Nat.repr n).toList with
  | nil => exact absurd (String.toList_eq_nil_iff.mp hcs) (repr_ne_empty n)
  | cons c cs => rwa [digits?, ← hcs]

theorem numeral?_repr (h : n < bound) : numeral? bound (Nat.repr n).toList = some n := by
  rw [numeral?, digits?_repr h]
  -- no digit is a plus sign
  intro cs hplus
  have hmem : '+' ∈ (Nat.repr n).toList := hplus ▸ List.mem_cons_self
  exact absurd (isDigit_of_mem_repr hmem) (by decide)

theorem word32?_repr (n : UInt32) : word32? (Nat.repr n.toNat).toList = some n := by
  rw [word32?, numeral?_repr n.toNat_lt_size]
  simp

theorem word64?_repr (n : UInt64) : word64? (Nat.repr n.toNat).toList = some n := by
  rw [word64?, numeral?_repr n.toNat_lt_size]
  simp

end MemcachedClient.Text
