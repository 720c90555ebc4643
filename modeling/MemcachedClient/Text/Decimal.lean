/-!
# Decimal numerals

Numbers are written in ASCII decimal digits. `numeral?` reads a field: one or more digits, with an
optional plus sign before them, whose value stays below a bound. No other sign, blank or separator
is taken.
-/

namespace MemcachedClient.Text

/-- The value of one decimal digit. -/
def digit? (c : Char) : Option Nat :=
  if '0' ≤ c ∧ c ≤ '9' then some (c.toNat - '0'.toNat) else none

/-- Reads digits after those whose value is `acc`, as long as the value stays below `bound`. More
digits never make a value smaller, so a value that has reached the bound is refused at once. -/
def digitsFrom? (bound acc : Nat) : List Char → Option Nat
  | [] => some acc
  | c :: cs =>
    (digit? c).bind fun d =>
      if 10 * acc + d < bound then digitsFrom? bound (10 * acc + d) cs else none

/-- The value of a text of one or more decimal digits, if it is below `bound`. -/
def digits? (bound : Nat) : List Char → Option Nat
  | [] => none
  | c :: cs => digitsFrom? bound 0 (c :: cs)

/-- The value of a numeral below `bound`; a plus sign may stand before its digits. -/
def numeral? (bound : Nat) : List Char → Option Nat
  | '+' :: cs => digits? bound cs
  | cs => digits? bound cs

/-- From a value below the bound, digits lead to a value below the bound. -/
theorem lt_of_digitsFrom? {bound acc n : Nat} {cs : List Char} (hacc : acc < bound)
    (h : digitsFrom? bound acc cs = some n) : n < bound := by
  induction cs generalizing acc with
  | nil =>
    simp only [digitsFrom?, Option.some.injEq] at h
    omega
  | cons c cs ih =>
    obtain ⟨d, -, h⟩ := Option.bind_eq_some_iff.1 h
    split at h
    · next hlt => exact ih hlt h
    · cases h

/-- Digits that are read have a value below their bound. -/
theorem lt_of_digits? {bound n : Nat} {cs : List Char} (h : digits? bound cs = some n) :
    n < bound := by
  cases cs with
  | nil => cases h
  | cons c cs =>
    obtain ⟨d, -, h⟩ := Option.bind_eq_some_iff.1 h
    split at h
    · next hlt => exact lt_of_digitsFrom? hlt h
    · cases h

/-- The value of a 32-bit numeral. -/
def word32? (cs : List Char) : Option UInt32 :=
  (numeral? UInt32.size cs).map UInt32.ofNat

/-- The value of a 64-bit numeral. -/
def word64? (cs : List Char) : Option UInt64 :=
  (numeral? UInt64.size cs).map UInt64.ofNat

end MemcachedClient.Text
