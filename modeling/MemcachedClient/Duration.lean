/-!
# Durations

A length of time in whole nanoseconds, and the text that shows it: in the largest of the units s,
ms, µs and ns that it reaches, with the digits after the point that are needed and no others.
Durations are added, compared and taken from one another by their nanoseconds.
-/

namespace MemcachedClient

/-- A length of time. -/
@[ext, grind ext]
structure Duration where
  /-- The number of nanoseconds. -/
  nanos : Nat
  deriving DecidableEq, Repr

namespace Duration

instance : Zero Duration := ⟨⟨0⟩⟩

instance : Add Duration := ⟨fun d e => ⟨d.nanos + e.nanos⟩⟩

/-- What is left of a duration after a part of it; nothing if the part is longer. -/
instance : Sub Duration := ⟨fun d e => ⟨d.nanos - e.nanos⟩⟩

instance : LE Duration := ⟨fun d e => d.nanos ≤ e.nanos⟩

instance : DecidableLE Duration := fun d e => inferInstanceAs (Decidable (d.nanos ≤ e.nanos))

/-- The nanoseconds of one second. -/
def perSecond : Nat := 1000000000

/-- A number of seconds and nanoseconds. -/
def ofParts (secs nanos : Nat) : Duration := ⟨secs * perSecond + nanos⟩

/-- A number of whole seconds. -/
def ofSecs (secs : Nat) : Duration := ofParts secs 0

/-- A number of whole milliseconds. -/
def ofMillis (ms : Nat) : Duration := ⟨ms * 1000000⟩

/-- The whole seconds in a duration. -/
def wholeSecs (d : Duration) : Nat := d.nanos / perSecond

/-- The digits of a fraction of `width` places, without the zeros at its end. -/
def fractionDigits (width part : Nat) : List Char :=
  let digits := Nat.toDigits 10 part
  let padded := List.replicate (width - digits.length) '0' ++ digits
  (padded.reverse.dropWhile (· == '0')).reverse

/-- The duration as a decimal number of units of `10 ^ width` nanoseconds. -/
def inUnits (d : Duration) (width : Nat) (unit : String) : String :=
  let whole := Nat.repr (d.nanos / Nat.pow 10 width)
  match fractionDigits width (d.nanos % Nat.pow 10 width) with
  | [] => whole ++ unit
  | digits => whole ++ "." ++ String.ofList digits ++ unit

/-- The text of a duration. -/
def text (d : Duration) : String :=
  if perSecond ≤ d.nanos then d.inUnits 9 "s"
  else if 1000000 ≤ d.nanos then d.inUnits 6 "ms"
  else if 1000 ≤ d.nanos then d.inUnits 3 "µs"
  else d.inUnits 0 "ns"

@[simp, grind =] theorem nanos_zero : (0 : Duration).nanos = 0 := rfl

@[simp, grind =] theorem nanos_add (d e : Duration) : (d + e).nanos = d.nanos + e.nanos := rfl

@[simp, grind =] theorem nanos_sub (d e : Duration) : (d - e).nanos = d.nanos - e.nanos := rfl

@[grind =] theorem le_iff (d e : Duration) : d ≤ e ↔ d.nanos ≤ e.nanos := Iff.rfl

@[simp] theorem zero_add (d : Duration) : 0 + d = d := by grind

@[simp] theorem add_zero (d : Duration) : d + 0 = d := by grind

theorem add_assoc (d e f : Duration) : d + e + f = d + (e + f) := by grind

/-- A part, and what is left after it. -/
theorem add_add_sub (d : Duration) {part whole : Duration} (h : part ≤ whole) :
    d + part + (whole - part) = d + whole := by grind

theorem le_add_right (d e : Duration) : d ≤ d + e := by grind

theorem add_le_add_iff_left (d : Duration) {e f : Duration} : d + e ≤ d + f ↔ e ≤ f := by grind

theorem le_of_not_le {d e : Duration} (h : ¬ d ≤ e) : e ≤ d := by grind

end Duration

end MemcachedClient
