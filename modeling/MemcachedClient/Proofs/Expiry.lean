import Mathlib.Algebra.Order.Group.Abs
import Mathlib.Algebra.Order.Group.Int
import MemcachedClient.Expiry

/-!
# What the server makes of an expiry

The server reads the field of a request line by its own clock (`Expiry.deadline?`): 0 is never, a number up to thirty
days counts from its present second, and a larger one is a second since the epoch. As long as the clock is away from
both ends of the range of the field, a duration keeps its meaning: the deadline is less than two seconds off, and a
longer duration does not expire sooner, also where the field changes from one meaning to the other
(`Expiry.after_keeps_deadline`). A moment keeps its meaning exactly if it is more than thirty days after the epoch
(`Expiry.staysAbsolute_iff`).

The field is computed with words of 32 and 64 bits. `Expiry.words?` does so step by step and gives up where a number
does not fit its word; it never has to.
-/

namespace MemcachedClient

/-- The longest duration that can be given: its seconds are a word of 64 bits. -/
def Duration.longest : Duration := .ofParts (UInt64.size - 1) (Duration.perSecond - 1)

/-- The whole second of a moment since the epoch, negative before it. -/
def Instant.second (moment : Instant) : ℤ := moment.nanos / Duration.perSecond

namespace Expiry

/-! ### The server's rule -/

/-- The second at which a value with this field expires, read at the moment `now`; `none` if it stays. -/
def deadline? (now : Instant) (field : ℕ) : Option ℤ :=
  if field = 0 then none
  else if field ≤ 2592000 then some (now.nanos / Duration.perSecond + field)
  else some field

variable {now : Instant} {d e : Duration}

/-- Up to thirty days a duration is sent in whole seconds, but at least as one. -/
theorem wireSeconds_of_le (hle : d.nanos ≤ maxRelative.nanos) (hne : d.nanos ≠ 0) :
    wireSeconds now (.after d) = max 1 d.wholeSecs := by
  rw [wireSeconds, if_pos hle]
  split
  · next h => rw [h.1, Nat.max_eq_left (Nat.zero_le 1)]
  · next h => rw [Nat.max_eq_right (Nat.pos_of_ne_zero fun hzero => h ⟨hzero, hne⟩)]

theorem wireSeconds_of_gt (hgt : maxRelative.nanos < d.nanos) :
    wireSeconds now (.after d) = (now.add d).unixSecond := by
  rw [wireSeconds, if_neg (Nat.not_le_of_gt hgt)]

theorem nanos_maxRelative : maxRelative.nanos = 2592000000000000 := rfl

/-- Up to thirty days the deadline counts from the present second. -/
theorem deadline?_of_le (hle : d.nanos ≤ maxRelative.nanos) (hne : d.nanos ≠ 0) :
    wireSeconds now (.after d) ≠ 0 ∧ wireSeconds now (.after d) ≤ 2592000 ∧
      deadline? now (wireSeconds now (.after d)) =
        some (now.nanos / Duration.perSecond + (max 1 (d.nanos / Duration.perSecond) : ℕ)) := by
  have hsmall : max 1 d.wholeSecs ≤ 2592000 := by
    rw [nanos_maxRelative] at hle
    simp only [Duration.wholeSecs, Duration.perSecond]
    omega
  rw [wireSeconds_of_le hle hne, deadline?, if_neg (by omega), if_pos hsmall]
  exact ⟨by omega, hsmall, rfl⟩

/-- Beyond that it is a second since the epoch, if the clock is at least thirty days behind it. -/
theorem deadline?_of_gt (hpast : (maxRelative.nanos : ℤ) ≤ now.nanos) (hgt : maxRelative.nanos < d.nanos) :
    2592000 < wireSeconds now (.after d) ∧ deadline? now (wireSeconds now (.after d)) =
      some (min ((now.nanos + d.nanos) / Duration.perSecond) 4294967295) := by
  rw [nanos_maxRelative] at hpast
  have hlarge : 2592000 < (now.add d).unixSecond := by
    rw [nanos_maxRelative] at hgt
    simp only [Instant.unixSecond, Instant.add, Instant.maxSecond, Duration.perSecond, UInt32.size]
    omega
  rw [wireSeconds_of_gt hgt, deadline?, if_neg (by omega), if_neg (by omega)]
  refine ⟨hlarge, congrArg some ?_⟩
  simp only [Instant.unixSecond, Instant.add, Instant.maxSecond, Duration.perSecond, UInt32.size]
  omega

/-- **What a duration becomes of**: it is sent as a relative field up to thirty days and as an absolute one beyond,
and the deadline is less than two seconds from the moment that it means, or the last second of the field. -/
theorem deadline?_after (hpast : (maxRelative.nanos : ℤ) ≤ now.nanos)
    (hfuture : now.nanos + maxRelative.nanos < 2 ^ 32 * Duration.perSecond) (hne : d.nanos ≠ 0) :
    wireSeconds now (.after d) ≠ 0 ∧ (wireSeconds now (.after d) ≤ 2592000 ↔ d.nanos ≤ maxRelative.nanos) ∧
      ∃ second, deadline? now (wireSeconds now (.after d)) = some second ∧
        ((now.add d).nanos < 2 ^ 32 * Duration.perSecond →
          |second * Duration.perSecond - (now.add d).nanos| < 2 * Duration.perSecond) ∧
        (2 ^ 32 * Duration.perSecond ≤ (now.add d).nanos → second = 2 ^ 32 - 1) := by
  rcases Nat.lt_or_ge maxRelative.nanos d.nanos with hgt | hle
  · obtain ⟨hlarge, hdeadline⟩ := deadline?_of_gt hpast hgt
    refine ⟨by omega, iff_of_false (by omega) (by omega), _, hdeadline, ?_⟩
    simp only [Instant.add, Duration.perSecond, abs_lt]
    omega
  · obtain ⟨hne', hsmall, hdeadline⟩ := @deadline?_of_le now d hle hne
    refine ⟨hne', iff_of_true hsmall hle, _, hdeadline, ?_⟩
    simp only [nanos_maxRelative, Instant.add, Duration.perSecond, abs_lt] at hfuture hle ⊢
    omega

/-- **A longer duration does not expire sooner**. -/
theorem deadline?_mono (hpast : (maxRelative.nanos : ℤ) ≤ now.nanos)
    (hfuture : now.nanos + maxRelative.nanos < 2 ^ 32 * Duration.perSecond) (hne : d.nanos ≠ 0)
    (hle : d.nanos ≤ e.nanos) : ∃ second later, deadline? now (wireSeconds now (.after d)) = some second ∧
      deadline? now (wireSeconds now (.after e)) = some later ∧ second ≤ later := by
  have hne' : e.nanos ≠ 0 := by omega
  rcases Nat.lt_or_ge maxRelative.nanos d.nanos with hd | hd
  · refine ⟨_, _, (deadline?_of_gt hpast hd).2, (deadline?_of_gt hpast (Nat.lt_of_lt_of_le hd hle)).2, ?_⟩
    simp only [Duration.perSecond]
    omega
  · rcases Nat.lt_or_ge maxRelative.nanos e.nanos with he | he
    · refine ⟨_, _, (deadline?_of_le hd hne).2.2, (deadline?_of_gt hpast he).2, ?_⟩
      simp only [nanos_maxRelative, Duration.perSecond] at hfuture hd he ⊢
      omega
    · refine ⟨_, _, (deadline?_of_le hd hne).2.2, (deadline?_of_le he hne').2.2, ?_⟩
      simp only [Duration.perSecond]
      omega

/-! ### The computation in words -/

/-- A number in a word that has so many values. -/
def fit? (size n : ℕ) : Option ℕ := if n < size then some n else none

/-- The clock at a later moment, in seconds, a signed word of 64 bits, and nanoseconds of a second. There is no such
moment where the seconds are too many; that is an answer and no overflow. -/
def later? (now : Instant) (d : Duration) : Option (Option Instant) := do
  let secs ← fit? UInt64.size d.wholeSecs
  let nanos ← fit? UInt32.size ((now.nanos % Duration.perSecond).toNat + d.nanos % Duration.perSecond)
  let carry := if nanos < Duration.perSecond then 0 else 1
  let second := now.nanos / Duration.perSecond + secs + carry
  return if second < 2 ^ 63 then some (.ofParts second (nanos % Duration.perSecond)) else none

/-- The second of a moment, which is taken from a word of 64 bits. -/
def unixWords? (moment : Instant) : Option ℕ :=
  if moment.nanos < 0 then some 0
  else do
    let second ← fit? UInt64.size (moment.nanos / Duration.perSecond).toNat
    return if second < UInt32.size then second else UInt32.size - 1

/-- The field for a duration; `none` if a number does not fit the word that is to hold it. -/
def words? (now : Instant) (d : Duration) : Option ℕ := do
  if d.nanos ≤ maxRelative.nanos then
    let secs ← fit? UInt64.size d.wholeSecs
    if secs = 0 ∧ d.nanos ≠ 0 then return 1
    fit? UInt32.size secs
  else
    match ← later? now d with
    | none => return UInt32.size - 1
    | some moment => unixWords? moment

theorem wholeSecs_lt (h : d.nanos ≤ Duration.longest.nanos) : d.wholeSecs < UInt64.size := by
  have hlongest : Duration.longest.nanos = (2 ^ 64 - 1) * 1000000000 + 999999999 := rfl
  simp only [Duration.wholeSecs, Duration.perSecond, UInt64.size]
  omega

/-- With the carry, the seconds and the nanoseconds are those of the sum. -/
theorem carry_eq (now : Instant) (d : Duration) :
    now.nanos / Duration.perSecond + d.wholeSecs +
        (if (now.nanos % Duration.perSecond).toNat + d.nanos % Duration.perSecond < Duration.perSecond then 0 else 1) =
      (now.nanos + d.nanos) / Duration.perSecond := by
  split
  · next hno =>
    simp only [Duration.wholeSecs, Duration.perSecond] at hno ⊢
    omega
  · next hcarry =>
    simp only [Duration.wholeSecs, Duration.perSecond] at hcarry ⊢
    omega

theorem later?_eq (now : Instant) (h : d.nanos ≤ Duration.longest.nanos) : later? now d =
    some (if (now.add d).nanos < 2 ^ 63 * Duration.perSecond then some (now.add d) else none) := by
  have hnanos : (now.nanos % Duration.perSecond).toNat + d.nanos % Duration.perSecond < UInt32.size := by
    simp only [Duration.perSecond, UInt32.size]
    omega
  have hparts : Instant.ofParts ((now.nanos + d.nanos) / Duration.perSecond)
      (((now.nanos % Duration.perSecond).toNat + d.nanos % Duration.perSecond) % Duration.perSecond) = now.add d := by
    simp only [Instant.ofParts, Instant.add, Duration.perSecond, Instant.mk.injEq]
    omega
  have hiff : (now.nanos + d.nanos) / Duration.perSecond < 2 ^ 63 ↔
      (now.add d).nanos < 2 ^ 63 * Duration.perSecond := by
    simp only [Instant.add, Duration.perSecond]
    omega
  simp only [later?, fit?, if_pos (wholeSecs_lt h), if_pos hnanos, Option.bind_eq_bind, Option.bind_some,
    Option.pure_def, carry_eq, hparts, hiff]

theorem unixWords?_eq {moment : Instant} (h : moment.nanos < 2 ^ 63 * Duration.perSecond) :
    unixWords? moment = some moment.unixSecond := by
  rw [unixWords?, fit?]
  split
  · next hneg =>
    simp only [Instant.unixSecond, Duration.perSecond, Instant.maxSecond]
    refine congrArg some ?_
    omega
  · next hpos =>
    have hfit : (moment.nanos / Duration.perSecond).toNat < UInt64.size := by
      simp only [Duration.perSecond, UInt64.size] at h ⊢
      omega
    simp only [if_pos hfit, Option.bind_eq_bind, Option.bind_some, Option.pure_def, Instant.unixSecond,
      Instant.maxSecond]
    split
    · rw [Nat.min_eq_left (by omega)]
    · rw [Nat.min_eq_right (by omega)]

/-- **Every number fits its word**, up to the longest duration and at any clock. -/
theorem words?_eq (now : Instant) (h : d.nanos ≤ Duration.longest.nanos) :
    words? now d = some (wireSeconds now (.after d)) := by
  rw [words?]
  by_cases hle : d.nanos ≤ maxRelative.nanos
  · have hsmall : d.wholeSecs < UInt32.size := by
      rw [nanos_maxRelative] at hle
      simp only [Duration.wholeSecs, Duration.perSecond, UInt32.size]
      omega
    simp only [wireSeconds, fit?, if_pos hle, if_pos (wholeSecs_lt h), if_pos hsmall, Option.bind_eq_bind,
      Option.bind_some, Option.pure_def]
    split <;> rfl
  · rw [if_neg hle, later?_eq now h, wireSeconds, if_neg hle]
    simp only [Option.bind_eq_bind, Option.bind_some]
    by_cases hlt : (now.add d).nanos < 2 ^ 63 * Duration.perSecond
    · rw [if_pos hlt]
      exact unixWords?_eq hlt
    · rw [if_neg hlt]
      refine congrArg some ?_
      simp only [Instant.unixSecond, Instant.maxSecond, Duration.perSecond, UInt32.size] at hlt ⊢
      omega

/-! ### Durations keep their meaning -/

/-- **Relative expiries keep their meaning.** Let the clock be at least thirty days after the epoch and more than
thirty days before the first second that the field cannot carry. Then no duration but 0 is sent as never; one of up to
thirty days is sent as relative, and any other one as absolute; the deadline is less than two seconds off, or the last
second of the field where that is too early; and a longer duration does not expire sooner. No number on the way is cut
off, up to the longest duration. -/
theorem after_keeps_deadline (hpast : (maxRelative.nanos : ℤ) ≤ now.nanos)
    (hfuture : now.nanos + maxRelative.nanos < 2 ^ 32 * Duration.perSecond) :
    (∀ d : Duration, d.nanos ≠ 0 →
      wireSeconds now (.after d) ≠ 0 ∧ (wireSeconds now (.after d) ≤ 2592000 ↔ d.nanos ≤ maxRelative.nanos) ∧
        ∃ second, deadline? now (wireSeconds now (.after d)) = some second ∧
          ((now.add d).nanos < 2 ^ 32 * Duration.perSecond →
            |second * Duration.perSecond - (now.add d).nanos| < 2 * Duration.perSecond) ∧
          (2 ^ 32 * Duration.perSecond ≤ (now.add d).nanos → second = 2 ^ 32 - 1)) ∧
    (∀ d e : Duration, d.nanos ≠ 0 → d.nanos ≤ e.nanos →
      ∃ second later, deadline? now (wireSeconds now (.after d)) = some second ∧
        deadline? now (wireSeconds now (.after e)) = some later ∧ second ≤ later) ∧
    (∀ d : Duration, d.nanos ≤ Duration.longest.nanos → words? now d = some (wireSeconds now (.after d))) :=
  ⟨fun _ hne => deadline?_after hpast hfuture hne, fun _ _ hne hle => deadline?_mono hpast hfuture hne hle,
    fun _ h => words?_eq now h⟩

/-- Thirty days and a fraction, and the longest duration, at a clock between two seconds. -/
theorem after_keeps_deadline_switch :
    let now := Instant.ofParts 1700000000 999999999
    let d : Duration := ⟨maxRelative.nanos⟩
    let e : Duration := ⟨maxRelative.nanos + 1⟩
    (∃ second later, deadline? now (wireSeconds now (.after d)) = some second ∧
        deadline? now (wireSeconds now (.after e)) = some later ∧ second ≤ later) ∧
      words? now .longest = some 4294967295 := by
  intro now d e
  obtain ⟨-, hmono, hwords⟩ := @after_keeps_deadline now (by decide) (by decide)
  exact ⟨hmono d e (by decide) (by decide), hwords .longest (by decide)⟩

/-! ### Moments -/

variable {moment : Instant}

/-- The field for a moment denotes a moment, read at `now`: the second of it, as far as a field can give it as a second
since the epoch, and otherwise the last such second or one that has passed. -/
structure StaysAbsolute (now moment : Instant) : Prop where
  /-- The field is read neither as never nor as relative. -/
  absolute : 2592000 < wireSeconds now (.absolute moment)
  /-- What a field can give as a second since the epoch is given. -/
  within : 2592000 < moment.second → moment.second < 2 ^ 32 →
    deadline? now (wireSeconds now (.absolute moment)) = some moment.second
  /-- A later moment becomes the last second. -/
  late : 2 ^ 32 ≤ moment.second → deadline? now (wireSeconds now (.absolute moment)) = some (2 ^ 32 - 1)
  /-- An earlier moment becomes one that has passed. -/
  early : moment.second ≤ 2592000 →
    ∃ deadline, deadline? now (wireSeconds now (.absolute moment)) = some deadline ∧ deadline ≤ now.second

/-- The field for a moment is its second, brought into the range of the field. -/
theorem wireSeconds_absolute (now moment : Instant) :
    (wireSeconds now (.absolute moment) : ℤ) = min (max moment.second 0) (2 ^ 32 - 1) := by
  simp only [wireSeconds, Instant.unixSecond, Instant.second, Instant.maxSecond, UInt32.size]
  omega

/-- **What a moment becomes of**: up to the first second after the epoch it is read as never, up to thirty days as
relative, and only beyond as itself. -/
theorem deadline?_absolute (now moment : Instant) : deadline? now (wireSeconds now (.absolute moment)) =
    if moment.second ≤ 0 then none
    else if moment.second ≤ 2592000 then some (now.second + moment.second)
    else some (min moment.second (2 ^ 32 - 1)) := by
  have hfield := wireSeconds_absolute now moment
  rw [deadline?]
  split_ifs with hzero hsmall hpast hrelative <;> try omega
  · rfl
  · exact congrArg some (by rw [Instant.second]; omega)
  · exact congrArg some (by omega)

/-- In whole seconds, the thirty days are over with the second that follows them. -/
theorem second_gt_iff : 2592000 < moment.second ↔ 2592001 * Duration.perSecond ≤ moment.nanos := by
  simp only [Instant.second, Duration.perSecond]
  omega

theorem staysAbsolute_of_gt (h : 2592000 < moment.second) : StaysAbsolute now moment where
  absolute := by
    have hfield := wireSeconds_absolute now moment
    omega
  within _ hlt := by
    rw [deadline?_absolute, if_neg (by omega), if_neg (by omega), min_eq_left (by omega)]
  late hle := by
    rw [deadline?_absolute, if_neg (by omega), if_neg (by omega), min_eq_right (by omega)]
  early hle := by omega

/-- **Which moments stay absolute**: at any clock, exactly those whose second is more than thirty days after the epoch.
A moment before the first second after the epoch never expires, and any other one of the first thirty days expires so
long after the present second as it is after the epoch. -/
theorem staysAbsolute_iff (now moment : Instant) :
    (StaysAbsolute now moment ↔ 2592001 * Duration.perSecond ≤ moment.nanos) ∧
    (moment.nanos < Duration.perSecond → deadline? now (wireSeconds now (.absolute moment)) = none) ∧
    (Duration.perSecond ≤ moment.nanos → moment.nanos < 2592001 * Duration.perSecond →
      deadline? now (wireSeconds now (.absolute moment)) = some (now.second + moment.second)) := by
  have hpositive : moment.second ≤ 0 ↔ moment.nanos < Duration.perSecond := by
    simp only [Instant.second, Duration.perSecond]
    omega
  refine ⟨⟨fun h => ?_, fun h => staysAbsolute_of_gt (second_gt_iff.mpr h)⟩, fun hlt => ?_, fun hle hlt => ?_⟩
  · have hfield := wireSeconds_absolute now moment
    have habsolute := h.absolute
    exact second_gt_iff.mp (by omega)
  · rw [deadline?_absolute, if_pos (hpositive.mpr hlt)]
  · have hsmall : ¬ 2592000 < moment.second := fun hgt => absurd (second_gt_iff.mp hgt) (by omega)
    rw [deadline?_absolute, if_neg (fun hzero => absurd (hpositive.mp hzero) (by omega)), if_pos (by omega)]

/-- What was to expire at the epoch never does, and what was to expire a day later does so a day from now. -/
theorem not_staysAbsolute_of_early :
    let now := Instant.ofParts 1700000000 0
    (¬ StaysAbsolute now (.ofParts 0 0) ∧ deadline? now (wireSeconds now (.absolute (.ofParts 0 0))) = none) ∧
      ¬ StaysAbsolute now (.ofParts 86400 0) ∧
        deadline? now (wireSeconds now (.absolute (.ofParts 86400 0))) = some 1700086400 :=
  ⟨⟨fun h => absurd h.absolute (by decide), by decide⟩, fun h => absurd h.absolute (by decide), by decide⟩

end Expiry

end MemcachedClient
