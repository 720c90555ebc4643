import MemcachedClient.Proofs.Response.Refills

/-!
# Limits

A reader with a limit beside the same reader without one, over any sequence of `Reading`s: lines, items and replies,
also such as go on after they had to wait for room in their channel. Each of these feeds one scanner
(`Reader.read_cases`), so what holds of a scanner holds of them.

The limit bounds the reads of the stream one by one. As long as each is complete within it, the two readers answer
alike. The first reading one of whose reads takes longer fails when the limit has passed since that read was issued,
and whoever reads on gets what the read was waiting for (`Reader.limit_transparent`).
-/

namespace MemcachedClient.Response

variable {σ α : Type}

/-- A call of a reader, or the rest of one. -/
inductive Reading where
  /-- Reads a line, which is to be accepted if it is `checked`. -/
  | line (checked : Bool)
  /-- Reads an item block or the end line. -/
  | item
  /-- Reads the reply to a command, of which so much is read: nothing yet, or as much as there was room for. -/
  | reply (command : Command) (state : Reply.State)

/-- The reading that a call starts. -/
def Reading.ofCall : Call → Reading
  | .line checked => line checked
  | .item => item
  | .reply command channel => reply command (.start command, channel)

/-- What a reading comes to. -/
structure Reading.Result where
  /-- The answer. -/
  answer : Answer
  /-- How far the reply is read, if it has to wait for room. -/
  held : Option Reply.State

/-- The error that is answered. -/
def Answer.error? : Answer → Option ClientError
  | line (some (.error cause)) => some cause
  | item (some (.error cause)) => some cause
  | reply (some (.error cause)) _ => some cause
  | _ => none

/-- The state in which a scanner waits. -/
def Progress.held? : Progress σ α → Option σ
  | held state => some state
  | _ => none

namespace Reader

/-- One reading. -/
def read (r : Reader) : Reading → Reading.Result × Reader
  | .line checked =>
    let (result, after) := r.readLine checked
    (⟨.line result, none⟩, after)
  | .item =>
    let (result, after) := r.readItem
    (⟨.item result, none⟩, after)
  | .reply command state =>
    let (progress, after) := r.readReply command state
    let (result, channel) := Reply.whole? r.limit progress
    (⟨.reply result channel, progress.held?⟩, after)

/-- The reads of the stream that a reading issues without a limit. -/
def refillsOf (r : Reader) : Reading → List Refill
  | .line checked => r.refills (Line.step checked) #[]
  | .item => r.refills ItemState.step .start
  | .reply command state =>
    match Reply.resume state with
    | .more state => r.refills (Reply.step command) state
    | _ => []

/-- Readings, one after another, whatever they come to. -/
def readAll (r : Reader) : List Reading → List Reading.Result × Reader
  | [] => ([], r)
  | reading :: readings =>
    let (result, r) := r.read reading
    let (results, r) := r.readAll readings
    (result :: results, r)

/-- The reads of the stream that readings issue without a limit. -/
def refillsAll (r : Reader) : List Reading → List Refill
  | [] => []
  | reading :: readings => r.refillsOf reading ++ (r.read reading).2.refillsAll readings

theorem readAll_cons (r : Reader) (reading : Reading) (readings : List Reading) :
    r.readAll (reading :: readings) =
      ((r.read reading).1 :: ((r.read reading).2.readAll readings).1, ((r.read reading).2.readAll readings).2) := rfl

theorem readAll_append (r : Reader) (readings others : List Reading) :
    r.readAll (readings ++ others) =
      ((r.readAll readings).1 ++ ((r.readAll readings).2.readAll others).1,
        ((r.readAll readings).2.readAll others).2) := by
  induction readings generalizing r with
  | nil => rfl
  | cons reading readings ih => rw [List.cons_append, readAll_cons, ih, readAll_cons, List.cons_append]

/-- The reading that a call starts is the call. -/
theorem read_ofCall (r : Reader) (call : Call) :
    ((r.read (.ofCall call)).1.answer, (r.read (.ofCall call)).2) = r.call call := by
  cases call with
  | line checked => rfl
  | item => rfl
  | reply command channel =>
    rw [Reader.call, readWhole_eq, Reading.ofCall, read, readReply, Reply.resume_start]

/-- Calls are readings. -/
theorem answers_eq_readAll (r : Reader) (calls : List Call) :
    r.answers calls = (r.readAll (calls.map .ofCall)).1.map Reading.Result.answer := by
  induction calls generalizing r with
  | nil => rfl
  | cons call calls ih =>
    rw [answers, ← read_ofCall, ih, List.map_cons, readAll_cons, List.map_cons]

end Reader

/-! ### One reading -/

/-- The result of a reading, given what became of its scanner: a limit shows in it only if a read was given up. -/
structure Reading.Interprets (interpret : Option Duration → Progress σ α → Result) : Prop where
  /-- Otherwise it is the result without a limit. -/
  prompt (limit : Option Duration) (progress : Progress σ α) (h : ∀ stopped, progress ≠ .timedOut stopped) :
    interpret limit progress = interpret none progress
  /-- A read that was given up makes it an error. -/
  exceeded (limit : Duration) (stopped : σ) :
    (interpret (some limit) (.timedOut stopped)).answer.error? = some (.timeout "receive" limit)

namespace Reader

variable {r later : Reader} {limit : Duration} {late : Refill} {reading : Reading}

/-- **A reading is one run of a scanner**, unless it has still to wait for room. -/
theorem read_cases (reading : Reading) :
    (∃ result, ∀ r : Reader, r.read reading = (result, r) ∧ r.refillsOf reading = []) ∨
      ∃ (σ α : Type) (step : σ → UInt8 → Step σ α) (state : σ)
        (interpret : Option Duration → Progress σ α → Reading.Result), Reading.Interprets interpret ∧
        ∀ r : Reader, r.read reading = (interpret r.limit (r.run step state).1, (r.run step state).2) ∧
          r.refillsOf reading = r.refills step state := by
  cases reading with
  | line checked =>
    refine .inr ⟨_, _, Line.step checked, #[], fun limit progress => ⟨.line (result? limit progress), none⟩,
      ⟨fun limit progress h => ?_, fun limit stopped => rfl⟩, fun r => ⟨rfl, rfl⟩⟩
    cases progress with
    | timedOut stopped => exact absurd rfl (h stopped)
    | _ => rfl
  | item =>
    refine .inr ⟨_, _, ItemState.step, .start, fun limit progress => ⟨.item (result? limit progress), none⟩,
      ⟨fun limit progress h => ?_, fun limit stopped => rfl⟩, fun r => ⟨rfl, rfl⟩⟩
    cases progress with
    | timedOut stopped => exact absurd rfl (h stopped)
    | _ => rfl
  | reply command state =>
    cases hresume : Reply.resume state with
    | held state =>
      refine .inl ⟨⟨.reply none state.2, some state⟩, fun r => ?_⟩
      simp [read, refillsOf, readReply, hresume, Reply.whole?, Progress.held?]
    | done answer =>
      refine .inl ⟨⟨.reply (some answer.1) answer.2, none⟩, fun r => ?_⟩
      simp [read, refillsOf, readReply, hresume, Reply.whole?, Progress.held?]
    | more state =>
      refine .inr ⟨_, _, Reply.step command, state,
        fun limit progress => ⟨.reply (Reply.whole? limit progress).1 (Reply.whole? limit progress).2, progress.held?⟩,
        ⟨fun limit progress h => ?_, fun limit stopped => rfl⟩, fun r => ?_⟩
      · cases progress with
        | timedOut stopped => exact absurd rfl (h stopped)
        | _ => rfl
      · simp [read, refillsOf, readReply, hresume]

theorem limit_read (r : Reader) (reading : Reading) : (r.read reading).2.limit = r.limit := by
  rcases read_cases reading with ⟨result, hread⟩ | ⟨_, _, step, state, interpret, -, hread⟩
  · rw [(hread r).1]
  · rw [(hread r).1]
    exact limit_run step r state

theorem read_of_within (hnone : r.limit = none) (h : Refill.firstLate? limit (r.refillsOf reading) = none) :
    (r.withLimit (some limit)).read reading = ((r.read reading).1, (r.read reading).2.withLimit (some limit)) := by
  rcases read_cases reading with ⟨result, hread⟩ | ⟨_, _, step, state, interpret, hinterprets, hread⟩
  · rw [(hread _).1, (hread r).1]
  · rw [(hread r).2] at h
    rw [(hread _).1, (hread r).1, run_of_within hnone h, withLimit_limit, hnone]
    exact Prod.ext (hinterprets.prompt _ _ fun stopped => run_ne_timedOut hnone stopped) rfl

theorem read_of_behind (h : Behind r later) (reading : Reading) :
    (later.read reading).1 = (r.read reading).1 ∧ Behind (r.read reading).2 (later.read reading).2 ∧
      (later.refillsOf reading).map Refill.complete = (r.refillsOf reading).map Refill.complete := by
  rcases read_cases reading with ⟨result, hread⟩ | ⟨_, _, step, state, interpret, -, hread⟩
  · rw [(hread later).1, (hread r).1, (hread later).2, (hread r).2]
    exact ⟨rfl, h, rfl⟩
  · obtain ⟨hsame, hbehind⟩ := run_of_behind h step state
    rw [(hread later).1, (hread r).1, (hread later).2, (hread r).2, h.unlimited, h.unlimited_later, hsame]
    exact ⟨rfl, hbehind, refills_of_behind h⟩

/-! ### Readings, one after another -/

/-- Whoever reads on later reads the same, and each read of the stream is complete when it would have been. -/
theorem readAll_of_behind (h : Behind r later) (readings : List Reading) :
    (later.readAll readings).1 = (r.readAll readings).1 ∧
      (later.refillsAll readings).map Refill.complete = (r.refillsAll readings).map Refill.complete := by
  induction readings generalizing r later with
  | nil => exact ⟨rfl, rfl⟩
  | cons reading readings ih =>
    obtain ⟨hsame, hbehind, hcomplete⟩ := read_of_behind h reading
    obtain ⟨hsames, hcompletes⟩ := ih hbehind
    rw [readAll_cons, readAll_cons, refillsAll, refillsAll, List.map_append, List.map_append]
    exact ⟨congrArg₂ _ hsame hsames, congrArg₂ _ hcomplete hcompletes⟩

end Reader

/-- A reading fails because its read `late` of the stream is not complete within the limit, and leaves the reader
`after`. -/
structure Refill.GivenUp (limit : Duration) (late : Refill) (result : Reading.Result) (after : Reader) : Prop where
  /-- The error names the limit. -/
  error : result.answer.error? = some (.timeout "receive" limit)
  /-- The limit has passed since the read was issued, and no more. -/
  clock : after.clock = late.issuer.clock + limit
  /-- No byte is lost that the read was waiting for, or that comes behind. -/
  bytes : after.bytes = late.issuer.bytes
  /-- Whoever has the patience to read on gets what would have been read. -/
  reads (readings : List Reading) : ((after.withLimit none).readAll readings).1 = (late.issuer.readAll readings).1
  /-- Each read of the stream is then complete when it would have been. -/
  completes (readings : List Reading) : ((after.withLimit none).refillsAll readings).map Refill.complete =
    (late.issuer.refillsAll readings).map Refill.complete

namespace Reader

variable {r : Reader} {limit : Duration} {late : Refill} {reading : Reading}

theorem read_of_late (hnone : r.limit = none) (h : Refill.firstLate? limit (r.refillsOf reading) = some late) :
    late.GivenUp limit ((r.withLimit (some limit)).read reading).1 ((r.withLimit (some limit)).read reading).2 := by
  rcases read_cases reading with ⟨result, hread⟩ | ⟨_, _, step, state, interpret, hinterprets, hread⟩
  · rw [(hread r).2] at h
    cases h
  · rw [(hread r).2] at h
    obtain ⟨stopped, since, issued, rest, hissuer, helapsed, hrun⟩ := run_of_late h
    have hbehind : Behind late.issuer (((r.withLimit (some limit)).emptied (since + limit) rest).withLimit none) := by
      rw [hissuer]
      exact ⟨hnone, rfl, rfl, rfl, limit, rfl, helapsed⟩
    rw [(hread _).1, hrun]
    refine ⟨hinterprets.exceeded limit stopped, ?_, ?_, fun readings => (readAll_of_behind hbehind readings).1,
      fun readings => (readAll_of_behind hbehind readings).2⟩
    · rw [hissuer]
      rfl
    · rw [hissuer]
      exact helapsed.bytes_eq

theorem limit_readAll (r : Reader) (readings : List Reading) : (r.readAll readings).2.limit = r.limit := by
  induction readings generalizing r with
  | nil => rfl
  | cons reading readings ih => exact (ih (r.read reading).2).trans (limit_read r reading)

theorem readAll_of_within (hnone : r.limit = none) {readings : List Reading}
    (h : Refill.firstLate? limit (r.refillsAll readings) = none) :
    (r.withLimit (some limit)).readAll readings =
      ((r.readAll readings).1, (r.readAll readings).2.withLimit (some limit)) := by
  induction readings generalizing r with
  | nil => rfl
  | cons reading readings ih =>
    rw [refillsAll, Refill.firstLate?_append, Option.or_eq_none_iff] at h
    rw [readAll_cons, readAll_cons, read_of_within hnone h.1, ih ((limit_read r reading).trans hnone) h.2]

/-- The first read that takes longer is issued by one of the readings, and none before it issues such a read. -/
theorem exists_reading_of_late {readings : List Reading}
    (h : Refill.firstLate? limit (r.refillsAll readings) = some late) :
    ∃ before reading later, readings = before ++ reading :: later ∧
      Refill.firstLate? limit (r.refillsAll before) = none ∧
      Refill.firstLate? limit ((r.readAll before).2.refillsOf reading) = some late := by
  induction readings generalizing r with
  | nil => cases h
  | cons reading readings ih =>
    rw [refillsAll, Refill.firstLate?_append] at h
    cases hfirst : Refill.firstLate? limit (r.refillsOf reading) with
    | some first =>
      rw [hfirst, Option.some_or, Option.some.injEq] at h
      exact ⟨[], reading, readings, rfl, rfl, h ▸ hfirst⟩
    | none =>
      rw [hfirst, Option.none_or] at h
      obtain ⟨before, issuing, later, rfl, hbefore, hissuing⟩ := ih h
      refine ⟨reading :: before, issuing, later, rfl, ?_, hissuing⟩
      rw [refillsAll, Refill.firstLate?_append, hfirst, Option.none_or, hbefore]

/-- **A limit does not show until a read of the stream takes longer**: as long as each is complete within it, a reader
answers what it answers without a limit, however long a reading takes in all, and the same of it is left. The first
reading one of whose reads takes longer fails when the limit has passed since the first of them was issued, and nothing
of what this read was waiting for is lost to those who read on. -/
theorem limit_transparent (r : Reader) (limit : Duration) (readings : List Reading) :
    let patient := r.withLimit none
    let hasty := r.withLimit (some limit)
    (Refill.firstLate? limit (patient.refillsAll readings) = none →
      hasty.readAll readings = ((patient.readAll readings).1, (patient.readAll readings).2.withLimit (some limit))) ∧
    ∀ late, Refill.firstLate? limit (patient.refillsAll readings) = some late →
      ∃ before reading later, readings = before ++ reading :: later ∧
        Refill.firstLate? limit (patient.refillsAll before) = none ∧
        Refill.firstLate? limit ((patient.readAll before).2.refillsOf reading) = some late ∧
        ∃ result after, late.GivenUp limit result after ∧
          (hasty.readAll readings).1 = (patient.readAll before).1 ++ result :: (after.readAll later).1 := by
  intro patient hasty
  refine ⟨readAll_of_within rfl, fun late hlate => ?_⟩
  obtain ⟨before, reading, later, rfl, hbefore, hissuing⟩ := exists_reading_of_late hlate
  refine ⟨before, reading, later, rfl, hbefore, hissuing, _, _,
    read_of_late ((limit_readAll patient before).trans rfl) hissuing, ?_⟩
  have hprompt : (patient.withLimit (some limit)).readAll before = _ := readAll_of_within rfl hbefore
  change ((patient.withLimit (some limit)).readAll _).1 = _
  rw [readAll_append, hprompt, readAll_cons]

/-- A line takes twice the limit, by two reads that take just the limit; the read for the next line takes a nanosecond
longer. -/
theorem limit_transparent_tie :
    let rest := [.pause ⟨6⟩, .chunk (Bytes.ofText "c\n")]
    let r := ofFeed
      ⟨.pause ⟨5⟩ :: .chunk (Bytes.ofText "a") :: .pause ⟨5⟩ :: .chunk (Bytes.ofText "b\n") :: rest, true⟩ none
    (r.withLimit (some ⟨5⟩)).readAll [.line false] =
        ((r.readAll [.line false]).1, (r.readAll [.line false]).2.withLimit (some ⟨5⟩)) ∧
      ∃ result after, Refill.GivenUp ⟨5⟩ ⟨⟨[], ⟨rest, true⟩, none, ⟨10⟩⟩, some ⟨16⟩⟩ result after := by
  intro rest r
  refine ⟨(limit_transparent r ⟨5⟩ [.line false]).1 rfl, ?_⟩
  obtain ⟨_, _, _, -, -, -, result, after, hgiven, -⟩ :=
    (limit_transparent r ⟨5⟩ [.line false, .line false]).2 ⟨⟨[], ⟨rest, true⟩, none, ⟨10⟩⟩, some ⟨16⟩⟩ rfl
  exact ⟨result, after, hgiven⟩

end Reader

end MemcachedClient.Response
