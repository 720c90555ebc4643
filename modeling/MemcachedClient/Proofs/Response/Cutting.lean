import MemcachedClient.Proofs.Response.Pieces

/-!
# Streams cut into chunks

Where the bytes of a stream are cut does not matter to those who read it. A scanner takes its bytes one at a
time, so a refill may end anywhere: in a character of several bytes, between a carriage return and a line feed,
inside a value. What it does with a whole buffer can be said at once, though: a line is looked for by its line
feed (`Line.scan_eq`), and of a value as many bytes are copied as it lacks (`ItemState.scan_value_eq`).

A stream that ends after its chunks (`Reader.Closed`) answers each `Call` from its bytes alone
(`Reader.call_of_closed`), and leaves such a stream for the next one, also where the answer is an error. So two
readers of the same bytes, cut in two ways, answer any sequence of calls alike (`Reader.answers_of_cut`). A stream
that stays quiet after its chunks (`Reader.run_of_patient`) is read as its bytes as well.
-/

namespace MemcachedClient.Response

variable {σ α : Type}

/-! ### Whole buffers -/

/-- A line takes a buffer up to its first line feed, or all of it, and drops the carriage returns. -/
theorem Line.scan_eq (checked : Bool) (raw : Array UInt8) (buffer : Bytes) :
    scan (Line.step checked) raw buffer =
      match buffer.findIdx? (· == Bytes.lineFeed) with
      | some position =>
        (.done (Line.ofBytes checked
          (raw.toList ++ (buffer.take position).filter (· ≠ Bytes.carriageReturn))),
          buffer.drop (position + 1))
      | none => (.more (raw ++ (buffer.filter (· ≠ Bytes.carriageReturn)).toArray), []) := by
  induction buffer generalizing raw with
  | nil => simp
  | cons byte buffer ih =>
    rw [List.findIdx?_cons]
    by_cases hfeed : byte = Bytes.lineFeed
    · subst hfeed
      simp [scan, Line.step]
    · by_cases hreturn : byte = Bytes.carriageReturn
      · subst hreturn
        simp only [scan, Line.step, if_neg hfeed, ih]
        cases buffer.findIdx? (· == Bytes.lineFeed) <;> simp [hfeed]
      · simp only [scan, Line.step, if_neg hfeed, if_neg hreturn, ih]
        cases buffer.findIdx? (· == Bytes.lineFeed) <;> simp [hfeed, hreturn]

/-- Of a value that is not complete, as many bytes are copied from a buffer as it lacks, if there are so
many. -/
theorem ItemState.scan_value_eq {h : Header} {read : Array UInt8} (hlt : read.size < h.length)
    (buffer : Bytes) :
    scan ItemState.step (.data h read) buffer =
      if buffer.length < h.length - read.size then (.more (.data h (read ++ buffer.toArray)), [])
      else
        scan ItemState.step (.terminator h (read ++ (buffer.take (h.length - read.size)).toArray))
          (buffer.drop (h.length - read.size)) := by
  induction buffer generalizing read with
  | nil =>
    rw [if_pos (by rw [List.length_nil]; omega)]
    simp
  | cons byte buffer ih =>
    obtain ⟨lack, hlack⟩ : ∃ lack, h.length - read.size = lack + 1 := ⟨_, (Nat.sub_add_cancel (by omega)).symm⟩
    simp only [scan, step, Array.size_push, hlack, List.length_cons, List.take_succ_cons,
      List.drop_succ_cons, Nat.add_lt_add_iff_right]
    by_cases hlast : read.size + 1 < h.length
    · have hlack' : h.length - (read.push byte).size = lack := by
        rw [Array.size_push]
        omega
      rw [if_pos hlast]
      dsimp only
      rw [ih (by rw [Array.size_push]; exact hlast), hlack']
      simp
    · obtain rfl : lack = 0 := by omega
      rw [if_neg hlast]
      simp

/-! ### Streams that end -/

/-- What is left of a scanner when nothing more comes. -/
def Step.atEnd : Step σ α → Progress σ α
  | more state => .ended state
  | held state => .held state
  | done answer => .done answer

/-- What is left of a scanner when nothing more has come. -/
def Step.soFar : Step σ α → Progress σ α
  | more state => .waiting state
  | held state => .held state
  | done answer => .done answer

/-- What every step keeps holds wherever a scanner stops, as far as it says so. -/
theorem scan_held {step : σ → UInt8 → Step σ α} (Runs Stops : σ → Prop)
    (hmore : ∀ state byte after, Runs state → step state byte = .more after → Runs after)
    (hheld : ∀ state byte after, Runs state → step state byte = .held after → Stops after)
    {state after : σ} (h : Runs state) {bytes : Bytes} (hscan : (scan step state bytes).1 = .held after) :
    Stops after := by
  induction bytes generalizing state with
  | nil => simp at hscan
  | cons byte bytes ih =>
    simp only [scan] at hscan
    cases hstep : step state byte with
    | more next =>
      rw [hstep] at hscan
      exact ih (hmore _ _ _ h hstep) hscan
    | held next =>
      simp only [hstep, Step.held.injEq] at hscan
      exact hscan ▸ hheld _ _ _ h hstep
    | done answer => simp [hstep] at hscan

/-- A scanner that takes every byte never waits. -/
theorem scan_ne_held {step : σ → UInt8 → Step σ α} (h : ∀ state byte after, step state byte ≠ .held after)
    (state : σ) (bytes : Bytes) (after : σ) : (scan step state bytes).1 ≠ .held after :=
  scan_held (fun _ => True) (fun _ => False) (fun _ _ _ _ _ => trivial)
    (fun _ _ _ _ hstep => h _ _ _ hstep) trivial

namespace Reader

variable {step : σ → UInt8 → Step σ α} {r : Reader}

/-- Everything that is still to come comes in chunks, and then the stream ends. -/
structure Closed (r : Reader) : Prop where
  /-- There are only chunks to come. -/
  chunked : r.Chunked
  /-- The stream ends after them. -/
  ended : r.feed.ended = true

theorem ended_pull (r : Reader) (left : Option Duration) (state : σ) (clock : Duration) (events : List FeedEvent) :
    (pull step r left state clock events).2.feed.ended = r.feed.ended := by
  fun_induction pull step r left state clock events <;> first | rfl | assumption

theorem ended_run (step : σ → UInt8 → Step σ α) (r : Reader) (state : σ) :
    (r.run step state).2.feed.ended = r.feed.ended := by
  rw [run]
  split
  · exact ended_pull _ _ _ _ _
  · rfl
  · rfl

/-- **A stream that ends is read as its bytes**: what a scanner makes of it, and what is left of it, is what the
scanner makes of the bytes in one piece and leaves of them. -/
theorem run_of_closed (step : σ → UInt8 → Step σ α) (h : r.Closed) (state : σ) :
    ∃ after, r.run step state = ((scan step state r.bytes).1.atEnd, after) ∧
      after.bytes = (scan step state r.bytes).2 ∧ after.Closed := by
  have hended := ended_run step r state
  rw [h.ended] at hended
  rcases hscan : scan step state r.bytes with ⟨result, rest⟩
  cases result with
  | held stopped | done stopped =>
    obtain ⟨after, hrun, hrest, hchunked⟩ := run_of_scan h.chunked hscan rfl
    rw [hrun] at hended
    exact ⟨after, hrun, hrest, hchunked, hended⟩
  | more state' =>
    obtain rfl := rest_eq_nil_of_more hscan
    refine ⟨{ r with buffer := [], feed := { r.feed with events := [] } }, ?_, rfl, ?_, h.ended⟩
    · rw [run_of_more h.chunked hscan, pull.eq_def]
      simp [h.ended, Step.atEnd]
    · simp [Chunked]

/-! ### Streams that stay quiet -/

/-- Everything that is still to come comes in chunks, and no read has a limit. -/
structure Patient (r : Reader) : Prop where
  /-- There are only chunks to come. -/
  chunked : r.Chunked
  /-- No read has a limit. -/
  unlimited : r.limit = none

theorem limit_pull (r : Reader) (left : Option Duration) (state : σ) (clock : Duration) (events : List FeedEvent) :
    (pull step r left state clock events).2.limit = r.limit := by
  fun_induction pull step r left state clock events <;> first | rfl | assumption

theorem limit_run (step : σ → UInt8 → Step σ α) (r : Reader) (state : σ) :
    (r.run step state).2.limit = r.limit := by
  rw [run]
  split
  · exact limit_pull _ _ _ _ _
  · rfl
  · rfl

/-- A stream that does not end before the scanner has stopped is read as its bytes. -/
theorem run_of_patient (step : σ → UInt8 → Step σ α) (h : r.Patient) (state : σ)
    (hopen : r.feed.ended = true → ∀ after, (scan step state r.bytes).1 ≠ .more after) :
    ∃ after, r.run step state = ((scan step state r.bytes).1.soFar, after) ∧
      after.bytes = (scan step state r.bytes).2 ∧ after.Patient ∧ after.feed.ended = r.feed.ended := by
  have hended := ended_run step r state
  have hlimit := (limit_run step r state).trans h.unlimited
  rcases hscan : scan step state r.bytes with ⟨result, rest⟩
  cases result with
  | held stopped | done stopped =>
    obtain ⟨after, hrun, hrest, hchunked⟩ := run_of_scan h.chunked hscan rfl
    rw [hrun] at hended hlimit
    exact ⟨after, hrun, hrest, ⟨hchunked, hlimit⟩, hended⟩
  | more state' =>
    obtain rfl := rest_eq_nil_of_more hscan
    have hquiet : r.feed.ended = false := by
      by_contra hclosed
      exact hopen (by simpa using hclosed) state' (by rw [hscan])
    refine ⟨{ r with buffer := [], feed := { r.feed with events := [] } }, ?_, rfl, ⟨?_, h.unlimited⟩, rfl⟩
    · rw [run_of_more h.chunked hscan, pull.eq_def]
      simp [hquiet, h.unlimited, Step.soFar]
    · simp [Chunked]

end Reader

/-! ### Calls -/

/-- The result of a reading of a reply from its start, and the channel. -/
def Reply.whole? (limit : Option Duration) :
    Progress Reply.State Reply.Answer → Option (Except ClientError Outcome) × ItemChannel
  | .done (result, channel) => (some result, channel)
  | .held (_, channel) => (none, channel)
  | .waiting (_, channel) => (none, channel)
  | .ended (_, channel) => (some (.error .endOfStream), channel)
  | .failed (_, channel) cause => (some (.error (.io cause)), channel)
  | .timedOut (_, channel) => (some (.error (.timeout "receive" (limit.getD 0))), channel)

theorem Reply.resume_start (command : Command) (channel : ItemChannel) :
    Reply.resume (Reply.start command, channel) = .more (Reply.start command, channel) := by
  cases command <;> rfl

/-- A call of a reader. -/
inductive Call where
  /-- Reads a line, which is to be accepted if it is `checked`. -/
  | line (checked : Bool)
  /-- Reads an item block or the end line. -/
  | item
  /-- Reads the reply to a command; items that it streams go to the channel. -/
  | reply (command : Command) (channel : ItemChannel)

/-- What a call answers; there is no result if the stream stays quiet or the channel is full. -/
inductive Answer where
  /-- A line. -/
  | line (result : Option (Except ClientError Line))
  /-- An item, or nothing after the end line. -/
  | item (result : Option (Except ClientError (Option Item)))
  /-- An outcome, and the channel with the items that were delivered. -/
  | reply (result : Option (Except ClientError Outcome)) (channel : ItemChannel)

/-- There is a result, or the channel has filled up. -/
def Answer.Complete : Answer → Prop
  | line result => result.isSome = true
  | item result => result.isSome = true
  | reply result channel => result.isSome = true ∨ channel.capacity ≤ channel.queue.length

/-- What a call makes of bytes with nothing behind them, and the bytes that it leaves. -/
def Call.onBytes (bytes : Bytes) : Call → Answer × Bytes
  | .line checked =>
    let (stopped, rest) := scan (Line.step checked) #[] bytes
    (.line (Reader.result? none stopped.atEnd), rest)
  | .item =>
    let (stopped, rest) := scan ItemState.step .start bytes
    (.item (Reader.result? none stopped.atEnd), rest)
  | .reply command channel =>
    let (stopped, rest) := scan (Reply.step command) (.start command, channel) bytes
    (.reply (Reply.whole? none stopped.atEnd).1 (Reply.whole? none stopped.atEnd).2, rest)

namespace Reader

/-- One call. -/
def call (r : Reader) : Call → Answer × Reader
  | .line checked =>
    let (result, r) := r.readLine checked
    (.line result, r)
  | .item =>
    let (result, r) := r.readItem
    (.item result, r)
  | .reply command channel =>
    let (result, channel, r) := r.readWhole command channel
    (.reply result channel, r)

/-- Calls, one after another, whatever they answer. -/
def answers (r : Reader) : List Call → List Answer
  | [] => []
  | c :: calls => (r.call c).1 :: (r.call c).2.answers calls

theorem result?_atEnd (limit : Option Duration) (stopped : Step σ (Except ClientError α)) :
    result? limit stopped.atEnd = result? none stopped.atEnd := by
  cases stopped <;> rfl

theorem whole?_atEnd (limit : Option Duration) (stopped : Step Reply.State Reply.Answer) :
    Reply.whole? limit stopped.atEnd = Reply.whole? none stopped.atEnd := by
  cases stopped <;> rfl

theorem readWhole_eq (command : Command) (channel : ItemChannel) (r : Reader) :
    r.readWhole command channel =
      ((Reply.whole? r.limit (r.run (Reply.step command) (.start command, channel)).1).1,
        (Reply.whole? r.limit (r.run (Reply.step command) (.start command, channel)).1).2,
        (r.run (Reply.step command) (.start command, channel)).2) := by
  rw [readWhole, readReply, Reply.resume_start]
  dsimp only
  generalize r.run (Reply.step command) (.start command, channel) = read
  obtain ⟨progress, after⟩ := read
  cases progress <;> rfl

/-- A stream that ends answers a call from its bytes, and is one that ends afterwards. -/
theorem call_of_closed {r : Reader} (h : r.Closed) (c : Call) :
    ∃ after, r.call c = ((c.onBytes r.bytes).1, after) ∧ after.bytes = (c.onBytes r.bytes).2 ∧
      after.Closed := by
  cases c with
  | line checked =>
    obtain ⟨after, hrun, hrest, hclosed⟩ := run_of_closed (Line.step checked) h #[]
    refine ⟨after, ?_, hrest, hclosed⟩
    rw [call, readLine, hrun]
    dsimp only
    rw [result?_atEnd]
    rfl
  | item =>
    obtain ⟨after, hrun, hrest, hclosed⟩ := run_of_closed ItemState.step h .start
    refine ⟨after, ?_, hrest, hclosed⟩
    rw [call, readItem, hrun]
    dsimp only
    rw [result?_atEnd]
    rfl
  | reply command channel =>
    obtain ⟨after, hrun, hrest, hclosed⟩ :=
      run_of_closed (Reply.step command) h (.start command, channel)
    refine ⟨after, ?_, hrest, hclosed⟩
    rw [call, readWhole_eq, hrun]
    dsimp only
    rw [whole?_atEnd]
    rfl

/-- Two streams of the same bytes answer calls alike. -/
theorem answers_congr {r other : Reader} (h : r.Closed) (h' : other.Closed)
    (hbytes : r.bytes = other.bytes) (calls : List Call) : r.answers calls = other.answers calls := by
  induction calls generalizing r other with
  | nil => rfl
  | cons c calls ih =>
    obtain ⟨after, hcall, hrest, hclosed⟩ := call_of_closed h c
    obtain ⟨after', hcall', hrest', hclosed'⟩ := call_of_closed h' c
    rw [answers, answers, hcall, hcall', hbytes]
    rw [hbytes, ← hrest'] at hrest
    exact congrArg _ (ih hclosed hclosed' hrest)

end Reader

/-! ### Calls that are answered -/

namespace Reply

/-- A reading that does not wait for room goes on, or it begins to wait, and then the channel is full, or it has its
answer. -/
theorem step_cases (command : Command) {s : State} (hfree : s.1.isOffering = false) (byte : UInt8) :
    (∃ after, step command s byte = .more after ∧ after.1.isOffering = false) ∨
      (∃ after, step command s byte = .held after ∧ after.2.capacity ≤ after.2.queue.length) ∨
      ∃ answer, step command s byte = .done answer := by
  obtain ⟨reply, channel⟩ := s
  cases reply with
  | offering delivered item => simp [isOffering] at hfree
  | status raw =>
    simp only [step]
    cases hstep : Line.step true raw byte with
    | more raw => exact Or.inl ⟨_, rfl, rfl⟩
    | held raw => exact absurd hstep (Line.step_ne_held _ _ _ _)
    | done result => cases result <;> exact Or.inr (Or.inr ⟨_, rfl⟩)
  | first block =>
    simp only [step]
    cases hstep : block.step byte with
    | more after => exact Or.inl ⟨_, rfl, rfl⟩
    | held after => exact absurd hstep (block.step_ne_held byte after)
    | done result =>
      rcases result with cause | (_ | item)
      · exact Or.inr (Or.inr ⟨_, rfl⟩)
      · exact Or.inr (Or.inr ⟨_, rfl⟩)
      · exact Or.inl ⟨_, rfl, rfl⟩
  | rest found block =>
    simp only [step]
    cases hstep : block.step byte with
    | more after => exact Or.inl ⟨_, rfl, rfl⟩
    | held after => exact absurd hstep (block.step_ne_held byte after)
    | done result => rcases result with cause | (_ | item) <;> exact Or.inr (Or.inr ⟨_, rfl⟩)
  | many delivered block =>
    simp only [step]
    cases hstep : block.step byte with
    | more after => exact Or.inl ⟨_, rfl, rfl⟩
    | held after => exact absurd hstep (block.step_ne_held byte after)
    | done result =>
      rcases result with cause | (_ | item)
      · exact Or.inr (Or.inr ⟨_, rfl⟩)
      · exact Or.inr (Or.inr ⟨_, rfl⟩)
      · rcases deliver_cases delivered item channel with ⟨after, -, hgoes⟩ | ⟨-, hfull, hheld⟩
        · exact Or.inl ⟨_, hgoes, rfl⟩
        · exact Or.inr (Or.inl ⟨_, hheld, hfull⟩)

theorem isOffering_start (command : Command) : (start command).isOffering = false := by
  cases command <;> rfl

/-- A reading that has to wait has filled its channel. -/
theorem full_of_scan_held {command : Command} {s after : State} (hfree : s.1.isOffering = false)
    {bytes : Bytes} (h : (scan (step command) s bytes).1 = .held after) :
    after.2.capacity ≤ after.2.queue.length := by
  refine scan_held (fun s => s.1.isOffering = false) (fun s => s.2.capacity ≤ s.2.queue.length) ?_ ?_
    hfree h
  · intro s byte after hfree hstep
    rcases step_cases command hfree byte with ⟨_, hmore, hfree'⟩ | ⟨_, hheld, -⟩ | ⟨_, hdone⟩ <;>
      simp_all
  · intro s byte after hfree hstep
    rcases step_cases command hfree byte with ⟨_, hmore, -⟩ | ⟨_, hheld, hfull⟩ | ⟨_, hdone⟩ <;>
      simp_all

end Reply

/-- A scanner that never waits has a result at the end. -/
theorem Reader.isSome_result?_atEnd {stopped : Step σ (Except ClientError α)}
    (h : ∀ after, stopped ≠ .held after) : (Reader.result? none stopped.atEnd).isSome = true := by
  cases stopped with
  | more state => rfl
  | held state => exact absurd rfl (h state)
  | done answer => rfl

/-- A call of a stream that ends has a result, unless its channel has filled up. -/
theorem Call.complete_onBytes (bytes : Bytes) (c : Call) : (c.onBytes bytes).1.Complete := by
  cases c with
  | line checked => exact Reader.isSome_result?_atEnd (scan_ne_held (Line.step_ne_held checked) _ _)
  | item => exact Reader.isSome_result?_atEnd (scan_ne_held ItemState.step_ne_held _ _)
  | reply command channel =>
    have hfull : ∀ after, (scan (Reply.step command) (.start command, channel) bytes).1 = .held after →
        after.2.capacity ≤ after.2.queue.length := fun after =>
      Reply.full_of_scan_held (Reply.isOffering_start command)
    simp only [onBytes, Answer.Complete]
    generalize scan (Reply.step command) (.start command, channel) bytes = result at hfull ⊢
    obtain ⟨stopped, rest⟩ := result
    cases stopped with
    | more state => exact Or.inl rfl
    | held state => exact Or.inr (hfull state rfl)
    | done answer => exact Or.inl rfl

namespace Reader

theorem complete_of_mem_answers {r : Reader} (h : r.Closed) {calls : List Call} {answer : Answer}
    (hmem : answer ∈ r.answers calls) : answer.Complete := by
  induction calls generalizing r with
  | nil => simp [answers] at hmem
  | cons c calls ih =>
    obtain ⟨after, hcall, -, hclosed⟩ := call_of_closed h c
    rw [answers, hcall, List.mem_cons] at hmem
    rcases hmem with rfl | hmem
    · exact c.complete_onBytes r.bytes
    · exact ih hclosed hmem

/-- A reader at the start of a stream that comes in these chunks and then ends. -/
def ofPieces (pieces : List Bytes) (limit : Option Duration) : Reader :=
  .ofFeed ⟨pieces.map .chunk, true⟩ limit

theorem closed_ofPieces (pieces : List Bytes) (limit : Option Duration) : (ofPieces pieces limit).Closed := by
  refine ⟨fun event hmem => ?_, rfl⟩
  obtain ⟨piece, -, rfl⟩ := List.mem_map.mp hmem
  exact ⟨piece, rfl⟩

theorem bytes_ofPieces (pieces : List Bytes) (limit : Option Duration) :
    (ofPieces pieces limit).bytes = pieces.flatten := by
  show [] ++ (pieces.map FeedEvent.chunk).flatMap FeedEvent.bytes = pieces.flatten
  rw [List.nil_append, List.flatMap_map, ← List.flatMap_id]
  rfl

end Reader

/-- Bytes that are cut into chunks, none of which is empty. -/
structure Cut (bytes : Bytes) (pieces : List Bytes) : Prop where
  /-- No chunk is empty. -/
  nonempty : ∀ piece ∈ pieces, piece ≠ []
  /-- The chunks are the bytes, in their order. -/
  flatten : pieces.flatten = bytes

/-- **Where a stream is cut makes no difference**: two readers of the same bytes, cut in two ways, answer the same
calls alike, whatever the calls are and whatever they answer. Each call has its result, unless it streams items
into a channel that has filled up. -/
theorem Reader.answers_of_cut {bytes : Bytes} {pieces others : List Bytes} (h : Cut bytes pieces)
    (h' : Cut bytes others) (limit limit' : Option Duration) (calls : List Call) :
    (ofPieces pieces limit).answers calls = (ofPieces others limit').answers calls ∧
      ∀ answer ∈ (ofPieces pieces limit).answers calls, answer.Complete := by
  constructor
  · refine answers_congr (closed_ofPieces _ _) (closed_ofPieces _ _) ?_ calls
    rw [bytes_ofPieces, bytes_ofPieces, h.flatten, h'.flatten]
  · intro answer hmem
    exact complete_of_mem_answers (closed_ofPieces _ _) hmem

/-- A line whose second character and whose end are cut, a value with a line feed, a bad header, a retrieval of two
keys, and the end. -/
theorem Reader.answers_of_cut_six :
    let pieces := [Bytes.ofText "a", [0xC3], [0xA9, 0x0D], Bytes.ofText "\nVALUE k 1 3\r\n\n", Bytes.ofText "\n\n\r",
      Bytes.ofText "\nVALUE k\nVALUE a 0 0\r\n\r\nEND\r\nSTO"]
    let others := [Bytes.ofText "aé\r\nVALUE k 1 3\r\n\n\n\n\r\nVALUE k\nVALUE a 0 0\r\n\r\nEND", Bytes.ofText "\r\nSTO"]
    let calls := [.line false, .item, .item, .reply (.retrieveMany .get ["a", "b"]) (.ofCapacity 4), .line true,
      .item]
    (ofPieces pieces none).answers calls = (ofPieces others (some (.ofMillis 7))).answers calls ∧
      ∀ answer ∈ (ofPieces pieces none).answers calls, answer.Complete := by
  intro pieces others calls
  have hpieces : Cut others.flatten pieces := ⟨by decide +kernel, by decide +kernel⟩
  have hothers : Cut others.flatten others := ⟨by decide +kernel, rfl⟩
  exact answers_of_cut hpieces hothers none (some (.ofMillis 7)) calls

end MemcachedClient.Response
