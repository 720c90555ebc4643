import MemcachedClient.Proofs.Connection.Faulting
import MemcachedClient.Proofs.Response.Producing

/-!
# The course of a connection

The lifecycle state of a connection is changed by many: by the opening, which leaves it for the time of its connect, by
every exchange that fails in flight or is dropped there, and by whoever closes the connection. All of them together
take it one way only (`Lifecycle.next`), through the states that `Session.entered` lists.

What makes that so is an invariant about the calls (`Session.Sound`). Nobody is in flight before the connection is
open, so that a fault finds it open or over; no connect is under way while it is open, so that a connect which fails
or comes too late finds it opening or over; and the halves are there exactly as long as they have to be, so that no
exchange is refused by an open connection.
-/

namespace MemcachedClient

open Response

namespace Lifecycle

/-- The states for which a state can be left. -/
def next : Lifecycle → List Lifecycle
  | unopened => [opening, closed]
  | opening => [opened, faulted, closed]
  | opened => [faulted, closed]
  | faulted => [closed]
  | closed => []

/-- The way from one state to another through these states, which are entered one after another. -/
inductive Path : Lifecycle → List Lifecycle → Lifecycle → Prop where
  /-- No state is entered. -/
  | nil (state : Lifecycle) : Path state [] state
  /-- A state is entered, and more. -/
  | cons {state entered last : Lifecycle} {more : List Lifecycle} (move : entered ∈ state.next)
    (path : Path entered more last) : Path state (entered :: more) last

/-- How far a connection has come. -/
def rank : Lifecycle → ℕ
  | unopened => 0
  | opening => 1
  | opened => 2
  | faulted => 3
  | closed => 4

/-- What is entered where one state was and another one is. -/
def change (before after : Lifecycle) : List Lifecycle := if after = before then [] else [after]

variable {state other last : Lifecycle} {entered more : List Lifecycle}

theorem rank_lt_of_mem_next (h : other ∈ state.next) : state.rank < other.rank := by
  cases state <;> cases other <;> simp_all [next, rank]

/-- The connect is under way only after nothing was done. -/
theorem ne_opening_of_mem_next (hstate : state ≠ .unopened) (h : other ∈ state.next) : other ≠ .opening := by
  cases state <;> cases other <;> simp_all [next]

/-- A fault leaves the state where it is or moves it on, unless nothing was done. -/
theorem moveTo_faulted_moves (h : state ≠ .unopened) :
    state.moveTo faulted = state ∨ state.moveTo faulted ∈ state.next := by
  cases state <;> simp_all [next, moveTo]

theorem closed_mem_next (h : state ≠ .closed) : closed ∈ state.next := by
  cases state <;> simp_all [next]

@[simp] theorem moveTo_moveTo_faulted (state : Lifecycle) :
    (state.moveTo faulted).moveTo faulted = state.moveTo faulted := by
  cases state <;> rfl

namespace Path

theorem append {middle : Lifecycle} (h : Path state entered middle) (h' : Path middle more last) :
    Path state (entered ++ more) last := by
  induction h with
  | nil => exact h'
  | cons move _ ih => exact .cons move (ih h')

/-- A state that stays, or is left for one of the next. -/
theorem change (h : other = state ∨ other ∈ state.next) : Path state (state.change other) other := by
  rw [Lifecycle.change]
  split
  · next hsame =>
    rw [hsame]
    exact .nil state
  · next hne => exact .cons (h.resolve_left hne) (.nil other)

/-- Every state that is entered is further on than those before it. -/
theorem pairwise_rank (h : Path state entered last) : (state :: entered).Pairwise (·.rank < ·.rank) := by
  induction h with
  | nil => exact List.pairwise_singleton _ _
  | cons move _ ih =>
    refine List.Pairwise.cons (fun later hmem => ?_) ih
    rcases List.mem_cons.mp hmem with rfl | hmem
    · exact rank_lt_of_mem_next move
    · exact Nat.lt_trans (rank_lt_of_mem_next move) (List.rel_of_pairwise_cons ih hmem)

/-- No state is entered twice. -/
theorem count_le_one (h : Path state entered last) (other : Lifecycle) : entered.count other ≤ 1 := by
  have hnodup : entered.Nodup := by
    refine List.Pairwise.imp (fun {a b} hlt => ?_) (List.pairwise_cons.mp h.pairwise_rank).2
    rintro rfl
    exact Nat.lt_irrefl _ hlt
  exact List.nodup_iff_count_le_one.mp hnodup other

end Path

end Lifecycle

/-! ### What a call does to the state -/

namespace Connection

/-- A fault among the effects changes the state once, and nothing else does. -/
theorem lifecycle_applyAll_eq (c : Connection) (effects : List Effect) :
    (c.applyAll effects).lifecycle = if .fault ∈ effects then c.lifecycle.moveTo .faulted else c.lifecycle := by
  induction effects generalizing c with
  | nil => rfl
  | cons effect effects ih =>
    rw [applyAll_cons, ih]
    by_cases hfault : effect = .fault
    · subst hfault
      have happly : (c.apply .fault).lifecycle = c.lifecycle.moveTo .faulted := rfl
      rw [happly, if_pos List.mem_cons_self]
      split
      · exact c.lifecycle.moveTo_moveTo_faulted
      · rfl
    · rw [lifecycle_apply_of_ne_fault c hfault]
      simp [Ne.symm hfault]

theorem attempts_applyAll (c : Connection) (effects : List Effect) :
    (c.applyAll effects).attempts = c.attempts :=
  applyAll_induction (P := fun after => after.attempts = c.attempts)
    (fun after effect _ h => by cases effect <;> exact h) rfl

end Connection

namespace Exchange

variable {clocks : Clocks} {a b : Exchange × Connection} {joins : ℕ} {new : List Item}

/-- No exchange is refused for the state of its connection because of its reply. -/
theorem phase_read_ne (x : Exchange) (c : Connection) (clocks : Clocks) (buffer : Bytes) (reply : Reply)
    (since : Option Duration) (state : Lifecycle) :
    (x.read c clocks buffer reply since).1.phase ≠ .finished (.error (.invalidState state)) := by
  have hviolates := (Reader.mk buffer c.socket.feed none 0).violates_readReply x.command (reply, x.channel)
  rw [read]
  generalize (Reader.mk buffer c.socket.feed none 0).readReply x.command (reply, x.channel) = result at hviolates
  obtain ⟨progress, r⟩ := result
  cases progress with
  | done answer =>
    obtain ⟨result, channel⟩ := answer
    cases result with
    | ok outcome => simp [conclude]
    | error cause =>
      obtain ⟨violation, rfl⟩ := hviolates cause rfl
      simp [failReading, conclude]
  | held held => simp
  | waiting waiting =>
    dsimp only
    generalize (if ¬ c.socket.feed.events.isEmpty = true then clocks.elapsed else since.getD clocks.elapsed) = since'
    split <;> simp [failReading, conclude]
  | ended | failed | timedOut => simp [failReading, conclude]

/-- Nobody gets in flight on a connection that is not open. -/
theorem Hop.isInFlight (h : Hop clocks a joins new b) (hopened : a.2.lifecycle ≠ .opened)
    (hbefore : a.1.phase.isInFlight = false) : b.1.phase.isInFlight = false := by
  cases h with
  | join _ _ opened => exact absurd opened hopened
  | askSend | waitSend | refuse => rfl
  | sendFail phase | sendAll phase | sendSome phase | waitTurn phase | takeTurn phase | waitReceive phase
  | refuseReceive phase | startReading phase | read phase => simp [phase, Phase.isInFlight] at hbefore

/-- Only who is in flight changes the state, and it faults the connection. -/
theorem Hop.lifecycle_cases (h : Hop clocks a joins new b) : b.2.lifecycle = a.2.lifecycle ∨
    a.1.phase.isInFlight = true ∧ b.2.lifecycle = a.2.lifecycle.moveTo .faulted := by
  cases h with
  | @refuse x c place _ _ effects shut =>
    refine Or.inl (Connection.lifecycle_applyAll _ ?_)
    rcases shut with ⟨-, -, rfl⟩ | ⟨-, rfl⟩ <;> simp
  | sendFail phase =>
    refine Or.inr ⟨by rw [phase]; rfl, ?_⟩
    rw [Connection.lifecycle_applyAll_eq, if_pos (by simp)]
  | sendAll => exact Or.inl (Connection.lifecycle_applyAll _ (by simp))
  | refuseReceive phase _ shut =>
    refine Or.inr ⟨by rw [phase]; rfl, ?_⟩
    rw [Connection.lifecycle_applyAll_eq, if_pos (faults_of_shut shut).1]
  | @read x c reply since buffer phase _ _ reads =>
    rw [← reads]
    rcases x.read_cases c clocks buffer reply since rfl with
      ⟨_, _, -, h⟩ | ⟨_, _, -, h⟩ | ⟨_, _, h⟩ <;> rw [h]
    · exact Or.inl (Connection.lifecycle_applyAll _ (by simp))
    · exact Or.inl rfl
    · refine Or.inr ⟨by rw [phase]; rfl, ?_⟩
      rw [Connection.lifecycle_applyAll_eq, if_pos (by simp)]
      rfl
  | _ => exact Or.inl rfl

theorem Hops.lifecycle_cases (h : Hops clocks a joins new b) : b.2.lifecycle = a.2.lifecycle ∨
    (a.1.phase.isInFlight = true ∨ a.2.lifecycle = .opened) ∧ b.2.lifecycle = a.2.lifecycle.moveTo .faulted := by
  induction h with
  | refl => exact Or.inl rfl
  | @head a m b _ _ _ _ hop hops ih =>
    rcases hop.lifecycle_cases with hsame | ⟨hflight, hfault⟩
    · rw [hsame] at ih
      refine ih.imp_right (And.imp_left fun hm => ?_)
      -- who is in flight now was so before, or joined an open connection
      by_contra hnot
      obtain ⟨hbefore, hopened⟩ := not_or.mp hnot
      rw [hop.isInFlight hopened (Bool.not_eq_true _ ▸ hbefore)] at hm
      exact hm.elim Bool.false_ne_true hopened
    · refine Or.inr ⟨Or.inl hflight, ?_⟩
      rcases ih with hsame | ⟨-, hagain⟩
      · exact hsame.trans hfault
      · rw [hagain, hfault, Lifecycle.moveTo_moveTo_faulted]

theorem lifecycle_cases_drop (x : Exchange) (c : Connection) : (x.drop c).2.lifecycle = c.lifecycle ∨
    x.phase.isInFlight = true ∧ (x.drop c).2.lifecycle = c.lifecycle.moveTo .faulted := by
  rw [drop]
  split
  · exact Or.inl rfl
  · rw [Connection.lifecycle_applyAll_eq]
    cases x.phase <;> simp [Phase.abandonment, Phase.isInFlight]

theorem Hop.attempts (h : Hop clocks a joins new b) : b.2.attempts = a.2.attempts := by
  cases h with
  | @read x c reply since buffer _ _ _ reads =>
    rw [← reads]
    rcases x.read_cases c clocks buffer reply since rfl with
      ⟨_, _, -, h⟩ | ⟨_, _, -, h⟩ | ⟨_, _, h⟩ <;> rw [h]
    · exact Connection.attempts_applyAll _ _
    · rfl
    · exact Connection.attempts_applyAll _ _
  | refuse | sendFail | sendAll | refuseReceive => exact Connection.attempts_applyAll _ _
  | _ => rfl

theorem Hops.attempts (h : Hops clocks a joins new b) : b.2.attempts = a.2.attempts := by
  induction h with
  | refl => rfl
  | head hop _ ih => exact ih.trans hop.attempts

theorem attempts_drop (x : Exchange) (c : Connection) : (x.drop c).2.attempts = c.attempts := by
  rw [drop]
  split
  · rfl
  · exact c.attempts_applyAll _

end Exchange

namespace Opening

variable {c c' : Connection}

/-- Before a connection is open, an opening leaves the halves where they were, or takes them away. -/
theorem Changes.early (h : Changes c c') (hearly : c'.lifecycle.isEarly = true) : c.lifecycle.isEarly = true ∧
    (c'.sendHalf = c.sendHalf ∧ c'.receiveHalf = c.receiveHalf ∨ c'.sendHalf = false ∧ c'.receiveHalf = none) := by
  cases h with
  | nothing => exact ⟨hearly, Or.inl ⟨rfl, rfl⟩⟩
  | begin unopened attempts => exact ⟨by rw [unopened]; rfl, Or.inl ⟨rfl, rfl⟩⟩
  | fail ended attempts =>
    rw [Lifecycle.isOver_of_isEarly hearly] at ended
    exact absurd ended Bool.false_ne_true
  | complete => exact absurd hearly Bool.false_ne_true
  | discard late => exact ⟨hearly, Or.inr ⟨rfl, rfl⟩⟩

/-- Looking what became of the connect moves the state on, or leaves it where it is. -/
theorem await_moves (o : Opening) (c : Connection) (elapsed since : Duration) (hunopened : c.lifecycle ≠ .unopened) :
    ((o.await c elapsed since).2.lifecycle = c.lifecycle ∨ (o.await c elapsed since).2.lifecycle ∈ c.lifecycle.next) ∧
      (o.await c elapsed since).2.attempts = c.attempts := by
  have hfault := Lifecycle.moveTo_faulted_moves hunopened
  rw [await]
  split
  · rw [complete]
    split
    · next hopening => exact ⟨Or.inr (by simp [hopening, Lifecycle.next]), rfl⟩
    · exact ⟨Or.inl rfl, rfl⟩
  · exact ⟨hfault, rfl⟩
  · split
    · exact ⟨hfault, rfl⟩
    · exact ⟨Or.inl rfl, rfl⟩

/-- Whether an opening has not run yet. -/
def isReady (o : Opening) : Bool :=
  match o.phase with
  | .ready => true
  | _ => false

end Opening

/-! ### What the calls can rely on -/

namespace Connection.Session

/-- What the calls on a connection can rely on. -/
structure Sound (s : Session) : Prop where
  /-- The connection is whole. -/
  whole : s.Whole
  /-- Before it is open there are no halves. -/
  early : s.connection.lifecycle.isEarly = true →
    s.connection.sendHalf = false ∧ s.connection.receiveHalf.isSome = false
  /-- Before it is open nobody is in flight. -/
  grounded : s.connection.lifecycle.isEarly = true → ∀ name x, s.exchanges.get? name = some x →
    x.phase.isInFlight = false
  /-- Nobody was refused by an open connection. -/
  refused : ∀ name x, s.exchanges.get? name = some x → x.phase ≠ .finished (.error (.invalidState .opened))

namespace Sound

variable {s : Session} {name : String}

/-- An exchange moves on. -/
theorem put (h : s.Sound) {x : Exchange} {c : Connection}
    (hretains : s.connection.Retains c ∨ c.lifecycle.isOver = true)
    (hgrounded : s.connection.lifecycle.isEarly = true → x.phase.isInFlight = false)
    (hrefused : x.phase ≠ .finished (.error (.invalidState .opened))) : (s.put name x c).Sound := by
  have hearly : c.lifecycle.isEarly = true → s.connection.Retains c := fun hearly =>
    hretains.resolve_right fun hover => by simp [Lifecycle.isOver_of_isEarly hearly] at hover
  refine ⟨h.whole.congr rfl hretains, fun hc => ?_, fun hc other y hy => ?_, fun other y hy => ?_⟩
  · obtain ⟨hlifecycle, hsend, hreceive⟩ := hearly hc
    rw [connection_put, hsend, hreceive]
    exact h.early (hlifecycle ▸ hc)
  · have hbefore : s.connection.lifecycle.isEarly = true := (hearly hc).lifecycle ▸ hc
    rcases Table.eq_or_of_get?_put hy with ⟨-, rfl⟩ | ⟨-, hy⟩
    · exact hgrounded hbefore
    · exact h.grounded hbefore other y hy
  · rcases Table.eq_or_of_get?_put hy with ⟨-, rfl⟩ | ⟨-, hy⟩
    · exact hrefused
    · exact h.refused other y hy

/-- An exchange that hops is not refused by an open connection, whose halves are there. -/
theorem hop (h : s.Sound) {x after : Exchange} {c : Connection} {joins : ℕ} {new : List Item}
    (hget : s.exchanges.get? name = some x)
    (hop : Exchange.Hop s.clocks (x, s.connection) joins new (after, c)) : (s.put name after c).Sound := by
  refine h.put hop.halves (fun hearly => ?_) fun hphase => ?_
  · exact hop.isInFlight (Lifecycle.ne_opened_of_isEarly hearly) (h.grounded hearly name x hget)
  · cases hop with
    | refuse _ _ shut =>
      simp only [Exchange.Phase.finished.injEq, Except.error.injEq, ClientError.invalidState.injEq] at hphase
      rcases shut with ⟨-, hhalf, -⟩ | ⟨hclosed, -⟩
      · rw [(h.whole.halves hphase).1] at hhalf
        exact absurd hhalf (by simp)
      · exact hclosed hphase
    | refuseReceive _ _ shut =>
      simp only [Exchange.Phase.finished.injEq, Except.error.injEq, ClientError.invalidState.injEq] at hphase
      rcases shut with ⟨-, hhalf, -⟩ | ⟨hclosed, -⟩
      · have hsome := (h.whole.halves hphase).2
        rw [hhalf] at hsome
        exact absurd hsome (by simp)
      · exact hclosed hphase
    | @read _ _ reply since buffer _ _ _ reads =>
      have hread := x.phase_read_ne s.connection s.clocks buffer reply since .opened
      rw [reads] at hread
      exact hread hphase
    | _ => simp at hphase

theorem pollOpening (h : s.Sound) {o : Opening} (hget : s.openings.get? name = some o) :
    Sound { s with
      connection := (o.poll s.connection s.clocks.elapsed).2
      openings := s.openings.put name (o.poll s.connection s.clocks.elapsed).1 } := by
  have hchanges := o.changes_poll s.connection s.clocks.elapsed
  refine ⟨h.whole.pollOpening hget, fun hearly => ?_, fun hearly => ?_, h.refused⟩
  · obtain ⟨hbefore, ⟨hsend, hreceive⟩ | ⟨hsend, hreceive⟩⟩ := hchanges.early hearly
    · dsimp only
      rw [hsend, hreceive]
      exact h.early hbefore
    · exact ⟨hsend, by rw [hreceive]; rfl⟩
  · exact h.grounded (hchanges.early hearly).1

end Sound

/-- Whatever happens, the calls can rely on it. -/
theorem kept_sound : Kept Sound where
  hop h hget hop := h.hop hget hop
  start _ _ h _ := h.put (Or.inl (.refl _)) (fun _ => rfl) (by simp [Exchange.start])
  drop {s name x} h hget := by
    refine h.put (x.halves_drop _) (fun hearly => ?_) ?_
    · have hflight := h.grounded hearly name x hget
      rw [Exchange.drop]
      split
      · exact hflight
      · rfl
    · rw [Exchange.drop]
      split
      · exact h.refused name x hget
      · simp
  channel {_ name x} _ h hget :=
    h.put (Or.inl (.refl _)) (fun hearly => h.grounded hearly name x hget) (h.refused name x hget)
  opening h hget := h.pollOpening hget
  idle h ho := ⟨h.whole.put ho, h.early, h.grounded, h.refused⟩
  close {s} h := by
    have hover := s.connection.isOver_close
    have hearly : s.connection.close.lifecycle.isEarly ≠ true := fun hearly => by
      rw [Lifecycle.isOver_of_isEarly hearly] at hover
      exact Bool.false_ne_true hover
    exact ⟨h.whole.congr rfl (Or.inr hover), fun hc => absurd hc hearly, fun hc => absurd hc hearly, h.refused⟩
  advance _ h := ⟨kept_whole.advance _ h.whole, h.early, h.grounded, h.refused⟩
  network _ h := ⟨kept_whole.network _ h.whole, h.early, h.grounded, h.refused⟩

theorem sound_start (dial : Dial) (receiveLimit : Option Duration) (clocks : Clocks) :
    (start dial receiveLimit clocks).Sound := by
  refine ⟨.start dial receiveLimit clocks, fun _ => ⟨rfl, rfl⟩, fun _ => ?_, ?_⟩
  · exact fun _ _ hget => by simp [start] at hget
  · exact fun _ _ hget => by simp [start] at hget

/-! ### The states that are entered -/

/-- Whether an event makes an opening begin with its connect. -/
def begins (s : Session) : Event → Bool
  | .pollOpening name => (s.openings.get? name).any (·.isReady) && s.connection.lifecycle == .unopened
  | _ => false

/-- The states that an event takes a connection through. An opening that begins makes the connection `opening` before
it looks for the first time what became of its connect. -/
def enters (s : Session) (event : Event) : List Lifecycle :=
  if s.begins event then .opening :: Lifecycle.change .opening (s.step event).connection.lifecycle
  else s.connection.lifecycle.change (s.step event).connection.lifecycle

/-- The states that some events take a connection through. -/
def entered (s : Session) : List Event → List Lifecycle
  | [] => []
  | event :: events => s.enters event ++ (s.step event).entered events

variable {s : Session} {event : Event}

theorem connection_step_of_begins (h : s.begins event = true) : s.connection.lifecycle = .unopened ∧
    ∃ o : Opening, (s.step event).connection =
      (o.await { s.connection with lifecycle := .opening, attempts := s.connection.attempts + 1 }
        s.clocks.elapsed s.clocks.elapsed).2 := by
  cases event with
  | pollOpening name =>
    obtain ⟨hready, hunopened⟩ := Bool.and_eq_true_iff.mp h
    have hunopened : s.connection.lifecycle = .unopened := by simpa using hunopened
    cases hget : s.openings.get? name with
    | none => simp [hget] at hready
    | some o =>
      obtain ⟨limit, phase⟩ := o
      refine ⟨hunopened, ⟨limit, phase⟩, ?_⟩
      cases phase with
      | ready => simp only [step, updateOpening, hget, Opening.poll, if_pos hunopened]
      | _ => simp [hget, Opening.isReady] at hready
  | _ => simp [begins] at h

/-- An exchange that faults the connection does so when something was done with it. -/
theorem Sound.moves_of_fault (h : s.Sound) {name : String} {x : Exchange} (hget : s.exchanges.get? name = some x)
    {c : Connection} (hcases : c.lifecycle = s.connection.lifecycle ∨
      (x.phase.isInFlight = true ∨ s.connection.lifecycle = .opened) ∧
        c.lifecycle = s.connection.lifecycle.moveTo .faulted) :
    c.lifecycle = s.connection.lifecycle ∨
      c.lifecycle ∈ s.connection.lifecycle.next ∧ c.lifecycle ≠ .opening := by
  rcases hcases with hsame | ⟨hflight, hfault⟩
  · exact Or.inl hsame
  · have hunopened : s.connection.lifecycle ≠ .unopened := by
      intro hunopened
      rcases hflight with hflight | hopened
      · rw [h.grounded (by rw [hunopened]; rfl) name x hget] at hflight
        exact Bool.false_ne_true hflight
      · simp [hunopened] at hopened
    rw [hfault]
    exact (Lifecycle.moveTo_faulted_moves hunopened).imp_right fun hmem =>
      ⟨hmem, Lifecycle.ne_opening_of_mem_next hunopened hmem⟩

/-- An event that does not begin a connect leaves the state where it is or moves it on. -/
theorem Sound.moves (h : s.Sound) (hbegins : s.begins event = false) :
    ((s.step event).connection.lifecycle = s.connection.lifecycle ∨
      (s.step event).connection.lifecycle ∈ s.connection.lifecycle.next ∧
        (s.step event).connection.lifecycle ≠ .opening) ∧
    (s.step event).connection.attempts = s.connection.attempts := by
  cases event with
  | pollOpening name =>
    rw [step, updateOpening]
    cases hget : s.openings.get? name with
    | none => exact ⟨Or.inl rfl, rfl⟩
    | some o =>
      obtain ⟨limit, phase⟩ := o
      cases phase with
      | ready =>
        have hstarted : s.connection.lifecycle ≠ .unopened := by simpa [begins, hget, Opening.isReady] using hbegins
        dsimp only [Opening.poll]
        rw [if_neg hstarted]
        exact ⟨Or.inl rfl, rfl⟩
      | connecting since =>
        have hunopened := (h.whole.connecting name _ hget rfl).1
        obtain ⟨hmoves, hattempts⟩ :=
          Opening.await_moves ⟨limit, .connecting since⟩ s.connection s.clocks.elapsed since hunopened
        exact ⟨hmoves.imp_right fun hmem => ⟨hmem, Lifecycle.ne_opening_of_mem_next hunopened hmem⟩, hattempts⟩
      | finished result => exact ⟨Or.inl rfl, rfl⟩
      | dropped => exact ⟨Or.inl rfl, rfl⟩
  | pollExchange name =>
    rw [step, updateExchange]
    cases hget : s.exchanges.get? name with
    | none => exact ⟨Or.inl rfl, rfl⟩
    | some x =>
      have hhops := x.hops_poll s.connection s.clocks
      exact ⟨h.moves_of_fault hget hhops.lifecycle_cases, hhops.attempts⟩
  | dropExchange name =>
    rw [step, updateExchange]
    cases hget : s.exchanges.get? name with
    | none => exact ⟨Or.inl rfl, rfl⟩
    | some x =>
      have hcases := x.lifecycle_cases_drop s.connection
      exact ⟨h.moves_of_fault hget (hcases.imp_right (And.imp_left Or.inl)), x.attempts_drop _⟩
  | close =>
    rw [step, close]
    split
    · exact ⟨Or.inl rfl, rfl⟩
    · next hopen => exact ⟨Or.inr ⟨Lifecycle.closed_mem_next hopen, by simp [releaseHalves]⟩, rfl⟩
  | startOpening | startExchange =>
    rw [step]
    split <;> exact ⟨Or.inl rfl, rfl⟩
  | dropOpening | channel =>
    first | rw [step, updateOpening] | rw [step, updateExchange]
    split <;> exact ⟨Or.inl rfl, rfl⟩
  | advance | network => exact ⟨Or.inl rfl, rfl⟩

theorem Lifecycle.count_change {before after state : Lifecycle} (h : after = before ∨ after ≠ state) :
    (before.change after).count state = 0 := by
  rw [Lifecycle.change]
  split
  · rfl
  · next hne => simp [h.resolve_left hne]

/-- An event takes the connection along its way, and counts the connects. -/
theorem Sound.path_step (h : s.Sound) (event : Event) :
    Lifecycle.Path s.connection.lifecycle (s.enters event) (s.step event).connection.lifecycle ∧
      (s.step event).connection.attempts = s.connection.attempts + (s.enters event).count .opening := by
  cases hbegins : s.begins event with
  | true =>
    obtain ⟨hunopened, o, hstep⟩ := connection_step_of_begins hbegins
    obtain ⟨hmoves, hattempts⟩ := o.await_moves
      { s.connection with lifecycle := .opening, attempts := s.connection.attempts + 1 }
      s.clocks.elapsed s.clocks.elapsed (by simp)
    rw [← hstep] at hmoves hattempts
    have hcount : (Lifecycle.change .opening (s.step event).connection.lifecycle).count .opening = 0 :=
      Lifecycle.count_change (hmoves.imp_right (Lifecycle.ne_opening_of_mem_next (by simp)))
    rw [enters, if_pos hbegins, hunopened, List.count_cons_self, hcount]
    exact ⟨.cons (by simp [Lifecycle.next]) (.change hmoves), hattempts⟩
  | false =>
    obtain ⟨hmoves, hattempts⟩ := h.moves hbegins
    rw [enters, if_neg (by simp [hbegins]), Lifecycle.count_change (hmoves.imp_right And.right)]
    exact ⟨.change (hmoves.imp_right And.left), hattempts⟩

theorem Sound.path_run (h : s.Sound) (events : List Event) :
    Lifecycle.Path s.connection.lifecycle (s.entered events) (s.run events).connection.lifecycle ∧
      (s.run events).connection.attempts = s.connection.attempts + (s.entered events).count .opening := by
  induction events generalizing s with
  | nil => exact ⟨.nil _, rfl⟩
  | cons event events ih =>
    obtain ⟨hpath, hattempts⟩ := h.path_step event
    obtain ⟨hmore, hlater⟩ := ih (kept_sound.step h event)
    rw [run_cons, entered, List.count_append]
    exact ⟨hpath.append hmore, by omega⟩

/-- A connection that is closed stays closed. -/
theorem Sound.closed_run (h : s.Sound) (hclosed : s.connection.lifecycle = .closed) (events : List Event) :
    (s.run events).connection.lifecycle = .closed := by
  have hpath := (h.path_run events).1
  rw [hclosed] at hpath
  generalize (s.run events).connection.lifecycle = last at hpath ⊢
  generalize s.entered events = entered at hpath
  cases hpath with
  | nil => rfl
  | cons move => simp [Lifecycle.next] at move

/-- An opening that finds the connection closed when its connect is established says so, and takes the halves away. -/
theorem pollOpening_of_closed {name : String} {o : Opening} {since : Duration} (hget : s.openings.get? name = some o)
    (hphase : o.phase = .connecting since) (hdial : s.connection.socket.dial = .established)
    (hclosed : s.connection.lifecycle = .closed) :
    (s.step (.pollOpening name)).opened? name = some (.error (.invalidState .closed)) ∧
      (s.step (.pollOpening name)).connection.sendHalf = false ∧
      (s.step (.pollOpening name)).connection.receiveHalf = none := by
  obtain ⟨limit, phase⟩ := o
  subst hphase
  simp [step, updateOpening, hget, Opening.poll, Opening.await, hdial, Opening.complete, hclosed, opened?,
    Opening.conclude, Opening.result?]

/-- **The lifecycle of a connection**, along every run. The states that are entered lead from `unopened` to the present
one, each of them for one of the next; none is entered twice, so that the connection is open at most once and at most
one connect is attempted, which is what `attempts` counts; and a closed connection stays closed. While the connection
is open both halves are there, and no exchange was ever refused for the state `opened`; an opening whose connect is
established on a connection that was closed meanwhile is refused for the state `closed`, and leaves no halves. -/
theorem lifecycle_course (dial : Dial) (receiveLimit : Option Duration) (clocks : Clocks) (events : List Event) :
    let s := (start dial receiveLimit clocks).run events
    let entered := (start dial receiveLimit clocks).entered events
    Lifecycle.Path .unopened entered s.connection.lifecycle ∧
    (∀ state, entered.count state ≤ 1) ∧
    (s.connection.attempts = entered.count .opening ∧ s.connection.attempts ≤ 1) ∧
    (s.connection.lifecycle = .closed → ∀ more, (s.run more).connection.lifecycle = .closed) ∧
    (s.connection.lifecycle = .opened → s.connection.sendHalf = true ∧ s.connection.receiveHalf.isSome = true) ∧
    (∀ name, s.exchanged? name ≠ some (.error (.invalidState .opened))) ∧
    ∀ name o since, s.openings.get? name = some o → o.phase = .connecting since →
      s.connection.socket.dial = .established → s.connection.lifecycle = .closed →
        (s.step (.pollOpening name)).opened? name = some (.error (.invalidState .closed)) ∧
        (s.step (.pollOpening name)).connection.sendHalf = false ∧
        (s.step (.pollOpening name)).connection.receiveHalf = none := by
  intro s entered
  have hstart := sound_start dial receiveLimit clocks
  have hsound : s.Sound := kept_sound.run hstart events
  obtain ⟨hpath, hattempts⟩ := hstart.path_run events
  have hattempts : s.connection.attempts = entered.count .opening := hattempts.trans (Nat.zero_add _)
  refine ⟨hpath, hpath.count_le_one, ⟨hattempts, hattempts ▸ hpath.count_le_one _⟩, hsound.closed_run,
    hsound.whole.halves, fun name hrefused => ?_, fun name o since => pollOpening_of_closed⟩
  obtain ⟨x, hget, hresult⟩ := Option.bind_eq_some_iff.mp hrefused
  refine hsound.refused name x hget ?_
  rw [Exchange.result?] at hresult
  split at hresult
  · next hphase => rw [hphase, Option.some.inj hresult]
  · simp at hresult

end Connection.Session

end MemcachedClient
