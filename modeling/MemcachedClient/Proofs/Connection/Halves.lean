import MemcachedClient.Proofs.Connection.Keeping
import MemcachedClient.Proofs.Connection.Openness

/-!
# The halves of an open connection

A connection becomes open by the one opening whose connect is under way, which ends with that, so while a connection
is open no connect is under way that could take its halves back: both halves of an open connection are there, after
every event (`Session.Whole`).
-/

namespace MemcachedClient

theorem Lifecycle.ne_of_isOver {lifecycle : Lifecycle} (h : lifecycle.isOver = true) :
    lifecycle ≠ .unopened ∧ lifecycle ≠ .opened := by
  cases lifecycle <;> simp_all [isOver]

/-- Looking what became of the connect of a connection that is not open: while it is under way the connection is not
open, and when the connection becomes open its halves are there. -/
theorem Opening.await_parts (o : Opening) {c : Connection} (hbegun : c.lifecycle ≠ .unopened)
    (hopened : c.lifecycle ≠ .opened) (elapsed since : Duration) :
    ((o.await c elapsed since).1.isConnecting = true → (o.await c elapsed since).2.lifecycle ≠ .unopened ∧
      (o.await c elapsed since).2.lifecycle ≠ .opened) ∧
    ((o.await c elapsed since).2.lifecycle = .opened → (o.await c elapsed since).2.sendHalf = true ∧
      (o.await c elapsed since).2.receiveHalf.isSome = true) := by
  have hfail : c.lifecycle.moveTo .faulted ≠ .opened := (Lifecycle.ne_of_isOver c.lifecycle.isOver_moveTo_faulted).2
  rw [await]
  split
  · rw [complete]
    split
    · exact ⟨fun h => absurd h Bool.false_ne_true, fun _ => ⟨rfl, rfl⟩⟩
    · exact ⟨fun h => absurd h Bool.false_ne_true, fun h => absurd h hopened⟩
  · exact ⟨fun h => absurd h Bool.false_ne_true, fun h => absurd h hfail⟩
  · split
    · exact ⟨fun h => absurd h Bool.false_ne_true, fun h => absurd h hfail⟩
    · exact ⟨fun _ => ⟨hbegun, hopened⟩, fun h => absurd h hopened⟩

namespace Connection

/-- The lifecycle state stays, and the halves are where they were. -/
structure Retains (c c' : Connection) : Prop where
  /-- The lifecycle state stays. -/
  lifecycle : c'.lifecycle = c.lifecycle
  /-- The send half stays. -/
  send : c'.sendHalf = c.sendHalf
  /-- The receive half stays, with what is left in it. -/
  receive : c'.receiveHalf.isSome = c.receiveHalf.isSome

theorem Retains.refl (c : Connection) : c.Retains c := ⟨rfl, rfl, rfl⟩

theorem Retains.trans {c c' c'' : Connection} (h : c.Retains c') (h' : c'.Retains c'') : c.Retains c'' :=
  ⟨h'.lifecycle.trans h.lifecycle, h'.send.trans h.send, h'.receive.trans h.receive⟩

/-- Effects that do not drop the halves leave them and the lifecycle state alone, or the connection is over. -/
theorem Retains.applyAll {c c' : Connection} (h : c.Retains c') {effects : List Effect}
    (hdrop : .dropSend ∉ effects ∧ .dropReceive ∉ effects) :
    c.Retains (c'.applyAll effects) ∨ (c'.applyAll effects).lifecycle.isOver = true := by
  refine applyAll_induction (P := fun after => c.Retains after ∨ after.lifecycle.isOver = true)
    (fun after effect hmem h => ?_) (Or.inl h)
  cases effect with
  | fault => exact Or.inr after.isOver_apply_fault
  | dropSend => exact absurd hmem hdrop.1
  | dropReceive => exact absurd hmem hdrop.2
  | dropSendIfOver | dropReceiveIfOver =>
    cases hover : after.lifecycle.isOver with
    | false => exact h.imp_left fun hretains => hretains.trans ⟨rfl, by simp [apply, hover], by simp [apply, hover]⟩
    | true => exact Or.inr hover
  | _ => exact h.imp_left fun hretains => hretains.trans ⟨rfl, rfl, rfl⟩

end Connection

namespace Exchange

variable {clocks : Clocks} {a b : Exchange × Connection} {joins : ℕ} {new : List Item}

/-- An exchange leaves the lifecycle state and the halves alone, or the connection is over. -/
theorem Hop.halves (h : Hop clocks a joins new b) : a.2.Retains b.2 ∨ b.2.lifecycle.isOver = true := by
  cases h with
  | @refuse x c place _ _ effects shut =>
    have hdrop : .dropSend ∉ effects ∧ .dropReceive ∉ effects := by
      rcases shut with ⟨-, -, rfl⟩ | ⟨-, rfl⟩ <;> simp
    refine Connection.Retains.applyAll ?_ hdrop
    exact ⟨rfl, rfl, rfl⟩
  | sendFail => exact Or.inr (Connection.isOver_applyAll_of_mem _ (by simp))
  | sendAll =>
    refine Connection.Retains.applyAll ?_ (by simp)
    exact ⟨rfl, rfl, rfl⟩
  | refuseReceive _ _ shut => exact Or.inr (Connection.isOver_applyAll_of_mem _ (faults_of_shut shut).1)
  | @read x c reply since buffer _ half _ reads =>
    have hafter : ∀ r, c.Retains (c.after r) := fun r => ⟨rfl, rfl, by rw [half]; rfl⟩
    rcases x.read_cases c clocks buffer reply since rfl with
      ⟨_, _, -, h⟩ | ⟨_, _, -, h⟩ | ⟨_, _, h⟩
    · rw [← reads, h]
      exact (hafter _).applyAll (by simp)
    · rw [← reads, h]
      exact Or.inl (hafter _)
    · rw [← reads, h]
      exact Or.inr (Connection.isOver_applyAll_of_mem _ (by simp))
  | _ => exact Or.inl ⟨rfl, rfl, rfl⟩

theorem Hops.halves (h : Hops clocks a joins new b) : a.2.Retains b.2 ∨ b.2.lifecycle.isOver = true := by
  induction h with
  | refl => exact Or.inl (.refl _)
  | head hop hops ih =>
    rcases ih with hretains | hover
    · rcases hop.halves with hbefore | hover
      · exact Or.inl (hbefore.trans hretains)
      · exact Or.inr (hretains.lifecycle ▸ hover)
    · exact Or.inr hover

theorem halves_drop (x : Exchange) (c : Connection) :
    c.Retains (x.drop c).2 ∨ (x.drop c).2.lifecycle.isOver = true := by
  rw [drop]
  split
  · exact Or.inl (.refl c)
  · refine (Connection.Retains.refl c).applyAll ?_
    cases x.phase <;> simp [Phase.abandonment]

end Exchange

namespace Connection.Session

/-- The connect of a connection is under way at most once, and not while the connection is open; the halves of an
open connection are there. -/
structure Whole (s : Session) : Prop where
  /-- One connect is under way at a time. -/
  alone : ∀ name o other o', s.openings.get? name = some o → o.isConnecting = true →
    s.openings.get? other = some o' → o'.isConnecting = true → other = name
  /-- While it is, the connection was opened neither before nor by now. -/
  connecting : ∀ name o, s.openings.get? name = some o → o.isConnecting = true →
    s.connection.lifecycle ≠ .unopened ∧ s.connection.lifecycle ≠ .opened
  /-- The halves are there. -/
  halves : s.connection.lifecycle = .opened →
    s.connection.sendHalf = true ∧ s.connection.receiveHalf.isSome = true

namespace Whole

variable {s : Session} {name : String}

/-- Something that is not an opening happens: the lifecycle state and the halves stay, or the connection is over. -/
theorem congr (h : s.Whole) {s' : Session} (hopenings : s'.openings = s.openings)
    (hhalves : s.connection.Retains s'.connection ∨ s'.connection.lifecycle.isOver = true) : s'.Whole := by
  refine ⟨hopenings ▸ h.alone, fun name o hget hconnecting => ?_, fun hopened => ?_⟩
  · rcases hhalves with hretains | hover
    · rw [hretains.lifecycle]
      exact h.connecting name o (hopenings ▸ hget) hconnecting
    · exact Lifecycle.ne_of_isOver hover
  · rcases hhalves with hretains | hover
    · rw [hretains.send, hretains.receive]
      exact h.halves (hretains.lifecycle ▸ hopened)
    · exact absurd hopened (Lifecycle.ne_of_isOver hover).2

/-- An opening that is not under way is put into the table. -/
theorem put (h : s.Whole) {o : Opening} (ho : o.isConnecting = false) :
    Whole { s with openings := s.openings.put name o } := by
  have hold : ∀ other o', (s.openings.put name o).get? other = some o' → o'.isConnecting = true →
      s.openings.get? other = some o' := by
    intro other o' hget hconnecting
    rcases Table.eq_or_of_get?_put hget with ⟨-, rfl⟩ | ⟨-, hget⟩
    · rw [ho] at hconnecting
      exact absurd hconnecting Bool.false_ne_true
    · exact hget
  refine ⟨fun other o' another o'' hget hconn hget' hconn' => ?_, fun other o' hget hconn => ?_, h.halves⟩
  · exact h.alone other o' another o'' (hold _ _ hget hconn) hconn (hold _ _ hget' hconn') hconn'
  · exact h.connecting other o' (hold _ _ hget hconn) hconn

/-- The one opening that is under way, or begins, takes a step. -/
theorem of_alone {o' : Opening} {c' : Connection}
    (halone : ∀ other o, s.openings.get? other = some o → o.isConnecting = true → other = name)
    (hconnecting : o'.isConnecting = true → c'.lifecycle ≠ .unopened ∧ c'.lifecycle ≠ .opened)
    (hhalves : c'.lifecycle = .opened → c'.sendHalf = true ∧ c'.receiveHalf.isSome = true) :
    Whole { s with connection := c', openings := s.openings.put name o' } := by
  have hnobody : ∀ other o, (s.openings.put name o').get? other = some o → o.isConnecting = true →
      other = name ∧ o = o' := by
    intro other o hget hconn
    rcases Table.eq_or_of_get?_put hget with ⟨rfl, rfl⟩ | ⟨hne, hget⟩
    · exact ⟨rfl, rfl⟩
    · exact absurd (halone other o hget hconn) hne
  refine ⟨fun other o another o'' hget hconn hget' hconn' => ?_, fun other o hget hconn => ?_, hhalves⟩
  · exact (hnobody _ _ hget' hconn').1.trans (hnobody _ _ hget hconn).1.symm
  · obtain ⟨-, rfl⟩ := hnobody other o hget hconn
    exact hconnecting hconn

theorem pollOpening (h : s.Whole) {o : Opening} (hget : s.openings.get? name = some o) :
    Whole { s with
      connection := (o.poll s.connection s.clocks.elapsed).2
      openings := s.openings.put name (o.poll s.connection s.clocks.elapsed).1 } := by
  obtain ⟨limit, phase⟩ := o
  cases phase with
  | ready =>
    rw [Opening.poll]
    dsimp only
    split
    · next hunopened =>
      -- no other connect is under way on an unopened connection
      obtain ⟨hconnecting, hhalves⟩ := Opening.await_parts ⟨limit, .ready⟩
        (c := { s.connection with lifecycle := .opening, attempts := s.connection.attempts + 1 })
        (by simp) (by simp) s.clocks.elapsed s.clocks.elapsed
      refine of_alone (fun other o hget hconn => ?_) hconnecting hhalves
      exact absurd hunopened (h.connecting other o hget hconn).1
    · exact h.put rfl
  | connecting since =>
    obtain ⟨hunopened, hopened⟩ := h.connecting name _ hget rfl
    obtain ⟨hconnecting, hhalves⟩ := Opening.await_parts ⟨limit, .connecting since⟩ hunopened hopened
      s.clocks.elapsed since
    exact of_alone (fun other o hother hconn => h.alone name _ other o hget rfl hother hconn) hconnecting
      hhalves
  | finished result => exact h.put rfl
  | dropped => exact h.put rfl

end Whole

/-- Whatever happens, a connection stays whole. -/
theorem kept_whole : Kept Whole where
  hop h _ hop := h.congr rfl hop.halves
  start _ _ h _ := h.congr rfl (Or.inl (.refl _))
  drop {s _ x} h _ := h.congr rfl (x.halves_drop s.connection)
  channel _ h _ := h.congr rfl (Or.inl (.refl _))
  opening h hget := h.pollOpening hget
  idle h ho := h.put ho
  close {s} h := h.congr rfl (Or.inr s.connection.isOver_close)
  advance _ h := h.congr rfl (Or.inl (.refl _))
  network _ h := h.congr rfl (Or.inl ⟨rfl, rfl, rfl⟩)

namespace Whole

variable {s : Session}

theorem start (dial : Dial) (receiveLimit : Option Duration) (clocks : Clocks) :
    Whole (.start dial receiveLimit clocks) := by
  refine ⟨?_, ?_, ?_⟩
  · exact fun _ _ _ _ hget => by simp [Session.start] at hget
  · exact fun _ _ hget => by simp [Session.start] at hget
  · exact fun hopened => by simp [Session.start, ofDial] at hopened

theorem step (h : s.Whole) (event : Event) : (s.step event).Whole := kept_whole.step h event

theorem run (h : s.Whole) (events : List Event) : (s.run events).Whole := kept_whole.run h events

end Whole

end Connection.Session

end MemcachedClient
