import MemcachedClient.Connection.Exchange
import MemcachedClient.Proofs.Response.Alone

/-!
# Exchanges hop by hop

One poll runs an exchange as far as it can: it may take the lock of the send half, write the whole
request, take its turn and read its reply, all at once. `Exchange.Hop` cuts that into hops, each of
which ends in a place where the exchange could have been found by the next poll: to ask for a lock, to
take it or not, to join the turns, to write, to take the turn or not, to read. `Exchange.hops_poll`
says that every poll is a chain of hops, so what every hop keeps, every poll keeps.

A hop is labelled with the number of exchanges that it makes join the turns, 0 or 1, and with the
items that it puts into the channel.
-/

namespace MemcachedClient

open Response

/-- The connection after some bytes were taken from its stream. -/
def Connection.after (c : Connection) (r : Reader) : Connection :=
  { c with socket := { c.socket with feed := r.feed }, receiveHalf := some r.buffer }

namespace Exchange

/-- The items that were put into a channel. -/
def added (before after : ItemChannel) : List Item :=
  (after.queue.drop before.queue.length).filterMap Except.toOption

theorem added_self (channel : ItemChannel) : added channel channel = [] := by
  rw [added, List.drop_length]
  rfl

theorem added_of_grew {before after : ItemChannel} {new : List Item}
    (h : Reply.Grew before after new) : added before after = new := by
  rw [h, added, List.drop_left, List.filterMap_map]
  exact List.filterMap_some

/-- Whether a poll makes an exchange join the turns: it takes the lock of the send half on an open
connection. -/
def joins (x : Exchange) (c : Connection) : Bool :=
  match x.phase with
  | .ready => c.sendLock.enter.1 && (c.isOpened && c.sendHalf)
  | .awaitingSend place => (c.sendLock.poll place).1 && (c.isOpened && c.sendHalf)
  | _ => false

/-- One hop of an exchange on a connection. -/
inductive Hop (clocks : Clocks) : Exchange × Connection → ℕ → List Item → Exchange × Connection →
    Prop where
  /-- It asks for the lock of the send half. -/
  | askSend {x : Exchange} {c : Connection} (phase : x.phase = .ready) :
    Hop clocks (x, c) 0 []
      ({ x with phase := .awaitingSend c.sendLock.wait.1 },
        { c with sendLock := c.sendLock.wait.2 })
  /-- It waits for the lock of the send half. -/
  | waitSend {x : Exchange} {c : Connection} {place : Handle}
    (phase : x.phase = .awaitingSend place) (quiet : (c.sendLock.poll place).1 = false) :
    Hop clocks (x, c) 0 []
      ({ x with phase := .awaitingSend (c.sendLock.poll place).2.1 },
        { c with sendLock := (c.sendLock.poll place).2.2 })
  /-- It finds that the connection is not open, or without its send half. -/
  | refuse {x : Exchange} {c : Connection} {place : Handle}
    (phase : x.phase = .awaitingSend place) (taken : (c.sendLock.poll place).1 = true)
    {effects : List Effect}
    (shut : c.lifecycle = .opened ∧ c.sendHalf = false ∧ effects = [.unlockSend] ∨
      c.lifecycle ≠ .opened ∧ effects = [.dropSendIfOver, .unlockSend]) :
    Hop clocks (x, c) 0 []
      ({ x with phase := .finished (.error (.invalidState c.lifecycle)) },
        { c with sendLock := (c.sendLock.poll place).2.2 }.applyAll effects)
  /-- It joins the turns, and has its request to write. -/
  | join {x : Exchange} {c : Connection} {place : Handle}
    (phase : x.phase = .awaitingSend place) (taken : (c.sendLock.poll place).1 = true)
    (opened : c.lifecycle = .opened) :
    Hop clocks (x, c) 1 []
      ({ x with phase := .sending (x.command.request clocks.wall) c.turns.wait.1 },
        { c with sendLock := (c.sendLock.poll place).2.2, turns := c.turns.wait.2 })
  /-- It fails to write. -/
  | sendFail {x : Exchange} {c : Connection} {bytes : Bytes} {turn : Handle} {cause : IoError}
    (phase : x.phase = .sending bytes turn) (failed : c.socket.write bytes = .failed cause) :
    Hop clocks (x, c) 0 []
      ({ x with phase := .finished (.error (.io cause)) },
        c.applyAll [.dropSend, .fault, .leaveTurn turn, .unlockSend])
  /-- It writes what is left of its request. -/
  | sendAll {x : Exchange} {c : Connection} {bytes : Bytes} {turn : Handle} {socket : Socket}
    (phase : x.phase = .sending bytes turn) (wrote : c.socket.write bytes = .wrote [] socket) :
    Hop clocks (x, c) 0 []
      ({ x with phase := .awaitingTurn turn },
        { c with socket }.applyAll [.dropSendIfOver, .unlockSend])
  /-- It writes some bytes. -/
  | sendSome {x : Exchange} {c : Connection} {bytes rest : Bytes} {turn : Handle} {socket : Socket}
    (phase : x.phase = .sending bytes turn) (wrote : c.socket.write bytes = .wrote rest socket) :
    Hop clocks (x, c) 0 [] ({ x with phase := .sending rest turn }, { c with socket })
  /-- It waits for its turn. -/
  | waitTurn {x : Exchange} {c : Connection} {turn : Handle} (phase : x.phase = .awaitingTurn turn)
    (quiet : (c.turns.poll turn).1 = false) :
    Hop clocks (x, c) 0 []
      ({ x with phase := .awaitingTurn (c.turns.poll turn).2.1 },
        { c with turns := (c.turns.poll turn).2.2 })
  /-- It takes its turn, and asks for the lock of the receive half. -/
  | takeTurn {x : Exchange} {c : Connection} {turn : Handle} (phase : x.phase = .awaitingTurn turn)
    (taken : (c.turns.poll turn).1 = true) :
    Hop clocks (x, c) 0 []
      ({ x with phase := .awaitingReceive c.receiveLock.wait.1 },
        { c with turns := (c.turns.poll turn).2.2, receiveLock := c.receiveLock.wait.2 })
  /-- It waits for the lock of the receive half. -/
  | waitReceive {x : Exchange} {c : Connection} {place : Handle}
    (phase : x.phase = .awaitingReceive place) (quiet : (c.receiveLock.poll place).1 = false) :
    Hop clocks (x, c) 0 []
      ({ x with phase := .awaitingReceive (c.receiveLock.poll place).2.1 },
        { c with receiveLock := (c.receiveLock.poll place).2.2 })
  /-- It finds that the connection is not open any more, or without its receive half. -/
  | refuseReceive {x : Exchange} {c : Connection} {place : Handle}
    (phase : x.phase = .awaitingReceive place) (taken : (c.receiveLock.poll place).1 = true)
    {effects : List Effect}
    (shut : c.lifecycle = .opened ∧ c.receiveHalf = none ∧
        effects = [.unlockReceive, .fault, .passTurn] ∨
      c.lifecycle ≠ .opened ∧ effects = [.dropReceiveIfOver, .unlockReceive, .fault, .passTurn]) :
    Hop clocks (x, c) 0 []
      ({ x with phase := .finished (.error (.invalidState c.lifecycle)) },
        { c with receiveLock := (c.receiveLock.poll place).2.2 }.applyAll effects)
  /-- It begins to read its reply. -/
  | startReading {x : Exchange} {c : Connection} {place : Handle}
    (phase : x.phase = .awaitingReceive place) (taken : (c.receiveLock.poll place).1 = true)
    (opened : c.lifecycle = .opened) :
    Hop clocks (x, c) 0 []
      ({ x with phase := .reading (.start x.command) none },
        { c with receiveLock := (c.receiveLock.poll place).2.2 })
  /-- It reads on. -/
  | read {x : Exchange} {c : Connection} {reply : Reply} {since : Option Duration} {buffer : Bytes}
    (phase : x.phase = .reading reply since) (half : c.receiveHalf = some buffer)
    {result : Exchange × Connection} (reads : x.read c clocks buffer reply since = result) :
    Hop clocks (x, c) 0 (added x.channel result.1.channel) result

/-- Who finds the connection without its receive half or not open any more faults it, and leaves the sending side
alone. -/
theorem faults_of_shut {c : Connection} {effects : List Effect}
    (shut : c.lifecycle = .opened ∧ c.receiveHalf = none ∧
        effects = [.unlockReceive, .fault, .passTurn] ∨
      c.lifecycle ≠ .opened ∧ effects = [.dropReceiveIfOver, .unlockReceive, .fault, .passTurn]) :
    .fault ∈ effects ∧ ∀ effect ∈ effects, effect ≠ .dropSend ∧ effect ≠ .unlockSend ∧
      ∀ place, effect ≠ .leaveSend place := by
  rcases shut with ⟨-, -, rfl⟩ | ⟨-, rfl⟩ <;> simp

/-- A chain of hops. -/
inductive Hops (clocks : Clocks) : Exchange × Connection → ℕ → List Item → Exchange × Connection →
    Prop where
  /-- No hop. -/
  | refl (a : Exchange × Connection) : Hops clocks a 0 [] a
  /-- A hop, and more. -/
  | head {a b d : Exchange × Connection} {joins more : ℕ} {new rest : List Item}
    (hop : Hop clocks a joins new b) (hops : Hops clocks b more rest d) :
    Hops clocks a (joins + more) (new ++ rest) d

theorem Hop.hops {clocks : Clocks} {a b : Exchange × Connection} {joins : ℕ} {new : List Item}
    (h : Hop clocks a joins new b) : Hops clocks a joins new b := by
  have := Hops.head h (.refl b)
  rwa [Nat.add_zero, List.append_nil] at this

section read

variable (x : Exchange) (c : Connection) (clocks : Clocks) (buffer : Bytes) (reply : Reply)
  (since : Option Duration)

/-- What reading on comes to: the outcome, more to read, or a failure. -/
theorem read_cases {progress : Progress Reply.State Reply.Answer} {r : Reader}
    (hread : (Reader.mk buffer c.socket.feed none 0).readReply x.command (reply, x.channel) =
      (progress, r)) :
    (∃ outcome channel, progress = .done (.ok outcome, channel) ∧
      x.read c clocks buffer reply since = ({ x with phase := .finished (.ok outcome), channel },
        (c.after r).applyAll [.dropReceiveIfOver, .unlockReceive, .passTurn])) ∨
    (∃ state since', (progress = .held state ∨ progress = .waiting state) ∧
      x.read c clocks buffer reply since =
        ({ x with phase := .reading state.1 since', channel := state.2 }, c.after r)) ∨
    ∃ cause channel, x.read c clocks buffer reply since =
      ({ x with phase := .finished (.error cause), channel },
        (c.after r).applyAll [.dropReceive, .fault, .unlockReceive, .passTurn]) := by
  rw [read, hread]
  dsimp only
  cases progress with
  | done answer =>
    obtain ⟨result, channel⟩ := answer
    cases result with
    | ok outcome => exact Or.inl ⟨outcome, channel, rfl, rfl⟩
    | error cause => exact Or.inr (Or.inr ⟨cause, channel, rfl⟩)
  | held state => exact Or.inr (Or.inl ⟨state, none, Or.inl rfl, rfl⟩)
  | waiting state =>
    dsimp only
    generalize (if ¬ c.socket.feed.events.isEmpty = true then clocks.elapsed
      else since.getD clocks.elapsed) = since'
    split
    · exact Or.inr (Or.inr ⟨_, _, rfl⟩)
    · exact Or.inr (Or.inl ⟨state, _, Or.inr rfl, rfl⟩)
  | ended state => exact Or.inr (Or.inr ⟨_, _, rfl⟩)
  | failed state cause => exact Or.inr (Or.inr ⟨_, _, rfl⟩)
  | timedOut state => exact Or.inr (Or.inr ⟨_, _, rfl⟩)

@[simp] theorem command_read : (x.read c clocks buffer reply since).1.command = x.command := by
  rcases x.read_cases c clocks buffer reply since rfl with
    ⟨_, _, -, h⟩ | ⟨_, _, -, h⟩ | ⟨_, _, h⟩ <;> rw [h]

end read

/-- An exchange is about one command. -/
theorem Hop.command {clocks : Clocks} {a b : Exchange × Connection} {joins : ℕ} {new : List Item}
    (h : Hop clocks a joins new b) : b.1.command = a.1.command := by
  cases h with
  | read phase half reads =>
    rw [← reads]
    exact command_read ..
  | _ => rfl

theorem Hops.command {clocks : Clocks} {a b : Exchange × Connection} {joins : ℕ} {new : List Item}
    (h : Hops clocks a joins new b) : b.1.command = a.1.command := by
  induction h with
  | refl => rfl
  | head hop _ ih => exact ih.trans hop.command

section poll

variable (x : Exchange) (c : Connection) (clocks : Clocks)

theorem isOpened_iff {c : Connection} : c.isOpened = true ↔ c.lifecycle = .opened := by
  simp [Connection.isOpened]

theorem hops_awaitReceive (place : Handle) :
    Hops clocks ({ x with phase := .awaitingReceive place }, c) 0
      (added x.channel (x.awaitReceive c clocks place).1.channel)
      (x.awaitReceive c clocks place) := by
  cases htaken : (c.receiveLock.poll place).1 with
  | false =>
    simp only [awaitReceive, htaken, Bool.false_eq_true, if_false, added_self]
    exact (Hop.waitReceive (x := { x with phase := .awaitingReceive place }) rfl htaken).hops
  | true =>
    have hrefuse : ∀ {effects : List Effect}, _ → Hop clocks ({ x with phase := .awaitingReceive place }, c)
        0 [] _ := fun {effects} => @Hop.refuseReceive clocks _ _ _ rfl htaken effects
    simp only [awaitReceive, htaken, if_true, holdReceive]
    split
    · next hopened =>
      have hstart : Hop clocks ({ x with phase := .awaitingReceive place }, c) 0 [] _ :=
        .startReading rfl htaken (isOpened_iff.mp hopened)
      split
      · next buffer hhalf =>
        exact .head hstart (Hop.read (x := { x with phase := .reading (.start x.command) none })
          (c := { c with receiveLock := (c.receiveLock.poll place).2.2 }) rfl hhalf rfl).hops
      · next hhalf =>
        rw [conclude, added_self]
        exact (hrefuse (Or.inl ⟨isOpened_iff.mp hopened, hhalf, rfl⟩)).hops
    · next hclosed =>
      rw [conclude, added_self]
      exact (hrefuse (Or.inr ⟨fun hopened => hclosed (isOpened_iff.mpr hopened), rfl⟩)).hops

theorem hops_awaitTurn (turn : Handle) :
    Hops clocks ({ x with phase := .awaitingTurn turn }, c) 0
      (added x.channel (x.awaitTurn c clocks turn).1.channel) (x.awaitTurn c clocks turn) := by
  cases htaken : (c.turns.poll turn).1 with
  | false =>
    simp only [awaitTurn, htaken, Bool.false_eq_true, if_false, added_self]
    exact (Hop.waitTurn (x := { x with phase := .awaitingTurn turn }) rfl htaken).hops
  | true =>
    have htake : Hop clocks ({ x with phase := .awaitingTurn turn }, c) 0 [] _ :=
      .takeTurn rfl htaken
    simp only [awaitTurn, htaken, if_true]
    exact .head htake (hops_awaitReceive x _ clocks _)

theorem hops_send (bytes : Bytes) (turn : Handle) :
    Hops clocks ({ x with phase := .sending bytes turn }, c) 0
      (added x.channel (x.send c clocks bytes turn).1.channel) (x.send c clocks bytes turn) := by
  rw [send]
  split
  · next hfailed =>
    rw [conclude, added_self]
    exact (Hop.sendFail (x := { x with phase := .sending bytes turn }) rfl hfailed).hops
  · next socket hwrote =>
    exact .head (Hop.sendAll (x := { x with phase := .sending bytes turn }) rfl hwrote)
      (hops_awaitTurn x _ clocks turn)
  · next hwrote =>
    rw [added_self]
    exact (Hop.sendSome (x := { x with phase := .sending bytes turn }) rfl hwrote).hops

theorem hops_awaitSend (place : Handle) :
    Hops clocks ({ x with phase := .awaitingSend place }, c)
      ((c.sendLock.poll place).1 && (c.isOpened && c.sendHalf)).toNat
      (added x.channel (x.awaitSend c clocks place).1.channel) (x.awaitSend c clocks place) := by
  cases htaken : (c.sendLock.poll place).1 with
  | false =>
    simp only [awaitSend, htaken, Bool.false_eq_true, if_false, added_self, Bool.false_and,
      Bool.toNat_false]
    exact (Hop.waitSend (x := { x with phase := .awaitingSend place }) rfl htaken).hops
  | true =>
    have hrefuse : ∀ {effects : List Effect}, _ → Hop clocks ({ x with phase := .awaitingSend place }, c)
        0 [] _ := fun {effects} => @Hop.refuse clocks _ _ _ rfl htaken effects
    have hsame : Connection.isOpened { c with sendLock := (c.sendLock.poll place).2.2 } =
        c.isOpened := rfl
    simp only [awaitSend, htaken, if_true, holdSend, Bool.true_and, hsame]
    cases hopened : c.isOpened with
    | false =>
      have hclosed : c.lifecycle ≠ .opened := fun h => by simp [isOpened_iff.mpr h] at hopened
      rw [if_neg (by simp), conclude, added_self]
      exact (hrefuse (Or.inr ⟨hclosed, rfl⟩)).hops
    | true =>
      rw [if_pos rfl]
      by_cases hhalf : c.sendHalf = true
      · have hjoin : Hop clocks ({ x with phase := .awaitingSend place }, c) 1 [] _ :=
          .join rfl htaken (isOpened_iff.mp hopened)
        rw [if_pos hhalf, show (true && c.sendHalf).toNat = 1 by rw [hhalf]; rfl]
        exact .head hjoin (hops_send x _ clocks _ _)
      · rw [if_neg hhalf, conclude, added_self,
          show (true && c.sendHalf).toNat = 0 by rw [Bool.not_eq_true] at hhalf; rw [hhalf]; rfl]
        exact (hrefuse (Or.inl ⟨isOpened_iff.mp hopened, by simpa using hhalf, rfl⟩)).hops

/-- **Every poll is a chain of hops.** -/
theorem hops_poll :
    Hops clocks (x, c) (x.joins c).toNat (added x.channel (x.poll c clocks).1.channel)
      (x.poll c clocks) := by
  obtain ⟨command, phase, channel⟩ := x
  cases phase with
  | ready =>
    have hask : Hop clocks (⟨command, .ready, channel⟩, c) 0 [] _ := .askSend rfl
    have hawait := hops_awaitSend ⟨command, .ready, channel⟩
      { c with sendLock := c.sendLock.wait.2 } clocks c.sendLock.wait.1
    have hhops := Hops.head hask hawait
    rw [Nat.zero_add, List.nil_append] at hhops
    exact hhops
  | awaitingSend place => exact hops_awaitSend ⟨command, .ready, channel⟩ c clocks place
  | sending rest turn => exact hops_send ⟨command, .ready, channel⟩ c clocks rest turn
  | awaitingTurn turn => exact hops_awaitTurn ⟨command, .ready, channel⟩ c clocks turn
  | awaitingReceive place => exact hops_awaitReceive ⟨command, .ready, channel⟩ c clocks place
  | reading reply since =>
    rw [poll]
    dsimp only
    split
    · next buffer hhalf => exact (Hop.read rfl hhalf rfl).hops
    · rw [added_self]
      exact .refl _
  | finished result =>
    rw [poll, added_self]
    exact .refl _
  | dropped =>
    rw [poll, added_self]
    exact .refl _

end poll

end Exchange

end MemcachedClient
