import MemcachedClient.Proofs.Connection.Effect
import MemcachedClient.Proofs.Connection.Transcript

/-!
# Whose reply is read

The exchanges that joined the turns are those that were answered, in front, and the rest, who stand in
line (`Transcript.Ordered`). Only the head of the rest reads, it reads what comes after the replies to
those in front, and what it has read is the beginning of its own reply. An exchange that ends in flight
faults the connection, and from then on nobody joins the line and nobody begins to read: the order of
the turns has to be right only while the connection is not over (`Transcript.Live`). Whoever reads at
that moment may read on to the end of its reply.
-/

namespace MemcachedClient

open Response

namespace Exchange.Phase

/-- The place among the turns of an exchange in flight. -/
def turn? : Phase → Option Handle
  | sending _ turn => some turn
  | awaitingTurn turn => some turn
  | awaitingReceive _ => some .acquired
  | reading .. => some .acquired
  | _ => none

/-- Whether the exchange is past joining the turns. -/
def hasJoined : Phase → Bool
  | ready => false
  | awaitingSend _ => false
  | _ => true

/-- Whether the exchange has not begun to read, and has not ended. -/
def isWaiting : Phase → Bool
  | reading .. => false
  | finished _ => false
  | dropped => false
  | _ => true

/-- Whether the exchange reads its reply. -/
def isReading : Phase → Bool
  | reading .. => true
  | _ => false

/-- Whether the exchange has ended without an outcome. -/
def isFailed : Phase → Bool
  | finished (.error _) => true
  | dropped => true
  | _ => false

variable {phase : Phase}

theorem exists_of_isReading (h : phase.isReading = true) :
    ∃ state since, phase = .reading state since := by
  cases phase <;> simp_all [isReading]

theorem turn?_of_isReading (h : phase.isReading = true) : phase.turn? = some .acquired := by
  cases phase <;> simp_all [isReading, turn?]

theorem isReading_of_isWaiting (h : phase.isWaiting = true) : phase.isReading = false := by
  cases phase <;> simp_all [isWaiting, isReading]

theorem hasJoined_of_isFailed (h : phase.isFailed = true) : phase.hasJoined = true := by
  cases phase <;> simp_all [isFailed, hasJoined]

theorem turn?_of_isFailed (h : phase.isFailed = true) : phase.turn? = none := by
  cases phase <;> simp_all [isFailed, turn?]

theorem isWaiting_of_isFailed (h : phase.isFailed = true) : phase.isWaiting = false := by
  cases phase <;> simp_all [isFailed, isWaiting]

end Exchange.Phase

namespace Connection.Transcript

/-- These bytes were taken from the stream, as far as that can be said: what is not read comes after
them. -/
def Took (t : Transcript) (taken : Bytes) : Prop :=
  ∀ unread, t.session.connection.unread? = some unread → t.received = taken ++ unread

/-- The places among the turns of some senders. -/
def turns (exchanges : Table Exchange) (senders : Table Command) : List (Option Handle) :=
  senders.map fun sender => (exchanges.get? sender.1).bind (·.phase.turn?)

/-- Nobody reads a reply. -/
def Idle (t : Transcript) : Prop :=
  ∀ name x, t.session.exchanges.get? name = some x → x.phase.isReading = false

variable (reply : ℕ → Bytes)

/-- An exchange that is where it should be, when those in `done` were answered and those in `rest` stand
in line. -/
structure InPlace (t : Transcript) (done rest : Table Command) (name : String) (x : Exchange) :
    Prop where
  /-- In flight it stands in line. -/
  flying : ∀ turn, x.phase.turn? = some turn → (name, x.command) ∈ rest
  /-- Before it begins to read, nothing is in its channel. -/
  waiting : x.phase.isWaiting = true → t.handed name = []
  /-- If it reads, it is the head of the line, and has its own reply before it. -/
  reading : ∀ state since, x.phase = .reading state since →
    (∃ tail, rest = (name, x.command) :: tail) ∧ ∃ taken left, t.Took taken ∧
      taken ++ left = replies reply (done.length + 1) ∧
      Reply.Tracks x.command (reply done.length) left (t.handed name) (state, x.channel)
  /-- Its outcome is what the reply to it means. -/
  answered : ∀ outcome, x.phase = .finished (.ok outcome) →
    ∃ i, t.senders[i]? = some (name, x.command) ∧
      Reply.Answers x.command (reply i) outcome (t.handed name) x.channel.consuming

/-- What holds as long as the connection is not over. -/
structure Live (t : Transcript) (done rest : Table Command) : Prop where
  /-- The turns are in the order of the line. -/
  lined : ∃ handles, turns t.session.exchanges rest = handles.map some ∧
    t.session.connection.turns.Lines handles
  /-- If nobody reads, the next reply is before the connection. -/
  idle : t.session.connection.lifecycle = .opened → t.Idle → t.Took (replies reply done.length)
  /-- Nothing has happened before the connection is open. -/
  early : t.session.connection.lifecycle ≠ .opened → t.senders = [] ∧
    t.session.connection.unread? = none ∧ t.received = t.session.connection.socket.feed.bytes

/-- Those in `done` were answered and those in `rest` stand in line, and every exchange is where it
should be. -/
structure Ordered (t : Transcript) (done rest : Table Command) : Prop where
  /-- They are those that joined the turns, in the order of joining. -/
  senders : t.senders = done ++ rest
  /-- Everybody joins once. -/
  distinct : t.senders.Distinct
  /-- Nobody who joined is forgotten. -/
  joined : ∀ sender ∈ t.senders, ∃ x, t.session.exchanges.get? sender.1 = some x ∧
    x.phase.hasJoined = true
  /-- Nothing was handed to anybody who is not there. -/
  fresh : ∀ name, t.session.exchanges.get? name = none → t.handed name = []
  /-- Every exchange is in its place. -/
  inPlace : ∀ name x, t.session.exchanges.get? name = some x → InPlace reply t done rest name x
  /-- The line is in order while it matters. -/
  live : t.session.connection.lifecycle.isOver = false → Live reply t done rest

variable {reply} {t : Transcript} {done rest : Table Command} {name other : String}
  {x x' y : Exchange} {c' : Connection} {joins : ℕ} {new : List Item} {taken : Bytes}

/-- The bytes that are not read come after those that were taken, also when they are given up. -/
theorem Took.put (h : t.Took taken)
    (hunread : c'.unread? = none ∨ c'.unread? = t.session.connection.unread?) :
    (t.put name x' c' joins new).Took taken := by
  intro unread hc
  rcases hunread with hnone | hsame
  · rw [connection_put, hnone] at hc
    simp at hc
  · exact h unread (hsame ▸ hc)

/-! ### Places -/

/-- An exchange that waits as before is in its place. -/
theorem InPlace.of_waiting (h : InPlace reply t done rest name x) (hcommand : x'.command = x.command)
    (hwaiting : x.phase.isWaiting = true) (hwaiting' : x'.phase.isWaiting = true)
    (hturn : x'.phase.turn?.isSome → x.phase.turn?.isSome) :
    InPlace reply (t.put name x' c' joins []) done rest name x' where
  flying turn hsome := by
    obtain ⟨before, hbefore⟩ := Option.isSome_iff_exists.mp (hturn (by rw [hsome]; rfl))
    rw [hcommand]
    exact h.flying before hbefore
  waiting _ := by rw [handed_put_self, h.waiting hwaiting, List.append_nil]
  reading state since hphase := by simp [hphase, Exchange.Phase.isWaiting] at hwaiting'
  answered outcome hphase := by simp [hphase, Exchange.Phase.isWaiting] at hwaiting'

/-- An exchange that has ended without an outcome is in its place. -/
theorem InPlace.of_failed (hfailed : x'.phase.isFailed = true) : InPlace reply t done rest name x' where
  flying turn hturn := by
    rw [Exchange.Phase.turn?_of_isFailed hfailed] at hturn
    simp at hturn
  waiting hwaiting := by
    rw [Exchange.Phase.isWaiting_of_isFailed hfailed] at hwaiting
    simp at hwaiting
  reading state since hphase := by simp [hphase, Exchange.Phase.isFailed] at hfailed
  answered outcome hphase := by simp [hphase, Exchange.Phase.isFailed] at hfailed

/-- What one exchange does leaves the others in their places: the line keeps them, and if one of them
reads, it is still the head, and nothing is taken from the stream. -/
theorem InPlace.of_ne (h : InPlace reply t done rest other y) (hne : other ≠ name)
    {done' rest' : Table Command} (hrest : ∀ sender ∈ rest, sender.1 ≠ name → sender ∈ rest')
    (hreading : y.phase.isReading = true → done' = done ∧ (∃ more, rest' = rest ++ more) ∧
      ∀ taken, t.Took taken → (t.put name x' c' joins new).Took taken) :
    InPlace reply (t.put name x' c' joins new) done' rest' other y where
  flying turn hturn := hrest _ (h.flying turn hturn) hne
  waiting hwaiting := by rw [handed_put_of_ne _ _ _ _ _ _ hne, h.waiting hwaiting]
  reading state since hphase := by
    obtain ⟨rfl, ⟨more, rfl⟩, htook⟩ := hreading (by rw [hphase]; rfl)
    obtain ⟨⟨tail, rfl⟩, taken, left, htaken, hleft, htracks⟩ := h.reading state since hphase
    refine ⟨⟨tail ++ more, rfl⟩, taken, left, htook taken htaken, hleft, ?_⟩
    rwa [handed_put_of_ne _ _ _ _ _ _ hne]
  answered outcome hphase := by
    obtain ⟨i, hi, hanswers⟩ := h.answered outcome hphase
    refine ⟨i, ?_, by rwa [handed_put_of_ne _ _ _ _ _ _ hne]⟩
    obtain ⟨hlt, -⟩ := List.getElem?_eq_some_iff.mp hi
    rw [← hi, senders_put]
    exact List.getElem?_append_left hlt

/-! ### One exchange moves -/

theorem turns_put_of_ne (exchanges : Table Exchange) (x' : Exchange)
    (h : ∀ sender ∈ rest, sender.1 ≠ name) :
    turns (exchanges.put name x') rest = turns exchanges rest :=
  List.map_congr_left fun sender hmem => by rw [Table.get?_put_of_ne _ _ (h sender hmem)]

theorem turns_put (rest : Table Command) {exchanges : Table Exchange}
    (hget : exchanges.get? name = some x) (x' : Exchange) (hturn : x'.phase.turn? = x.phase.turn?) :
    turns (exchanges.put name x') rest = turns exchanges rest := by
  refine List.map_congr_left fun sender _ => ?_
  by_cases hname : sender.1 = name
  · rw [hname, Table.get?_put_self, hget]
    exact hturn
  · rw [Table.get?_put_of_ne _ _ hname]

/-- If nobody reads, nobody has stopped reading, unless it has just been. -/
theorem Idle.of_put (hidle : (t.put name x' c' joins new).Idle)
    (hreading : ∀ x, t.session.exchanges.get? name = some x → x.phase.isReading = true →
      x'.phase.isReading = true) : t.Idle := by
  intro other y hother
  by_cases hname : other = name
  · subst hname
    have hidle' := hidle other x' (Table.get?_put_self _ _ _)
    by_contra hy
    rw [hreading y hother (by simpa using hy)] at hidle'
    simp at hidle'
  · exact hidle other y (by rwa [exchanges_put, Table.get?_put_of_ne _ _ hname])

/-- The line stays in order if an exchange keeps its place and nothing happens to the turns. -/
theorem Live.put (h : Live reply t done rest) (hget : t.session.exchanges.get? name = some x)
    (hturn : x'.phase.turn? = x.phase.turn?)
    (hreading : x.phase.isReading = true → x'.phase.isReading = true)
    (hcalm : t.session.connection.Calm c') : Live reply (t.put name x' c' 0 new) done rest where
  lined := by
    obtain ⟨handles, hturns, hlines⟩ := h.lined
    exact ⟨handles, (turns_put _ hget x' hturn).trans hturns, hcalm.turns ▸ hlines⟩
  idle hopened hidle := by
    refine (h.idle (hcalm.lifecycle ▸ hopened) (hidle.of_put fun y hy => ?_)).put hcalm.unread
    rw [hget, Option.some.injEq] at hy
    rwa [← hy]
  early hopened := by
    obtain ⟨hsenders, hunread, hreceived⟩ := h.early (hcalm.lifecycle ▸ hopened)
    refine ⟨by rw [senders_put_zero, hsenders], ?_, ?_⟩
    · rcases hcalm.unread with hnone | hsame
      · exact hnone
      · exact hsame.trans hunread
    · exact hreceived.trans (congrArg Feed.bytes hcalm.feed).symm

namespace Ordered

/-- Whoever reads is the head of the line. -/
theorem head_of_reading (h : Ordered reply t done rest)
    (hget : t.session.exchanges.get? name = some x) (hx : x.phase.isReading = true) :
    ∃ tail, rest = (name, x.command) :: tail := by
  obtain ⟨state, since, hphase⟩ := Exchange.Phase.exists_of_isReading hx
  exact ((h.inPlace name x hget).reading state since hphase).1

theorem name_eq_of_reading (h : Ordered reply t done rest)
    (hget : t.session.exchanges.get? name = some x) (hx : x.phase.isReading = true)
    (hother : t.session.exchanges.get? other = some y) (hy : y.phase.isReading = true) :
    other = name := by
  obtain ⟨tail, hrest⟩ := h.head_of_reading hget hx
  obtain ⟨tail', hrest'⟩ := h.head_of_reading hother hy
  rw [hrest, List.cons.injEq, Prod.mk.injEq] at hrest'
  exact hrest'.1.1.symm

/-- One exchange moves. -/
theorem move (h : Ordered reply t done rest) {done' rest' : Table Command}
    (hsenders : (t.put name x' c' joins new).senders = done' ++ rest')
    (hdistinct : (t.put name x' c' joins new).senders.Distinct)
    (hjoined : ∀ sender ∈ (t.put name x' c' joins new).senders, sender.1 = name →
      x'.phase.hasJoined = true)
    (hplace : InPlace reply (t.put name x' c' joins new) done' rest' name x')
    (hothers : ∀ other y, t.session.exchanges.get? other = some y → other ≠ name →
      InPlace reply (t.put name x' c' joins new) done' rest' other y)
    (hlive : c'.lifecycle.isOver = false → Live reply (t.put name x' c' joins new) done' rest') :
    Ordered reply (t.put name x' c' joins new) done' rest' where
  senders := hsenders
  distinct := hdistinct
  joined sender hmem := by
    by_cases hname : sender.1 = name
    · exact ⟨x', by rw [hname]; exact Table.get?_put_self _ _ _, hjoined sender hmem hname⟩
    · rw [senders_put] at hmem
      rcases List.mem_append.mp hmem with hmem | hmem
      · obtain ⟨y, hy, hphase⟩ := h.joined sender hmem
        exact ⟨y, by rwa [exchanges_put, Table.get?_put_of_ne _ _ hname], hphase⟩
      · rw [List.eq_of_mem_replicate hmem] at hname
        exact absurd rfl hname
  fresh other hother := by
    rw [exchanges_put, Table.get?_put] at hother
    split at hother
    · simp at hother
    · next hname => rw [handed_put_of_ne _ _ _ _ _ _ hname, h.fresh other hother]
  inPlace other y hother := by
    rcases Table.eq_or_of_get?_put hother with ⟨rfl, rfl⟩ | ⟨hname, hother⟩
    · exact hplace
    · exact hothers other y hother hname
  live := hlive

/-- One exchange moves, and nobody joins the line or leaves it. -/
theorem stay (h : Ordered reply t done rest)
    (hjoined : ∀ sender ∈ t.senders, sender.1 = name → x'.phase.hasJoined = true)
    (hplace : InPlace reply (t.put name x' c' 0 new) done rest name x')
    (hothers : (∃ x, t.session.exchanges.get? name = some x ∧ x.phase.isReading = true) ∨
      c'.unread? = none ∨ c'.unread? = t.session.connection.unread?)
    (hlive : c'.lifecycle.isOver = false → Live reply (t.put name x' c' 0 new) done rest) :
    Ordered reply (t.put name x' c' 0 new) done rest := by
  refine h.move (by rw [senders_put_zero, h.senders]) (by rw [senders_put_zero]; exact h.distinct)
    (by rw [senders_put_zero]; exact hjoined) hplace (fun other y hother hname => ?_) hlive
  refine (h.inPlace other y hother).of_ne hname (fun sender hmem _ => hmem) fun hreading => ?_
  refine ⟨rfl, ⟨[], (List.append_nil _).symm⟩, fun taken htook => ?_⟩
  rcases hothers with ⟨x, hget, hx⟩ | hunread
  · exact absurd (h.name_eq_of_reading hget hx hother hreading) hname
  · exact htook.put hunread

/-- An exchange that joined the turns is not told otherwise. -/
theorem hasJoined_of_mem (h : Ordered reply t done rest)
    (hget : t.session.exchanges.get? name = some x) {sender : String × Command}
    (hmem : sender ∈ t.senders) (hname : sender.1 = name) : x.phase.hasJoined = true := by
  obtain ⟨y, hy, hphase⟩ := h.joined sender hmem
  rw [hname, hget, Option.some.injEq] at hy
  rwa [hy]

/-- An exchange waits on. -/
theorem wait (h : Ordered reply t done rest) (hget : t.session.exchanges.get? name = some x)
    (hcommand : x'.command = x.command) (hjoined : x.phase.hasJoined = true → x'.phase.hasJoined = true)
    (hwaiting : x.phase.isWaiting = true) (hwaiting' : x'.phase.isWaiting = true)
    (hturn : x'.phase.turn? = x.phase.turn?) (hcalm : t.session.connection.Calm c') :
    Ordered reply (t.put name x' c' 0 []) done rest := by
  refine h.stay (fun sender hmem hname => hjoined (h.hasJoined_of_mem hget hmem hname)) ?_
    (Or.inr hcalm.unread) fun hover => ?_
  · exact (h.inPlace name x hget).of_waiting hcommand hwaiting hwaiting' fun hsome => hturn ▸ hsome
  · refine (h.live (hcalm.lifecycle ▸ hover)).put hget hturn (fun hreading => ?_) hcalm
    rw [Exchange.Phase.isReading_of_isWaiting hwaiting] at hreading
    simp at hreading

/-- An exchange ends without an outcome: in flight it takes the connection with it. -/
theorem fail (h : Ordered reply t done rest) (hget : t.session.exchanges.get? name = some x)
    (hfailed : x'.phase.isFailed = true)
    (hunread : x.phase.isReading = true ∨ c'.unread? = none ∨
      c'.unread? = t.session.connection.unread?)
    (hover : c'.lifecycle.isOver = true ∨
      x.phase.turn? = none ∧ t.session.connection.Calm c') :
    Ordered reply (t.put name x' c' 0 new) done rest := by
  refine h.stay (fun _ _ _ => Exchange.Phase.hasJoined_of_isFailed hfailed) (.of_failed hfailed)
    ?_ fun hover' => ?_
  · exact hunread.imp_left fun hreading => ⟨x, hget, hreading⟩
  · rcases hover with hover | ⟨hturn, hcalm⟩
    · rw [hover] at hover'
      simp at hover'
    · have hturn' := Exchange.Phase.turn?_of_isFailed hfailed
      refine (h.live (hcalm.lifecycle ▸ hover')).put hget (hturn'.trans hturn.symm)
        (fun hreading => ?_) hcalm
      rw [Exchange.Phase.turn?_of_isReading hreading] at hturn
      simp at hturn

/-- Nobody is in the line before the connection is open. -/
theorem opened_of_mem (h : Ordered reply t done rest)
    (hover : t.session.connection.lifecycle.isOver = false) {sender : String × Command}
    (hmem : sender ∈ rest) : t.session.connection.lifecycle = .opened := by
  by_contra hopened
  have hnil := ((h.live hover).early hopened).1
  rw [h.senders, List.append_eq_nil_iff] at hnil
  rw [hnil.2] at hmem
  simp at hmem

theorem ne_of_mem_tail {command : Command} {tail : Table Command}
    (h : Ordered reply t done ((name, command) :: tail)) : ∀ sender ∈ tail, sender.1 ≠ name := by
  intro sender hmem hname
  have hdistinct := h.distinct
  rw [h.senders, Table.Distinct, List.map_append, List.nodup_append, List.map_cons,
    List.nodup_cons] at hdistinct
  exact hdistinct.2.1.1 (List.mem_map.mpr ⟨sender, hmem, hname⟩)

/-- Whoever takes the turn is the head of the line. -/
theorem head_of_taken (h : Ordered reply t done rest)
    (hget : t.session.exchanges.get? name = some x)
    (hover : t.session.connection.lifecycle.isOver = false) {turn : Handle}
    (hturn : x.phase.turn? = some turn) (htaken : (t.session.connection.turns.poll turn).1 = true) :
    ∃ tail handles, rest = (name, x.command) :: tail ∧
      turns t.session.exchanges tail = handles.map some ∧
      t.session.connection.turns.Lines (turn :: handles) := by
  have hmem := (h.inPlace name x hget).flying turn hturn
  obtain ⟨handles, hturns, hlines⟩ := (h.live hover).lined
  cases rest with
  | nil => simp at hmem
  | cons sender tail =>
    cases handles with
    | nil => simp [turns] at hturns
    | cons first handles =>
      obtain ⟨hfirst, htail⟩ := List.cons.inj hturns
      have hplace : ((t.session.exchanges.get? name).bind (·.phase.turn?)) = some turn := by
        rw [hget]
        exact hturn
      rcases List.mem_cons.mp hmem with rfl | hmem
      · obtain rfl := Option.some.inj (hplace.symm.trans hfirst)
        exact ⟨tail, handles, rfl, htail, hlines⟩
      · -- those behind the head cannot take the turn
        have hsome : some turn ∈ turns t.session.exchanges tail :=
          List.mem_map.mpr ⟨_, hmem, hplace⟩
        have hmem' : turn ∈ handles := by
          rw [show turns t.session.exchanges tail = handles.map some from htail] at hsome
          obtain ⟨other, hother, heq⟩ := List.mem_map.mp hsome
          rwa [← Option.some.inj heq]
        rw [hlines.poll_eq_false_of_mem hmem'] at htaken
        simp at htaken

/-- An exchange takes its turn. -/
theorem takeTurn (h : Ordered reply t done rest) (hget : t.session.exchanges.get? name = some x)
    {turn place : Handle} (hphase : x.phase = .awaitingTurn turn)
    (htaken : (t.session.connection.turns.poll turn).1 = true)
    (hphase' : x'.phase = .awaitingReceive place) (hcommand : x'.command = x.command)
    (hlifecycle : c'.lifecycle = t.session.connection.lifecycle)
    (hturns : c'.turns = (t.session.connection.turns.poll turn).2.2)
    (hunread : c'.unread? = t.session.connection.unread?) :
    Ordered reply (t.put name x' c' 0 []) done rest := by
  refine h.stay (fun _ _ _ => by rw [hphase']; rfl) ?_ (Or.inr (Or.inr hunread)) fun hover => ?_
  · exact (h.inPlace name x hget).of_waiting hcommand (by rw [hphase]; rfl) (by rw [hphase']; rfl)
      fun _ => by rw [hphase]; rfl
  · rw [hlifecycle] at hover
    obtain ⟨tail, handles, rfl, hplaces, hlines⟩ :=
      h.head_of_taken hget hover (by rw [hphase]; rfl) htaken
    have hopened := h.opened_of_mem hover List.mem_cons_self
    refine ⟨⟨.acquired :: handles, ?_, ?_⟩, fun _ hidle => ?_, fun hopened' => ?_⟩
    · have htail := turns_put_of_ne t.session.exchanges x' h.ne_of_mem_tail
      rw [List.map_cons, ← hplaces, ← htail, turns, List.map_cons]
      simp [hphase', Exchange.Phase.turn?, turns]
    · rw [connection_put, hturns]
      exact hlines.poll
    · refine ((h.live hover).idle hopened (hidle.of_put fun y hy hreading => ?_)).put
        (Or.inr hunread)
      rw [hget, Option.some.injEq] at hy
      rw [← hy, hphase] at hreading
      simp [Exchange.Phase.isReading] at hreading
    · exact absurd (hlifecycle.trans hopened) hopened'

/-- The head of the line begins to read: the reply to it is the next one. -/
theorem startReading (h : Ordered reply t done rest)
    (hget : t.session.exchanges.get? name = some x) {place : Handle}
    (hphase : x.phase = .awaitingReceive place)
    (hopened : t.session.connection.lifecycle = .opened) (hcalm : t.session.connection.Calm c') :
    Ordered reply (t.put name { x with phase := .reading (.start x.command) none } c' 0 [])
      done rest := by
  have hover : t.session.connection.lifecycle.isOver = false := by
    rw [hopened]
    rfl
  have hturn : x.phase.turn? = some .acquired := by
    rw [hphase]
    rfl
  obtain ⟨tail, handles, rfl, hplaces, hlines⟩ := h.head_of_taken hget hover hturn rfl
  have hidle : t.Idle := by
    intro other y hother
    by_contra hreading
    rw [Bool.not_eq_false] at hreading
    obtain ⟨tail', htail'⟩ := h.head_of_reading hother hreading
    rw [List.cons.injEq, Prod.mk.injEq] at htail'
    rw [← htail'.1.1, hget, Option.some.injEq] at hother
    rw [← hother, hphase] at hreading
    simp [Exchange.Phase.isReading] at hreading
  have htook := (h.live hover).idle hopened hidle
  refine h.stay (fun _ _ _ => rfl) ?_ (Or.inr hcalm.unread) fun _ =>
    (h.live hover).put hget hturn.symm (fun _ => rfl) hcalm
  refine ⟨fun _ _ => List.mem_cons_self, fun hwaiting => ?_, fun state since hstate => ?_,
    fun outcome houtcome => ?_⟩
  · simp [Exchange.Phase.isWaiting] at hwaiting
  · have hempty : (t.put name { x with phase := .reading (.start x.command) none } c' 0 []).handed
        name = [] := by
      rw [handed_put_self, (h.inPlace name x hget).waiting (by rw [hphase]; rfl), List.append_nil]
    obtain ⟨rfl, -⟩ := Exchange.Phase.reading.inj hstate
    refine ⟨⟨tail, rfl⟩, replies reply done.length, reply done.length, htook.put hcalm.unread,
      (replies_succ _ _).symm, ?_⟩
    rw [hempty]
    exact Reply.tracks_start x.command _ x.channel
  · simp at houtcome

/-- An exchange joins the line, at its end. -/
theorem join (h : Ordered reply t done rest) (hget : t.session.exchanges.get? name = some x)
    {place : Handle} (hphase : x.phase = .awaitingSend place)
    (hopened : t.session.connection.lifecycle = .opened) {bytes : Bytes}
    (hphase' : x'.phase = .sending bytes t.session.connection.turns.wait.1)
    (hlifecycle : c'.lifecycle = t.session.connection.lifecycle)
    (hturns : c'.turns = t.session.connection.turns.wait.2)
    (hunread : c'.unread? = t.session.connection.unread?) :
    Ordered reply (t.put name x' c' 1 []) done (rest ++ [(name, x'.command)]) := by
  have hne : ∀ sender ∈ t.senders, sender.1 ≠ name := fun sender hmem hname => by
    have := h.hasJoined_of_mem hget hmem hname
    rw [hphase] at this
    simp [Exchange.Phase.hasJoined] at this
  have hsenders : (t.put name x' c' 1 []).senders = t.senders ++ [(name, x'.command)] := senders_put ..
  refine h.move (by rw [hsenders, h.senders, List.append_assoc]) ?_
    (fun _ _ _ => by rw [hphase']; rfl) ⟨fun _ _ => by simp, fun _ => ?_, fun state since hstate => ?_,
      fun outcome houtcome => ?_⟩ (fun other y hother hname => ?_) fun hover => ?_
  · rw [hsenders, Table.Distinct, List.map_append, List.nodup_append]
    refine ⟨h.distinct, List.nodup_singleton _, fun a ha b hb => ?_⟩
    obtain ⟨sender, hmem, rfl⟩ := List.mem_map.mp ha
    rw [List.map_singleton, List.mem_singleton] at hb
    rw [hb]
    exact hne sender hmem
  · rw [handed_put_self, (h.inPlace name x hget).waiting (by rw [hphase]; rfl), List.append_nil]
  · rw [hphase'] at hstate
    simp at hstate
  · rw [hphase'] at houtcome
    simp at houtcome
  · exact (h.inPlace other y hother).of_ne hname
      (fun sender hmem _ => List.mem_append_left _ hmem)
      fun _ => ⟨rfl, ⟨_, rfl⟩, fun taken htook => htook.put (Or.inr hunread)⟩
  · rw [hlifecycle] at hover
    obtain ⟨handles, hplaces, hlines⟩ := (h.live hover).lined
    refine ⟨⟨handles ++ [t.session.connection.turns.wait.1], ?_, ?_⟩, fun _ hidle => ?_,
      fun hopened' => absurd (hlifecycle.trans hopened) hopened'⟩
    · have hrest := turns_put_of_ne t.session.exchanges x' fun sender hmem =>
        hne sender (by rw [h.senders]; exact List.mem_append_right done hmem)
      rw [List.map_append, ← hplaces, ← hrest, turns, List.map_append]
      simp [hphase', Exchange.Phase.turn?, turns]
    · rw [connection_put, hturns]
      exact hlines.wait
    · refine ((h.live hover).idle hopened (hidle.of_put fun y hy hreading => ?_)).put
        (Or.inr hunread)
      rw [hget, Option.some.injEq] at hy
      rw [← hy, hphase] at hreading
      simp [Exchange.Phase.isReading] at hreading

/-! ### Reading -/

variable {tail : Table Command} {state : Reply.State} {since since' : Option Duration} {r : Reader}

/-- The head of the line has read a piece of its reply. -/
theorem readOn (h : Ordered reply t done ((name, x.command) :: tail))
    (hget : t.session.exchanges.get? name = some x) (hreading : x.phase.isReading = true)
    {left : Bytes} (hreceived : t.received = taken ++ r.bytes)
    (hleft : taken ++ left = replies reply (done.length + 1))
    (htracks : Reply.Tracks x.command (reply done.length) left (t.handed name ++ new) state) :
    Ordered reply (t.put name { x with phase := .reading state.1 since', channel := state.2 }
      (t.session.connection.after r) 0 new) done ((name, x.command) :: tail) := by
  have hturn := Exchange.Phase.turn?_of_isReading hreading
  refine h.stay (fun _ _ _ => rfl) ?_ (Or.inl ⟨x, hget, hreading⟩) fun hover => ?_
  · refine ⟨fun _ _ => List.mem_cons_self, fun hwaiting => ?_, fun state' since hstate => ?_,
      fun outcome houtcome => ?_⟩
    · simp [Exchange.Phase.isWaiting] at hwaiting
    · obtain ⟨rfl, -⟩ := Exchange.Phase.reading.inj hstate
      refine ⟨⟨tail, rfl⟩, taken, left, fun unread hunread => ?_, hleft, ?_⟩
      · obtain rfl := Option.some.inj hunread
        exact hreceived
      · rw [handed_put_self]
        exact htracks
    · simp at houtcome
  · have hopened := h.opened_of_mem hover List.mem_cons_self
    obtain ⟨handles, hplaces, hlines⟩ := (h.live hover).lined
    have hsame := turns_put ((name, x.command) :: tail) hget
      { x with phase := .reading state.1 since', channel := state.2 } hturn.symm
    refine ⟨⟨handles, hsame.trans hplaces, hlines⟩, fun _ hidle => ?_,
      fun hopened' => absurd hopened hopened'⟩
    have := hidle name _ (Table.get?_put_self _ _ _)
    simp [Exchange.Phase.isReading] at this

/-- The head of the line has its outcome with the last byte of its reply, and the next one moves up. -/
theorem finishReading (h : Ordered reply t done ((name, x.command) :: tail))
    (hget : t.session.exchanges.get? name = some x) (hreading : x.phase.isReading = true)
    {outcome : Outcome} {channel : ItemChannel}
    (hreceived : t.received = replies reply (done.length + 1) ++ r.bytes)
    (hanswers : Reply.Answers x.command (reply done.length) outcome (t.handed name ++ new)
      channel.consuming) :
    Ordered reply (t.put name { x with phase := .finished (.ok outcome), channel }
        ((t.session.connection.after r).applyAll [.dropReceiveIfOver, .unlockReceive, .passTurn])
        0 new)
      (done ++ [(name, x.command)]) tail := by
  have hturn := Exchange.Phase.turn?_of_isReading hreading
  have hsenders : t.senders = done ++ [(name, x.command)] ++ tail := by
    rw [h.senders, List.append_assoc]
    rfl
  refine h.move (by rw [senders_put_zero, hsenders]) (by rw [senders_put_zero]; exact h.distinct)
    (fun _ _ _ => rfl) ⟨fun _ hnone => ?_, fun hwaiting => ?_, fun state since hstate => ?_,
      fun outcome' houtcome => ⟨done.length, ?_, ?_⟩⟩ (fun other y hother hname => ?_) fun hover => ?_
  · simp [Exchange.Phase.turn?] at hnone
  · simp [Exchange.Phase.isWaiting] at hwaiting
  · simp at hstate
  · rw [senders_put_zero, h.senders]
    simp
  · rw [handed_put_self]
    simp only [Exchange.Phase.finished.injEq, Except.ok.injEq] at houtcome
    rwa [← houtcome]
  · refine (h.inPlace other y hother).of_ne hname (fun sender hmem hne => ?_) fun hother' => ?_
    · rcases List.mem_cons.mp hmem with rfl | hmem
      · exact absurd rfl hne
      · exact hmem
    · exact absurd (h.name_eq_of_reading hget hreading hother hother') hname
  · have hover : t.session.connection.lifecycle.isOver = false := by
      have hfault : Effect.fault ∉ [Effect.dropReceiveIfOver, .unlockReceive, .passTurn] := by simp
      have hlifecycle := (t.session.connection.after r).lifecycle_applyAll hfault
      exact (congrArg Lifecycle.isOver hlifecycle).symm.trans hover
    have hopened := h.opened_of_mem hover List.mem_cons_self
    obtain ⟨tail', handles, htail, hplaces, hlines⟩ := h.head_of_taken hget hover hturn rfl
    obtain rfl := (List.cons.inj htail).2
    refine ⟨⟨handles, ?_, hlines.signalOne⟩, fun _ _ unread hunread => ?_,
      fun hopened' => absurd hopened hopened'⟩
    · exact (turns_put_of_ne t.session.exchanges _ h.ne_of_mem_tail).trans hplaces
    · rw [List.length_append, List.length_singleton]
      rcases (t.session.connection.after r).unread?_applyAll
        [.dropReceiveIfOver, .unlockReceive, .passTurn] with hnone | hsame
      · rw [connection_put, hnone] at hunread
        simp at hunread
      · obtain rfl := Option.some.inj (hsame.symm.trans hunread)
        exact hreceived

/-- The head of the line reads on. -/
theorem read (h : Ordered reply t done rest) (hserved : t.Served reply)
    (hcomplete : ∀ i, t.senders[i]? = some (name, x.command) → t.Complete i)
    (hget : t.session.exchanges.get? name = some x) {place : Reply}
    (hphase : x.phase = .reading place since) {buffer : Bytes}
    (hhalf : t.session.connection.receiveHalf = some buffer) (clocks : Clocks) :
    ∃ done' rest', Ordered reply
      (t.put name (x.read t.session.connection clocks buffer place since).1
        (x.read t.session.connection clocks buffer place since).2 0
        (Exchange.added x.channel (x.read t.session.connection clocks buffer place since).1.channel))
      done' rest' := by
  obtain ⟨⟨tail, rfl⟩, taken, left, htook, hleft, htracks⟩ :=
    (h.inPlace name x hget).reading place since hphase
  have hreading : x.phase.isReading = true := by
    rw [hphase]
    rfl
  have hsender : t.senders[done.length]? = some (name, x.command) := by
    rw [h.senders]
    simp
  have hframed : Reply.Framed x.command (reply done.length) :=
    hserved.framed done.length name x.command hsender (hcomplete _ hsender)
  have hreceived : t.received = taken ++ (buffer ++ t.session.connection.socket.feed.bytes) :=
    htook _ (by rw [unread?, hhalf]; rfl)
  obtain ⟨more, hprefix⟩ := hserved.unread_within hreceived hleft
  have hreads := Reply.reads_readReply hframed htracks
    ⟨buffer, t.session.connection.socket.feed, none, 0⟩ rfl hprefix
  generalize hread : Reader.readReply x.command (place, x.channel)
    ⟨buffer, t.session.connection.socket.feed, none, 0⟩ = result at hreads
  obtain ⟨progress, r⟩ := result
  rcases x.read_cases t.session.connection clocks buffer place since hread with
    ⟨outcome, channel, rfl, heq⟩ | ⟨state, since', hprogress, heq⟩ | ⟨cause, channel, heq⟩
  · rw [heq]
    cases hreads with
    | ok parts grew answers =>
      rw [Exchange.added_of_grew grew]
      refine ⟨_, _, h.finishReading hget hreading ?_ answers⟩
      rw [hreceived, ← hleft, List.append_assoc]
      exact congrArg (taken ++ ·) parts
  · obtain ⟨piece, left', new, parts, cut, tracks, grew⟩ : ∃ piece left' new,
        buffer ++ t.session.connection.socket.feed.bytes = piece ++ r.bytes ∧
        left = piece ++ left' ∧
        Reply.Tracks x.command (reply done.length) left' (t.handed name ++ new) state ∧
        Reply.Grew x.channel state.2 new := by
      rcases hprogress with rfl | rfl
      · cases hreads with
        | held parts cut tracks grew => exact ⟨_, _, _, parts, cut, tracks, grew⟩
      · cases hreads with
        | waiting parts cut tracks grew => exact ⟨_, _, _, parts, cut, tracks, grew⟩
    rw [heq, Exchange.added_of_grew grew]
    have hreceived' : t.received = taken ++ piece ++ r.bytes := by
      rw [hreceived, parts, List.append_assoc]
    have hleft' : taken ++ piece ++ left' = replies reply (done.length + 1) := by
      rw [← hleft, cut, List.append_assoc]
    exact ⟨_, _, h.readOn hget hreading hreceived' hleft' tracks⟩
  · rw [heq]
    exact ⟨_, _, h.fail hget rfl (Or.inl hreading) (Or.inl (isOver_applyAll_of_mem _ (by simp)))⟩

end Ordered

end Connection.Transcript

end MemcachedClient
