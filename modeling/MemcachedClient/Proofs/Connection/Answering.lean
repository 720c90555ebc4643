import MemcachedClient.Proofs.Connection.Opening
import MemcachedClient.Proofs.Connection.Reading
import MemcachedClient.Proofs.Connection.Sending

/-!
# The line through a run

Every hop of an exchange and every event of a session keeps the line (`Transcript.Ordered`), so it is
in order after any run (`Transcript.follows_run`), if the server answers in order.
-/

namespace MemcachedClient

open Response

/-- A consumer that has left does not come back. -/
theorem Channel.consuming_of_handle {α : Type} {channel : Channel α} {event : Channel.Event α}
    (h : (channel.handle event).consuming = true) : channel.consuming = true := by
  cases event with
  | offer element =>
    simp only [handle, offer] at h
    by_cases hc : channel.consuming = true
    · exact hc
    · simp [hc] at h
  | receive =>
    simp only [handle, receive] at h
    split at h <;> exact h
  | drain => exact h
  | finish => exact h
  | abandon => simp [handle, Channel.abandon] at h

namespace Connection.Transcript

variable {reply : ℕ → Bytes} {t : Transcript} {done rest : Table Command} {name : String}
  {x : Exchange}

/-! ### Events -/

namespace Ordered

/-- An event that leaves the exchanges alone keeps the line if it takes nothing from one who reads. -/
theorem session (h : Ordered reply t done rest) {s' : Session} {received' : Bytes}
    (hexchanges : s'.exchanges = t.session.exchanges)
    (htook : ∀ name x, t.session.exchanges.get? name = some x → x.phase.isReading = true →
      ∀ taken, t.Took taken → Took { t with session := s', received := received' } taken)
    (hlive : s'.connection.lifecycle.isOver = false →
      Live reply { t with session := s', received := received' } done rest) :
    Ordered reply { t with session := s', received := received' } done rest where
  senders := h.senders
  distinct := h.distinct
  joined := hexchanges ▸ h.joined
  fresh := hexchanges ▸ h.fresh
  inPlace name x hget := by
    rw [show Session.exchanges _ = t.session.exchanges from hexchanges] at hget
    obtain ⟨flying, waiting, reading, answered⟩ := h.inPlace name x hget
    refine ⟨flying, waiting, fun state since hphase => ?_, answered⟩
    obtain ⟨hhead, taken, left, htaken, hrest⟩ := reading state since hphase
    exact ⟨hhead, taken, left, htook name x hget (by rw [hphase]; rfl) taken htaken, hrest⟩
  live := hlive

/-- So does one that leaves the connection alone. -/
theorem calls (h : Ordered reply t done rest) {s' : Session}
    (hconnection : s'.connection = t.session.connection)
    (hexchanges : s'.exchanges = t.session.exchanges) :
    Ordered reply { t with session := s' } done rest := by
  obtain ⟨connection, clocks, openings, exchanges⟩ := s'
  subst hconnection hexchanges
  refine h.session rfl (fun _ _ _ _ taken htook => htook) fun hover => ?_
  obtain ⟨lined, idle, early⟩ := h.live hover
  exact ⟨lined, idle, early⟩

/-- An exchange is started. -/
theorem startExchange (h : Ordered reply t done rest)
    (hget : t.session.exchanges.get? name = none) (command : Command) (capacity : ℕ) :
    Ordered reply (t.put name (.start command capacity) t.session.connection 0 []) done rest := by
  have hne : ∀ sender ∈ t.senders, sender.1 ≠ name := fun sender hmem hname => by
    obtain ⟨x, hx, -⟩ := h.joined sender hmem
    rw [hname, hget] at hx
    simp at hx
  refine h.stay (fun sender hmem hname => absurd hname (hne sender hmem)) ?_ (Or.inr (Or.inr rfl))
    fun hover => ?_
  · refine ⟨fun turn hturn => ?_, fun _ => ?_, fun state since hphase => ?_,
      fun outcome hphase => ?_⟩
    · simp [Exchange.start, Exchange.Phase.turn?] at hturn
    · rw [handed_put_self, h.fresh name hget, List.append_nil]
    · simp [Exchange.start] at hphase
    · simp [Exchange.start] at hphase
  · obtain ⟨⟨handles, hplaces, hlines⟩, idle, early⟩ := h.live hover
    refine ⟨⟨handles, ?_, hlines⟩, fun hopened hidle => ?_, fun hopened => ?_⟩
    · refine (turns_put_of_ne _ _ fun sender hmem => hne sender ?_).trans hplaces
      rw [h.senders]
      exact List.mem_append_right _ hmem
    · refine (idle hopened (hidle.of_put fun y hy => ?_)).put (Or.inr rfl)
      rw [hget] at hy
      simp at hy
    · rw [senders_put_zero]
      exact early hopened

/-- Something happens at the other end of a channel. -/
theorem channel (h : Ordered reply t done rest) (hget : t.session.exchanges.get? name = some x)
    (event : Channel.Event (Except ClientError Item)) :
    Ordered reply (t.put name { x with channel := x.channel.handle event } t.session.connection 0 [])
      done rest := by
  obtain ⟨flying, waiting, reading, answered⟩ := h.inPlace name x hget
  have hjoined : ∀ sender ∈ t.senders, sender.1 = name → x.phase.hasJoined = true :=
    fun sender hmem hname => h.hasJoined_of_mem hget hmem hname
  refine h.stay hjoined ?_ (Or.inr (Or.inr rfl)) fun hover => ?_
  · refine ⟨flying, fun hwaiting => ?_, fun state since hphase => ?_, fun outcome hphase => ?_⟩
    · rw [handed_put_self, waiting hwaiting, List.append_nil]
    · obtain ⟨hhead, taken, left, htook, hleft, htracks⟩ := reading state since hphase
      refine ⟨hhead, taken, left, htook.put (Or.inr rfl), hleft, ?_⟩
      rw [handed_put_self, List.append_nil]
      exact htracks.mono Channel.consuming_of_handle
    · obtain ⟨i, hi, hanswers⟩ := answered outcome hphase
      refine ⟨i, by rwa [senders_put_zero], ?_⟩
      rw [handed_put_self, List.append_nil]
      exact hanswers.mono Channel.consuming_of_handle
  · exact (h.live hover).put hget rfl id ⟨rfl, rfl, rfl, Or.inr rfl⟩

/-- An exchange is dropped: in flight it takes the connection with it. -/
theorem drop (h : Ordered reply t done rest) (hget : t.session.exchanges.get? name = some x) :
    Ordered reply (t.put name (x.drop t.session.connection).1 (x.drop t.session.connection).2 0 [])
      done rest := by
  rw [Exchange.drop]
  by_cases hend : x.phase.isOver = true
  · rw [if_pos hend, put_self hget]
    exact h
  · rw [if_neg hend]
    refine h.fail hget rfl (Or.inr (unread?_applyAll _ _)) ?_
    cases hphase : x.phase with
    | ready => exact Or.inr ⟨rfl, rfl, rfl, rfl, Or.inr rfl⟩
    | awaitingSend place => exact Or.inr ⟨rfl, rfl, rfl, rfl, Or.inr rfl⟩
    | finished result => simp [hphase, Exchange.Phase.isOver] at hend
    | dropped => simp [hphase, Exchange.Phase.isOver] at hend
    | _ => exact Or.inl (isOver_applyAll_of_mem _ (by simp [Exchange.Phase.abandonment]))

/-- The connection is closed. -/
theorem close (h : Ordered reply t done rest) : Ordered reply (t.step .close) done rest := by
  refine h.session rfl (fun _ _ _ _ taken htook unread hunread => ?_) fun hover => ?_
  · rcases t.session.connection.unread?_close with hnone | hsame
    · exact absurd (hnone.symm.trans hunread) (by simp)
    · exact htook unread (hsame.symm.trans hunread)
  · have hclosed := t.session.connection.isOver_close.symm.trans hover
    simp at hclosed

/-- An opening runs on: the halves come to their places before anybody is in the line. -/
theorem opening (h : Ordered reply t done rest) {c' : Connection}
    (hchanges : Opening.Changes t.session.connection c') (openings : Table Opening) :
    Ordered reply { t with session := { t.session with connection := c', openings } } done rest := by
  cases hchanges with
  | nothing => exact h.calls rfl rfl
  | begin unopened attempts =>
    refine h.session rfl (fun _ _ _ _ taken htook => htook) fun _ => ?_
    obtain ⟨lined, -, early⟩ := h.live (by rw [unopened]; rfl)
    exact ⟨lined, fun hopened => by simp at hopened, fun _ => early (by simp [unopened])⟩
  | fail ended attempts =>
    refine h.session rfl (fun _ _ _ _ taken htook => htook) fun hover => ?_
    exact absurd (ended.symm.trans hover) (by simp)
  | complete early attempts =>
    have hlive := h.live (Lifecycle.isOver_of_isEarly early)
    obtain ⟨hsenders, -, hreceived⟩ := hlive.early (Lifecycle.ne_opened_of_isEarly early)
    have hnil : done = [] ∧ rest = [] := List.append_eq_nil_iff.mp (h.senders ▸ hsenders)
    refine h.session rfl (fun name x hget hreading => ?_) fun _ => ?_
    · obtain ⟨tail, htail⟩ := h.head_of_reading hget hreading
      rw [hnil.2] at htail
      simp at htail
    · refine ⟨hlive.lined, fun _ _ unread hunread => ?_, fun hopened => by simp at hopened⟩
      obtain rfl := Option.some.inj hunread
      rw [hnil.1]
      exact hreceived
  | discard late =>
    refine h.session rfl (fun _ _ _ _ taken _ unread hunread => by simp [unread?] at hunread)
      fun hover => ?_
    obtain ⟨lined, -, early⟩ := h.live hover
    refine ⟨lined, fun _ _ unread hunread => by simp [unread?] at hunread, fun hopened => ?_⟩
    obtain ⟨hsenders, -, hreceived⟩ := early hopened
    exact ⟨hsenders, rfl, hreceived⟩

/-- Something arrives, or the network does something else. -/
theorem network (h : Ordered reply t done rest) (event : NetworkEvent) :
    Ordered reply (t.step (.network event)) done rest := by
  have hbytes := t.session.connection.socket.bytes_handle event
  have htook : ∀ taken, t.Took taken → (t.step (.network event)).Took taken := by
    intro taken htook unread hunread
    obtain ⟨buffer, hbuffer, rfl⟩ := Option.map_eq_some_iff.mp hunread
    have hreceived := htook (buffer ++ t.session.connection.socket.feed.bytes)
      (Option.map_eq_some_iff.mpr ⟨buffer, hbuffer, rfl⟩)
    show t.received ++ _ = taken ++ (buffer ++ (t.session.connection.socket.handle event).feed.bytes)
    rw [hbytes, hreceived, List.append_assoc, List.append_assoc]
  refine h.session rfl (fun _ _ _ _ => htook) fun hover => ?_
  obtain ⟨lined, idle, early⟩ := h.live hover
  refine ⟨lined, fun hopened hidle => htook _ (idle hopened hidle), fun hopened => ?_⟩
  obtain ⟨hsenders, hunread, hreceived⟩ := early hopened
  refine ⟨hsenders, ?_, ?_⟩
  · have hhalf : t.session.connection.receiveHalf = none := unread?_eq_none_iff.mp hunread
    exact unread?_eq_none_iff.mpr hhalf
  · show t.received ++ _ = (t.session.connection.socket.handle event).feed.bytes
    rw [hbytes, hreceived]

end Ordered

/-- An exchange hops. -/
theorem Ordered.hop (h : Ordered reply t done rest) (hsends : t.Sends) (hserved : t.Served reply)
    (hget : t.session.exchanges.get? name = some x) {after : Exchange} {c : Connection} {joins : ℕ}
    {new : List Item}
    (hop : Exchange.Hop t.session.clocks (x, t.session.connection) joins new (after, c)) :
    ∃ done' rest', Ordered reply (t.put name after c joins new) done' rest' := by
  have hcalm : ∀ {c' : Connection}, c'.lifecycle = t.session.connection.lifecycle →
      c'.turns = t.session.connection.turns →
      c'.socket.feed = t.session.connection.socket.feed →
      c'.receiveHalf = t.session.connection.receiveHalf → t.session.connection.Calm c' :=
    fun hlifecycle hturns hfeed hhalf =>
      ⟨hlifecycle, hturns, hfeed, Or.inr (by rw [unread?, unread?, hfeed, hhalf])⟩
  cases hop with
  | askSend phase =>
    exact ⟨done, rest, h.wait hget rfl (by rw [phase]; exact id) (by rw [phase]; rfl) rfl
      (by rw [phase]; rfl) (hcalm rfl rfl rfl rfl)⟩
  | waitSend phase quiet =>
    exact ⟨done, rest, h.wait hget rfl (by rw [phase]; exact id) (by rw [phase]; rfl) rfl
      (by rw [phase]; rfl) (hcalm rfl rfl rfl rfl)⟩
  | refuse phase taken shut =>
    refine ⟨done, rest, h.fail hget rfl (Or.inr (unread?_applyAll _ _)) (Or.inr ⟨?_, ?_⟩)⟩
    · rw [phase]
      rfl
    · rcases shut with ⟨-, -, rfl⟩ | ⟨-, rfl⟩ <;> exact hcalm rfl rfl rfl rfl
  | join phase taken opened =>
    exact ⟨done, _, h.join hget phase opened rfl rfl rfl rfl⟩
  | sendFail phase failed =>
    exact ⟨done, rest, h.fail hget rfl (Or.inr (unread?_applyAll _ _))
      (Or.inl (isOver_applyAll_of_mem _ (by simp)))⟩
  | sendAll phase wrote =>
    have hfeed := Socket.feed_of_wrote wrote
    exact ⟨done, rest, h.wait hget rfl (fun _ => rfl) (by rw [phase]; rfl) rfl
      (by rw [phase]; rfl) (hcalm rfl rfl hfeed rfl)⟩
  | sendSome phase wrote =>
    have hfeed := Socket.feed_of_wrote wrote
    exact ⟨done, rest, h.wait hget rfl (fun _ => rfl) (by rw [phase]; rfl) rfl
      (by rw [phase]; rfl) (hcalm rfl rfl hfeed rfl)⟩
  | waitTurn phase quiet =>
    obtain ⟨ticket, rfl, -, hpoll⟩ := Semaphore.poll_eq_false quiet
    rw [hpoll]
    exact ⟨done, rest, h.wait hget rfl (fun _ => rfl) (by rw [phase]; rfl) rfl
      (by rw [phase]) (hcalm rfl rfl rfl rfl)⟩
  | takeTurn phase taken =>
    exact ⟨done, rest, h.takeTurn hget phase taken rfl rfl rfl rfl rfl⟩
  | waitReceive phase quiet =>
    exact ⟨done, rest, h.wait hget rfl (fun _ => rfl) (by rw [phase]; rfl) rfl
      (by rw [phase]; rfl) (hcalm rfl rfl rfl rfl)⟩
  | refuseReceive phase taken shut =>
    exact ⟨done, rest, h.fail hget rfl (Or.inr (unread?_applyAll _ _))
      (Or.inl (isOver_applyAll_of_mem _ (Exchange.faults_of_shut shut).1))⟩
  | startReading phase taken opened =>
    exact ⟨done, rest, h.startReading hget phase opened (hcalm rfl rfl rfl rfl)⟩
  | read phase half reads =>
    have hcomplete : ∀ i, t.senders[i]? = some (name, x.command) → t.Complete i :=
      fun i hi => hsends.complete name x i hget (by rw [phase]; rfl) hi
    obtain ⟨done', rest', hordered⟩ := h.read hserved hcomplete hget phase half t.session.clocks
    rw [reads] at hordered
    exact ⟨done', rest', hordered⟩

/-- What is written is in order, and so is the line, if the server answers in order. -/
def Follows (reply : ℕ → Bytes) (t : Transcript) : Prop :=
  t.Sends ∧ (t.Served reply → ∃ done rest, Ordered reply t done rest)

/-- What the server is to do up to some later moment it does up to this one, so the line is in order
now, and it is then if what happens keeps it. -/
theorem Follows.next {t' : Transcript} (h : Follows reply t) (hsends : t'.Sends)
    (hasked : t.asked <+: t'.asked) (hreceived : t.received <+: t'.received)
    (hsent : t.session.connection.socket.sent <+: t'.session.connection.socket.sent)
    (hordered : t.Served reply → ∀ {done rest}, Ordered reply t done rest →
      ∃ done' rest', Ordered reply t' done' rest') : Follows reply t' := by
  refine ⟨hsends, fun hserved => ?_⟩
  have hserved' := hserved.mono hasked hreceived hsent
  obtain ⟨done, rest, hline⟩ := h.2 hserved'
  exact hordered hserved' hline

/-- Whatever happens, the line stays in order. -/
theorem kept_follows : Kept (Follows reply) where
  hop h hget hop :=
    h.next (kept_sends.hop h.1 hget hop) (List.prefix_append _ _) List.prefix_rfl hop.sent_grows
      fun hserved _ _ hline => hline.hop h.1 hserved hget hop
  start command capacity h hget :=
    h.next (kept_sends.start command capacity h.1 hget) (List.prefix_append _ _) List.prefix_rfl List.prefix_rfl
      fun _ _ _ hline => ⟨_, _, hline.startExchange hget command capacity⟩
  drop {_ _ x} h hget :=
    h.next (kept_sends.drop h.1 hget) (List.prefix_append _ _) List.prefix_rfl
      (by simp only [connection_put, x.socket_drop, List.prefix_rfl])
      fun _ _ _ hline => ⟨_, _, hline.drop hget⟩
  channel event h hget :=
    h.next (kept_sends.channel event h.1 hget) (List.prefix_append _ _) List.prefix_rfl List.prefix_rfl
      fun _ _ _ hline => ⟨_, _, hline.channel hget event⟩
  opening openings h hchanges :=
    h.next (kept_sends.opening openings h.1 hchanges) List.prefix_rfl List.prefix_rfl
      (by simp only [hchanges.socket, List.prefix_rfl])
      fun _ _ _ hline => ⟨_, _, hline.opening hchanges openings⟩
  openings openings h :=
    h.next (kept_sends.openings openings h.1) List.prefix_rfl List.prefix_rfl List.prefix_rfl
      fun _ _ _ hline => ⟨_, _, hline.calls rfl rfl⟩
  close {t} h := by
    have hsent : t.session.connection.socket.sent <+: t.session.connection.close.socket.sent := by
      simp only [t.session.connection.socket_close, List.prefix_rfl]
    exact h.next (kept_sends.close h.1) List.prefix_rfl List.prefix_rfl hsent
      fun _ _ _ hline => ⟨_, _, hline.close⟩
  advance time wall h :=
    h.next (kept_sends.advance time wall h.1) List.prefix_rfl List.prefix_rfl List.prefix_rfl
      fun _ _ _ hline => ⟨_, _, hline.calls rfl rfl⟩
  network {t} event h := by
    have hsent : t.session.connection.socket.sent <+:
        (t.session.connection.socket.handle event).sent := by
      simp only [Socket.sent_handle, List.prefix_rfl]
    exact h.next (kept_sends.network event h.1) List.prefix_rfl (List.prefix_append _ _) hsent
      fun _ _ _ hline => ⟨_, _, hline.network event⟩

/-- A connection without calls is in order. -/
theorem ordered_start (dial : Dial) (receiveLimit : Option Duration) (clocks : Clocks) :
    Ordered reply (start dial receiveLimit clocks) [] [] where
  senders := rfl
  distinct := Table.distinct_nil
  joined sender hmem := by simp at hmem
  fresh _ _ := rfl
  inPlace name x hget := by simp [start, Session.start] at hget
  live _ := ⟨⟨[], rfl, .free⟩, fun hopened => by simp [start, Session.start, ofDial] at hopened,
    fun _ => ⟨rfl, rfl, rfl⟩⟩

theorem sends_start (dial : Dial) (receiveLimit : Option Duration) (clocks : Clocks) :
    Sends (start dial receiveLimit clocks) where
  names := Table.distinct_nil
  locked := Nat.le_refl _
  sending name x rest turn hget := by simp [start, Session.start] at hget
  complete name x i hget := by simp [start, Session.start] at hget
  written := List.prefix_rfl
  before := List.prefix_rfl
  still _ _ := rfl

/-- **Any run** keeps the line. -/
theorem follows_run (reply : ℕ → Bytes) (dial : Dial) (receiveLimit : Option Duration) (clocks : Clocks)
    (events : List Event) : Follows reply ((start dial receiveLimit clocks).run events) :=
  kept_follows.run ⟨sends_start dial receiveLimit clocks,
    fun _ => ⟨[], [], ordered_start dial receiveLimit clocks⟩⟩ events

end Connection.Transcript

end MemcachedClient
