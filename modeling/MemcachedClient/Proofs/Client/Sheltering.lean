import MemcachedClient.Proofs.Client.Traffic
import MemcachedClient.Proofs.Connection.Begun
import MemcachedClient.Proofs.Pool.Lifetimes

/-!
# The connections of a client and the items of its pool

The item with a number is the connection with that number, and the two go together (`Housed`): while the connect of a
connection is under way, some borrower runs the creation of its item; the item is made exactly when the opening of the
connection has ended well; and a connection whose item the pool has closed is over. Every act keeps this
(`kept_sheltered`), although an operation on the pool comes after what it is told of: an opening has ended before the
borrower that runs it sees that (`Poised`).
-/

namespace MemcachedClient

open Connection (Session)
open Pool

namespace Connection.Session

variable {s : Session} {name : String}

/-- What is not an opening leaves the openings alone. -/
theorem openings_step (s : Session) {event : Event} (hstart : ∀ name limit, event ≠ .startOpening name limit)
    (hpoll : ∀ name, event ≠ .pollOpening name) (hdrop : ∀ name, event ≠ .dropOpening name) :
    (s.step event).openings = s.openings := by
  cases event with
  | startOpening other limit => exact absurd rfl (hstart other limit)
  | pollOpening other => exact absurd rfl (hpoll other)
  | dropOpening other => exact absurd rfl (hdrop other)
  | startExchange other command capacity =>
    rw [step]
    split <;> rfl
  | pollExchange other =>
    rw [step, updateExchange]
    split <;> rfl
  | dropExchange other =>
    rw [step, updateExchange]
    split <;> rfl
  | channel other event =>
    rw [step, updateExchange]
    split <;> rfl
  | close => rfl
  | advance time wall => rfl
  | network event => rfl

/-- Closing a connection, once or more often. -/
theorem Begun.run_close (h : s.Begun name) (count : ℕ) :
    (s.run (List.replicate count .close)).Begun name ∧ (s.run (List.replicate count .close)).openings = s.openings ∧
      (0 < count → (s.run (List.replicate count .close)).connection.lifecycle.isOver = true) := by
  induction count generalizing s with
  | zero => exact ⟨h, rfl, fun hpos => absurd hpos (Nat.lt_irrefl 0)⟩
  | succ count ih =>
    have hclosed : (s.step .close).Begun name := h.step trivial
    obtain ⟨hbegun, hopenings, -⟩ := ih hclosed
    exact ⟨hbegun, hopenings, fun _ => isOver_run (s := s.step .close) s.connection.isOver_close _⟩

/-- An opening that has ended well stays so while the opening runs on or is dropped. -/
theorem Begun.opened?_of_ok (h : s.Begun name) (hok : s.opened? name = some (.ok ())) {event : Event}
    (hevent : event = .pollOpening name ∨ event = .dropOpening name) :
    (s.step event).opened? name = some (.ok ()) := by
  obtain ⟨o, ho⟩ := h.opening
  have hget : s.openings.get? name = some o := by simp [ho, Table.get?]
  have hresult : o.result? = some (.ok ()) := (opened?_eq ho).symm.trans hok
  rcases hevent with rfl | rfl
  · rw [Session.step, updateOpening, hget]
    dsimp only
    rw [opened?, Table.get?_put_self, Option.bind_some, Opening.poll_of_result? hresult]
    exact hresult
  · rw [Session.step, updateOpening, hget]
    dsimp only
    rw [opened?, Table.get?_put_self, Option.bind_some, Opening.drop_of_result? hresult]
    exact hresult

/-- An opening that is dropped has no new result, and its connect is not under way. -/
theorem Begun.of_dropOpening (h : s.Begun name) : (s.step (.dropOpening name)).isConnecting = false ∧
    ((s.step (.dropOpening name)).opened? name = some (.ok ()) → s.opened? name = some (.ok ())) := by
  obtain ⟨o, ho⟩ := h.opening
  have hget : s.openings.get? name = some o := by simp [ho, Table.get?]
  have hstep : (s.step (.dropOpening name)).openings = [(name, o.drop)] := by
    rw [Session.step, updateOpening, hget]
    simp [ho, Table.put]
  refine ⟨?_, fun hok => (opened?_eq ho).trans ?_⟩
  · rw [isConnecting, hstep]
    obtain ⟨limit, phase⟩ := o
    cases phase <;> rfl
  · exact Opening.result?_of_drop ((opened?_eq hstep).symm.trans hok)

end Connection.Session

namespace Client

/-- A connection and its item. -/
structure Housed (p : Pool) (item : ℕ) (s : Session) : Prop where
  /-- It has one opening. -/
  begun : s.Begun openingName
  /-- While its connect is under way, some borrower runs the creation of the item. -/
  connecting : s.isConnecting = true → ∃ name, p.creating? name = some item
  /-- The item is made exactly when the opening has ended well. -/
  made : s.opened? openingName = some (.ok ()) ↔ p.Made item
  /-- When the item is closed, the connection is over. -/
  closed : item ∈ p.closed → s.connection.lifecycle.isOver = true

/-- A connection and its item, just before an operation on the pool that is told of the opening. -/
structure Poised (p : Pool) (event : Shared.Event) (item : ℕ) (s : Session) : Prop where
  /-- It has one opening. -/
  begun : s.Begun openingName
  /-- While its connect is under way, some borrower runs the creation of the item, and will not be dropped. -/
  connecting : s.isConnecting = true → ∃ name, p.creating? name = some item ∧ event ≠ .cancel name
  /-- When its opening has ended well, the item is made, or the borrower that runs its creation will see it. -/
  opened : s.opened? openingName = some (.ok ()) →
    p.Made item ∨ ∃ made name, event = .poll made name ∧ p.creating? name = some item
  /-- The opening of an item that is made has ended well. -/
  made : p.Made item → s.opened? openingName = some (.ok ())
  /-- When the item is closed, the connection is over. -/
  closed : item ∈ p.closed → s.connection.lifecycle.isOver = true

/-- The connections of a client are those of the items of its pool. -/
structure Sheltered (k : ℕ) (c : Client) : Prop where
  /-- The pool is as it is after a run. -/
  pool : c.pool.Sound k
  /-- Each creation that was started has its connection. -/
  created : c.connections.length = c.pool.created
  /-- Each connection goes with its item. -/
  housed : ∀ item s, c.connections[item]? = some s → Housed c.pool item s

variable {k : ℕ} {c c' : Client} {p q : Pool} {item : ℕ} {s : Session} {name : String} {made : Creations}
  {event : Shared.Event}

/-- Unless the borrower that runs the creation is dropped, a connection is ready for an operation on the pool. -/
theorem Housed.poised (h : Housed p item s) (hcancel : ∀ name, event ≠ .cancel name) : Poised p event item s where
  begun := h.begun
  connecting hconnecting := (h.connecting hconnecting).imp fun name hcreating => ⟨hcreating, hcancel name⟩
  opened hok := Or.inl (h.made.mp hok)
  made := h.made.mpr
  closed := h.closed

/-- Something happens on the connection that is not about its opening. -/
theorem Housed.step (h : Housed p item s) {event : Connection.Event}
    (hopenings : (s.step event).openings = s.openings) (hsuits : s.Suits openingName event) :
    Housed p item (s.step event) where
  begun := h.begun.step hsuits
  connecting hconnecting := h.connecting (by rwa [Session.isConnecting, hopenings] at hconnecting)
  made := by
    rw [Session.opened?, hopenings]
    exact h.made
  closed hclosed := Session.isOver_step (h.closed hclosed) event

/-! ### Operations on the pool -/

/-- The opening of a connection and the creation of its item come to the same. -/
theorem creations_eq (h : (c.connections ++ [c.attempt])[item]? = some s) :
    c.creations item = s.opened? openingName := by
  rw [creations, h]
  rfl

theorem begun_attempt (c : Client) : c.attempt.Begun openingName :=
  Session.begun_start c.dial c.receiveLimit c.clocks openingName c.connectLimit

/-- After an operation a connection goes with its item again, if the pool was told what became of its opening. -/
theorem Poised.connecting_step (h : Poised p event item s) (hb : Brings made event p q)
    (htold : made item = s.opened? openingName) (hconnecting : s.isConnecting = true) :
    ∃ name, q.creating? name = some item := by
  obtain ⟨name, hcreating, hcancel⟩ := h.connecting hconnecting
  refine ⟨name, ?_⟩
  by_cases hpoll : ∃ told, event = .poll told name
  · obtain ⟨told, hpoll⟩ := hpoll
    exact (hb.polled told name item hpoll hcreating).creating (htold.trans (h.begun.of_isConnecting hconnecting).1)
  · exact hb.creating name item hcreating (fun told hevent => hpoll ⟨told, hevent⟩) hcancel

theorem Poised.made_step (h : Poised p event item s) (hb : Brings made event p q)
    (htold : made item = s.opened? openingName) : s.opened? openingName = some (.ok ()) ↔ q.Made item := by
  constructor
  · intro hok
    rcases h.opened hok with hmade | ⟨told, name, hpoll, hcreating⟩
    · exact hb.stays item hmade
    · exact (hb.polled told name item hpoll hcreating).made (htold.trans hok)
  · intro hmade
    rcases hb.comes item hmade with hmade | hok
    · exact h.made hmade
    · exact htold.symm.trans hok

/-- What the pool closes is closed. -/
theorem housed_run_close (hbegun : s.Begun openingName)
    (hconnecting : s.isConnecting = true → ∃ name, q.creating? name = some item)
    (hmade : s.opened? openingName = some (.ok ()) ↔ q.Made item) {count : ℕ}
    (hclosed : item ∈ q.closed → s.connection.lifecycle.isOver = true ∨ 0 < count) :
    Housed q item (s.run (List.replicate count .close)) := by
  obtain ⟨hbegun', hopenings, hover⟩ := hbegun.run_close count
  refine ⟨hbegun', fun hnow => hconnecting ?_, ?_, fun hmem => ?_⟩
  · rwa [Session.isConnecting, hopenings] at hnow
  · rw [Session.opened?, hopenings]
    exact hmade
  · exact (hclosed hmem).elim (fun h => Session.isOver_run h _) hover

/-- **An operation on the pool**, told what became of the openings. -/
theorem sheltered_withPool (hsound : c.pool.Sound k) (hcreated : c.connections.length = c.pool.created)
    (hpoised : ∀ item s, c.connections[item]? = some s → Poised c.pool event item s)
    (htells : event.Tells c.creations) : Sheltered k (c.withPool (c.pool.step event)) := by
  have hb := hsound.brings_step htells
  obtain ⟨hpool, -, -, hlength, -⟩ := c.withPool_parts (c.pool.step event)
  refine ⟨hpool.symm ▸ hsound.step event, ?_, fun item s' hs' => ?_⟩
  · rw [hpool, hlength, hcreated]
    rcases hb.created with hsame | ⟨hone, -⟩
    · rw [hsame, if_neg (Nat.lt_irrefl _)]
    · rw [hone, if_pos (Nat.lt_succ_self _)]
  · -- an item that is closed was closed before, or is closed now
    have hclosed : item ∈ (c.pool.step event).closed →
        item ∈ c.pool.closed ∨ 0 < ((c.pool.step event).closed.drop c.pool.closed.length).count item := by
      obtain ⟨more, hmore⟩ := hb.closed
      rw [← hmore, List.drop_left, List.mem_append, List.count_pos_iff]
      exact id
    rw [hpool]
    rw [connections_withPool] at hs'
    obtain ⟨s, hs, rfl⟩ := Option.map_eq_some_iff.mp hs'
    by_cases hold : item < c.connections.length
    · have hget : c.connections[item]? = some s := by
        split at hs
        · rwa [List.getElem?_append_left hold] at hs
        · exact hs
      have htold : c.creations item = s.opened? openingName :=
        creations_eq ((List.getElem?_append_left hold).trans hget)
      have h := hpoised item s hget
      exact housed_run_close h.begun (h.connecting_step hb htold) (h.made_step hb htold)
        fun hmem => (hclosed hmem).imp_left h.closed
    · -- the connection is new
      have hnew : c.connections.length < (c.pool.step event).created := by
        by_contra hnone
        rw [if_neg hnone, List.getElem?_eq_none (Nat.le_of_not_lt hold)] at hs
        simp at hs
      rw [if_pos hnew] at hs
      have htold : c.creations item = s.opened? openingName := creations_eq hs
      rw [List.getElem?_append_right (Nat.le_of_not_lt hold)] at hs
      obtain rfl : c.attempt = s := (List.mem_singleton.mp (List.mem_of_getElem? hs)).symm
      have hitem : item = c.pool.created := by
        have hindex := (List.getElem?_eq_some_iff.mp hs).1
        rw [List.length_singleton] at hindex
        omega
      have hunmade : ¬ c.pool.Made item := fun hmade => Nat.ne_of_lt (hsound.lt_created hmade) hitem
      obtain ⟨name, hcomes⟩ : ∃ name, ComesTo (c.creations c.pool.created) c.pool.created name (c.pool.step event) := by
        rcases hb.created with hsame | ⟨-, hcomes⟩
        · omega
        · exact hcomes
      rw [← hitem, htold] at hcomes
      refine housed_run_close c.begun_attempt (fun hconnecting => ⟨name, hcomes.creating ?_⟩)
        ⟨hcomes.made, fun hmade => ?_⟩ fun hmem => Or.inr ((hclosed hmem).resolve_left fun hbefore => hunmade ?_)
      · exact (c.begun_attempt.of_isConnecting hconnecting).1
      · exact htold.symm.trans ((hb.comes item hmade).resolve_left hunmade)
      · exact Pool.made_of_mem_closed hbefore

namespace Sheltered

theorem withPool (h : Sheltered k c) (hcancel : ∀ name, event ≠ .cancel name) (htells : event.Tells c.creations) :
    Sheltered k (c.withPool (c.pool.step event)) :=
  sheltered_withPool h.pool h.created (fun item s hs => (h.housed item s hs).poised hcancel) htells

/-- Something happens on a connection that is not about its opening. -/
theorem on (h : Sheltered k c) (item : ℕ) {event : Connection.Event}
    (hopenings : ∀ s : Session, (s.step event).openings = s.openings)
    (hsuits : ∀ s, c.connections[item]? = some s → s.Suits openingName event) : Sheltered k (c.on item event) := by
  refine ⟨h.pool, (List.length_modify _ _ _).trans h.created, fun i s' hs' => ?_⟩
  rw [connections_on] at hs'
  split at hs'
  · next hi =>
    subst hi
    obtain ⟨s, hs, rfl⟩ := Option.map_eq_some_iff.mp hs'
    exact (h.housed i s hs).step (hopenings s) (hsuits s hs)
  · exact h.housed i s' hs'

/-- The opening that a borrower runs takes a step, or is dropped, and then the borrower does. -/
theorem onOpening (h : Sheltered k c) {e : Connection.Event}
    (hpoised : ∀ item s, c.connections[item]? = some s →
      Poised c.pool event item (if c.pool.creating? name = some item then s.step e else s))
    (htells : event.Tells (c.onOpening name e).creations) :
    Sheltered k ((c.onOpening name e).withPool (c.pool.step event)) := by
  have hparts : (c.onOpening name e).pool = c.pool := (c.onOpening_parts name e).1
  have hlength : (c.onOpening name e).connections.length = c.connections.length := by
    rw [Client.onOpening]
    split
    · exact List.length_modify _ _ _
    · rfl
  rw [← hparts]
  refine sheltered_withPool (hparts ▸ h.pool) (by rw [hlength, hparts, h.created]) (fun item s' hs' => ?_) htells
  rw [hparts]
  rw [Client.onOpening] at hs'
  split at hs'
  · next creating hcreating =>
    rw [connections_on] at hs'
    by_cases hitem : item = creating
    · rw [if_pos hitem] at hs'
      obtain ⟨s, hs, rfl⟩ := Option.map_eq_some_iff.mp hs'
      have hpoised := hpoised item s hs
      rwa [if_pos (hitem ▸ hcreating)] at hpoised
    · rw [if_neg hitem] at hs'
      have hpoised := hpoised item s' hs'
      rwa [if_neg (by rw [hcreating]; simpa using Ne.symm hitem)] at hpoised
  · next hnone =>
    have hpoised := hpoised item s' hs'
    rwa [if_neg (by simp [hnone])] at hpoised

theorem poll (h : Sheltered k c) (name : String) :
    let c' := c.onOpening name (.pollOpening openingName)
    Sheltered k (c'.withPool (c'.pool.step (.poll c'.creations name))) := by
  intro c'
  have hparts : c'.pool = c.pool := (c.onOpening_parts name _).1
  rw [hparts]
  refine h.onOpening (fun item s hs => ?_) rfl
  have hs := h.housed item s hs
  split
  · next hcreating =>
    refine ⟨hs.begun.pollOpening, fun _ => ⟨name, hcreating, by simp⟩, fun _ => Or.inr ⟨_, name, rfl, hcreating⟩,
      fun hmade => hs.begun.opened?_of_ok (hs.made.mpr hmade) (Or.inl rfl), fun hclosed => ?_⟩
    exact Session.isOver_step (hs.closed hclosed) _
  · exact hs.poised (by simp)

theorem cancel (h : Sheltered k c) (name : String) :
    let c' := c.onOpening name (.dropOpening openingName)
    Sheltered k (c'.withPool (c'.pool.step (.cancel name))) := by
  intro c'
  have hparts : c'.pool = c.pool := (c.onOpening_parts name _).1
  rw [hparts]
  refine h.onOpening (fun item s hs => ?_) trivial
  have hs := h.housed item s hs
  split
  · obtain ⟨hdropped, hbefore⟩ := hs.begun.of_dropOpening
    refine ⟨hs.begun.dropOpening, fun hconnecting => ?_, fun hok => Or.inl (hs.made.mp (hbefore hok)),
      fun hmade => hs.begun.opened?_of_ok (hs.made.mpr hmade) (Or.inr rfl), fun hclosed => ?_⟩
    · rw [hdropped] at hconnecting
      exact absurd hconnecting Bool.false_ne_true
    · exact Session.isOver_step (hs.closed hclosed) _
  · next hother =>
    refine ⟨hs.begun, fun hconnecting => ?_, fun hok => Or.inl (hs.made.mp hok), hs.made.mpr, hs.closed⟩
    obtain ⟨other, hcreating⟩ := hs.connecting hconnecting
    refine ⟨other, hcreating, fun hsame => hother ?_⟩
    rwa [Shared.Event.cancel.inj hsame]

theorem advance (h : Sheltered k c) (time : Duration) (wall : Instant) : Sheltered k (c.advance time wall) := by
  refine ⟨h.pool, (List.length_map _).trans h.created, fun item s' hs' => ?_⟩
  rw [Client.advance, List.getElem?_map] at hs'
  obtain ⟨s, hs, rfl⟩ := Option.map_eq_some_iff.mp hs'
  exact (h.housed item s hs).step rfl trivial

end Sheltered

/-- Marking a lease corrupted opens and closes no connection. -/
theorem corrupt_eq (hcreated : c.connections.length = c.pool.created) (name : String) :
    c.corrupt name = c.withPool (c.pool.step (.corrupt name)) := by
  obtain ⟨hsame, hclosed⟩ := c.pool.corrupt_parts name
  rw [Client.corrupt, corrupt_snd, Client.withPool, hclosed, hsame, List.drop_length, hcreated,
    if_neg (Nat.lt_irrefl _)]
  rfl

/-- **Every act keeps the connections with their items.** -/
theorem kept_sheltered (k : ℕ) : Kept (Sheltered k) where
  act {name c c'} h hact := by
    cases hact with
    | tables => exact ⟨h.pool, h.created, h.housed⟩
    | start capacity leased issued =>
      refine h.on _ (fun s => s.openings_step (by simp) (by simp) (by simp)) fun s hs => ?_
      exact (h.housed _ s hs).made.mpr (h.pool.made_of_leased leased)
    | exchange leased runs =>
      refine h.on _ (fun s => s.openings_step ?_ ?_ ?_) fun s hs => ?_ <;>
        rcases runs with rfl | rfl <;> simp [Session.Suits]
    | channel item e about =>
      obtain ⟨e, rfl⟩ := about
      exact h.on item (fun s => s.openings_step (by simp) (by simp) (by simp)) fun _ _ => trivial
    | borrow => exact h.withPool (by simp) rfl
    | poll issued opening =>
      rw [opening]
      exact h.poll name
    | cancel issued opening =>
      rw [opening]
      exact h.cancel name
    | release =>
      rw [giveBack_eq]
      exact h.withPool (by simp) trivial
    | corrupt =>
      rw [corrupt_eq h.created]
      exact h.withPool (by simp) trivial
  dispose h := h.withPool (by simp) trivial
  advance time wall h := h.advance time wall
  network item event h := h.on item (fun _ => rfl) fun _ _ => trivial

/-- A client that is accepted may open a connection. -/
theorem pos_maxConnections {config : Config} {dial : Dial} {wall : Instant}
    (hclient : ofConfig config dial wall = .ok c) : 0 < config.maxConnections := by
  by_contra hzero
  have hcheck : ∃ cause, config.check = .error cause := by
    rw [Config.check]
    cases Endpoint.parse config.endpoint with
    | error cause => exact ⟨cause, rfl⟩
    | ok endpoint => exact ⟨_, if_pos (by omega)⟩
  obtain ⟨cause, hcheck⟩ := hcheck
  rw [ofConfig, hcheck] at hclient
  simp at hclient

/-- In a new client there are no connections. -/
theorem sheltered_ofConfig {config : Config} {dial : Dial} {wall : Instant}
    (hclient : ofConfig config dial wall = .ok c) : Sheltered config.maxConnections c := by
  obtain ⟨hpool, hconnections, -⟩ := parts_ofConfig hclient
  have hpos := pos_maxConnections hclient
  refine ⟨?_, ?_, fun item s hs => by simp [hconnections] at hs⟩
  · rw [hpool, poolOf]
    split
    · refine ⟨.ofOptions _ _, ?_⟩
      simp only [Shared.ofOptions, SharedOptions.atLeastOne]
      omega
    · have hpos : 0 < (⟨config.maxConnections⟩ : ExclusiveOptions).maxCount := hpos
      exact ⟨[], Exclusive.placed_ofOptions _, Exclusive.balanced_ofOptions hpos⟩
  · rw [hpool, hconnections, poolOf]
    split <;> rfl

end Client

end MemcachedClient
