import MemcachedClient.Proofs.Client.Sheltering
import MemcachedClient.Proofs.Pool.Spent
import Mathlib.Data.List.Nodup

/-!
# How many connections are open

A pool may have more slots than it wants, since a slot that is retired stays, with its connection, until its last unit
is given back. But a slot is retired only when its connection is over: its opening has failed; or a lease was corrupted,
since the exchange under it failed, which faults the connection; or a lease ended and the connection was found not open,
which a connection that has been opened is not again (`kept_bounded`). Disposing the client retires slots with open
connections, but nothing is opened afterwards. So the connections that are open, or of which the connect is under way,
are no more than the configuration allows (`open_connections_le`).
-/

namespace MemcachedClient.Client

open Connection (Session)
open Pool

/-- The connection with a number is over. -/
def Over (c : Client) (item : ℕ) : Prop :=
  ∃ s, c.connections[item]? = some s ∧ s.connection.lifecycle.isOver = true

/-- The connections of a client go with the items of its pool, and nothing is to be had of the slots that are
retired. -/
structure Bounded (k : ℕ) (c : Client) : Prop where
  /-- The connections are those of the items. -/
  sheltered : Sheltered k c
  /-- The slots that are retired are spent. -/
  drained : c.pool.Drained c.Over

variable {k : ℕ} {c c' : Client} {name : String} {item : ℕ} {P : ℕ → Connection.Event → Prop}

/-- A connection that is over stays so. -/
theorem Advances.over_mono (h : Advances P c c') (hover : c.Over item) : c'.Over item := by
  obtain ⟨s, hs, hover⟩ := hover
  obtain ⟨new, -, hs'⟩ := h.goesOn item s hs
  exact ⟨_, hs', Session.isOver_run hover new⟩

namespace Sheltered

/-- The connection of an item that was made is over when it is not accepted. -/
theorem over_of_not_accepts (h : Sheltered k c) (hmade : c.pool.Made item) (hrefused : c.accepts item = false) :
    c.Over item := by
  have hlt : item < c.connections.length := h.created ▸ h.pool.lt_created hmade
  obtain ⟨s, hs⟩ : ∃ s, c.connections[item]? = some s := ⟨_, List.getElem?_eq_getElem hlt⟩
  have hhoused := h.housed item s hs
  refine ⟨s, hs, (hhoused.begun.settled (hhoused.made.mpr hmade)).resolve_left fun hopen => ?_⟩
  have haccepts : c.accepts item = true := accepts_eq_true_iff.mpr ⟨s, hs, Exchange.isOpened_iff.mpr hopen⟩
  rw [hrefused] at haccepts
  exact Bool.false_ne_true haccepts

/-- The connection of an exchange that has failed is over. -/
theorem over_of_exchanged? (h : Sheltered k c) {cause : ClientError}
    (hfailed : c.exchanged? item name = some (.error cause)) : c.Over item := by
  obtain ⟨s, hs, hfailed⟩ := Option.bind_eq_some_iff.mp hfailed
  exact ⟨s, hs, (h.housed item s hs).begun.failed name cause hfailed⟩

/-- The connection of an item that is closed is over. -/
theorem over_of_mem_closed (h : Sheltered k c) (hclosed : item ∈ c.pool.closed) : c.Over item := by
  have hlt : item < c.connections.length := h.created ▸ h.pool.lt_created (made_of_mem_closed hclosed)
  obtain ⟨s, hs⟩ : ∃ s, c.connections[item]? = some s := ⟨_, List.getElem?_eq_getElem hlt⟩
  exact ⟨s, hs, (h.housed item s hs).closed hclosed⟩

end Sheltered

/-- An operation on the pool that neither marks a lease corrupted nor ends one. -/
theorem Bounded.drained_step (h : Bounded k c) {event : Shared.Event} (hcorrupt : ∀ name, event ≠ .corrupt name)
    (hrelease : ∀ accepts name, event ≠ .release accepts name) : (c.pool.step event).Drained c.Over :=
  h.drained.step h.sheltered.pool event (fun name hevent => absurd hevent (hcorrupt name))
    fun accepts name hevent => absurd hevent (hrelease accepts name)

/-- Every act retires slots whose connections are over. -/
theorem Bounded.drained_act (h : Bounded k c) (hact : Act name c c') : c'.pool.Drained c.Over := by
  cases hact with
  | tables | start | exchange | channel => exact h.drained
  | borrow =>
    rw [withPool_eq]
    exact h.drained_step (by simp) (by simp)
  | poll issued opening =>
    rw [withPool_eq, opening, (c.onOpening_parts name _).1]
    exact h.drained_step (by simp) (by simp)
  | cancel issued opening =>
    rw [withPool_eq, opening, (c.onOpening_parts name _).1]
    exact h.drained_step (by simp) (by simp)
  | release =>
    rw [giveBack_eq, withPool_eq]
    refine h.drained.step h.sheltered.pool _ (by simp) fun accepts other hevent item hmade hrefused => ?_
    rw [← (Shared.Event.release.inj hevent).1] at hrefused
    exact h.sheltered.over_of_not_accepts hmade hrefused
  | corrupt issued leased failed =>
    rw [Client.corrupt, corrupt_snd]
    refine h.drained.step h.sheltered.pool _ (fun other hevent item hleased => ?_) (by simp)
    rw [← Shared.Event.corrupt.inj hevent] at hleased
    rw [Pool.Leased.unique hleased leased]
    exact h.sheltered.over_of_exchanged? failed

/-- **Every act keeps the slots that are retired spent.** -/
theorem kept_bounded (k : ℕ) : Kept (Bounded k) where
  act {name _ _} h hact := by
    refine ⟨(kept_sheltered k).act h.sheltered hact, (h.drained_act hact).mono fun _ hover => ?_⟩
    have hname : (Event.poll name).name? = some name := rfl
    exact (hact.advances hname).over_mono hover
  dispose {c} h := by
    refine ⟨(kept_sheltered k).dispose h.sheltered, ?_⟩
    have hadvances : Advances (fun _ _ => True) c (c.withPool (c.pool.step .dispose)) :=
      .withPool c _ (fun _ _ _ => trivial) (fun _ _ => trivial) fun _ => trivial
    have hstep : (c.pool.step .dispose).Drained c.Over := h.drained_step (by simp) (by simp)
    exact (c.withPool_parts _).1 ▸ hstep.mono fun _ => hadvances.over_mono
  advance {c} time wall h := by
    refine ⟨(kept_sheltered k).advance time wall h.sheltered, h.drained.mono fun item hover => ?_⟩
    obtain ⟨s, hs, hover⟩ := hover
    exact ⟨s.step (.advance time wall), by rw [Client.advance, List.getElem?_map, hs]; rfl, Session.isOver_step hover _⟩
  network {c} item event h := by
    have hadvances : Advances (fun _ _ => True) c (c.on item (.network event)) := .on c trivial
    exact ⟨(kept_sheltered k).network item event h.sheltered, h.drained.mono fun _ => hadvances.over_mono⟩

/-- In a new client nothing is retired. -/
theorem bounded_ofConfig {config : Config} {dial : Dial} {wall : Instant}
    (hclient : ofConfig config dial wall = .ok c) : Bounded config.maxConnections c := by
  refine ⟨sheltered_ofConfig hclient, ?_⟩
  rw [(parts_ofConfig hclient).1, poolOf]
  split
  · exact .ofOptions _ _ _
  · trivial

/-- A connection takes up room while its connect is under way and while it is open. -/
def isBusy (s : Session) : Bool := s.isConnecting || s.connection.isOpened

/-- The item of a connection that takes up room is under creation, or made and not over. -/
theorem Sheltered.of_isBusy (h : Sheltered k c) {s : Session} (hs : c.connections[item]? = some s)
    (hbusy : isBusy s = true) : (∃ name, c.pool.creating? name = some item) ∨ c.pool.Made item ∧ ¬ c.Over item := by
  have hhoused := h.housed item s hs
  rcases (Bool.or_eq_true _ _).mp hbusy with hconnecting | hopened
  · exact Or.inl (hhoused.connecting hconnecting)
  · have hopened := Exchange.isOpened_iff.mp hopened
    refine Or.inr ⟨hhoused.made.mp (hhoused.begun.opened hopened), ?_⟩
    rintro ⟨s', hs', hover⟩
    rw [hs, Option.some.injEq] at hs'
    exact (Lifecycle.ne_of_isOver hover).2 (hs' ▸ hopened)

theorem Bounded.countP_le (h : Bounded k c) : c.connections.countP isBusy ≤ k := by
  -- the numbers of the connections that take up room
  have hnodup : ((c.connections.zipIdx.filter fun entry => isBusy entry.1).map Prod.snd).Nodup := by
    have hsublist : ((c.connections.zipIdx.filter fun entry => isBusy entry.1).map Prod.snd).Sublist
        (c.connections.zipIdx.map Prod.snd) := List.filter_sublist.map _
    rw [List.zipIdx_map_snd] at hsublist
    exact hsublist.nodup (List.nodup_range' _)
  have hbound := h.sheltered.pool.length_le h.drained (fun item => h.sheltered.over_of_mem_closed) hnodup
    fun item hitem => by
      obtain ⟨⟨s, index⟩, hmem, rfl⟩ := List.mem_map.mp hitem
      obtain ⟨hmem, hbusy⟩ := List.mem_filter.mp hmem
      exact h.sheltered.of_isBusy (List.mem_zipIdx_iff_getElem?.mp hmem) hbusy
  have hcount : (c.connections.zipIdx.map Prod.fst).countP isBusy =
      c.connections.zipIdx.countP fun entry => isBusy entry.1 := List.countP_map
  rw [List.zipIdx_map_fst] at hcount
  rwa [List.length_map, ← List.countP_eq_length_filter, ← hcount] at hbound

/-- **The configuration bounds the open connections**, with pipelining or without: whatever happens to a client, the
connections that are open, and those of which the connect is under way, are no more than the configuration allows, even
while slots that are retired stay next to those that take their places. -/
theorem open_connections_le {config : Config} {dial : Dial} {wall : Instant} {start : Client}
    (hclient : ofConfig config dial wall = .ok start) (events : List Event) :
    ((start.run events).connections.countP fun s => s.isConnecting || s.connection.isOpened) ≤ config.maxConnections :=
  ((kept_bounded config.maxConnections).run (bounded_ofConfig hclient) (holding_ofConfig hclient) events).countP_le

/-- The first of two retrievals has broken their connection, and a third call borrows while the second still has its
lease. -/
def replaced : List Event := nonsense ++ [.start "c" (.retrieve .get "k"), .poll "c"]

/-- The slot that is retired stays next to the one that takes its place, but only the connection of the new one is
open. -/
theorem open_connections_le_of_replaced : ofConfig twoRequests .established (.ofParts 0 0) = .ok pair ∧
    (match (pair.run replaced).pool with
      | .shared p => p.slots.map (·.retired)
      | .exclusive _ => []) = [true, false] ∧
    (pair.run replaced).connections.map (·.connection.lifecycle) = [.faulted, .opened] ∧
    ((pair.run replaced).connections.countP fun s => s.isConnecting || s.connection.isOpened) ≤ 1 := by
  have hclient : ofConfig twoRequests .established (.ofParts 0 0) = .ok pair := rfl
  exact ⟨hclient, by decide +kernel, by decide +kernel, open_connections_le hclient replaced⟩

end MemcachedClient.Client
