import Parley.Proofs.Client.History

/-! The books of a client: its calls, what is tracked, and its slots.

Every call that was made is in one place: it connects, waits for a connection's end or for
idleness, or is over. The tracker counts the connect calls that have begun and the connections
that have not ended. In line for a slot are the connect calls that wait for one, and a slot is
spare, or a connect call past admission has it, or a connection that has not ended. This is `Kept`
by every move (`kept_of_reachable`).

What the books are about is put into a `Ledger`, whose lists may be taken in any order
(`Kept.perm`), so that a step is something done to the head of a list. -/
namespace Parley.Client
open Channel

/-- What the books of a client are about. -/
structure Ledger where
  calls : List CallId
  /-- The calls that returned or were dropped. -/
  finished : List CallId
  dials : List Dial
  connections : List Connection
  idling : List CallId
  fired : Bool
  tracker : Tracker
  admission : Admission
  /-- How many slots there are. -/
  slots : Nat

def World.ledger (w : World) : Ledger where
  calls := w.log.calls
  finished := w.log.finished
  dials := w.client.dials
  connections := w.client.connections
  idling := w.client.idling
  fired := w.client.shutdown.fired
  tracker := w.client.tracker
  admission := w.client.admission
  slots := w.client.config.slots

/-- The connect calls that wait for a slot. -/
def queued (dials : List Dial) : List CallId := (dials.filter (·.stage.isQueued)).map (·.id)

/-- The calls that wait for a connection's end. -/
def awaiting (connections : List Connection) : List CallId := connections.filterMap (·.awaiting)

/-- How many connections have not ended. -/
def live (connections : List Connection) : Nat := connections.countP (·.isLive)

/-- How many connect calls are tracked. -/
def underway (dials : List Dial) : Nat := dials.countP (·.stage.isTracked)

/-- How many connect calls dial or make their handshake. -/
def connecting (dials : List Dial) : Nat := dials.countP (·.stage.hasSlot)

/-- A connection as it has to be: it has not ended while its engine drives a stream, and nobody
waits for its end while its holder has it. -/
structure Connection.Sound (k : Connection) : Prop where
  driven : k.isLive = true ↔ k.engine.drive ≠ none
  held : k.held = true → k.awaiting = none

section
variable {x y : Dial} {rest : List Dial} {k : Connection} {ks : List Connection}

theorem queued_of_true (h : x.stage.isQueued = true) :
    queued (x :: rest) = x.id :: queued rest := by
  simp only [queued, List.filter_cons, h, if_true, List.map_cons]

theorem queued_of_false (h : x.stage.isQueued = false) : queued (x :: rest) = queued rest := by
  simp [queued, h]

theorem queued_congr (hid : y.id = x.id) (h : y.stage.isQueued = x.stage.isQueued) :
    queued (y :: rest) = queued (x :: rest) := by
  cases hx : x.stage.isQueued with
  | true => rw [queued_of_true (h.trans hx), queued_of_true hx, hid]
  | false => rw [queued_of_false (h.trans hx), queued_of_false hx]

theorem underway_congr (h : y.stage.isTracked = x.stage.isTracked) :
    underway (y :: rest) = underway (x :: rest) := by
  simp only [underway, List.countP_cons, h]

theorem underway_of_true (h : x.stage.isTracked = true) :
    underway (x :: rest) = underway rest + 1 :=
  List.countP_cons_of_pos h

theorem underway_of_false (h : x.stage.isTracked = false) : underway (x :: rest) = underway rest :=
  List.countP_cons_of_neg (by rw [h]; decide)

theorem connecting_congr (h : y.stage.hasSlot = x.stage.hasSlot) :
    connecting (y :: rest) = connecting (x :: rest) := by
  simp only [connecting, List.countP_cons, h]

theorem connecting_of_true (h : x.stage.hasSlot = true) :
    connecting (x :: rest) = connecting rest + 1 :=
  List.countP_cons_of_pos h

theorem connecting_of_false (h : x.stage.hasSlot = false) :
    connecting (x :: rest) = connecting rest :=
  List.countP_cons_of_neg (by rw [h]; decide)

theorem live_of_true (h : k.isLive = true) : live (k :: ks) = live ks + 1 :=
  List.countP_cons_of_pos h

theorem live_of_false (h : k.isLive = false) : live (k :: ks) = live ks :=
  List.countP_cons_of_neg (by rw [h]; decide)

/-- A call that is not tracked neither waits for a slot nor has one. -/
theorem Stage.of_isTracked {stage : Stage} (h : stage.isTracked = false) :
    stage.isQueued = false ∧ stage.hasSlot = false := by
  cases stage <;> first | exact ⟨rfl, rfl⟩ | cases h

/-- A call that has a slot does not wait for one. -/
theorem Stage.of_hasSlot {stage : Stage} (h : stage.hasSlot = true) :
    stage.isQueued = false ∧ stage.isTracked = true := by
  cases stage <;> first | exact ⟨rfl, rfl⟩ | cases h

end

namespace Ledger

/-- The books are in order. -/
structure Kept (l : Ledger) : Prop where
  calls : l.calls.Nodup
  places : l.calls.Perm (l.dials.map (·.id) ++ (awaiting l.connections ++ (l.idling ++ l.finished)))
  /-- A connection has the name of the call that made it. -/
  named : (l.connections.map (·.id)).Nodup
  known : ∀ k ∈ l.connections, k.id ∈ l.finished
  sound : ∀ k ∈ l.connections, k.Sound
  tracked : l.tracker.active = underway l.dials + live l.connections
  line : l.admission.waiting.Perm (queued l.dials)
  slots : l.admission.spare + connecting l.dials + live l.connections = l.slots
  /-- Nobody waits for idleness before the signal has fired. -/
  begun : l.idling ≠ [] → l.fired = true

namespace Kept
variable {l : Ledger}

/-- The order of the lists does not matter. -/
theorem perm (h : l.Kept) {dials : List Dial} {connections : List Connection}
    (hd : l.dials.Perm dials) (hc : l.connections.Perm connections) :
    { l with dials, connections }.Kept where
  calls := h.calls
  places := h.places.trans ((hd.map _).append ((hc.filterMap _).append_right _))
  named := (hc.map _).nodup_iff.mp h.named
  known k hk := h.known k (hc.mem_iff.mpr hk)
  sound k hk := h.sound k (hc.mem_iff.mpr hk)
  tracked := by
    rw [h.tracked, underway, live, hd.countP_eq, hc.countP_eq]
    rfl
  line := h.line.trans ((hd.filter _).map _)
  slots := by
    have hslots := h.slots
    rw [connecting, live, hd.countP_eq, hc.countP_eq] at hslots
    exact hslots
  begun := h.begun

theorem dials_nodup (h : l.Kept) : (l.dials.map (·.id)).Nodup :=
  (List.nodup_append.mp (h.places.nodup_iff.mp h.calls)).1

theorem finished_nodup (h : l.Kept) : l.finished.Nodup := by
  have hplaces := h.places.nodup_iff.mp h.calls
  have hrest := (List.nodup_append.mp (List.nodup_append.mp hplaces).2.1).2.1
  exact (List.nodup_append.mp hrest).2.1

/-- A connect call that is there is not over. -/
theorem not_finished (h : l.Kept) {x : Dial} (hx : x ∈ l.dials) : x.id ∉ l.finished := by
  intro hmem
  have hplaces := h.places.nodup_iff.mp h.calls
  exact (List.nodup_append.mp hplaces).2.2 _ (List.mem_map_of_mem hx) _
    (List.mem_append_right _ (List.mem_append_right _ hmem)) rfl

theorem waiting_nodup (h : l.Kept) : l.admission.waiting.Nodup :=
  h.line.nodup_iff.mpr (h.dials_nodup.sublist (List.filter_sublist.map _))

/-! Operations on the connect call at the head of the list. -/

variable {x y : Dial} {rest : List Dial} {a : Admission}

/-- Nothing changes hands. -/
theorem moves (h : l.Kept) (hl : l.dials = x :: rest) (hid : y.id = x.id)
    (htracked : y.stage.isTracked = x.stage.isTracked)
    (hqueued : y.stage.isQueued = x.stage.isQueued) (hslot : y.stage.hasSlot = x.stage.hasSlot) :
    { l with dials := y :: rest }.Kept where
  calls := h.calls
  places := by simpa [hl, hid] using h.places
  named := h.named
  known := h.known
  sound := h.sound
  tracked := by simpa only [hl, underway_congr htracked] using h.tracked
  line := by simpa only [hl, queued_congr hid hqueued] using h.line
  slots := by simpa only [hl, connecting_congr hslot] using h.slots
  begun := h.begun

/-- A call is tracked. -/
theorem tracks (h : l.Kept) (hl : l.dials = x :: rest) (hid : y.id = x.id)
    (htracked : x.stage.isTracked = false) (htracked' : y.stage.isTracked = true)
    (hqueued' : y.stage.isQueued = false) (hslot' : y.stage.hasSlot = false) :
    { l with dials := y :: rest, tracker := l.tracker.track.2 }.Kept where
  calls := h.calls
  places := by simpa [hl, hid] using h.places
  named := h.named
  known := h.known
  sound := h.sound
  tracked := by
    have hcount := h.tracked
    rw [hl, underway_of_false htracked] at hcount
    show l.tracker.active + 1 = underway (y :: rest) + live l.connections
    rw [underway_of_true htracked', hcount]
    exact Nat.add_right_comm ..
  line := by
    have hline := h.line
    rw [hl, queued_of_false (Stage.of_isTracked htracked).1] at hline
    rwa [queued_of_false hqueued']
  slots := by
    have hslots := h.slots
    rw [hl, connecting_of_false (Stage.of_isTracked htracked).2] at hslots
    rwa [connecting_of_false hslot']
  begun := h.begun

/-- A call gets in line. -/
theorem queues (h : l.Kept) (hl : l.dials = x :: rest) (hid : y.id = x.id)
    (htracked : y.stage.isTracked = x.stage.isTracked) (hqueued : x.stage.isQueued = false)
    (hqueued' : y.stage.isQueued = true) (hslot : y.stage.hasSlot = x.stage.hasSlot)
    (hspare : a.spare = l.admission.spare) (hwaiting : a.waiting = l.admission.waiting ++ [x.id]) :
    { l with dials := y :: rest, admission := a }.Kept where
  calls := h.calls
  places := by simpa [hl, hid] using h.places
  named := h.named
  known := h.known
  sound := h.sound
  tracked := by simpa only [hl, underway_congr htracked] using h.tracked
  line := by
    have hline := h.line
    rw [hl, queued_of_false hqueued] at hline
    rw [queued_of_true hqueued', hid, hwaiting]
    exact (List.perm_append_singleton _ _).trans (hline.cons _)
  slots := by simpa only [hl, connecting_congr hslot, hspare] using h.slots
  begun := h.begun

/-- A call that does not wait for a slot is not in line. -/
theorem waiting_filter (h : l.Kept) (hl : l.dials = x :: rest)
    (hqueued : x.stage.isQueued = false) :
    l.admission.waiting.filter (· != x.id) = l.admission.waiting := by
  have hline := h.line
  rw [hl] at hline
  exact Keyed.filter_of_not_picked (k := Dial.id) (hl ▸ h.dials_nodup) hline hqueued

/-- All in line but the call at the head are other calls that wait for a slot. -/
theorem line_filter (h : l.Kept) (hl : l.dials = x :: rest) :
    (l.admission.waiting.filter (· != x.id)).Perm (queued rest) := by
  have hline := h.line
  rw [hl] at hline
  exact Keyed.perm_without_head (k := Dial.id) (hl ▸ h.dials_nodup) hline

/-- A call leaves the line without a slot, if it is there. -/
theorem leaves (h : l.Kept) (hl : l.dials = x :: rest) (hid : y.id = x.id)
    (htracked : y.stage.isTracked = x.stage.isTracked) (hqueued' : y.stage.isQueued = false)
    (hslot : y.stage.hasSlot = x.stage.hasSlot) :
    { l with dials := y :: rest, admission := l.admission.leave x.id }.Kept where
  calls := h.calls
  places := by simpa [hl, hid] using h.places
  named := h.named
  known := h.known
  sound := h.sound
  tracked := by simpa only [hl, underway_congr htracked] using h.tracked
  line := by
    rw [queued_of_false hqueued', Admission.waiting_leave]
    exact h.line_filter hl
  slots := by
    have hslots := h.slots
    rw [← Admission.spare_leave h.waiting_nodup x.id] at hslots
    simpa only [hl, connecting_congr hslot] using hslots
  begun := h.begun

/-- A call gets a slot. -/
theorem admits (h : l.Kept) (hl : l.dials = x :: rest) (hid : y.id = x.id)
    (htracked : x.stage.isTracked = true) (hslot : x.stage.hasSlot = false)
    (hslot' : y.stage.hasSlot = true) (hspare : a.spare + 1 = l.admission.spare)
    (hwaiting : a.waiting = l.admission.waiting.filter (· != x.id)) :
    { l with dials := y :: rest, admission := a }.Kept where
  calls := h.calls
  places := by simpa [hl, hid] using h.places
  named := h.named
  known := h.known
  sound := h.sound
  tracked := by
    have htracked' := (Stage.of_hasSlot hslot').2
    simpa only [hl, underway_congr (htracked'.trans htracked.symm)] using h.tracked
  line := by
    rw [queued_of_false (Stage.of_hasSlot hslot').1, hwaiting]
    exact h.line_filter hl
  slots := by
    have hslots := h.slots
    rw [hl, connecting_of_false hslot] at hslots
    show a.spare + connecting (y :: rest) + live l.connections = l.slots
    rw [connecting_of_true hslot']
    omega
  begun := h.begun

/-- A call gives its slot back. -/
theorem vacates (h : l.Kept) (hl : l.dials = x :: rest) (hid : y.id = x.id)
    (hslot : x.stage.hasSlot = true) (htracked' : y.stage.isTracked = true)
    (hqueued' : y.stage.isQueued = false) (hslot' : y.stage.hasSlot = false) :
    { l with dials := y :: rest, admission := l.admission.release }.Kept where
  calls := h.calls
  places := by simpa [hl, hid] using h.places
  named := h.named
  known := h.known
  sound := h.sound
  tracked := by
    have htracked := (Stage.of_hasSlot hslot).2
    simpa only [hl, underway_congr (htracked'.trans htracked.symm)] using h.tracked
  line := by
    have hline := h.line
    rw [hl, queued_of_false (Stage.of_hasSlot hslot).1] at hline
    rwa [queued_of_false hqueued', Admission.waiting_release]
  slots := by
    have hslots := h.slots
    rw [hl, connecting_of_true hslot] at hslots
    show l.admission.release.spare + connecting (y :: rest) + live l.connections = l.slots
    rw [connecting_of_false hslot', Admission.spare_release]
    omega
  begun := h.begun

/-- What remains of the calls when the one at the head is over. -/
theorem places_tail (h : l.Kept) (hl : l.dials = x :: rest) {gone : List CallId}
    (hgone : gone.Perm (x.id :: l.finished)) :
    l.calls.Perm (rest.map (·.id) ++ (awaiting l.connections ++ (l.idling ++ gone))) := by
  have hplaces := h.places
  rw [hl, List.map_cons, List.cons_append] at hplaces
  simp only [← List.append_assoc] at hplaces ⊢
  exact hplaces.trans (List.perm_middle.symm.trans (hgone.symm.append_left _))

/-- A call that has no slot and does not wait for one is over. -/
theorem ends (h : l.Kept) (hl : l.dials = x :: rest) (htracked : x.stage.isTracked = true)
    (hqueued : x.stage.isQueued = false) (hslot : x.stage.hasSlot = false) {gone : List CallId}
    (hgone : gone.Perm (x.id :: l.finished)) :
    { l with dials := rest, tracker := l.tracker.release, finished := gone }.Kept where
  calls := h.calls
  places := h.places_tail hl hgone
  named := h.named
  known k hk := hgone.mem_iff.mpr (List.mem_cons_of_mem _ (h.known k hk))
  sound := h.sound
  tracked := by
    have hcount := h.tracked
    rw [hl, underway_of_true htracked] at hcount
    show l.tracker.active - 1 = underway rest + live l.connections
    omega
  line := by
    have hline := h.line
    rwa [hl, queued_of_false hqueued] at hline
  slots := by
    have hslots := h.slots
    rwa [hl, connecting_of_false hslot] at hslots
  begun := h.begun

/-- A call that had not begun is over. -/
theorem withdraws (h : l.Kept) (hl : l.dials = x :: rest) (htracked : x.stage.isTracked = false)
    {gone : List CallId} (hgone : gone.Perm (x.id :: l.finished)) :
    { l with dials := rest, finished := gone }.Kept where
  calls := h.calls
  places := h.places_tail hl hgone
  named := h.named
  known k hk := hgone.mem_iff.mpr (List.mem_cons_of_mem _ (h.known k hk))
  sound := h.sound
  tracked := by
    have hcount := h.tracked
    rwa [hl, underway_of_false htracked] at hcount
  line := by
    have hline := h.line
    rwa [hl, queued_of_false (Stage.of_isTracked htracked).1] at hline
  slots := by
    have hslots := h.slots
    rwa [hl, connecting_of_false (Stage.of_isTracked htracked).2] at hslots
  begun := h.begun

/-- A call returns with a connection, which takes over what the call had. -/
theorem opens (h : l.Kept) (hl : l.dials = x :: rest) (hslot : x.stage.hasSlot = true)
    {k : Connection} (hid : k.id = x.id) (hsound : k.Sound) (hlive : k.isLive = true)
    (hawaiting : k.awaiting = none) {gone : List CallId} (hgone : gone.Perm (x.id :: l.finished)) :
    { l with dials := rest, connections := l.connections ++ [k], finished := gone }.Kept := by
  have hnew : x.id ∉ l.finished := by
    have hplaces := h.places.nodup_iff.mp h.calls
    rw [hl] at hplaces
    intro hmem
    refine (List.nodup_cons.mp hplaces).1 ?_
    simp [hmem]
  have hadded : live (l.connections ++ [k]) = live l.connections + 1 := by
    rw [live, List.countP_append, List.countP_singleton, if_pos hlive]
    rfl
  exact {
    calls := h.calls
    places := by
      have hsame : awaiting (l.connections ++ [k]) = awaiting l.connections := by
        simp [awaiting, hawaiting]
      rw [hsame]
      exact h.places_tail hl hgone
    named := by
      rw [List.map_append]
      refine List.nodup_append_comm.mp (List.nodup_cons.mpr ⟨?_, h.named⟩)
      intro hmem
      obtain ⟨k', hk', heq⟩ := List.mem_map.mp hmem
      have hsame : k'.id = x.id := heq.trans hid
      exact hnew (hsame ▸ h.known k' hk')
    known := by
      intro k' hk'
      refine hgone.mem_iff.mpr ?_
      rcases List.mem_append.mp hk' with hk' | hk'
      · exact List.mem_cons_of_mem _ (h.known k' hk')
      · rw [List.mem_singleton.mp hk', hid]
        exact List.mem_cons_self
    sound := by
      intro k' hk'
      rcases List.mem_append.mp hk' with hk' | hk'
      · exact h.sound k' hk'
      · exact List.mem_singleton.mp hk' ▸ hsound
    tracked := by
      have hcount := h.tracked
      rw [hl, underway_of_true (Stage.of_hasSlot hslot).2] at hcount
      show l.tracker.active = underway rest + live (l.connections ++ [k])
      rw [hadded]
      omega
    line := by
      have hline := h.line
      rwa [hl, queued_of_false (Stage.of_hasSlot hslot).1] at hline
    slots := by
      have hslots := h.slots
      rw [hl, connecting_of_true hslot] at hslots
      show l.admission.spare + connecting rest + live (l.connections ++ [k]) = l.slots
      rw [hadded]
      omega
    begun := h.begun }

/-! Operations on the connection at the head of the list. -/

variable {k m : Connection} {ks : List Connection}

/-- The connection at the head of the list is another under the same name. -/
theorem named_head (h : l.Kept) (hl : l.connections = k :: ks) (hid : m.id = k.id) :
    ((m :: ks).map (·.id)).Nodup ∧ ∀ k' ∈ m :: ks, k'.id ∈ l.finished := by
  have hnamed := h.named
  have hknown := h.known
  rw [hl] at hnamed hknown
  refine ⟨by simpa [hid] using hnamed, ?_⟩
  obtain ⟨hhead, hrest⟩ := List.forall_mem_cons.mp hknown
  exact List.forall_mem_cons.mpr ⟨hid ▸ hhead, hrest⟩

theorem sound_head (h : l.Kept) (hl : l.connections = k :: ks) (hm : m.Sound) :
    ∀ k' ∈ m :: ks, k'.Sound := by
  have hsound := h.sound
  rw [hl] at hsound
  exact List.forall_mem_cons.mpr ⟨hm, (List.forall_mem_cons.mp hsound).2⟩

theorem live_congr (h : m.isLive = k.isLive) : live (m :: ks) = live (k :: ks) := by
  simp only [live, List.countP_cons, h]

theorem awaiting_congr (h : m.awaiting = k.awaiting) : awaiting (m :: ks) = awaiting (k :: ks) := by
  simp only [awaiting, List.filterMap_cons, h]

/-- Nothing changes hands. -/
theorem changes (h : l.Kept) (hl : l.connections = k :: ks) (hid : m.id = k.id) (hm : m.Sound)
    (hlive : m.isLive = k.isLive) (hawaiting : m.awaiting = k.awaiting) :
    { l with connections := m :: ks }.Kept where
  calls := h.calls
  places := by simpa only [hl, awaiting_congr hawaiting] using h.places
  named := (h.named_head hl hid).1
  known := (h.named_head hl hid).2
  sound := h.sound_head hl hm
  tracked := by simpa only [hl, live_congr hlive] using h.tracked
  line := h.line
  slots := by simpa only [hl, live_congr hlive] using h.slots
  begun := h.begun

/-- A connection has ended: its slot is given back and it is tracked no more. -/
theorem closes (h : l.Kept) (hl : l.connections = k :: ks) (hid : m.id = k.id) (hm : m.Sound)
    (hlive : k.isLive = true) (hlive' : m.isLive = false) (hawaiting : m.awaiting = k.awaiting) :
    { l with
      connections := m :: ks
      tracker := l.tracker.release
      admission := l.admission.release }.Kept where
  calls := h.calls
  places := by simpa only [hl, awaiting_congr hawaiting] using h.places
  named := (h.named_head hl hid).1
  known := (h.named_head hl hid).2
  sound := h.sound_head hl hm
  tracked := by
    have hcount := h.tracked
    rw [hl, live_of_true hlive] at hcount
    show l.tracker.active - 1 = underway l.dials + live (m :: ks)
    rw [live_of_false hlive']
    omega
  line := by
    rw [Admission.waiting_release]
    exact h.line
  slots := by
    have hslots := h.slots
    rw [hl, live_of_true hlive] at hslots
    show l.admission.release.spare + connecting l.dials + live (m :: ks) = l.slots
    rw [live_of_false hlive', Admission.spare_release]
    omega
  begun := h.begun

/-- A call waits for a connection's end. -/
theorem joins (h : l.Kept) (hl : l.connections = k :: ks) (hid : m.id = k.id) (hm : m.Sound)
    (hlive : m.isLive = k.isLive) (hawaiting : k.awaiting = none) {call : CallId}
    (hnew : call ∉ l.calls) (hawaiting' : m.awaiting = some call) :
    { l with calls := l.calls ++ [call], connections := m :: ks }.Kept where
  calls := List.nodup_append_comm.mp (List.nodup_cons.mpr ⟨hnew, h.calls⟩)
  places := by
    have hplaces := h.places
    have hbefore : awaiting (k :: ks) = awaiting ks := by
      simp only [awaiting, List.filterMap_cons, hawaiting]
    have hafter : awaiting (m :: ks) = call :: awaiting ks := by
      simp only [awaiting, List.filterMap_cons, hawaiting']
    rw [hl, hbefore] at hplaces
    rw [hafter, List.cons_append]
    exact (List.perm_append_singleton _ _).trans ((hplaces.cons call).trans List.perm_middle.symm)
  named := (h.named_head hl hid).1
  known := (h.named_head hl hid).2
  sound := h.sound_head hl hm
  tracked := by simpa only [hl, live_congr hlive] using h.tracked
  line := h.line
  slots := by simpa only [hl, live_congr hlive] using h.slots
  begun := h.begun

/-- A call that waited for a connection's end is over. -/
theorem leaves_end (h : l.Kept) (hl : l.connections = k :: ks) (hid : m.id = k.id) (hm : m.Sound)
    (hlive : m.isLive = k.isLive) {call : CallId} (hawaiting : k.awaiting = some call)
    (hawaiting' : m.awaiting = none) {gone : List CallId} (hgone : gone.Perm (call :: l.finished)) :
    { l with connections := m :: ks, finished := gone }.Kept where
  calls := h.calls
  places := by
    have hplaces := h.places
    have hbefore : awaiting (k :: ks) = call :: awaiting ks := by
      simp only [awaiting, List.filterMap_cons, hawaiting]
    have hafter : awaiting (m :: ks) = awaiting ks := by
      simp only [awaiting, List.filterMap_cons, hawaiting']
    rw [hl, hbefore, List.cons_append] at hplaces
    rw [hafter]
    refine hplaces.trans (.append_left _ ?_)
    rw [← List.append_assoc]
    refine List.perm_middle.symm.trans ?_
    rw [List.append_assoc]
    exact (hgone.symm.append_left _).append_left _
  named := (h.named_head hl hid).1
  known k' hk' := hgone.mem_iff.mpr (List.mem_cons_of_mem _ ((h.named_head hl hid).2 k' hk'))
  sound := h.sound_head hl hm
  tracked := by simpa only [hl, live_congr hlive] using h.tracked
  line := h.line
  slots := by simpa only [hl, live_congr hlive] using h.slots
  begun := h.begun

/-- What connections have besides their names, ends and waiting calls does not matter. -/
theorem mapped (h : l.Kept) {f : Connection → Connection}
    (hf : ∀ k, (f k).id = k.id ∧ (f k).isLive = k.isLive ∧ (f k).awaiting = k.awaiting)
    (hsound : ∀ k, k.Sound → (f k).Sound) :
    { l with connections := l.connections.map f }.Kept := by
  have hids : (l.connections.map f).map (·.id) = l.connections.map (·.id) := by
    simp only [List.map_map, Function.comp_def, hf]
  have hawaiting : awaiting (l.connections.map f) = awaiting l.connections := by
    simp only [awaiting, List.filterMap_map, Function.comp_def, hf]
  have hlive : live (l.connections.map f) = live l.connections := by
    simp only [live, List.countP_map, Function.comp_def, hf]
  exact {
    calls := h.calls
    places := by simpa only [hawaiting] using h.places
    named := by simpa only [hids] using h.named
    known := by
      intro k' hk'
      obtain ⟨k, hk, rfl⟩ := List.mem_map.mp hk'
      rw [(hf k).1]
      exact h.known k hk
    sound := by
      intro k' hk'
      obtain ⟨k, hk, rfl⟩ := List.mem_map.mp hk'
      exact hsound k (h.sound k hk)
    tracked := by simpa only [hlive] using h.tracked
    line := h.line
    slots := by simpa only [hlive] using h.slots
    begun := h.begun }

/-! Calls come and go. -/

variable {id : CallId}

theorem connects (h : l.Kept) (hnew : id ∉ l.calls) (hid : x.id = id)
    (htracked : x.stage.isTracked = false) :
    { l with calls := l.calls ++ [id], dials := l.dials ++ [x] }.Kept := by
  obtain ⟨hqueued, hslot⟩ := Stage.of_isTracked htracked
  have hdials : { l with calls := l.calls ++ [id], dials := x :: l.dials }.Kept := {
    calls := List.nodup_append_comm.mp (List.nodup_cons.mpr ⟨hnew, h.calls⟩)
    places := by
      refine (List.perm_append_singleton _ _).trans ?_
      rw [← hid]
      exact h.places.cons _
    named := h.named
    known := h.known
    sound := h.sound
    tracked := by simpa only [underway_of_false htracked] using h.tracked
    line := by simpa only [queued_of_false hqueued] using h.line
    slots := by simpa only [connecting_of_false hslot] using h.slots
    begun := h.begun }
  exact hdials.perm (List.perm_append_singleton _ _).symm .rfl

theorem shuts (h : l.Kept) (hnew : id ∉ l.calls) :
    { l with calls := l.calls ++ [id], idling := l.idling ++ [id], fired := true }.Kept :=
  { h with
    calls := List.nodup_append_comm.mp (List.nodup_cons.mpr ⟨hnew, h.calls⟩)
    places := by
      have hplaces := (List.perm_append_singleton id l.calls).trans (h.places.cons id)
      simp only [← List.append_assoc] at hplaces ⊢
      rw [List.append_assoc (_ ++ _) [id], List.singleton_append]
      exact hplaces.trans List.perm_middle.symm
    begun := fun _ => rfl }

theorem idling_nodup (h : l.Kept) : l.idling.Nodup := by
  have hall := (List.nodup_append.mp (h.places.nodup_iff.mp h.calls)).2.1
  exact (List.nodup_append.mp (List.nodup_append.mp hall).2.1).1

/-- A call that waits for idleness is over. -/
theorem rests (h : l.Kept) (hid : id ∈ l.idling) {gone : List CallId}
    (hgone : gone.Perm (id :: l.finished)) :
    { l with idling := l.idling.filter (· != id), finished := gone }.Kept :=
  { h with
    places :=
      h.places.trans
        (((Keyed.perm_passed h.idling_nodup hid hgone).append_left _).append_left _)
    known := fun k hk => hgone.mem_iff.mpr (List.mem_cons_of_mem _ (h.known k hk))
    begun := fun hne => h.begun fun hnil => hne (by rw [hnil]; rfl) }

end Kept
end Ledger

/-! ### Every move keeps the books -/

section
variable {w w' : World} {c : Client} {d : Dial} {k m : Connection} {now : Nat} {id : CallId}
  {events : List Event}

/-- The connect calls other than one of them. -/
abbrev rest (w : World) (d : Dial) : List Dial := w.client.dials.filter (·.id != d.id)

/-- A call that has begun fails, and has no slot. -/
theorem kept_dialFails {a : Admission} {x : Dial} (e : Error)
    (h : { w.ledger with dials := x :: rest w d, admission := a }.Kept) (hid : x.id = d.id)
    (htracked : x.stage.isTracked = true) (hqueued : x.stage.isQueued = false)
    (hslot : x.stage.hasSlot = false) :
    (w.after ({ w.client with admission := a }.dialFails d e).1
      ({ w.client with admission := a }.dialFails d e).2).ledger.Kept := by
  have hgone : (w.log.note (.returned d.id (.failed e))).finished.Perm
      (x.id :: w.ledger.finished) := by
    rw [hid]
    exact w.log.perm_returned d.id _
  exact h.ends rfl htracked hqueued hslot hgone

/-- A call gets a slot and starts to dial. -/
theorem kept_startDialing {a : Admission} (h : w.ledger.Kept) (hd : d ∈ w.client.dials)
    (htracked : d.stage.isTracked = true) (hslot : d.stage.hasSlot = false)
    (hspare : a.spare + 1 = w.client.admission.spare)
    (hwaiting : a.waiting = w.client.admission.waiting.filter (· != d.id)) (now : Nat) :
    (w.after ({ w.client with admission := a }.startDialing now d) []).ledger.Kept := by
  have hhead : { w.ledger with dials := d :: rest w d }.Kept :=
    h.perm (Keyed.perm_cons h.dials_nodup hd) .rfl
  let due := dueAfter w.client.config.handshakeTimeout now
  have hadmitted := hhead.admits (y := { d with stage := .dialing due })
    rfl rfl htracked hslot rfl hspare hwaiting
  have hset := Keyed.perm_set (k := Dial.id) (y := { d with stage := .dialing due })
    h.dials_nodup hd rfl
  exact hadmitted.perm hset.symm .rfl

theorem kept_dialStepped (h : w.ledger.Kept) (hd : d ∈ w.client.dials)
    (hstep : DialStepped w.client now d c events) : (w.after c events).ledger.Kept := by
  have hhead : { w.ledger with dials := d :: rest w d }.Kept :=
    h.perm (Keyed.perm_cons h.dials_nodup hd) .rfl
  have hset : ∀ stage : Stage, _ := fun stage =>
    (Keyed.perm_set (k := Dial.id) (y := { d with stage }) h.dials_nodup hd rfl).symm
  cases hstep with
  | tracks hstage =>
    have htracked := hhead.tracks (y := { d with stage := .tracked })
      rfl rfl (by rw [hstage]; rfl) rfl rfl rfl
    exact htracked.perm (hset _) .rfl
  | givesIn hfired hstage =>
    exact kept_dialFails .shutdown hhead rfl (by rw [hstage]; rfl) (by rw [hstage]; rfl)
      (by rw [hstage]; rfl)
  | clears hopen hstage =>
    have hcleared := hhead.moves (y := { d with stage := .cleared })
      rfl rfl (by rw [hstage]; rfl) (by rw [hstage]; rfl) (by rw [hstage]; rfl)
    exact hcleared.perm (hset _) .rfl
  | @queues admission hstage hacquire =>
    obtain ⟨hspare, hwaiting⟩ := Admission.acquire_eq_false hacquire
    have hqueued := hhead.queues (y := { d with stage := .queued })
      rfl rfl (by rw [hstage]; rfl) (by rw [hstage]; rfl) rfl (by rw [hstage]; rfl) hspare hwaiting
    exact hqueued.perm (hset _) .rfl
  | @admits admission hstage hacquire =>
    obtain ⟨hspare, hwaiting⟩ := Admission.acquire_eq_true hacquire
    have hfilter := hhead.waiting_filter rfl (by rw [hstage]; rfl)
    exact kept_startDialing h hd (by rw [hstage]; rfl) (by rw [hstage]; rfl) hspare
      (hwaiting.trans hfilter.symm) now
  | @takesUp admission hstage hwait =>
    obtain ⟨-, hspare, hwaiting⟩ := Admission.stepWait_eq_ok h.waiting_nodup hwait
    exact kept_startDialing h hd (by rw [hstage]; rfl) (by rw [hstage]; rfl) hspare hwaiting now
  | @stopsWaiting e hstage =>
    have hleft := hhead.leaves (y := { d with stage := .cleared })
      rfl rfl (by rw [hstage]; rfl) rfl (by rw [hstage]; rfl)
    exact kept_dialFails e hleft rfl rfl rfl rfl
  | @fails e hslot =>
    have hvacated := hhead.vacates (y := { d with stage := .cleared }) rfl rfl hslot rfl rfl rfl
    exact kept_dialFails e hvacated rfl rfl rfl rfl
  | @goes stage hslot hslot' =>
    obtain ⟨hqueued, htracked⟩ := Stage.of_hasSlot hslot
    obtain ⟨hqueued', htracked'⟩ := Stage.of_hasSlot hslot'
    have hmoved := hhead.moves (y := { d with stage }) rfl rfl (htracked'.trans htracked.symm)
      (hqueued'.trans hqueued.symm) (hslot'.trans hslot.symm)
    exact hmoved.perm (hset _) .rfl
  | @opens stream key hslot =>
    have hsound : Connection.Sound
        { id := d.id, stream, engine := w.client.engage now key } := by
      refine ⟨iff_of_true rfl (drive_engage w.client now key), fun _ => rfl⟩
    exact hhead.opens rfl hslot rfl hsound rfl rfl (w.log.perm_returned d.id .done)

/-- A connection is put in its place with nothing changing hands. -/
theorem kept_setConnection (h : w.ledger.Kept) (hk : k ∈ w.client.connections) (hid : m.id = k.id)
    (hm : m.Sound) (hlive : m.isLive = k.isLive) (hawaiting : m.awaiting = k.awaiting) :
    (w.become (w.client.setConnection m)).ledger.Kept := by
  have hhead := h.perm .rfl (Keyed.perm_cons (k := Connection.id) h.named hk)
  have hset := Keyed.perm_set (k := Connection.id) (y := m) h.named hk hid
  exact (hhead.changes rfl hid hm hlive hawaiting).perm .rfl hset.symm

theorem kept_taskStepped (h : w.ledger.Kept) (hk : k ∈ w.client.connections)
    (hstep : TaskStepped w.client k c events) : (w.after c events).ledger.Kept := by
  have hsound := h.sound k hk
  cases hstep with
  | @goes engine events hdrive =>
    have hkept := kept_setConnection (m := { k with engine }) h hk rfl
      ⟨hsound.driven.trans (not_congr hdrive.symm), hsound.held⟩ rfl rfl
    rw [World.ledger, World.after, Record.notes_engine]
    exact hkept
  | @ends engine r events hdriven hdrive =>
    have hhead := h.perm .rfl (Keyed.perm_cons (k := Connection.id) h.named hk)
    have hset := Keyed.perm_set (k := Connection.id) (y := { k with engine, result := some r })
      h.named hk rfl
    have hended := hhead.closes (m := { k with engine, result := some r }) rfl rfl
      ⟨iff_of_false (by rintro ⟨⟩) fun hne => hne hdrive, hsound.held⟩
      (hsound.driven.mpr hdriven) rfl rfl
    rw [World.ledger, World.after, List.foldl_append, Record.notes_engine]
    exact hended.perm .rfl hset.symm

theorem find?_of_engine? {e : Engine} (h : w.client.engine? id = some e) :
    ∃ k ∈ w.client.connections, k.id = id ∧ k.engine = e := by
  obtain ⟨k, hk, rfl⟩ := Option.map_eq_some_iff.mp h
  obtain ⟨hmem, hid⟩ := Keyed.mem_of_find? hk
  exact ⟨k, hmem, hid, rfl⟩

/-- A call into an engine is taken. -/
theorem kept_setEngine {e e' : Engine} (h : w.ledger.Kept) (he : w.client.engine? id = some e)
    (htaken : Taken e e') : (w.become (w.client.setEngine id e')).ledger.Kept := by
  obtain ⟨k, hk, rfl, rfl⟩ := find?_of_engine? he
  have hsound := h.sound k hk
  have hhead := h.perm .rfl (Keyed.perm_cons (k := Connection.id) h.named hk)
  have hset := Keyed.perm_map (k := Connection.id) h.named hk fun k => { k with engine := e' }
  have hdriven : ({ k with engine := e' } : Connection).Sound :=
    ⟨hsound.driven.trans (by rw [htaken.drive_eq]), hsound.held⟩
  exact (hhead.changes (m := { k with engine := e' }) rfl rfl hdriven rfl rfl).perm .rfl hset.symm

theorem kept_dropCall (h : w.ledger.Kept) (call : CallId) :
    (w.become (w.client.dropCall call)).ledger.Kept := by
  refine h.mapped (fun k => ⟨rfl, rfl, rfl⟩) fun k hk => ⟨?_, hk.held⟩
  exact hk.driven.trans (by rw [drive_giveUp])

/-- Telling a connection to end changes nothing yet. -/
theorem kept_cancel (h : w.ledger.Kept) (id : CallId) :
    (w.become (w.client.cancel id)).ledger.Kept := by
  rcases cancel_eq w.client id with hsame | ⟨k, hk, -, hset⟩
  · rw [hsame]
    exact h
  · rw [hset]
    exact kept_setConnection h hk rfl ⟨(h.sound k hk).driven, (h.sound k hk).held⟩ rfl rfl

/-- Nor does its holder's letting go of it. -/
theorem kept_letGo (h : w.ledger.Kept) (id : CallId) :
    (w.become (w.client.letGo id)).ledger.Kept := by
  rcases letGo_eq w.client id with hsame | ⟨k, hk, -, -, hset⟩
  · rw [hsame]
    exact h
  · rw [hset]
    exact kept_setConnection h hk rfl ⟨(h.sound k hk).driven, by rintro ⟨⟩⟩ rfl rfl

theorem kept_stepRelay (h : w.ledger.Kept) (hstep : w.client.stepRelay id = some (c, events)) :
    (w.after c events).ledger.Kept := by
  obtain ⟨k, hk, -, -, -, -, rfl, rfl⟩ := stepRelay_eq_some hstep
  exact kept_setConnection h hk rfl ⟨(h.sound k hk).driven, (h.sound k hk).held⟩ rfl rfl

theorem kept_stepEnd (h : w.ledger.Kept) (hstep : w.client.stepEnd id = some (c, events)) :
    (w.after c events).ledger.Kept := by
  obtain ⟨k, hk, -, call, r, hcall, -, rfl, rfl⟩ := stepEnd_eq_some hstep
  have hhead := h.perm .rfl (Keyed.perm_cons (k := Connection.id) h.named hk)
  have hset := Keyed.perm_set (k := Connection.id) (y := { k with awaiting := none }) h.named hk rfl
  have hended := hhead.leaves_end (m := { k with awaiting := none }) rfl rfl
    ⟨(h.sound k hk).driven, fun _ => rfl⟩ rfl hcall rfl (w.log.perm_returned call (.ofResult r))
  exact hended.perm .rfl hset.symm

theorem kept_join {call : CallId} (h : w.ledger.Kept) (hnew : call ∉ w.log.calls)
    (hjoin : w.client.join id call = (true, c)) :
    ((w.become c).making call).ledger.Kept := by
  obtain ⟨k, hk, -, hheld, rfl⟩ := join_eq_true hjoin
  have hhead := h.perm .rfl (Keyed.perm_cons (k := Connection.id) h.named hk)
  have hset := Keyed.perm_set (k := Connection.id)
    (y := { k with held := false, awaiting := some call }) h.named hk rfl
  have hjoined := hhead.joins (m := { k with held := false, awaiting := some call }) rfl rfl
    ⟨(h.sound k hk).driven, by rintro ⟨⟩⟩ rfl ((h.sound k hk).held hheld) hnew rfl
  exact hjoined.perm .rfl hset.symm

/-- A call that waits for a connection's end is dropped. -/
theorem kept_dropEnd {call : CallId} (h : w.ledger.Kept)
    (hcall : call ∈ awaiting w.client.connections) :
    ((w.become (w.client.dropEnd call)).dropping call).ledger.Kept := by
  obtain ⟨k, hk, hawaiting⟩ := List.mem_filterMap.mp hcall
  have hplaces := h.places.nodup_iff.mp h.calls
  have hnodup : (awaiting w.client.connections).Nodup :=
    (List.nodup_append.mp (List.nodup_append.mp hplaces).2.1).1
  -- Only one connection's end is waited for by this call.
  have hsame : (w.client.connections.map fun k' => if k'.awaiting = some call then
        { k' with awaiting := none, own := k'.own.trigger.2 } else k') =
      w.client.connections.map fun k' => if k'.id = k.id then
        { k' with awaiting := none, own := k'.own.trigger.2 } else k' := by
    refine List.map_congr_left fun k' hk' => ?_
    have hiff : k'.awaiting = some call ↔ k'.id = k.id := by
      constructor
      · intro h'
        rw [Keyed.eq_of_filterMap hnodup hk' hk h' hawaiting]
      · intro hid
        rw [Keyed.eq_of_mem h.named hk' hk hid, hawaiting]
    simp only [hiff]
  have hhead := h.perm .rfl (Keyed.perm_cons (k := Connection.id) h.named hk)
  have hset : (w.client.dropEnd call).connections.Perm
      ({ k with awaiting := none, own := k.own.trigger.2 } ::
        w.client.connections.filter (·.id != k.id)) := by
    rw [dropEnd, hsame]
    exact Keyed.perm_map (k := Connection.id) h.named hk fun k' =>
      { k' with awaiting := none, own := k'.own.trigger.2 }
  have hended := hhead.leaves_end (m := { k with awaiting := none, own := k.own.trigger.2 })
    rfl rfl ⟨(h.sound k hk).driven, fun _ => rfl⟩ rfl hawaiting rfl (w.log.perm_dropping call)
  exact hended.perm .rfl hset.symm

/-- A connect call that is dropped gives back what it has. -/
theorem kept_dialDropped (h : w.ledger.Kept) (hd : d ∈ w.client.dials)
    (hdropped : DialDropped w.client d c) : ((w.become c).dropping d.id).ledger.Kept := by
  have hhead : { w.ledger with dials := d :: rest w d }.Kept :=
    h.perm (Keyed.perm_cons h.dials_nodup hd) .rfl
  have hgone := w.log.perm_dropping d.id
  cases hdropped with
  | withdraws hstage => exact hhead.withdraws rfl (by rw [hstage]; rfl) hgone
  | ends hstage =>
    have hspare : d.stage.isTracked = true ∧ d.stage.isQueued = false ∧
        d.stage.hasSlot = false := by
      rcases hstage with hstage | hstage <;> rw [hstage] <;> exact ⟨rfl, rfl, rfl⟩
    exact hhead.ends rfl hspare.1 hspare.2.1 hspare.2.2 hgone
  | leaves hstage =>
    have hleft := hhead.leaves (y := { d with stage := .cleared })
      rfl rfl (by rw [hstage]; rfl) rfl (by rw [hstage]; rfl)
    exact hleft.ends rfl rfl rfl rfl hgone
  | vacates hslot =>
    have hvacated := hhead.vacates (y := { d with stage := .cleared }) rfl rfl hslot rfl rfl rfl
    exact hvacated.ends rfl rfl rfl rfl hgone

/-- What happens to the stream of a connect call that is dropped is not in the record. -/
theorem after_dropDial (hid : id ∈ w.client.dials.map (·.id)) :
    w.after (w.client.dropDial id).1 (w.client.dropDial id).2 =
      w.become (w.client.dropDial id).1 := by
  obtain ⟨d, -, -, -, hevents⟩ := dialDropped_of_mem hid
  rw [World.after, hevents, Record.notes_dropped]
  rfl

/-- Every move keeps the books. -/
theorem kept_move (h : w.ledger.Kept) (hmove : w.Move w') : w'.ledger.Kept := by
  cases hmove with
  | connect hnew => exact h.connects hnew rfl rfl
  | dial hstep =>
    obtain ⟨d, hd, -, hstep⟩ := dialStepped_of_stepDial hstep
    exact kept_dialStepped h hd hstep
  | @refused id e hdialing =>
    obtain ⟨d, hd, -, hstep⟩ := dialStepped_refused hdialing 0 e
    exact kept_dialStepped h hd hstep
  | @dialed id stream secret hdialing =>
    obtain ⟨d, hd, -, hstep⟩ := dialStepped_dialed hdialing 0 stream secret
    exact kept_dialStepped h hd hstep
  | handshake hstep =>
    obtain ⟨d, hd, -, hstep⟩ := dialStepped_of_stepHandshake hstep
    exact kept_dialStepped h hd hstep
  | dropDial hid =>
    obtain ⟨d, hd, rfl, hdropped, -⟩ := dialDropped_of_mem hid
    rw [after_dropDial hid]
    exact kept_dialDropped h hd hdropped
  | call he htaken => exact kept_setEngine h he htaken
  | dropCall => exact kept_dropCall h _
  | engine hstep =>
    obtain ⟨k, hk, -, hstep⟩ := taskStepped_of_stepEngine hstep
    exact kept_taskStepped h hk hstep
  | relay hstep => exact kept_stepRelay h hstep
  | ending hstep => exact kept_stepEnd h hstep
  | join hnew hjoin => exact kept_join h hnew hjoin
  | @close id call c hnew hclose =>
    obtain ⟨c₁, hjoin, rfl⟩ := close_eq_true hclose
    exact kept_cancel (kept_join h hnew hjoin) id
  | letGo => exact kept_letGo h _
  | dropEnd hcall => exact kept_dropEnd h hcall
  | shutdown hnew => exact h.shuts hnew
  | @idle id c events hstep =>
    obtain ⟨hmem, -, rfl, rfl⟩ := stepIdle_eq_some hstep
    exact h.rests hmem (w.log.perm_returned id .done)
  | @dropIdle id hmem => exact h.rests hmem (w.log.perm_dropping id)
  | drop => exact h

/-- **The books are in order in every world that a client comes to be.** -/
theorem kept_of_reachable (h : w.Reachable) : w.ledger.Kept := by
  refine h.induct (motive := fun w => w.ledger.Kept) ?_ fun w w' _ => kept_move
  intro config connection
  exact {
    calls := .nil
    places := .nil
    named := .nil
    known := fun k hk => absurd hk List.not_mem_nil
    sound := fun k hk => absurd hk List.not_mem_nil
    tracked := rfl
    line := .nil
    slots := rfl
    begun := fun hne => absurd rfl hne }

/-! ### Slots -/

/-- A granted slot is taken up where tasks go on until none can. -/
theorem granted_of_settled {env : Env} {view : StreamId → Duplex} (hk : w.ledger.Kept)
    (hsettled : Settled env view w.client) : w.client.admission.granted = 0 := by
  let cancelled := Signal.subscribed.isCancelled w.client.shutdown
  suffices hstay : ∀ id ∈ w.client.admission.waiting,
      w.client.admission.stepWait id env.now cancelled = none from
    Admission.granted_eq_zero hk.waiting_nodup hstay
  intro id hid
  obtain ⟨d, hd, rfl⟩ := List.mem_map.mp (hk.line.subset hid)
  obtain ⟨hd, hqueued⟩ := List.mem_filter.mp hd
  have hfind : w.client.dials.find? (·.id == d.id) = some d :=
    Keyed.find?_of_mem hk.dials_nodup hd
  have hnone := hsettled.dials d.id
  cases hstage : d.stage with
  | queued =>
    simp only [stepDial, hfind, hstage] at hnone
    cases hwait : w.client.admission.stepWait d.id env.now cancelled with
    | none => rfl
    | some x =>
      obtain ⟨r, admission⟩ := x
      simp only [cancelled] at hwait
      cases r <;> simp only [hwait] at hnone <;> cases hnone
  | starting
  | tracked
  | cleared
  | dialing due
  | shaking stream x =>
    rw [hstage] at hqueued
    cases hqueued

/-- Every slot is free, on its way to a connect call in line, a connect call's past admission, or
a connection's that has not ended. -/
theorem slots_of_kept (hk : w.ledger.Kept) :
    w.client.admission.spare + connecting w.client.dials + live w.client.connections =
      w.client.config.slots :=
  hk.slots

end
end Parley.Client
