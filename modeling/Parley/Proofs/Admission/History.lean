import Mathlib.Logic.Relation
import Parley.Sim.Admitting
import Parley.Proofs.Admission.Line

/-! An admission control and all that happens at it.

A `World` is an admission control with those who use it, and what has happened: who asked for a
slot and when, who was handed one and in which order, who was given up, and how each call returned
and what was known then. A `Step` is one thing that can happen: somebody asks, gives a slot back or
is given up, the source is fired or goes away, a reservation in line takes its step, or, when none
of them has one, time goes by. So what holds in all worlds that a new one comes to be (`Reachable`)
holds for every order of these.

A step is one of few changes (`Change`): each says in full what becomes of the world. -/
namespace Parley.Sim.Admitting

/-- A call for a slot. -/
structure Reservation where
  call : CallId
  signal : Signal
  since : Nat
  deriving Repr, DecidableEq

/-- How a call returned, and what was known then. -/
structure Entry where
  call : CallId
  result : Except Error Unit
  time : Nat
  source : Shutdown
  /-- Who had been handed a slot, the first first. -/
  served : List CallId

/-- Who has a slot, be it in line or out of it. -/
def State.slotted (s : State) : List CallId := s.admission.promised ++ s.held

/-- The same with another admission control. -/
def State.become (s : State) (a : Admission) : State := { s with admission := a }

@[simp] theorem State.become_admission (s : State) (a : Admission) :
    (s.become a).admission = a := rfl
@[simp] theorem State.become_waits (s : State) (a : Admission) : (s.become a).waits = s.waits := rfl

structure World where
  state : State
  /-- The calls, in the order of their arrival. -/
  asked : List Reservation := []
  dropped : List CallId := []
  /-- Who was handed a slot, the first first. -/
  served : List CallId := []
  log : List Entry := []

namespace World

/-- What a step leaves: who has a slot now and had none was handed it. -/
def after (w : World) (s : State) : World :=
  let served := w.served ++ s.slotted.filter (· ∉ w.state.slotted)
  { w with
    state := s
    served
    log := w.log ++ (s.returned.drop w.state.returned.length).map fun (id, r) =>
      ⟨id, r, s.now, s.source, served⟩ }

/-- Takes down that somebody asks. -/
def asks (w : World) (id : CallId) (signal : Signal) : World :=
  { w with asked := w.asked ++ [⟨id, signal, w.state.now⟩] }

/-- One thing that happens. Calls have names of their own, and time goes by when nobody can go
on, from one deadline to the next. -/
inductive Step (w : World) : World → Prop where
  | reserve {id signal} (hnew : id ∉ w.asked.map (·.call)) :
      Step w ((w.after (w.state.reserve id signal)).asks id signal)
  | release {id} (h : id ∈ w.state.held) : Step w (w.after (w.state.release id))
  | giveUp {id} (h : id ∈ w.state.waits.map (·.1)) :
      Step w { w.after (w.state.giveUp id) with dropped := w.dropped ++ [id] }
  | trigger : Step w (w.after w.state.trigger.2)
  | dropSource : Step w (w.after { w.state with source := w.state.source.drop })
  | wake {id s} (h : system.step id w.state = some s) : Step w (w.after s)
  | tick {now} (hrest : system.Settled w.state) (hlater : w.state.now < now)
      (hdue : ∀ due ∈ system.dues w.state, w.state.now < due → now ≤ due) :
      Step w (w.after (system.setNow now w.state))

/-- One world comes to be another. -/
abbrev Leads : World → World → Prop := Relation.ReflTransGen Step

/-- A world that a new admission control with `max` slots comes to be, in which one waits no
longer than `wait`. -/
def Reachable (max wait : Nat) (w : World) : Prop :=
  Leads { state := { admission := .create max wait } } w

/-- Who is in line. -/
def waiting (w : World) : List CallId := w.state.admission.waiting

/-- The calls made so far. -/
def names (w : World) : List CallId := w.asked.map (·.call)

/-- Takes down that a call returned. -/
def notes (w : World) (id : CallId) (r : Except Error Unit) : World :=
  { w with log := w.log ++ [⟨id, r, w.state.now, w.state.source, w.served⟩] }

variable {w w' : World} {s : State} {id n : CallId} {r : Except Error Unit}
  {kept new : List CallId}

/-! ### Who is handed a slot -/

/-- Those that have a slot now are some that had one and at most one more: that one was handed
it. -/
theorem filter_slotted (hperm : s.slotted.Perm (kept ++ new))
    (hkept : ∀ id ∈ kept, id ∈ w.state.slotted) (hnew : ∀ id ∈ new, id ∉ w.state.slotted)
    (hone : new.length ≤ 1) : s.slotted.filter (· ∉ w.state.slotted) = new := by
  have hnone : kept.filter (· ∉ w.state.slotted) = [] :=
    List.filter_eq_nil_iff.mpr fun id hid => by simpa using hkept id hid
  have hall : new.filter (· ∉ w.state.slotted) = new :=
    List.filter_eq_self.mpr fun id hid => by simpa using hnew id hid
  have hfilter := hperm.filter (· ∉ w.state.slotted)
  rw [List.filter_append, hnone, hall, List.nil_append] at hfilter
  match new, hone with
  | [], _ => exact hfilter.eq_nil
  | [id], _ => exact List.perm_singleton.mp hfilter

theorem after_of_perm (s : State) (kept new : List CallId)
    (hperm : s.slotted.Perm (kept ++ new))
    (hkept : ∀ id ∈ kept, id ∈ w.state.slotted) (hnew : ∀ id ∈ new, id ∉ w.state.slotted)
    (hone : new.length ≤ 1) (hreturned : s.returned = w.state.returned) :
    w.after s = { w with state := s, served := w.served ++ new } := by
  rw [after, filter_slotted hperm hkept hnew hone, hreturned, List.drop_length, List.map_nil,
    List.append_nil]

theorem after_returns (s : State) (id : CallId) (kept new : List CallId)
    (hperm : (s.returns id r).slotted.Perm (kept ++ new))
    (hkept : ∀ id ∈ kept, id ∈ w.state.slotted) (hnew : ∀ id ∈ new, id ∉ w.state.slotted)
    (hone : new.length ≤ 1) (hreturned : s.returned = w.state.returned) :
    w.after (s.returns id r) =
      { w with state := s.returns id r, served := w.served ++ new }.notes id r := by
  have hdrop : (s.returns id r).returned.drop w.state.returned.length = [(id, r)] := by
    show (s.returned ++ [(id, r)]).drop _ = _
    rw [hreturned, List.drop_left]
  rw [after, filter_slotted hperm hkept hnew hone, hdrop]
  rfl

/-! ### What a step does -/

/-- All that a step can do to a world. -/
inductive Change (w : World) : World → Prop where
  | refused {id : CallId} {signal : Signal} (hnew : id ∉ w.names)
      (hstop : signal.isTriggered w.state.source = true) :
      Change w (({ w with
        state := w.state.returns id (.error .shutdown) }.notes id
          (.error .shutdown)).asks id signal)
  | admitted {id : CallId} {signal : Signal} (hnew : id ∉ w.names)
      (hgoes : signal.isTriggered w.state.source = false) (hfree : 0 < w.state.admission.free) :
      Change w (({ w with
        state := (w.state.become { w.state.admission with
          free := w.state.admission.free - 1 }).returns id (.ok ())
        served := w.served ++ [id] }.notes id (.ok ())).asks id signal)
  | queued {id : CallId} {signal : Signal} (hnew : id ∉ w.names)
      (hgoes : signal.isTriggered w.state.source = false) (hfull : w.state.admission.free = 0) :
      Change w ({ w with
        state := { w.state.become (w.state.admission.queue id w.state.now) with
          waits := w.state.waits ++ [(id, signal)] } }.asks id signal)
  | released {id : CallId} (h : id ∈ w.state.held) :
      Change w { w with
        state := { w.state.become w.state.admission.release with
          held := w.state.held.erase id }
        served := w.served ++ w.state.admission.unserved.head?.toList }
  | gaveUp {id : CallId} (h : id ∈ w.waiting) :
      Change w { w with
        state := { w.state.become (w.state.admission.leave id) with
          waits := w.state.waits.filter (·.1 != id) }
        served := w.served ++ w.state.admission.passes id
        dropped := w.dropped ++ [id] }
  | stopped {id : CallId} {signal : Signal} (h : (id, signal) ∈ w.state.waits)
      (hstop : signal.isCancelled w.state.source = true) :
      Change w ({ w with
        state := (w.state.become (w.state.admission.leave id)).returns id (.error .shutdown)
        served := w.served ++ w.state.admission.passes id }.notes id (.error .shutdown))
  | seated {id : CallId} {signal : Signal} (h : (id, signal) ∈ w.state.waits)
      (hgoes : signal.isCancelled w.state.source = false)
      (hpromised : id ∈ w.state.admission.promised) :
      Change w ({ w with
        state := (w.state.become (w.state.admission.without id)).returns id (.ok ()) }.notes id
          (.ok ()))
  | lapsed {id : CallId} {signal : Signal} {due : Nat} (h : (id, signal) ∈ w.state.waits)
      (hgoes : signal.isCancelled w.state.source = false)
      (hunserved : id ∈ w.state.admission.unserved)
      (hdated : (id, due) ∈ w.state.admission.dated) (hdue : due ≤ w.state.now) :
      Change w ({ w with
        state := (w.state.become (w.state.admission.without id)).returns id
          (.error (.timeout .admission)) }.notes id (.error (.timeout .admission)))
  | told {source : Shutdown} (hfired : w.state.source.fired = true → source.fired = true)
      (hdropped : w.state.source.dropped = true → source.dropped = true) :
      Change w { w with state := { w.state with source } }
  | ticked {now : Nat} (hrest : system.Settled w.state) (hlater : w.state.now < now)
      (hdue : ∀ due ∈ system.dues w.state, w.state.now < due → now ≤ due) :
      Change w { w with state := { w.state with now } }

/-! ### Names -/

/-- Everybody who asked is in line, was given up or has returned, and only one of these. -/
structure Named (w : World) : Prop where
  nodup : w.names.Nodup
  places : (w.waiting ++ w.dropped ++ w.log.map (·.call)).Perm w.names
  line : w.state.waits.map (·.1) = w.waiting

theorem Named.waiting_nodup (h : Named w) : w.waiting.Nodup :=
  ((h.places.nodup_iff.mpr h.nodup).sublist (List.sublist_append_left ..)).sublist
    (List.sublist_append_left ..)

theorem Named.mem_names (h : Named w) (hid : id ∈ w.waiting) : id ∈ w.names :=
  h.places.subset (List.mem_append_left _ (List.mem_append_left _ hid))

theorem Named.mem_waiting (h : Named w) {signal : Signal} (hid : (id, signal) ∈ w.state.waits) :
    id ∈ w.waiting :=
  h.line ▸ List.mem_map_of_mem hid

/-- Who leaves the line goes to those who were given up or returned. -/
theorem perm_leaves {waiting gone : List CallId} (hwaiting : waiting.Nodup) (hid : id ∈ waiting) :
    (waiting.filter (· != id) ++ (gone ++ [id])).Perm (waiting ++ gone) := by
  have hhead : waiting.Perm (id :: waiting.filter (· != id)) := by
    have hkeys : (waiting.map fun n => n).Nodup := by simpa
    exact Keyed.perm_cons hkeys hid
  refine List.Perm.trans ?_ (hhead.append_right gone).symm
  rw [← List.append_assoc]
  exact List.perm_append_comm

/-- One who asks has a new name, and everybody is somewhere. -/
theorem Named.of_perm (h : Named w) (new : List CallId) (hnames : w'.names = w.names ++ new)
    (hnew : new.Nodup) (hfresh : ∀ id ∈ new, id ∉ w.names)
    (hplaces : (w'.waiting ++ w'.dropped ++ w'.log.map (·.call)).Perm
      (w.waiting ++ w.dropped ++ w.log.map (·.call) ++ new))
    (hline : w'.state.waits.map (·.1) = w'.waiting) : Named w' where
  nodup := by
    rw [hnames, List.nodup_append']
    exact ⟨h.nodup, hnew, fun id hid hmem => hfresh id hmem hid⟩
  places := hnames ▸ hplaces.trans (h.places.append_right new)
  line := hline

/-- Somebody leaves the line. -/
theorem Named.leaves (h : Named w) (hid : id ∈ w.waiting) (hnames : w'.names = w.names)
    (hwaiting : w'.waiting = w.waiting.filter (· != id))
    (hgone : (w'.dropped ++ w'.log.map (·.call)).Perm
      (w.dropped ++ w.log.map (·.call) ++ [id]))
    (hwaits : w'.state.waits = w.state.waits.filter (·.1 != id)) : Named w' := by
  refine h.of_perm [] (by simp [hnames]) List.nodup_nil (by simp) ?_ ?_
  · rw [hwaiting, List.append_assoc, List.append_nil, List.append_assoc]
    exact (hgone.append_left _).trans (perm_leaves h.waiting_nodup hid)
  · rw [hwaits, Keyed.map_fst_filter, h.line, hwaiting]

theorem Named.change (h : Named w) (hchange : Change w w') : Named w' := by
  cases hchange with
  | @refused id signal hnew _
  | @admitted id signal hnew _ _ =>
    have hid : id ∉ w.waiting := fun hid => hnew (h.mem_names hid)
    refine h.of_perm [id] (by simp [names, asks, notes]) (by simp) (by simpa) ?_ ?_
    · simp only [asks, notes, List.map_append, List.map_cons, List.map_nil, ← List.append_assoc]
      exact .refl _
    · show (w.state.waits.filter (·.1 != id)).map (·.1) = w.waiting
      rw [Keyed.map_fst_filter, h.line, Admission.filter_of_not_mem hid]
  | @queued id signal hnew _ _ =>
    have hwaiting : (w.state.admission.queue id w.state.now).waiting = w.waiting ++ [id] :=
      Admission.waiting_queue ..
    refine h.of_perm [id] (by simp [names, asks]) (by simp) (by simpa) ?_ ?_
    · simp only [asks, waiting, State.become_admission, hwaiting, List.append_assoc]
      rw [← List.append_assoc w.dropped]
      exact (@List.perm_append_comm _ [id] _).append_left _
    · simp [asks, waiting, hwaiting, h.line]
  | released =>
    refine h.of_perm [] (by simp [names]) List.nodup_nil (by simp) ?_ ?_
    · simp [waiting, Admission.waiting_release]
    · simpa [waiting, Admission.waiting_release] using h.line
  | @gaveUp id hid =>
    refine h.leaves hid rfl (Admission.waiting_leave _ id) ?_ rfl
    rw [List.append_assoc, List.append_assoc]
    exact List.perm_append_comm.append_left _
  | @stopped id signal hmem _ =>
    exact h.leaves (h.mem_waiting hmem) rfl (Admission.waiting_leave _ id) (by simp [notes]) rfl
  | @seated id signal hmem _ _
  | @lapsed id signal due hmem _ _ _ _ =>
    exact h.leaves (h.mem_waiting hmem) rfl (Admission.waiting_without _ id) (by simp [notes]) rfl
  | told => exact ⟨h.nodup, h.places, h.line⟩
  | ticked => exact ⟨h.nodup, h.places, h.line⟩

/-! ### Slots -/

/-- No slot is lost or made, and slots are handed out in the order in which they were asked for:
whoever has none yet came after all who were handed one. -/
structure Ordered (max : Nat) (w : World) : Prop where
  count : w.state.admission.spare + w.state.held.length = max
  idle : 0 < w.state.admission.free → w.state.admission.unserved = []
  order : (w.served ++ w.state.admission.unserved).Sublist w.names
  served : ∀ id ∈ w.state.slotted, id ∈ w.served

variable {max : Nat}

theorem Ordered.not_slotted (h : Ordered max w) (hnames : w.names.Nodup)
    (hid : id ∈ w.state.admission.unserved) : id ∉ w.state.slotted := fun hslotted =>
  List.disjoint_of_nodup_append (hnames.sublist h.order) (h.served id hslotted) hid

theorem Ordered.mem_names (h : Ordered max w) (hid : id ∈ w.state.slotted) : id ∈ w.names :=
  h.order.subset (List.mem_append_left _ (h.served id hid))

/-- Somebody is handed a slot, or nobody is: those who have one had one before, or were handed it
now. -/
theorem Ordered.served_of_perm (h : Ordered max w) (hperm : s.slotted.Perm (kept ++ new))
    (hkept : ∀ id ∈ kept, id ∈ w.state.slotted) : ∀ id ∈ s.slotted, id ∈ w.served ++ new := by
  intro id hid
  rcases List.mem_append.mp (hperm.subset hid) with hmem | hmem
  · exact List.mem_append_left _ (h.served id (hkept id hmem))
  · exact List.mem_append_right _ hmem

/-- Who has a slot after somebody found one free. -/
theorem perm_admitted (s : State) (id : CallId) :
    (s.admission.promised ++ id :: s.held).Perm (s.slotted ++ [id]) := by
  rw [State.slotted, List.append_assoc]
  exact (@List.perm_append_comm _ [id] _).append_left _

/-- Who has a slot after one was given back. -/
theorem perm_release (a : Admission) (held : List CallId) :
    (a.release.promised ++ held).Perm (a.promised ++ held ++ a.unserved.head?.toList) := by
  refine (a.promised_release.append_right held).trans ?_
  rw [List.append_assoc, List.append_assoc]
  exact List.perm_append_comm.append_left _

/-- Who has a slot after somebody left the line. -/
theorem perm_leave {a : Admission} (hline : a.waiting.Nodup) (id : CallId)
    (held : List CallId) :
    ((a.leave id).promised ++ held).Perm
      (a.promised.filter (· != id) ++ held ++ a.passes id) := by
  refine ((Admission.promised_leave hline id).append_right held).trans ?_
  rw [List.append_assoc, List.append_assoc]
  exact List.perm_append_comm.append_left _

theorem mem_slotted_of_filter {p : CallId → Bool}
    (h : id ∈ s.admission.promised.filter p ++ s.held) : id ∈ s.slotted := by
  rcases List.mem_append.mp h with hmem | hmem
  · exact List.mem_append_left _ (List.mem_filter.mp hmem).1
  · exact List.mem_append_right _ hmem

theorem mem_slotted_of_without (h : id ∈ (s.admission.without n).promised ++ s.held) :
    id ∈ s.slotted :=
  mem_slotted_of_filter (s.admission.promised_without n ▸ h)

/-- Who takes up a slot had it. -/
theorem mem_slotted_of_seated (hn : n ∈ s.admission.promised)
    (h : id ∈ (s.admission.without n).promised ++ n :: s.held) : id ∈ s.slotted := by
  rcases List.mem_append.mp h with hmem | hmem
  · exact mem_slotted_of_without (List.mem_append_left _ hmem)
  · rcases List.mem_cons.mp hmem with rfl | hheld
    · exact List.mem_append_left _ hn
    · exact List.mem_append_right _ hheld

theorem mem_slotted_of_released (h : id ∈ s.admission.promised ++ s.held.erase n) :
    id ∈ s.slotted :=
  (List.mem_append.mp h).elim (List.mem_append_left _) fun hheld =>
    List.mem_append_right _ (List.mem_of_mem_erase hheld)

/-- Somebody leaves the line, and leaves the slot behind if one was handed over. -/
theorem Ordered.leaves (h : Ordered max w) (hnamed : Named w) (id : CallId)
    (hadmission : w'.state.admission = w.state.admission.leave id)
    (hheld : w'.state.held = w.state.held) (hnames : w'.names = w.names)
    (hserved : w'.served = w.served ++ w.state.admission.passes id) : Ordered max w' where
  count := by
    rw [hadmission, hheld, Admission.spare_leave hnamed.waiting_nodup]
    exact h.count
  idle := by
    rw [hadmission]
    exact Admission.idle_leave h.idle
  order := by
    rw [hadmission, hserved, hnames, List.append_assoc,
      Admission.passes_append hnamed.waiting_nodup]
    exact (List.filter_sublist.append_left _).trans h.order
  served := by
    rw [State.slotted, hadmission, hheld, hserved]
    exact h.served_of_perm (s := w.state.become (w.state.admission.leave id))
      (perm_leave hnamed.waiting_nodup id _) fun other hother => mem_slotted_of_filter hother

theorem Ordered.change (h : Ordered max w) (hnamed : Named w) (hchange : Change w w') :
    Ordered max w' := by
  have hline : w.state.admission.waiting.Nodup := hnamed.waiting_nodup
  have horder (id : CallId) :
      (w.served ++ (w.state.admission.without id).unserved).Sublist w.names := by
    rw [Admission.unserved_without]
    exact (List.filter_sublist.append_left _).trans h.order
  cases hchange with
  | refused => exact ⟨h.count, h.idle, h.order.trans (by simp [names, asks, notes]), h.served⟩
  | @admitted id signal _ _ hfree =>
    have hnone := h.idle hfree
    have hcount := h.count
    refine ⟨?_, fun _ => hnone, ?_, ?_⟩
    · show w.state.admission.free - 1 + w.state.admission.granted + (w.state.held.length + 1) = max
      simp only [Admission.spare] at hcount
      omega
    · show (w.served ++ [id] ++ w.state.admission.unserved).Sublist (w.asks id signal).names
      have horder := h.order
      rw [hnone, List.append_nil] at horder ⊢
      simpa [names, asks] using horder.append_right [id]
    · exact h.served_of_perm (s := { w.state with held := id :: w.state.held })
        (perm_admitted w.state id) fun other hother => hother
  | @queued id signal _ _ hfull =>
    refine ⟨?_, fun hfree => absurd hfree (by simp [asks, State.become, Admission.queue, hfull]),
      ?_, ?_⟩
    · rw [← h.count, ← Admission.spare_queue w.state.admission id w.state.now]
      rfl
    · show (w.served ++ (w.state.admission.queue id w.state.now).unserved).Sublist
        (w.asks id signal).names
      rw [Admission.unserved_queue, ← List.append_assoc]
      simpa [names, asks] using h.order.append_right [id]
    · show ∀ other ∈ (w.state.admission.queue id w.state.now).promised ++ w.state.held, _
      rw [Admission.promised_queue]
      exact h.served
  | @released id hid =>
    have hlength := List.length_erase_of_mem hid
    have hpos := List.length_pos_of_mem hid
    refine ⟨?_, Admission.idle_release h.idle, ?_, ?_⟩
    · show w.state.admission.release.spare + (w.state.held.erase id).length = max
      have hcount := h.count
      rw [Admission.spare_release, hlength]
      omega
    · show (w.served ++ w.state.admission.unserved.head?.toList ++
        w.state.admission.release.unserved).Sublist w.names
      rw [Admission.unserved_release, List.append_assoc, Admission.head_append_tail]
      exact h.order
    · exact h.served_of_perm (perm_release _ _) fun other hother => mem_slotted_of_released hother
  | @gaveUp id _
  | @stopped id _ _ _ => exact h.leaves hnamed id rfl rfl rfl rfl
  | @seated id signal _ _ hpromised =>
    refine ⟨?_, Admission.idle_without h.idle, horder id,
      fun other hother => h.served other (mem_slotted_of_seated hpromised hother)⟩
    show (w.state.admission.without id).spare + (w.state.held.length + 1) = max
    have hspare := Admission.spare_without_of_mem hline hpromised
    have hcount := h.count
    omega
  | @lapsed id signal due _ _ hunserved _ _ =>
    refine ⟨?_, Admission.idle_without h.idle, horder id,
      fun other hother => h.served other (mem_slotted_of_without hother)⟩
    show (w.state.admission.without id).spare + w.state.held.length = max
    rw [Admission.spare_without_of_not_mem hline (Admission.not_promised hline hunserved)]
    exact h.count
  | told
  | ticked => exact ⟨h.count, h.idle, h.order, h.served⟩

/-! ### Every step is a change -/

theorem mem_waits (h : id ∈ w.state.waits.map (·.1)) : ∃ signal, (id, signal) ∈ w.state.waits := by
  obtain ⟨⟨_, signal⟩, hmem, rfl⟩ := List.mem_map.mp h
  exact ⟨signal, hmem⟩

/-- With as many who have a slot as before, nobody was handed one. -/
theorem after_same (hslotted : s.slotted = w.state.slotted)
    (hreturned : s.returned = w.state.returned) : w.after s = { w with state := s } := by
  have hafter := after_of_perm (w := w) s w.state.slotted []
    (by rw [hslotted, List.append_nil]) (fun _ hid => hid) (by simp) (by simp) hreturned
  rwa [List.append_nil] at hafter

/-- Who is handed the slot that somebody in line leaves behind had none. -/
theorem Ordered.passes_not_slotted (h : Ordered max w) (hnamed : Named w) {next : CallId}
    (hnext : next ∈ w.state.admission.passes id) : next ∉ w.state.slotted :=
  h.not_slotted hnamed.nodup (Admission.mem_unserved_of_passes hnext)

/-- Who finds a slot free has it at once. -/
theorem after_reserve_of_free (h : Ordered max w) {signal : Signal} (hnew : id ∉ w.names)
    (hgoes : signal.isTriggered w.state.source = false) (hfree : 0 < w.state.admission.free) :
    w.after (w.state.reserve id signal) = { w with
      state := (w.state.become { w.state.admission with
        free := w.state.admission.free - 1 }).returns id (.ok ())
      served := w.served ++ [id] }.notes id (.ok ()) := by
  have hfresh : id ∉ w.state.slotted := fun hid => hnew (h.mem_names hid)
  have hafter := after_returns (w := w) (r := .ok ())
    (w.state.become { w.state.admission with free := w.state.admission.free - 1 }) id
    w.state.slotted [id] (perm_admitted w.state id) (fun _ hid => hid) (by simpa using hfresh)
    (by simp) rfl
  have hreserve : w.state.reserve id signal = (w.state.become
      { w.state.admission with free := w.state.admission.free - 1 }).returns id (.ok ()) := by
    rw [State.reserve, hgoes, Admission.ask_of_free hfree]
    rfl
  rw [hreserve, hafter]

theorem change_of_reserve (h : Ordered max w) {signal : Signal} (hnew : id ∉ w.names) :
    Change w ((w.after (w.state.reserve id signal)).asks id signal) := by
  rcases w.state.admission.ask_cases id w.state.now (signal.isTriggered w.state.source) with
    ⟨hstop, hask⟩ | ⟨hgoes, hfree⟩ | ⟨hgoes, hfull, hask⟩
  · have hafter := after_returns (w := w) (r := .error .shutdown) w.state id w.state.slotted []
      (.of_eq (List.append_nil _).symm) (fun _ hid => hid) (by simp) (by simp) rfl
    have hreserve : w.state.reserve id signal = w.state.returns id (.error .shutdown) := by
      rw [State.reserve, hask]
    rw [hreserve, hafter, List.append_nil]
    exact .refused hnew hstop
  · rw [after_reserve_of_free h hnew hgoes hfree]
    exact .admitted hnew hgoes hfree
  · have hafter := after_same (w := w) (s := { w.state.become
      (w.state.admission.queue id w.state.now) with waits := w.state.waits ++ [(id, signal)] })
      (congrArg (· ++ w.state.held) (w.state.admission.promised_queue id w.state.now)) rfl
    have hreserve : w.state.reserve id signal = { w.state.become
        (w.state.admission.queue id w.state.now) with
          waits := w.state.waits ++ [(id, signal)] } := by
      rw [State.reserve, hask]
      rfl
    rw [hreserve, hafter]
    exact .queued hnew hgoes hfull

theorem change_of_release (h : Ordered max w) (hnamed : Named w) (hid : id ∈ w.state.held) :
    Change w (w.after (w.state.release id)) := by
  have hnew : ∀ other ∈ w.state.admission.unserved.head?.toList, other ∉ w.state.slotted :=
    fun other hother =>
      h.not_slotted hnamed.nodup (List.mem_of_mem_head? (Option.mem_toList.mp hother))
  have hafter := after_of_perm (w := w)
    { w.state.become w.state.admission.release with held := w.state.held.erase id } _ _
    (perm_release _ _) (fun other hother => mem_slotted_of_released hother) hnew
    (by cases w.state.admission.unserved <;> simp) rfl
  have hrelease : w.state.release id = { w.state.become w.state.admission.release with
      held := w.state.held.erase id } := by
    rw [State.release, if_pos (List.contains_iff_mem.mpr hid)]
    rfl
  rw [hrelease, hafter]
  exact .released hid

/-- Somebody leaves the line, whatever becomes of the call. -/
theorem change_of_giveUp (h : Ordered max w) (hnamed : Named w)
    (hid : id ∈ w.state.waits.map (·.1)) :
    Change w { w.after (w.state.giveUp id) with dropped := w.dropped ++ [id] } := by
  have hafter := after_of_perm (w := w)
    { w.state.become (w.state.admission.leave id) with
      waits := w.state.waits.filter (·.1 != id) } _ _ (perm_leave hnamed.waiting_nodup id _)
    (fun other hother => mem_slotted_of_filter hother)
    (fun other hother => h.passes_not_slotted hnamed hother) (Admission.length_passes ..) rfl
  have hgiveUp : w.state.giveUp id = { w.state.become (w.state.admission.leave id) with
      waits := w.state.waits.filter (·.1 != id) } := by
    obtain ⟨signal, hmem⟩ := mem_waits hid
    rw [State.giveUp, if_pos (List.any_eq_true.mpr ⟨_, hmem, beq_self_eq_true id⟩)]
    rfl
  rw [hgiveUp, hafter]
  exact .gaveUp (hnamed.line ▸ hid)

theorem change_of_wake (h : Ordered max w) (hnamed : Named w)
    (hwake : system.step id w.state = some s) : Change w (w.after s) := by
  have hline : w.state.admission.waiting.Nodup := hnamed.waiting_nodup
  simp only [system, State.stepWait] at hwake
  split at hwake
  · cases hwake
  · rename_i signal hlookup
    have hmem := Keyed.mem_of_lookup hlookup
    obtain ⟨⟨r, a⟩, hstep, rfl⟩ := Option.map_eq_some_iff.mp hwake
    rcases Admission.stepWait_cases hline hstep with ⟨hstop, rfl, rfl⟩ |
      ⟨hgoes, hpromised, rfl, rfl⟩ | ⟨hgoes, hunserved, ⟨due, hdue, hdated⟩, rfl, rfl⟩
    · have hafter := after_returns (w := w) (r := .error .shutdown)
        (w.state.become (w.state.admission.leave id)) id _ _ (perm_leave hline id w.state.held)
        (fun other hother => mem_slotted_of_filter hother)
        (fun other hother => h.passes_not_slotted hnamed hother) (Admission.length_passes ..) rfl
      exact hafter ▸ .stopped hmem hstop
    · have hafter := after_returns (w := w) (r := .ok ())
        (w.state.become (w.state.admission.without id)) id _ [] (.of_eq (List.append_nil _).symm)
        (fun other hother => mem_slotted_of_seated hpromised hother) (by simp) (by simp) rfl
      rw [List.append_nil] at hafter
      exact hafter ▸ .seated hmem hgoes hpromised
    · have hafter := after_returns (w := w) (r := .error (.timeout .admission))
        (w.state.become (w.state.admission.without id)) id _ [] (.of_eq (List.append_nil _).symm)
        (fun other hother => mem_slotted_of_without hother) (by simp) (by simp) rfl
      rw [List.append_nil] at hafter
      exact hafter ▸ .lapsed hmem hgoes hunserved hdated hdue

theorem change_of_trigger (w : World) : Change w (w.after w.state.trigger.2) := by
  unfold State.trigger
  split
  · exact after_same (w := w) (s := w.state) rfl rfl ▸ .told id id
  · have hafter := after_same (w := w) (s := { w.state with source := w.state.source.trigger.2 })
      rfl rfl
    exact hafter ▸ .told (fun _ => rfl) id

theorem change_of_step (h : Ordered max w) (hnamed : Named w) (hstep : Step w w') :
    Change w w' := by
  cases hstep with
  | reserve hnew => exact change_of_reserve h hnew
  | release hid => exact change_of_release h hnamed hid
  | giveUp hid => exact change_of_giveUp h hnamed hid
  | trigger => exact change_of_trigger w
  | dropSource =>
    have hafter := after_same (w := w) (s := { w.state with source := w.state.source.drop }) rfl rfl
    exact hafter ▸ .told id fun _ => rfl
  | wake hwake => exact change_of_wake h hnamed hwake
  | @tick now hrest hlater hdue =>
    have hafter := after_same (w := w) (s := system.setNow now w.state) rfl rfl
    exact hafter ▸ .ticked hrest hlater hdue

end World
end Parley.Sim.Admitting
