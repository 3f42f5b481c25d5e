import Parley.Proofs.Server.History

/-! The books of a server: its calls, guards and slots.

Every call that was made is in one place: it runs a loop, waits for idleness, or is over. Every
guard is held by one loop or one connection, and the tracker counts the guards. In line for a
slot are the loops that wait for one, and a slot is spare or a connection has it. This is `Kept`
by every move (`kept_of_reachable`).

What the books are about is put into a `Ledger`, whose lists may be taken in any order
(`Kept.perm`), so that a step is something done to the head of a list. -/
namespace Parley.Server
open Channel

/-- Whether a loop waits in line for a slot. -/
def Stage.isQueued : Stage → Bool
  | .queued .. => true
  | _ => false

/-- What the books of a server are about. -/
structure Ledger where
  calls : List CallId
  /-- The calls that returned or were dropped. -/
  finished : List CallId
  loops : List Loop
  /-- The guards of the connections. -/
  connections : List Nat
  idling : List CallId
  fired : Bool
  tracker : Tracker
  admission : Admission
  /-- How many slots there are. -/
  slots : Nat

def World.ledger (w : World) : Ledger where
  calls := w.log.calls
  finished := w.log.finished
  loops := w.server.loops
  connections := w.server.connections.map (·.guard)
  idling := w.server.idling
  fired := w.server.shutdown.fired
  tracker := w.server.tracker
  admission := w.server.admission
  slots := w.server.config.slots

/-- The guards that loops and connections hold. -/
def guards (loops : List Loop) (connections : List Nat) : List Nat :=
  loops.filterMap (·.stage.guard?) ++ connections

/-- The loops that wait for a slot. -/
def queued (loops : List Loop) : List CallId := (loops.filter (·.stage.isQueued)).map (·.id)

section
variable {x y : Loop} {rest : List Loop} {connections : List Nat} {g : Nat}

theorem guards_congr (h : y.stage.guard? = x.stage.guard?) :
    guards (y :: rest) connections = guards (x :: rest) connections := by
  simp only [guards, List.filterMap_cons, h]

theorem guards_of_none (h : x.stage.guard? = none) :
    guards (x :: rest) connections = guards rest connections := by
  simp only [guards, List.filterMap_cons, h]

theorem guards_of_some (h : x.stage.guard? = some g) :
    guards (x :: rest) connections = g :: guards rest connections := by
  simp only [guards, List.filterMap_cons, h, List.cons_append]

theorem queued_of_true (h : x.stage.isQueued = true) :
    queued (x :: rest) = x.id :: queued rest := by
  simp only [queued, List.filter_cons, h, if_true, List.map_cons]

theorem queued_of_false (h : x.stage.isQueued = false) : queued (x :: rest) = queued rest := by
  simp [queued, h]

theorem queued_congr (hid : y.id = x.id) (h : y.stage.isQueued = x.stage.isQueued) :
    queued (y :: rest) = queued (x :: rest) := by
  cases hx : x.stage.isQueued with
  | true => rw [queued_of_true (h.trans hx), queued_of_true hx, hid]
  | false => rw [queued_of_false (h.trans hx), queued_of_false hx]

/-- A loop that waits for a slot holds a guard. -/
theorem queued_of_none (h : x.stage.guard? = none) : queued (x :: rest) = queued rest := by
  refine queued_of_false ?_
  cases hstage : x.stage <;> rw [hstage] at h <;> first | rfl | cases h

end

namespace Ledger

/-- The books are in order. -/
structure Kept (l : Ledger) : Prop where
  calls : l.calls.Nodup
  places : l.calls.Perm (l.loops.map (·.id) ++ (l.idling ++ l.finished))
  guards : (guards l.loops l.connections).Nodup
  fresh : ∀ g ∈ Server.guards l.loops l.connections, g < l.tracker.next
  tracked : l.tracker.active = (Server.guards l.loops l.connections).length
  line : l.admission.waiting.Perm (queued l.loops)
  slots : l.admission.spare + l.connections.length = l.slots
  /-- Nobody waits for idleness before the signal has fired. -/
  begun : l.idling ≠ [] → l.fired = true

namespace Kept
variable {l : Ledger}

/-- The order of the lists does not matter. -/
theorem perm (h : l.Kept) {loops : List Loop} {connections : List Nat} (hl : l.loops.Perm loops)
    (hc : l.connections.Perm connections) : { l with loops, connections }.Kept where
  calls := h.calls
  places := h.places.trans ((hl.map _).append_right _)
  guards := (((hl.filterMap _).append hc).nodup_iff).mp h.guards
  fresh g hg := h.fresh g (((hl.filterMap _).append hc).mem_iff.mpr hg)
  tracked := h.tracked.trans ((hl.filterMap _).append hc).length_eq
  line := h.line.trans ((hl.filter _).map _)
  slots := hc.length_eq ▸ h.slots
  begun := h.begun

/-- Nor do what loops have before them. -/
theorem mapped (h : l.Kept) {f : Loop → Loop} (hf : ∀ x, (f x).id = x.id ∧ (f x).stage = x.stage) :
    { l with loops := l.loops.map f }.Kept := by
  have hids : (l.loops.map f).map (·.id) = l.loops.map (·.id) := by
    simp only [List.map_map, Function.comp_def, hf]
  have hguards : Server.guards (l.loops.map f) l.connections =
      Server.guards l.loops l.connections := by
    simp only [Server.guards, List.filterMap_map, Function.comp_def, hf]
  have hqueued : queued (l.loops.map f) = queued l.loops := by
    simp only [queued, List.filter_map, List.map_map, Function.comp_def, hf]
  exact {
    calls := h.calls
    places := by simpa only [hids] using h.places
    guards := by simpa only [hguards] using h.guards
    fresh := by simpa only [hguards] using h.fresh
    tracked := by simpa only [hguards] using h.tracked
    line := by simpa only [hqueued] using h.line
    slots := h.slots
    begun := h.begun }

theorem loops_nodup (h : l.Kept) : (l.loops.map (·.id)).Nodup :=
  (List.nodup_append.mp (h.places.nodup_iff.mp h.calls)).1

theorem finished_nodup (h : l.Kept) : l.finished.Nodup := by
  have hplaces := h.places.nodup_iff.mp h.calls
  exact (List.nodup_append.mp (List.nodup_append.mp hplaces).2.1).2.1

/-- A loop that is there is not over. -/
theorem not_finished (h : l.Kept) {x : Loop} (hx : x ∈ l.loops) : x.id ∉ l.finished := by
  intro hmem
  have hplaces := h.places.nodup_iff.mp h.calls
  exact (List.nodup_append.mp hplaces).2.2 _ (List.mem_map_of_mem hx) _
    (List.mem_append_right _ hmem) rfl

theorem waiting_nodup (h : l.Kept) : l.admission.waiting.Nodup :=
  h.line.nodup_iff.mpr (h.loops_nodup.sublist (List.filter_sublist.map _))

/-! Operations, each of which is done to the loop at the head of the list. -/

variable {x y : Loop} {rest : List Loop} {g : Nat} {a : Admission}

/-- Nothing changes hands. -/
theorem moves (h : l.Kept) (hl : l.loops = x :: rest) (hid : y.id = x.id)
    (hguard : y.stage.guard? = x.stage.guard?) (hqueued : y.stage.isQueued = x.stage.isQueued) :
    { l with loops := y :: rest }.Kept where
  calls := h.calls
  places := by simpa [hl, hid] using h.places
  guards := by simpa only [hl, guards_congr hguard] using h.guards
  fresh := by simpa only [hl, guards_congr hguard] using h.fresh
  tracked := by simpa only [hl, guards_congr hguard] using h.tracked
  line := by simpa only [hl, queued_congr hid hqueued] using h.line
  slots := h.slots
  begun := h.begun

/-- A stream is tracked. -/
theorem tracks (h : l.Kept) (hl : l.loops = x :: rest) (hid : y.id = x.id)
    (hguard : x.stage.guard? = none) (hguard' : y.stage.guard? = some l.tracker.next)
    (hqueued' : y.stage.isQueued = false) :
    { l with loops := y :: rest, tracker := l.tracker.track.2 }.Kept := by
  have hfresh : ∀ g ∈ Server.guards rest l.connections, g < l.tracker.next := by
    simpa only [hl, guards_of_none hguard] using h.fresh
  exact {
    calls := h.calls
    places := by simpa [hl, hid] using h.places
    guards := by
      have hnodup : (Server.guards rest l.connections).Nodup := by
        simpa only [hl, guards_of_none hguard] using h.guards
      simp only [guards_of_some hguard', List.nodup_cons]
      exact ⟨fun hmem => Nat.lt_irrefl _ (hfresh _ hmem), hnodup⟩
    fresh := by
      simp only [guards_of_some hguard', List.forall_mem_cons]
      exact ⟨Nat.lt_succ_self _, fun g hg => Nat.lt_succ_of_lt (hfresh g hg)⟩
    tracked := by
      have htracked : l.tracker.active = (Server.guards rest l.connections).length := by
        simpa only [hl, guards_of_none hguard] using h.tracked
      simp only [guards_of_some hguard', List.length_cons]
      exact congrArg (· + 1) htracked
    line := by simpa only [hl, queued_of_none hguard, queued_of_false hqueued'] using h.line
    slots := h.slots
    begun := h.begun }

/-- A tracked stream gets in line. -/
theorem queues (h : l.Kept) (hl : l.loops = x :: rest) (hid : y.id = x.id)
    (hguard : y.stage.guard? = x.stage.guard?) (hqueued : x.stage.isQueued = false)
    (hqueued' : y.stage.isQueued = true) (hspare : a.spare = l.admission.spare)
    (hwaiting : a.waiting = l.admission.waiting ++ [x.id]) :
    { l with loops := y :: rest, admission := a }.Kept where
  calls := h.calls
  places := by simpa [hl, hid] using h.places
  guards := by simpa only [hl, guards_congr hguard] using h.guards
  fresh := by simpa only [hl, guards_congr hguard] using h.fresh
  tracked := by simpa only [hl, guards_congr hguard] using h.tracked
  line := by
    have hline : l.admission.waiting.Perm (queued rest) := by
      simpa only [hl, queued_of_false hqueued] using h.line
    simp only [queued_of_true hqueued', hid, hwaiting]
    exact (List.perm_append_singleton _ _).trans (hline.cons _)
  slots := by simpa only [hspare] using h.slots
  begun := h.begun

/-- A loop that does not wait for a slot is not in line. -/
theorem waiting_filter (h : l.Kept) (hl : l.loops = x :: rest)
    (hqueued : x.stage.isQueued = false) :
    l.admission.waiting.filter (· != x.id) = l.admission.waiting := by
  have hline := h.line
  rw [hl] at hline
  exact Keyed.filter_of_not_picked (k := Loop.id) (hl ▸ h.loops_nodup) hline hqueued

/-- All in line but the loop at the head are other loops that wait for a slot. -/
theorem line_filter (h : l.Kept) (hl : l.loops = x :: rest) :
    (l.admission.waiting.filter (· != x.id)).Perm (queued rest) := by
  have hline := h.line
  rw [hl] at hline
  exact Keyed.perm_without_head (k := Loop.id) (hl ▸ h.loops_nodup) hline

/-- A tracked stream leaves the line without a slot, if it is there. -/
theorem leaves (h : l.Kept) (hl : l.loops = x :: rest) (hid : y.id = x.id)
    (hguard : y.stage.guard? = x.stage.guard?) (hqueued' : y.stage.isQueued = false) :
    { l with loops := y :: rest, admission := l.admission.leave x.id }.Kept where
  calls := h.calls
  places := by simpa [hl, hid] using h.places
  guards := by simpa only [hl, guards_congr hguard] using h.guards
  fresh := by simpa only [hl, guards_congr hguard] using h.fresh
  tracked := by simpa only [hl, guards_congr hguard] using h.tracked
  line := by
    simp only [queued_of_false hqueued', Admission.waiting_leave]
    exact h.line_filter hl
  slots := by simpa only [Admission.spare_leave h.waiting_nodup] using h.slots
  begun := h.begun

/-- A tracked stream is given up. -/
theorem forgets (h : l.Kept) (hl : l.loops = x :: rest) (hid : y.id = x.id)
    (hguard : x.stage.guard? = some g) (hguard' : y.stage.guard? = none)
    (hqueued : x.stage.isQueued = false) :
    { l with loops := y :: rest, tracker := l.tracker.release }.Kept where
  calls := h.calls
  places := by simpa [hl, hid] using h.places
  guards := by
    have hnodup := h.guards
    simp only [hl, guards_of_some hguard, List.nodup_cons] at hnodup
    simpa only [guards_of_none hguard'] using hnodup.2
  fresh := by
    have hfresh := h.fresh
    simp only [hl, guards_of_some hguard, List.forall_mem_cons] at hfresh
    simp only [guards_of_none hguard']
    exact hfresh.2
  tracked := by
    have htracked := h.tracked
    simp only [hl, guards_of_some hguard, List.length_cons] at htracked
    simp only [guards_of_none hguard']
    exact congrArg (· - 1) htracked
  line := by simpa only [hl, queued_of_false hqueued, queued_of_none hguard'] using h.line
  slots := h.slots
  begun := h.begun

/-- A tracked stream has a slot: its guard and the slot are a connection's. -/
theorem admits (h : l.Kept) (hl : l.loops = x :: rest) (hid : y.id = x.id)
    (hguard : x.stage.guard? = some g) (hguard' : y.stage.guard? = none)
    (hspare : a.spare + 1 = l.admission.spare)
    (hwaiting : a.waiting = l.admission.waiting.filter (· != x.id)) :
    { l with loops := y :: rest, admission := a, connections := l.connections ++ [g] }.Kept := by
  have hperm : (Server.guards (y :: rest) (l.connections ++ [g])).Perm
      (Server.guards l.loops l.connections) := by
    rw [hl, guards_of_none hguard', guards_of_some hguard, Server.guards, ← List.append_assoc]
    exact List.perm_append_singleton _ _
  exact {
    calls := h.calls
    places := by simpa [hl, hid] using h.places
    guards := hperm.nodup_iff.mpr h.guards
    fresh := fun g' hg' => h.fresh g' (hperm.mem_iff.mp hg')
    tracked := h.tracked.trans hperm.length_eq.symm
    line := by
      simp only [queued_of_none hguard', hwaiting]
      exact h.line_filter hl
    slots := by
      have hslots : l.admission.spare + l.connections.length = l.slots := h.slots
      show a.spare + (l.connections ++ [g]).length = l.slots
      rw [List.length_append, List.length_singleton]
      omega
    begun := h.begun }

/-- A loop that holds nothing is over. -/
theorem ends (h : l.Kept) (hl : l.loops = x :: rest) (hguard : x.stage.guard? = none)
    {gone : List CallId} (hover : gone.Perm (x.id :: l.finished)) :
    { l with loops := rest, finished := gone }.Kept where
  calls := h.calls
  places := by
    have hplaces := h.places
    rw [hl, List.map_cons, List.cons_append, ← List.append_assoc] at hplaces
    refine hplaces.trans (List.perm_middle.symm.trans ?_)
    rw [List.append_assoc]
    exact (hover.symm.append_left _).append_left _
  guards := by simpa only [hl, guards_of_none hguard] using h.guards
  fresh := by simpa only [hl, guards_of_none hguard] using h.fresh
  tracked := by simpa only [hl, guards_of_none hguard] using h.tracked
  line := by simpa only [hl, queued_of_none hguard] using h.line
  slots := h.slots
  begun := h.begun

/-- A connection is over. -/
theorem closes {gs : List Nat} (h : l.Kept) (hc : l.connections = g :: gs) :
    { l with
      connections := gs
      tracker := l.tracker.release
      admission := l.admission.release }.Kept := by
  have hperm : (Server.guards l.loops l.connections).Perm (g :: Server.guards l.loops gs) := by
    rw [hc]
    exact List.perm_middle
  have hfresh : ∀ g' ∈ g :: Server.guards l.loops gs, g' < l.tracker.next := fun g' hg' =>
    h.fresh g' (hperm.mem_iff.mpr hg')
  exact {
    calls := h.calls
    places := h.places
    guards := (List.nodup_cons.mp (hperm.nodup_iff.mp h.guards)).2
    fresh := (List.forall_mem_cons.mp hfresh).2
    tracked := congrArg (· - 1) (h.tracked.trans hperm.length_eq)
    line := by simpa only [Admission.waiting_release] using h.line
    slots := by
      have hslots := h.slots
      rw [hc, List.length_cons] at hslots
      show l.admission.release.spare + gs.length = l.slots
      rw [Admission.spare_release]
      omega
    begun := h.begun }

/-! Calls come and go. -/

variable {id : CallId}

theorem serves (h : l.Kept) (hnew : id ∉ l.calls) (hid : x.id = id)
    (hguard : x.stage.guard? = none) :
    { l with calls := l.calls ++ [id], loops := l.loops ++ [x] }.Kept := by
  have hloops : { l with calls := l.calls ++ [id], loops := x :: l.loops }.Kept := {
    calls := List.nodup_append_comm.mp (List.nodup_cons.mpr ⟨hnew, h.calls⟩)
    places := by
      refine (List.perm_append_singleton _ _).trans ?_
      rw [← hid]
      exact h.places.cons _
    guards := by simpa only [guards_of_none hguard] using h.guards
    fresh := by simpa only [guards_of_none hguard] using h.fresh
    tracked := by simpa only [guards_of_none hguard] using h.tracked
    line := by simpa only [queued_of_none hguard] using h.line
    slots := h.slots
    begun := h.begun }
  exact hloops.perm (List.perm_append_singleton _ _).symm .rfl

theorem shuts (h : l.Kept) (hnew : id ∉ l.calls) :
    { l with calls := l.calls ++ [id], idling := l.idling ++ [id], fired := true }.Kept :=
  { h with
    calls := List.nodup_append_comm.mp (List.nodup_cons.mpr ⟨hnew, h.calls⟩)
    places := by
      have hplaces : (l.loops.map (·.id) ++ (l.idling ++ [id] ++ l.finished)).Perm
          (id :: (l.loops.map (·.id) ++ (l.idling ++ l.finished))) := by
        rw [List.append_assoc l.idling, List.singleton_append]
        exact (List.perm_middle.append_left _).trans List.perm_middle
      exact (List.perm_append_singleton _ _).trans ((h.places.cons _).trans hplaces.symm)
    begun := fun _ => rfl }

theorem idling_nodup (h : l.Kept) : l.idling.Nodup :=
  (List.nodup_append.mp (List.nodup_append.mp (h.places.nodup_iff.mp h.calls)).2.1).1

/-- A call that waits for idleness is over. -/
theorem rests (h : l.Kept) (hid : id ∈ l.idling) {gone : List CallId}
    (hover : gone.Perm (id :: l.finished)) :
    { l with idling := l.idling.filter (· != id), finished := gone }.Kept :=
  { h with
    places := h.places.trans ((Keyed.perm_passed h.idling_nodup hid hover).append_left _)
    begun := fun hne => h.begun fun hnil => hne (by rw [hnil]; rfl) }

end Kept
end Ledger

/-! ### Every move keeps the books -/

section
variable {w w' : World} {s : Server} {l l' : Loop} {now : Nat} {id : CallId} {events : List Event}

theorem Stage.guard?_of_isOpen {stage : Stage} (h : stage.isOpen = true) :
    stage.guard? = none ∧ stage.isQueued = false := by
  cases stage <;> first | exact ⟨rfl, rfl⟩ | cases h

theorem Stage.isQueued_of_guard? {stage : Stage} (h : stage.guard? = none) :
    stage.isQueued = false := by
  cases stage <;> first | rfl | cases h

/-- The call that runs a loop has returned, and streams were dropped before. -/
theorem log_returns (w : World) (s : Server) (l : Loop) (r : Except Error Unit)
    (streams : List StreamId) :
    (w.after (s.loopReturns l r).1 (streams.map .dropped ++ (s.loopReturns l r).2)).log =
      w.log.note (.returned l.id (.ofResult r)) := by
  simp only [World.after, loopReturns, endLoop, List.foldl_append, Record.notes_dropped]
  rfl

theorem ledger_returns (w : World) (s : Server) (l : Loop) (r : Except Error Unit)
    (streams : List StreamId) :
    (w.after (s.loopReturns l r).1 (streams.map .dropped ++ (s.loopReturns l r).2)).ledger =
      { (w.become s).ledger with
        loops := s.loops.filter (·.id != l.id)
        finished := (w.log.note (.returned l.id (.ofResult r))).finished } := by
  rw [World.ledger, log_returns]
  rfl

/-- The loops other than one of them. -/
abbrev rest (w : World) (l : Loop) : List Loop := w.server.loops.filter (·.id != l.id)

/-- A loop that holds a guard gives in. -/
theorem kept_giveIn {a : Admission} {x : Loop} {g : Nat} (stream : StreamId)
    (h : { w.ledger with loops := x :: rest w l, admission := a }.Kept) (hid : x.id = l.id)
    (hguard : x.stage.guard? = some g) (hqueued : x.stage.isQueued = false) :
    (w.after ({ w.server with admission := a }.giveIn l stream).1
      ({ w.server with admission := a }.giveIn l stream).2).ledger.Kept := by
  have hforgot := h.forgets (y := { x with stage := .accepting }) rfl rfl hguard rfl hqueued
  have hover : (w.log.note (.returned l.id (.ofResult (.ok ())))).finished.Perm
      (x.id :: w.ledger.finished) := by
    rw [hid]
    exact w.log.perm_returned l.id _
  have hended := hforgot.ends rfl rfl hover
  have hledger :=
    ledger_returns w ({ w.server with admission := a }.forget stream).1 l (.ok ()) [stream]
  exact (congrArg Ledger.Kept hledger).mpr hended

/-- A loop's stream becomes a connection. -/
theorem kept_takeIn {a : Admission} {g : Nat} (stream : StreamId) (h : w.ledger.Kept)
    (hl : l ∈ w.server.loops) (hguard : l.stage.guard? = some g)
    (hspare : a.spare + 1 = w.server.admission.spare)
    (hwaiting : a.waiting = w.server.admission.waiting.filter (· != l.id)) :
    (w.after ({ w.server with admission := a }.takeIn l stream g).1
      [.accepted, .opened]).ledger.Kept := by
  have hhead := h.perm (Keyed.perm_cons h.loops_nodup hl) .rfl
  have hadmitted :=
    hhead.admits (y := { l with stage := .accepting }) rfl rfl hguard rfl hspare hwaiting
  have hset := Keyed.perm_set (y := { l with stage := .accepting }) h.loops_nodup hl rfl
  have hguards : (w.server.connections ++ [(⟨g, stream, .arriving⟩ : Connection)]).map (·.guard) =
      w.ledger.connections ++ [g] := List.map_append
  exact hadmitted.perm hset.symm (hguards ▸ .rfl)

theorem kept_loopStepped (h : w.ledger.Kept) (hl : l ∈ w.server.loops)
    (hstep : LoopStepped w.server now l s events) : (w.after s events).ledger.Kept := by
  have hhead : { w.ledger with loops := l :: rest w l }.Kept :=
    h.perm (Keyed.perm_cons h.loops_nodup hl) .rfl
  have hset : ∀ l' : Loop, l'.id = l.id → _ := fun l' hid =>
    (Keyed.perm_set (k := Loop.id) (y := l') h.loops_nodup hl hid).symm
  cases hstep with
  | @accepts l' hopen hstage hid hstage' =>
    obtain ⟨hguard, hqueued⟩ := Stage.guard?_of_isOpen hstage
    have hmoved := hhead.moves rfl hid (hstage'.trans hguard.symm)
      ((Stage.isQueued_of_guard? hstage').trans hqueued.symm)
    exact hmoved.perm (hset l' hid) .rfl
  | @returns l' r hstage hid hr =>
    refine (congrArg Ledger.Kept (ledger_returns w w.server l' r [])).mpr ?_
    rw [hid]
    exact hhead.ends rfl (Stage.guard?_of_isOpen hstage).1 (w.log.perm_returned _ _)
  | @tracks stream hstage =>
    have htracked := hhead.tracks (y := { l with stage := .tracked stream w.server.tracker.next })
      rfl rfl (by rw [hstage]; rfl) rfl rfl
    exact htracked.perm (hset _ rfl) .rfl
  | @clears stream guard hopen hstage =>
    have hcleared := hhead.moves (y := { l with stage := .cleared stream guard })
      rfl rfl (by rw [hstage]; rfl) (by rw [hstage]; rfl)
    exact hcleared.perm (hset _ rfl) .rfl
  | @givesIn stream guard hfired hstage =>
    exact kept_giveIn stream hhead rfl (by rw [hstage]; rfl) (by rw [hstage]; rfl)
  | @queues stream guard admission hstage h =>
    obtain ⟨hspare, hwaiting⟩ := Admission.acquire_eq_false h
    have hqueued := hhead.queues (y := { l with stage := .queued stream guard })
      rfl rfl (by rw [hstage]; rfl) (by rw [hstage]; rfl) rfl hspare hwaiting
    exact hqueued.perm (hset _ rfl) .rfl
  | @admits stream guard admission hstage hacquire =>
    obtain ⟨hspare, hwaiting⟩ := Admission.acquire_eq_true hacquire
    have hfilter := hhead.waiting_filter rfl (by rw [hstage]; rfl)
    exact kept_takeIn stream h hl (by rw [hstage]; rfl) hspare (hwaiting.trans hfilter.symm)
  | @takesUp stream guard admission hstage hwait =>
    obtain ⟨-, hspare, hwaiting⟩ := Admission.stepWait_eq_ok h.waiting_nodup hwait
    exact kept_takeIn stream h hl (by rw [hstage]; rfl) hspare hwaiting
  | @stopsWaiting stream guard hfired hstage =>
    have hleft := hhead.leaves (y := { l with stage := .cleared stream guard })
      rfl rfl (by rw [hstage]; rfl) rfl
    exact kept_giveIn stream hleft rfl rfl rfl
  | @rejects stream guard hopen hstage =>
    have hleft := hhead.leaves (y := { l with stage := .cleared stream guard })
      rfl rfl (by rw [hstage]; rfl) rfl
    have hforgot := hleft.forgets (y := { l with stage := .accepting }) rfl rfl rfl rfl rfl
    exact hforgot.perm (hset _ rfl) .rfl

theorem kept_connectionStepped {c : Connection} (h : w.ledger.Kept) (hc : c ∈ w.server.connections)
    (hstep : ConnectionStepped w.server c s events) : (w.after s events).ledger.Kept := by
  cases hstep with
  | @goes progress events =>
    have hguards := Keyed.map_key_set (k := Connection.guard) w.server.connections
      { c with progress }
    have hledger : (w.after (w.server.setConnection { c with progress })
        (events.map .engine)).ledger = w.ledger := by
      simp only [World.ledger, World.after, Record.notes_engine, setConnection, hguards]
    rw [hledger]
    exact h
  | @ends events hevents =>
    have hlog : (events ++ [Event.closed]).foldl Record.note w.log = w.log :=
      w.log.notes_eq fun ev hev => by
        rcases List.mem_append.mp hev with hev | hev
        · rcases hevents ev hev with rfl | ⟨e, rfl⟩ <;> rfl
        · rw [List.mem_singleton.mp hev]
          rfl
    have hnodup : (w.server.connections.map (·.guard)).Nodup :=
      (List.nodup_append.mp h.guards).2.1
    have hperm := (Keyed.perm_cons (k := Connection.guard) hnodup hc).map (·.guard)
    have hclosed := (h.perm .rfl hperm).closes rfl
    rw [World.ledger, World.after, hlog]
    exact hclosed

/-- A loop that is dropped gives back what it held. -/
theorem kept_loopDropped (h : w.ledger.Kept) (hl : l ∈ w.server.loops)
    (hdropped : LoopDropped w.server l s) : ((w.become s).dropping l.id).ledger.Kept := by
  have hhead : { w.ledger with loops := l :: rest w l }.Kept :=
    h.perm (Keyed.perm_cons h.loops_nodup hl) .rfl
  have hover := w.log.perm_dropping l.id
  cases hdropped with
  | ends hguard => exact hhead.ends rfl hguard hover
  | @forgets stream guard hstage =>
    have hheld : l.stage.guard? = some guard ∧ l.stage.isQueued = false := by
      rcases hstage with hstage | hstage <;> rw [hstage] <;> exact ⟨rfl, rfl⟩
    have hforgot :=
      hhead.forgets (y := { l with stage := .accepting }) rfl rfl hheld.1 rfl hheld.2
    exact hforgot.ends rfl rfl hover
  | @leaves stream guard hstage =>
    have hleft := hhead.leaves (y := { l with stage := .cleared stream guard })
      rfl rfl (by rw [hstage]; rfl) rfl
    have hforgot := hleft.forgets (y := { l with stage := .accepting }) rfl rfl rfl rfl rfl
    exact hforgot.ends rfl rfl hover

/-- What happens to the streams of a loop that is dropped is not in the record. -/
theorem after_dropLoop (hid : id ∈ w.server.loops.map (·.id)) :
    w.after (w.server.dropLoop id).1 (w.server.dropLoop id).2 =
      w.become (w.server.dropLoop id).1 := by
  obtain ⟨l, -, -, -, hevents⟩ := loopDropped_of_mem hid
  rw [World.after, hevents, Record.notes_dropped]
  rfl

/-- Every move keeps the books. -/
theorem kept_move (h : w.ledger.Kept) (hmove : w.Move w') : w'.ledger.Kept := by
  cases hmove with
  | serve hnew => exact h.serves hnew rfl rfl
  | offer => exact h.mapped fun x => by split <;> exact ⟨rfl, rfl⟩
  | fault => exact h.mapped fun x => by split <;> exact ⟨rfl, rfl⟩
  | loop hstep =>
    obtain ⟨l, hl, -, hstep⟩ := loopStepped_of_stepLoop hstep
    exact kept_loopStepped h hl hstep
  | dropLoop hid =>
    obtain ⟨l, hl, rfl, hdropped, -⟩ := loopDropped_of_mem hid
    rw [after_dropLoop hid]
    exact kept_loopDropped h hl hdropped
  | @begin now guard secret =>
    have hguards : (w.server.beginHandshake now guard secret).connections.map (·.guard) =
        w.server.connections.map (·.guard) := by
      rw [beginHandshake, List.map_map]
      refine List.map_congr_left fun c _ => ?_
      show (if c.guard = guard then _ else c).guard = c.guard
      split <;> rfl
    have hledger : (w.become (w.server.beginHandshake now guard secret)).ledger = w.ledger := by
      simp only [World.ledger, World.become, hguards]
      rfl
    rw [hledger]
    exact h
  | handshake hstep =>
    obtain ⟨c, hc, -, hstep⟩ := connectionStepped_of_stepHandshake hstep
    exact kept_connectionStepped h hc hstep
  | engine hstep =>
    obtain ⟨c, hc, -, hstep⟩ := connectionStepped_of_stepEngine hstep
    exact kept_connectionStepped h hc hstep
  | shutdown hnew => exact h.shuts hnew
  | @idle id s events hstep =>
    obtain ⟨hmem, -, rfl, rfl⟩ := stepIdle_eq_some hstep
    exact h.rests hmem (w.log.perm_returned id .done)
  | @dropIdle id hmem => exact h.rests hmem (w.log.perm_dropping id)

/-- **The books are in order in every world that a server comes to be.** -/
theorem kept_of_reachable (h : w.Reachable) : w.ledger.Kept := by
  refine h.induct (motive := fun w => w.ledger.Kept) ?_ fun w w' _ => kept_move
  intro config connection
  exact {
    calls := .nil
    places := .nil
    guards := .nil
    fresh := fun g hg => absurd hg List.not_mem_nil
    tracked := rfl
    line := .nil
    slots := rfl
    begun := fun hne => absurd rfl hne }

/-! ### Slots -/

/-- A granted slot is taken up where tasks go on until none can. -/
theorem granted_of_settled {env : Env} {view : StreamId → Duplex} (hk : w.ledger.Kept)
    (hsettled : Settled env view w.server) : w.server.admission.granted = 0 := by
  suffices hstay : ∀ id ∈ w.server.admission.waiting,
      w.server.admission.stepWait id env.now w.server.shutdown.fired = none from
    Admission.granted_eq_zero hk.waiting_nodup hstay
  intro id hid
  obtain ⟨l, hl, rfl⟩ := List.mem_map.mp (hk.line.subset hid)
  obtain ⟨hl, hqueued⟩ := List.mem_filter.mp hl
  have hfind : w.server.loops.find? (·.id == l.id) = some l :=
    Keyed.find?_of_mem hk.loops_nodup hl
  have hnone := hsettled.loops l.id
  cases hstage : l.stage with
  | queued stream guard =>
    simp only [stepLoop, hfind, hstage] at hnone
    cases hwait : w.server.admission.stepWait l.id env.now w.server.shutdown.fired with
    | none => rfl
    | some x =>
      obtain ⟨r, admission⟩ := x
      simp only [hwait] at hnone
      split at hnone
      · rename_i hx
        exact hx
      all_goals cases hnone
  | accepting
  | pausing due
  | taken stream
  | tracked stream guard
  | cleared stream guard =>
    rw [hstage] at hqueued
    cases hqueued

/-- Every slot is free, on its way to a loop in line, or a connection's. -/
theorem slots_of_kept (hk : w.ledger.Kept) :
    w.server.admission.spare + w.server.connections.length = w.server.config.slots := by
  have hslots := hk.slots
  rwa [World.ledger, List.length_map] at hslots

end
end Parley.Server
