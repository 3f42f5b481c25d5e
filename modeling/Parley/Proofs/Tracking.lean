import Mathlib.Data.List.Nodup
import Parley.Proofs.Sleep
import Parley.Sim.Tracking

/-! The law of a tracker.

A `World` is a tracker with its handles, its guards and the calls that wait for it to be idle, and
what has happened. An `Act` is one thing that somebody does: connections are tracked, guards given
up, handles cloned and given up, calls to wait made and dropped; and trackers elsewhere take ids
from the same count. Whoever changes the count of the guards wakes all who wait. In between those
who are awake look. A `Run` says what it has passed through, and acts happen in it only `When` they
may, for instance only where nobody can go on.

The count is exact (`Sound.counted`), so it is never zero when a guard is given up
(`Sound.drop_counted`); ids do not come again before they have gone round
(`ConnectionId.nodup_after`); and a call that waits ends exactly in the first settled state, from
its start on, in which no guard is alive (`Run.settled_of_ended`, `Run.over_of_idle`). The count is
watched through its handles and its guards; when all of them are gone nobody waits for it any
longer (`Sound.owned`). -/
namespace Parley

/-- The id that is given out after so many others. -/
def ConnectionId.after (n : Nat) : ConnectionId := ⟨1 + UInt64.ofNat n⟩

theorem ConnectionId.succ_after (n : Nat) : (after n).succ = after (n + 1) := by
  simp [after, succ, UInt64.ofNat_add, UInt64.add_assoc]

theorem ConnectionId.eq_of_after {n m : Nat} (hn : n < UInt64.size) (hm : m < UInt64.size)
    (h : after n = after m) : n = m := by
  have hnumber : 1 + UInt64.ofNat n = 1 + UInt64.ofNat m := congrArg number h
  have hnat := congrArg UInt64.toNat ((UInt64.add_right_inj 1).mp hnumber)
  rwa [UInt64.toNat_ofNat_of_lt' hn, UInt64.toNat_ofNat_of_lt' hm] at hnat

/-- Ids that are counted on from the first do not come again within 64 bits. -/
theorem ConnectionId.nodup_after {n : Nat} (hn : n ≤ UInt64.size) :
    ((List.range n).map after).Nodup :=
  List.nodup_range.map_on fun _ hi _ hj heq =>
    eq_of_after (Nat.lt_of_lt_of_le (List.mem_range.mp hi) hn)
      (Nat.lt_of_lt_of_le (List.mem_range.mp hj) hn) heq

namespace Sim.Tracking

/-- A guard that was made. -/
structure Guard where
  number : Nat
  id : ConnectionId

/-- Names a handle on the tracker. -/
abbrev Handle := Nat

structure World extends Wakeful State CallId where
  /-- The handles on the tracker. -/
  handles : List Handle := [0]
  /-- The calls to wait, each with the handle it was made through. -/
  begun : List (CallId × Handle) := []
  /-- The calls to wait that were dropped. -/
  dropped : List CallId := []
  made : List Guard := []
  /-- The guards that were given up. -/
  gone : List Nat := []
  /-- The ids given out, here or elsewhere, the first first. -/
  taken : List ConnectionId := []

namespace World

/-- The calls made so far. -/
def calls (w : World) : List CallId := w.begun.map (·.1)

/-- The numbers of the guards made so far. -/
def numbers (w : World) : List Nat := w.made.map (·.number)

/-- One thing that somebody does. It takes a handle to track and to wait, and a handle is not given
up while a call waits through it. -/
inductive Act (w : World) : World → Prop where
  | track {h} (hh : h ∈ w.handles) : Act w { w with
      toWakeful := w.wakes w.state.track.2 w.state.waits
      made := w.made ++ [⟨w.state.track.1, w.state.takeId.1⟩]
      taken := w.taken ++ [w.state.takeId.1] }
  | drop {g} (hg : g ∈ w.state.guards) : Act w { w with
      toWakeful := w.wakes (w.state.drop g) w.state.waits
      gone := w.gone ++ [g] }
  | clone {h h'} (hh : h ∈ w.handles) (hnew : h' ∉ w.handles) :
      Act w { w with handles := h' :: w.handles }
  | discard {h} (hh : h ∈ w.handles) (hfree : ∀ b ∈ w.begun, b.2 = h → b.1 ∉ w.state.waits) :
      Act w { w with handles := w.handles.erase h }
  | wait {id h} (hh : h ∈ w.handles) (hnew : id ∉ w.calls) : Act w { w with
      toWakeful := w.wakes { w.state with waits := w.state.waits ++ [id] } [id]
      begun := w.begun ++ [(id, h)] }
  | giveUp {id} (hid : id ∈ w.state.waits) : Act w { w with
      toWakeful := w.rests { w.state with waits := w.state.waits.filter (· != id) } id
      dropped := w.dropped ++ [id] }
  | elsewhere : Act w { w with
      toWakeful := w.wakes w.state.takeId.2 []
      taken := w.taken ++ [w.state.takeId.1] }

/-- A run of a new tracker, with the worlds that it passed through, the latest first. -/
inductive Run (When : World → Prop) : List World → World → Prop where
  | fresh : Run When [] { state := {} }
  | act {past w w'} (h : Run When past w) (hwhen : When w) (hact : Act w w') :
      Run When (w :: past) w'
  | look {past w x} (h : Run When past w) (hlook : system.Look w.toWakeful x) :
      Run When (w :: past) { w with toWakeful := x }

end World

variable {s s' : State} {id : CallId} {g : Nat}

/-! ### Waiting -/

theorem step_eq_some_iff : system.step id s = some s' ↔ id ∈ s.waits ∧ s.tracker.active = 0 ∧
    { s with waits := s.waits.filter (· != id), ended := s.ended ++ [id] } = s' := by
  show (if _ then _ else _) = some s' ↔ _
  split
  · rename_i h
    have hboth : id ∈ s.waits ∧ s.tracker.active = 0 := by simpa [Tracker.isIdle] using h
    simp [hboth]
  · rename_i h
    have hboth : id ∈ s.waits → s.tracker.active ≠ 0 := by simpa [Tracker.isIdle] using h
    simp only [reduceCtorEq, false_iff, not_and]
    exact fun hid hidle => absurd hidle (hboth hid)

/-- A call that waits has a step as long as the tracker is idle. -/
theorem exists_step_iff : (∃ s', system.step id s = some s') ↔
    id ∈ s.waits ∧ s.tracker.active = 0 := by
  simp [step_eq_some_iff]

theorem brief : system.Brief where
  listed h := (step_eq_some_iff.mp h).1
  gone h := by
    obtain ⟨-, -, rfl⟩ := step_eq_some_iff.mp h
    simp [system]
  fewer h := by
    obtain ⟨hid, -, rfl⟩ := step_eq_some_iff.mp h
    exact List.length_filter_lt_length_iff_exists.mpr ⟨_, hid, by simp⟩
  others h h' := by
    obtain ⟨-, -, rfl⟩ := step_eq_some_iff.mp h
    obtain ⟨hn, hidle, -⟩ := step_eq_some_iff.mp h'
    exact exists_step_iff.mpr ⟨List.mem_of_mem_filter hn, hidle⟩

theorem settled_iff : system.Settled s ↔ (s.tracker.active = 0 → s.waits = []) := by
  have hnone : system.Settled s ↔ ∀ id, ¬ (id ∈ s.waits ∧ s.tracker.active = 0) :=
    forall_congr' fun id => by rw [← exists_step_iff, ← Option.isSome_iff_exists]; simp
  rw [hnone]
  refine ⟨fun h hidle => List.eq_nil_iff_forall_not_mem.mpr fun id hid => h id ⟨hid, hidle⟩, ?_⟩
  rintro h id ⟨hid, hidle⟩
  exact absurd (h hidle ▸ hid) List.not_mem_nil

/-! ### What every run keeps -/

theorem drop_eq (hg : g ∈ s.guards) : s.drop g = { s with
    tracker := s.tracker.release, guards := s.guards.filter (· != g) } :=
  if_pos (List.contains_iff_mem.mpr hg)

namespace World

/-- What holds of a tracker, its guards, its handles and the calls that wait. -/
structure Sound (w : World) : Prop where
  counted : w.state.tracker.active = w.state.guards.length
  /-- Guards are numbered in the order in which they are made. -/
  numbered : w.numbers = List.range w.state.tracker.next
  alive : (w.state.guards ++ w.gone).Perm w.numbers
  /-- Ids are counted on from the first, and each guard bears one of its own. -/
  taken : w.taken = (List.range w.taken.length).map .after
  next : w.state.next = .after w.taken.length
  borne : (w.made.map (·.id)).Sublist w.taken
  booked : Booked w.state.waits w.dropped w.state.ended w.calls
  /-- Who waits has a handle, so the count does not go away. -/
  owned : ∀ b ∈ w.begun, b.1 ∈ w.state.waits → b.2 ∈ w.handles
  alert : system.Alert w.toWakeful

variable {w w' : World} {x : Wakeful State CallId}

theorem Sound.nodup (h : Sound w) : (w.state.guards ++ w.gone).Nodup :=
  h.alive.nodup_iff.mpr (h.numbered ▸ List.nodup_range)

theorem Sound.guards_nodup (h : Sound w) : w.state.guards.Nodup :=
  h.nodup.sublist (List.sublist_append_left ..)

/-- A guard is alive if it was made and not given up. -/
theorem Sound.mem_guards_iff (h : Sound w) (g : Nat) :
    g ∈ w.state.guards ↔ g ∈ w.numbers ∧ g ∉ w.gone := by
  rw [← h.alive.mem_iff, List.mem_append]
  refine ⟨fun hg => ⟨.inl hg, fun hgone => ?_⟩, fun ⟨hg, hkept⟩ => hg.resolve_right hkept⟩
  exact List.disjoint_of_nodup_append h.nodup hg hgone

theorem Sound.idle_iff (h : Sound w) : w.state.tracker.active = 0 ↔ w.state.guards = [] := by
  rw [h.counted, List.length_eq_zero_iff]

/-- The guard that is given up is one of those counted. -/
theorem Sound.drop_counted (h : Sound w) (hg : g ∈ w.state.guards) :
    (w.state.drop g).guards.length + 1 = w.state.guards.length ∧
      (w.state.drop g).tracker.active + 1 = w.state.tracker.active := by
  have hperm : w.state.guards.Perm (g :: w.state.guards.filter (· != g)) :=
    Keyed.perm_cons (k := fun n => n) ((List.map_id' _).symm ▸ h.guards_nodup) hg
  have hlength := hperm.length_eq
  have hcounted := h.counted
  rw [drop_eq hg]
  simp only [Tracker.release, List.length_cons] at hlength ⊢
  omega

theorem sound_fresh : Sound { state := {} } where
  counted := rfl
  numbered := rfl
  alive := .refl _
  taken := rfl
  next := rfl
  borne := .refl _
  booked := .nil
  owned _ hb := absurd hb List.not_mem_nil
  alert _ _ hstep := absurd (step_eq_some_iff.mp hstep).1 List.not_mem_nil

/-- One more id is given out. -/
theorem Sound.taken_succ (h : Sound w) :
    w.taken ++ [w.state.takeId.1] =
        (List.range (w.taken ++ [w.state.takeId.1]).length).map .after ∧
      w.state.takeId.2.next = .after (w.taken ++ [w.state.takeId.1]).length := by
  have hlength : (w.taken ++ [w.state.takeId.1]).length = w.taken.length + 1 :=
    List.length_append
  rw [hlength]
  refine ⟨?_, ?_⟩
  · rw [List.range_succ, List.map_append, ← h.taken, List.map_singleton, ← h.next]
    rfl
  · rw [← ConnectionId.succ_after, ← h.next]
    rfl

theorem Sound.act (h : Sound w) (hact : Act w w') : Sound w' := by
  cases hact with
  | track =>
    obtain ⟨htaken, hnext⟩ := h.taken_succ
    exact { h with
      counted := congrArg (· + 1) h.counted
      numbered := by
        show (w.made ++ [_]).map Guard.number = List.range (w.state.tracker.next + 1)
        rw [List.range_succ, ← h.numbered, List.map_append]
        rfl
      alive := by
        show (w.state.tracker.next :: w.state.guards ++ w.gone).Perm ((w.made ++ [_]).map _)
        rw [List.map_append]
        exact (h.alive.cons _).trans (List.perm_append_singleton _ _).symm
      taken := htaken
      next := hnext
      borne := by
        rw [List.map_append]
        exact h.borne.append (.refl _)
      alert := h.alert.wakes fun _ _ hstep => .inl (step_eq_some_iff.mp hstep).1 }
  | @drop g hg =>
    -- The guard is one of those counted, so the subtraction does not stop at zero.
    have hcounted := h.counted
    obtain ⟨hlength, hactive⟩ := h.drop_counted hg
    rw [drop_eq hg] at hlength hactive ⊢
    exact { h with
      counted := Nat.succ.inj (hactive.trans (hcounted.trans hlength.symm))
      alive := (Keyed.perm_passed h.guards_nodup hg (List.perm_append_singleton g _)).symm.trans
        h.alive
      alert := h.alert.wakes fun _ _ hstep => .inl (step_eq_some_iff.mp hstep).1 }
  | clone => exact { h with owned := fun b hb hid => List.mem_cons_of_mem _ (h.owned b hb hid) }
  | discard _ hfree =>
    refine { h with owned := fun b hb hid => ?_ }
    exact (List.mem_erase_of_ne fun heq => hfree b hb heq hid).mpr (h.owned b hb hid)
  | @wait id handle hh hnew =>
    exact { h with
      booked := by
        show Booked _ _ _ ((w.begun ++ [_]).map _)
        rw [List.map_append]
        exact h.booked.begins hnew
      owned := by
        intro b hb hid
        rcases List.mem_append.mp hb with hold | hmine
        · refine h.owned b hold ((List.mem_append.mp hid).resolve_right fun heq => ?_)
          exact absurd (List.mem_singleton.mp heq ▸ List.mem_map_of_mem hold) hnew
        · obtain rfl := List.mem_singleton.mp hmine
          exact hh
      alert := by
        refine h.alert.wakes fun t _ hstep => ?_
        obtain ⟨ht, hidle, -⟩ := step_eq_some_iff.mp hstep
        exact (List.mem_append.mp ht).symm.imp_right fun hold => exists_step_iff.mpr ⟨hold, hidle⟩ }
  | @giveUp id hid =>
    exact { h with
      booked := h.booked.drops hid
      owned := fun b hb hwaits => h.owned b hb (List.mem_of_mem_filter hwaits)
      alert := by
        refine h.alert.rests fun t _ hstep => ?_
        obtain ⟨ht, hidle, -⟩ := step_eq_some_iff.mp hstep
        obtain ⟨hwaits, hne⟩ := List.mem_filter.mp ht
        exact ⟨by simpa using hne, exists_step_iff.mpr ⟨hwaits, hidle⟩⟩ }
  | elsewhere =>
    obtain ⟨htaken, hnext⟩ := h.taken_succ
    exact { h with
      taken := htaken
      next := hnext
      borne := h.borne.trans (List.sublist_append_left _ _)
      alert := h.alert.wakes fun t _ hstep => by
        obtain ⟨ht, hidle, -⟩ := step_eq_some_iff.mp hstep
        exact .inr (exists_step_iff.mpr ⟨ht, hidle⟩) }

/-- A look changes nothing, or it finds no guard alive and a call ends with it. -/
theorem look_cases (hlook : system.Look w.toWakeful x) : x.state = w.state ∨
    ∃ id ∈ w.state.waits, w.state.tracker.active = 0 ∧ x.state = { w.state with
      waits := w.state.waits.filter (· != id), ended := w.state.ended ++ [id] } := by
  cases hlook with
  | @look id hawake =>
    cases hstep : system.step id w.state with
    | none => exact .inl rfl
    | some s =>
      obtain ⟨hid, hidle, rfl⟩ := step_eq_some_iff.mp hstep
      exact .inr ⟨id, hid, hidle, rfl⟩

theorem Sound.look (h : Sound w) (hlook : system.Look w.toWakeful x) :
    Sound { w with toWakeful := x } := by
  have halert : system.Alert x := h.alert.look brief hlook
  have hcases := look_cases hlook
  obtain ⟨s, awake⟩ := x
  rcases hcases with rfl | ⟨id, hid, hidle, rfl⟩
  · exact { h with alert := halert }
  · exact { h with
      booked := h.booked.ends hid
      owned := fun b hb hwaits => h.owned b hb (List.mem_of_mem_filter hwaits)
      alert := halert }

variable {When : World → Prop} {past : List World}

theorem Run.sound (h : Run When past w) : Sound w := by
  induction h with
  | fresh => exact sound_fresh
  | act _ _ hact ih => exact ih.act hact
  | look _ hlook ih => exact ih.look hlook

/-! ### When a call ends -/

/-- Whatever is done, no call ends by it, and nothing that was dropped comes back. -/
theorem Act.kept (hact : Act w w') : w'.state.ended = w.state.ended ∧ w.dropped ⊆ w'.dropped := by
  cases hact with
  | drop hg => exact ⟨by rw [drop_eq hg]; rfl, List.Subset.refl _⟩
  | giveUp => exact ⟨rfl, List.subset_append_left ..⟩
  | _ => exact ⟨rfl, List.Subset.refl _⟩

/-- No call ends but in a world in which it waits and no guard is alive. -/
theorem Run.idle_of_ended (h : Run When past w) (hid : id ∈ w.state.ended) :
    ∃ u ∈ past, id ∈ u.state.waits ∧ u.state.guards = [] := by
  induction h with
  | fresh => cases hid
  | act _ _ hact ih =>
    obtain ⟨u, hu, hidle⟩ := ih (hact.kept.1 ▸ hid)
    exact ⟨u, List.mem_cons_of_mem _ hu, hidle⟩
  | @look past w x h hlook ih =>
    have hold (hid : id ∈ w.state.ended) :
        ∃ u ∈ w :: past, id ∈ u.state.waits ∧ u.state.guards = [] := by
      obtain ⟨u, hu, hidle⟩ := ih hid
      exact ⟨u, List.mem_cons_of_mem _ hu, hidle⟩
    rcases look_cases hlook with hsame | ⟨n, hn, hactive, hends⟩
    · exact hold (hsame ▸ hid)
    · have hid : id ∈ x.state.ended := hid
      rw [hends] at hid
      rcases List.mem_append.mp hid with hid | hid
      · exact hold hid
      · obtain rfl := List.mem_singleton.mp hid
        exact ⟨w, List.mem_cons_self, hn, h.sound.idle_iff.mp hactive⟩

/-- Where nobody can go on and no guard is alive nobody waits. -/
theorem Sound.waits_nil (h : Sound w) (hsettled : system.Settled w.state)
    (hidle : w.state.guards = []) : w.state.waits = [] :=
  settled_iff.mp hsettled (h.idle_iff.mpr hidle)

/-- A call that was in time for a settled state without guards is over. -/
theorem Run.over_of_idle (h : Run When past w) {u : World} (hu : u ∈ w :: past)
    (hsettled : system.Settled u.state) (hidle : u.state.guards = []) (hid : id ∈ u.calls) :
    id ∈ w.state.ended ∨ id ∈ w.dropped := by
  have hself {past : List World} {w : World} (h : Run When past w) (hu : u = w) :
      id ∈ w.state.ended ∨ id ∈ w.dropped := by
    subst hu
    have hmem := h.sound.booked.places.mem_iff.mpr hid
    rw [h.sound.waits_nil hsettled hidle, List.nil_append, List.mem_append] at hmem
    exact hmem.symm
  induction h with
  | fresh => exact hself .fresh (List.mem_singleton.mp hu)
  | act h hwhen hact ih =>
    rcases List.mem_cons.mp hu with hu | hu
    · exact hself (h.act hwhen hact) hu
    · exact (ih hu).imp (fun hid => hact.kept.1 ▸ hid) (fun hid => hact.kept.2 hid)
  | look h hlook ih =>
    rcases List.mem_cons.mp hu with hu | hu
    · exact hself (h.look hlook) hu
    · refine (ih hu).imp_left fun hid => ?_
      rcases look_cases hlook with hsame | ⟨n, -, -, hends⟩
      · exact hsame ▸ hid
      · rw [hends]
        exact List.mem_append_left _ hid

/-- If acts wait until nobody can go on, a call that has ended was in time for a settled state
without guards; or there is no guard now. -/
theorem Run.settled_of_ended (h : Run When past w) (hwhen : ∀ u, When u → system.Settled u.state)
    (hid : id ∈ w.state.ended) :
    (∃ u ∈ w :: past, system.Settled u.state ∧ id ∈ u.calls ∧ u.state.guards = []) ∨
      w.state.guards = [] := by
  induction h with
  | fresh => cases hid
  | @act past w w' h hready hact ih =>
    left
    have hid : id ∈ w.state.ended := hact.kept.1 ▸ hid
    rcases ih hid with ⟨u, hu, hmet⟩ | hidle
    · exact ⟨u, List.mem_cons_of_mem _ hu, hmet⟩
    · exact ⟨w, List.mem_cons_of_mem _ List.mem_cons_self, hwhen w hready,
        h.sound.booked.mem_calls (.inr (.inr hid)), hidle⟩
  | @look past w x h hlook ih =>
    rcases look_cases hlook with hsame | ⟨n, -, hactive, hends⟩
    · rcases ih (hsame ▸ hid) with ⟨u, hu, hmet⟩ | hidle
      · exact .inl ⟨u, List.mem_cons_of_mem _ hu, hmet⟩
      · exact .inr (hsame ▸ hidle)
    · right
      show x.state.guards = []
      rw [hends]
      exact h.sound.idle_iff.mp hactive

/-! ### The law -/

/-- What a tracker keeps to, after a run in which acts happened only `When` they may. -/
structure Lawful (When : World → Prop) (past : List World) (w : World) : Prop where
  /-- The count is that of the guards alive: those made and not given up. -/
  counted : w.state.tracker.active = w.state.guards.length
  alive : w.state.guards.Nodup ∧ ∀ g, g ∈ w.state.guards ↔ g ∈ w.numbers ∧ g ∉ w.gone
  /-- Whoever gives a guard up takes one off the count, which was not zero. -/
  drops : ∀ g ∈ w.state.guards, (w.state.drop g).tracker.active + 1 = w.state.tracker.active
  /-- Until as many ids were given out as there are, none was given out twice, here or elsewhere;
  so no two guards bear the same. -/
  ids : w.taken.length ≤ UInt64.size → w.taken.Nodup ∧ (w.made.map (·.id)).Nodup
  /-- Who waits has a handle on the tracker, so the count does not go away meanwhile. -/
  owned : ∀ b ∈ w.begun, b.1 ∈ w.state.waits → b.2 ∈ w.handles
  /-- A call waits, was dropped or has ended, and it ends once. -/
  booked : Booked w.state.waits w.dropped w.state.ended w.calls
  /-- No call ends but in a world in which it waits and no guard is alive. -/
  ended : ∀ id ∈ w.state.ended, ∃ u ∈ past, id ∈ u.state.waits ∧ u.state.guards = []
  /-- Nobody sleeps who could go on. -/
  awake : ∀ id ∈ w.state.waits, id ∉ w.awake → w.state.guards ≠ []
  /-- Where nobody is awake the state is settled. -/
  rest : w.awake = [] → system.Settled w.state
  /-- A call is over that has been made by a settled state, this one or a former, in which no guard
  is alive. -/
  inTime : ∀ u ∈ w :: past, system.Settled u.state → u.state.guards = [] →
    ∀ id ∈ u.calls, id ∈ w.state.ended ∨ id ∈ w.dropped
  /-- If acts wait until the state is settled, a call has ended in a settled state exactly if this
  one, or one since its start, is one in which no guard is alive. -/
  prompt : (∀ u, When u → system.Settled u.state) → system.Settled w.state →
    ∀ id ∈ w.calls, id ∉ w.dropped → (id ∈ w.state.ended ↔
      ∃ u ∈ w :: past, system.Settled u.state ∧ id ∈ u.calls ∧ u.state.guards = [])
  /-- Those who are awake look until nobody is, and then those are gone who could go on. -/
  settles : w.state.waits.length ≤ patience → ∃ x, system.Looks w.toWakeful x ∧
    x.state = w.state.settle ∧ x.awake = []

/-- **Every run of a tracker keeps to the law.** -/
theorem tracker_law (h : Run When past w) : Lawful When past w where
  counted := h.sound.counted
  alive := ⟨h.sound.guards_nodup, h.sound.mem_guards_iff⟩
  drops g hg := (h.sound.drop_counted hg).2
  ids htaken := by
    have hnodup := ConnectionId.nodup_after htaken
    rw [← h.sound.taken] at hnodup
    exact ⟨hnodup, hnodup.sublist h.sound.borne⟩
  owned := h.sound.owned
  booked := h.sound.booked
  ended _ := h.idle_of_ended
  awake id hid hsleeps hidle := by
    obtain ⟨s, hstep⟩ := exists_step_iff.mpr ⟨hid, h.sound.idle_iff.mpr hidle⟩
    exact hsleeps (h.sound.alert id s hstep)
  rest := h.sound.alert.settled
  inTime u hu hsettled hidle id hid := h.over_of_idle hu hsettled hidle hid
  prompt hwhen hsettled id hid hkept := by
    refine ⟨fun hended => ?_, fun ⟨u, hu, hsettled', hcall, hidle⟩ => ?_⟩
    · exact (h.settled_of_ended hwhen hended).elim (·) fun hidle =>
        ⟨w, List.mem_cons_self, hsettled, hid, hidle⟩
    · exact (h.over_of_idle hu hsettled' hidle hcall).resolve_right hkept
  settles := h.sound.alert.exists_looks brief

/-- A call waits while there are guards: it looks in vain when it begins, when another guard is made
and when the first is given up. It ends with the last one, and does not come back when there is a
guard again. -/
theorem wait_ends_with_last_guard : ∃ past w, Run (fun u => system.Settled u.state) past w ∧
    Lawful (fun u => system.Settled u.state) past w ∧ w.state.ended = [7] ∧
    w.state.guards = [2] ∧ w.state.tracker.active = 1 ∧
    ∃ u ∈ w :: past, system.Settled u.state ∧ 7 ∈ u.calls ∧ u.state.guards = [] := by
  have hbusy {s : State} (h : s.tracker.active ≠ 0) : system.Settled s :=
    settled_iff.mpr fun hidle => absurd hidle h
  have hfirst : Run (fun u => system.Settled u.state) _ _ :=
    (Run.fresh.act (settled_iff.mpr fun _ => rfl) (@Act.track _ 0 (by decide)))
  have hwaits := hfirst.act (hbusy (by decide)) (@Act.wait _ 7 0 (by decide) (by decide))
  have hsleeps := hwaits.look (@System.Look.look _ _ _ _ _ 7 (by decide))
  have hcloned := hsleeps.act (hbusy (by decide)) (@Act.clone _ 0 1 (by decide) (by decide))
  have hsecond := hcloned.act (hbusy (by decide)) (@Act.track _ 1 (by decide))
  have hagain := hsecond.look (@System.Look.look _ _ _ _ _ 7 (by decide))
  have hleft := hagain.act (hbusy (by decide)) (@Act.drop _ 0 (by decide))
  have hvain := hleft.look (@System.Look.look _ _ _ _ _ 7 (by decide))
  have hnone := hvain.act (hbusy (by decide)) (@Act.drop _ 1 (by decide))
  have hended := hnone.look (@System.Look.look _ _ _ _ _ 7 (by decide))
  have hthird := hended.act (settled_iff.mpr fun _ => rfl) (@Act.track _ 1 (by decide))
  have hlaw := tracker_law hthird
  refine ⟨_, _, hthird, hlaw, by decide, by decide, by decide, ?_⟩
  exact (hlaw.prompt (fun _ h => h) (hbusy (by decide)) 7 (by decide) (by decide)).mp (by decide)

end World
end Sim.Tracking
end Parley
