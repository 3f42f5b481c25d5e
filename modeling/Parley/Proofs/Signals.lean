import Parley.Proofs.Sleep
import Parley.Sim.Signals

/-! The law of a cancellation signal.

A `World` is a source with the signals that were taken from it, the signals that listen to nothing,
and the calls that wait for a signal, and what has happened. A `Step` is one thing that happens:
somebody subscribes, makes a signal that never fires, clones a signal, waits for one or drops a call
that waits, fires the source or drops it; or one who is awake looks. The first to fire the source
wakes all who listen to it, and so does whoever drops it.

What a signal does depends on its lineage alone (`Sound.heirs`): on whether the first of its line
was taken from the source. Such a one, and every clone of it, reports from the first call that fired
the source on that it was fired, and a call that waits for it has ended in a settled state exactly
if the source was fired or dropped (`signal_law`). -/
namespace Parley

/-! ### Signals -/

theorem Signal.isTriggered_iff {source : Shutdown} {signal : Signal} :
    signal.isTriggered source = true ↔ signal = .subscribed ∧ source.fired = true := by
  cases signal <;> simp [isTriggered]

theorem Signal.isCancelled_iff {source : Shutdown} {signal : Signal} :
    signal.isCancelled source = true ↔
      signal = .subscribed ∧ (source.fired = true ∨ source.dropped = true) := by
  cases signal <;> simp [isCancelled]

namespace Sim.Signals

/-- How a signal was made. -/
inductive Lineage where
  | subscribed
  | never
  | cloned (parent : Lineage)
  deriving DecidableEq

/-- The first of the line. -/
def Lineage.root : Lineage → Signal
  | .subscribed => .subscribed
  | .never => .never
  | .cloned parent => parent.root

/-- A signal, and how it was made. -/
structure Listener where
  lineage : Lineage
  signal : Signal
  deriving DecidableEq

/-- The calls that wait for the source. -/
def State.listening (s : State) : List CallId := (s.waits.filter (·.2 = .subscribed)).map (·.1)

structure World extends Wakeful State CallId where
  signals : List Listener := []
  /-- The calls to wait, each with the signal it waits for. -/
  begun : List (CallId × Listener) := []
  /-- The calls to wait that were dropped. -/
  dropped : List CallId := []
  /-- What the calls to fire the source returned, the first first. -/
  answers : List Bool := []

namespace World

/-- The calls made so far. -/
def calls (w : World) : List CallId := w.begun.map (·.1)

/-- There is one signal more. -/
def hears (w : World) (x : Listener) : World := { w with signals := w.signals ++ [x] }

/-- One thing that happens. It takes the source to subscribe and to drop it; what the call to fire
it does without it is left to the state. -/
inductive Step (w : World) : World → Prop where
  | subscribe (halive : w.state.source.dropped = false) :
      Step w (w.hears ⟨.subscribed, .subscribed⟩)
  | never : Step w (w.hears ⟨.never, .never⟩)
  | clone {x} (hx : x ∈ w.signals) : Step w (w.hears ⟨.cloned x.lineage, x.signal⟩)
  | wait {x id} (hx : x ∈ w.signals) (hnew : id ∉ w.calls) : Step w { w with
      toWakeful := w.wakes (w.state.wait id x.signal) [id]
      begun := w.begun ++ [(id, x)] }
  | giveUp {id} (hid : id ∈ w.state.waits.map (·.1)) : Step w { w with
      toWakeful := w.rests (w.state.giveUp id) id
      dropped := w.dropped ++ [id] }
  | trigger : Step w { w with
      toWakeful := w.wakes w.state.trigger.2
        (if w.state.trigger.1 = some true then w.state.listening else [])
      answers := w.answers ++ w.state.trigger.1.toList }
  | dropSource (halive : w.state.source.dropped = false) : Step w { w with
      toWakeful := w.wakes { w.state with source := w.state.source.drop } w.state.listening }
  | look {x} (hlook : system.Look w.toWakeful x) : Step w { w with toWakeful := x }

/-- One world comes to be another. -/
abbrev Leads : World → World → Prop := Relation.ReflTransGen Step

/-- A world that a new source comes to be. -/
def Reachable (w : World) : Prop := Leads { state := {} } w

end World

variable {s s' : State} {id : CallId}

/-! ### Waiting -/

theorem step_eq_some_iff : system.step id s = some s' ↔ ∃ signal, s.waits.lookup id = some signal ∧
    signal.isCancelled s.source = true ∧
    { s with waits := s.waits.filter (·.1 != id), ended := s.ended ++ [id] } = s' := by
  show step id s = some s' ↔ _
  rw [step]
  cases s.waits.lookup id with
  | none => simp
  | some signal => cases h : signal.isCancelled s.source <;> simp [h]

/-- A call that waits has a step as long as its signal is cancelled. -/
theorem exists_step_iff : (∃ s', system.step id s = some s') ↔
    ∃ signal, s.waits.lookup id = some signal ∧ signal.isCancelled s.source = true := by
  simp [step_eq_some_iff]

theorem brief : system.Brief where
  listed h := by
    obtain ⟨signal, hlookup, -⟩ := step_eq_some_iff.mp h
    exact List.mem_map_of_mem (Keyed.mem_of_lookup hlookup)
  gone h := by
    obtain ⟨-, -, -, rfl⟩ := step_eq_some_iff.mp h
    simp [system]
  fewer h := by
    obtain ⟨signal, hlookup, -, rfl⟩ := step_eq_some_iff.mp h
    show (List.map _ _).length < (List.map _ _).length
    rw [List.length_map, List.length_map]
    exact List.length_filter_lt_length_iff_exists.mpr ⟨_, Keyed.mem_of_lookup hlookup, by simp⟩
  others h h' := by
    obtain ⟨-, -, -, rfl⟩ := step_eq_some_iff.mp h
    obtain ⟨signal, hlookup, hcancelled, -⟩ := step_eq_some_iff.mp h'
    exact exists_step_iff.mpr ⟨signal, (Keyed.lookup_of_filter hlookup).2, hcancelled⟩

/-- The calls that wait for the source are those that its end wakes. -/
theorem mem_listening {signal : Signal} (hlookup : s.waits.lookup id = some signal)
    (hsignal : signal = .subscribed) : id ∈ s.listening :=
  List.mem_map.mpr ⟨_, List.mem_filter.mpr ⟨Keyed.mem_of_lookup hlookup, by simpa⟩, rfl⟩

/-- What a call to fire the source comes to: it is gone, it was fired before, or now it is. -/
theorem trigger_cases (s : State) : s.trigger = (none, s) ∨
    (s.source.fired = true ∧ s.trigger = (some false, s)) ∨
    (s.source.fired = false ∧
      s.trigger = (some true, { s with source := { s.source with fired := true } })) := by
  obtain ⟨⟨fired, dropped⟩, waits, ended⟩ := s
  cases fired <;> cases dropped <;> simp [State.trigger, Shutdown.trigger]

/-! ### What every run keeps -/

namespace World

/-- What holds of a source, the signals and the calls that wait. -/
structure Sound (w : World) : Prop where
  /-- Of the calls to fire the source the first returned true, and no other. -/
  first : ∀ i b, w.answers[i]? = some b → (b = true ↔ i = 0)
  fired : w.state.source.fired = true ↔ w.answers ≠ []
  /-- A signal is as the first of its line. -/
  heirs : ∀ x ∈ w.signals, x.signal = x.lineage.root
  begun : ∀ b ∈ w.begun, b.2 ∈ w.signals
  listens : ∀ p ∈ w.state.waits, ∃ x, (p.1, x) ∈ w.begun ∧ x.signal = p.2
  booked : Booked (w.state.waits.map (·.1)) w.dropped w.state.ended w.calls
  ended : ∀ id ∈ w.state.ended, ∃ x, (id, x) ∈ w.begun ∧
    x.signal.isCancelled w.state.source = true
  alert : system.Alert w.toWakeful

variable {w w' : World} {x : Wakeful State CallId}

theorem sound_fresh : Sound { state := {} } where
  first i b h := by simp at h
  fired := by simp
  heirs _ hx := absurd hx List.not_mem_nil
  begun _ hb := absurd hb List.not_mem_nil
  listens _ hp := absurd hp List.not_mem_nil
  booked := .nil
  ended _ hid := absurd hid List.not_mem_nil
  alert t s hstep := by
    obtain ⟨signal, hlookup, -⟩ := step_eq_some_iff.mp hstep
    cases hlookup

/-- One more answer, true if it is the first. -/
theorem first_append {answers : List Bool} {answer : Bool}
    (h : ∀ i b, answers[i]? = some b → (b = true ↔ i = 0)) (hnew : answer = true ↔ answers = []) :
    ∀ i b, (answers ++ [answer])[i]? = some b → (b = true ↔ i = 0) := by
  intro i b hb
  rcases Nat.lt_trichotomy i answers.length with hlt | rfl | hgt
  · rw [List.getElem?_append_left hlt] at hb
    exact h i b hb
  · rw [List.getElem?_concat_length] at hb
    obtain rfl := Option.some.inj hb
    rw [hnew, List.length_eq_zero_iff]
  · have hlength : (answers ++ [answer]).length ≤ i := by simpa using Nat.succ_le_of_lt hgt
    rw [List.getElem?_eq_none hlength] at hb
    cases hb

/-- The source is fired or dropped, and all who listen to it are woken. -/
theorem Sound.tells (h : Sound w) {source : Shutdown} {answers : List Bool}
    (hfirst : ∀ i b, answers[i]? = some b → (b = true ↔ i = 0))
    (hanswers : source.fired = true ↔ answers ≠ [])
    (hmore : ∀ signal : Signal, signal.isCancelled w.state.source = true →
      signal.isCancelled source = true) :
    Sound { w with
      toWakeful := w.wakes { w.state with source } w.state.listening
      answers } :=
  { h with
    first := hfirst
    fired := hanswers
    ended := fun id hid => by
      obtain ⟨x, hx, hcancelled⟩ := h.ended id hid
      exact ⟨x, hx, hmore _ hcancelled⟩
    alert := h.alert.wakes fun t _ hstep => by
      obtain ⟨signal, hlookup, hcancelled, -⟩ := step_eq_some_iff.mp hstep
      exact .inl (mem_listening hlookup (Signal.isCancelled_iff.mp hcancelled).1) }

theorem Sound.step (h : Sound w) (hstep : Step w w') : Sound w' := by
  have hheirs {x : Listener} (hx : x.signal = x.lineage.root) : Sound (w.hears x) :=
    { h with
      heirs := List.forall_mem_append.mpr ⟨h.heirs, List.forall_mem_singleton.mpr hx⟩
      begun := fun b hb => List.mem_append_left _ (h.begun b hb) }
  cases hstep with
  | subscribe => exact hheirs rfl
  | never => exact hheirs rfl
  | @clone x hx => exact hheirs (h.heirs x hx)
  | @wait x id hx hnew =>
    have hmore {n : CallId} {y : Listener} (hy : (n, y) ∈ w.begun) :
        (n, y) ∈ w.begun ++ [(id, x)] := List.mem_append_left _ hy
    exact { h with
      begun := List.forall_mem_append.mpr ⟨h.begun, List.forall_mem_singleton.mpr hx⟩
      listens := by
        refine List.forall_mem_append.mpr ⟨fun p hp => ?_, List.forall_mem_singleton.mpr ?_⟩
        · obtain ⟨y, hy, hsignal⟩ := h.listens p hp
          exact ⟨y, hmore hy, hsignal⟩
        · exact ⟨x, List.mem_append_right _ List.mem_cons_self, rfl⟩
      booked := by
        show Booked ((w.state.waits ++ [_]).map _) _ _ ((w.begun ++ [_]).map _)
        rw [List.map_append, List.map_append]
        exact h.booked.begins hnew
      ended := fun n hn => by
        obtain ⟨y, hy, hcancelled⟩ := h.ended n hn
        exact ⟨y, hmore hy, hcancelled⟩
      -- The source may be fired already: then the new call has a step at once, and it is awake.
      alert := h.alert.wakes fun t _ hstep => by
        obtain ⟨signal, hlookup, hcancelled, -⟩ := step_eq_some_iff.mp hstep
        by_cases ht : t = id
        · exact .inl (List.mem_singleton.mpr ht)
        · refine .inr (exists_step_iff.mpr ⟨signal, ?_, hcancelled⟩)
          simpa [State.wait, List.lookup_append, List.lookup_cons, beq_false_of_ne ht]
            using hlookup }
  | @giveUp id hid =>
    exact { h with
      listens := fun p hp => h.listens p (List.mem_of_mem_filter hp)
      booked := by
        show Booked ((w.state.waits.filter _).map _) _ _ _
        rw [Keyed.map_fst_filter]
        exact h.booked.drops hid
      alert := by
        refine h.alert.rests fun t _ hstep => ?_
        obtain ⟨signal, hlookup, hcancelled, -⟩ := step_eq_some_iff.mp hstep
        obtain ⟨hne, hlookup⟩ := Keyed.lookup_of_filter hlookup
        exact ⟨hne, exists_step_iff.mpr ⟨signal, hlookup, hcancelled⟩⟩ }
  | trigger =>
    rcases trigger_cases w.state with heq | ⟨hfired, heq⟩ | ⟨hfired, heq⟩
    · rw [heq]
      exact { h with
        first := (List.append_nil w.answers).symm ▸ h.first
        fired := (List.append_nil w.answers).symm ▸ h.fired }
    · rw [heq]
      have hne := h.fired.mp hfired
      exact { h with
        first := first_append h.first (by simpa using hne)
        fired := iff_of_true hfired (by simp) }
    · rw [heq]
      have hnil : w.answers = [] := by
        by_contra hne
        exact absurd (hfired.symm.trans (h.fired.mpr hne)) (by decide)
      refine h.tells (first_append h.first (by simpa using hnil)) (by simp) fun signal hold => ?_
      exact Signal.isCancelled_iff.mpr ⟨(Signal.isCancelled_iff.mp hold).1, .inl rfl⟩
  | dropSource =>
    refine h.tells h.first h.fired fun signal hold => ?_
    exact Signal.isCancelled_iff.mpr ⟨(Signal.isCancelled_iff.mp hold).1, .inr rfl⟩
  | look hlook =>
    have halert := h.alert.look brief hlook
    cases hlook with
    | @look id hawake =>
      cases hstep : system.step id w.state with
      | none =>
        rw [hstep] at halert
        exact { h with alert := halert }
      | some s =>
        obtain ⟨signal, hlookup, hcancelled, rfl⟩ := step_eq_some_iff.mp hstep
        rw [hstep] at halert
        have hmem := Keyed.mem_of_lookup hlookup
        exact { h with
          listens := fun p hp => h.listens p (List.mem_of_mem_filter hp)
          booked := by
            show Booked ((w.state.waits.filter _).map _) _ _ _
            rw [Keyed.map_fst_filter]
            exact h.booked.ends (List.mem_map_of_mem hmem)
          ended := by
            refine List.forall_mem_append.mpr ⟨h.ended, List.forall_mem_singleton.mpr ?_⟩
            obtain ⟨x, hx, hsignal⟩ := h.listens _ hmem
            exact ⟨x, hx, hsignal ▸ hcancelled⟩
          alert := halert }

theorem Reachable.sound (h : Reachable w) : Sound w := by
  induction h with
  | refl => exact sound_fresh
  | tail _ hstep ih => exact ih.step hstep

/-- What a call to fire the source returned is not undone. -/
theorem answers_leads (h : Leads w w') : w.answers <+: w'.answers := by
  induction h with
  | refl => exact List.prefix_rfl
  | tail _ hstep ih =>
    refine ih.trans ?_
    cases hstep with
    | trigger => exact List.prefix_append ..
    | _ => exact List.prefix_rfl

/-! ### The law -/

/-- Whether a call waits for something that has come about: its signal is of the source's line, and
the source was fired or dropped. -/
def Called (w : World) (x : Listener) : Prop :=
  x.lineage.root = .subscribed ∧ (w.answers ≠ [] ∨ w.state.source.dropped = true)

theorem Sound.isTriggered_iff (h : Sound w) {x : Listener} (hx : x ∈ w.signals) :
    x.signal.isTriggered w.state.source = true ↔
      x.lineage.root = .subscribed ∧ w.answers ≠ [] := by
  rw [Signal.isTriggered_iff, h.heirs x hx, h.fired]

theorem Sound.isCancelled_iff (h : Sound w) {b : CallId × Listener} (hb : b ∈ w.begun) :
    b.2.signal.isCancelled w.state.source = true ↔ w.Called b.2 := by
  rw [Signal.isCancelled_iff, h.heirs b.2 (h.begun b hb), h.fired, Called]

/-- Who waits has a step as soon as what it waits for has come about. -/
theorem Sound.exists_step_iff (h : Sound w) {b : CallId × Listener} (hb : b ∈ w.begun)
    (hwaits : b.1 ∈ w.state.waits.map (·.1)) :
    (∃ s, system.step b.1 w.state = some s) ↔ w.Called b.2 := by
  obtain ⟨p, hp, hkey⟩ := List.mem_map.mp hwaits
  obtain ⟨x, hx, hsignal⟩ := h.listens p hp
  -- No two calls have the same name.
  obtain rfl : (p.1, x) = b := Keyed.eq_of_mem h.booked.nodup hx hb hkey
  have hlookup := Keyed.lookup_of_mem h.booked.waits_nodup hp
  rw [← h.isCancelled_iff hb, Signals.exists_step_iff, hlookup]
  simp [hsignal]

/-- What a source keeps to, with all signals and all calls that wait. -/
structure Lawful (w : World) : Prop where
  /-- Of the calls to fire the source the first returned true, and no other. -/
  first : ∀ i b, w.answers[i]? = some b → (b = true ↔ i = 0)
  fired : w.state.source.fired = true ↔ w.answers ≠ []
  /-- A signal reports that the source was fired exactly if it was, and it is of the source's line;
  so one that never fires does not, nor any clone of it. -/
  reports : ∀ x ∈ w.signals, (x.signal.isTriggered w.state.source = true ↔
    x.lineage.root = .subscribed ∧ w.answers ≠ [])
  /-- Whatever happens then, all signals of the source's line report it for ever. -/
  forever : w.answers ≠ [] → ∀ w', Leads w w' → ∀ x ∈ w'.signals, x.lineage.root = .subscribed →
    x.signal.isTriggered w'.state.source = true
  /-- A call waits, was dropped or has ended, and it ends once. -/
  booked : Booked (w.state.waits.map (·.1)) w.dropped w.state.ended w.calls
  /-- No call ends before the source is fired or dropped, and none that waits for another signal. -/
  ended : ∀ b ∈ w.begun, b.1 ∈ w.state.ended → w.Called b.2
  /-- Nobody sleeps who could go on. -/
  awake : ∀ b ∈ w.begun, b.1 ∈ w.state.waits.map (·.1) → b.1 ∉ w.awake → ¬ w.Called b.2
  /-- Where nobody is awake the state is settled, and there a call has ended exactly if the source
  was fired or dropped, be it before the call or after. -/
  rest : w.awake = [] → system.Settled w.state
  settled : system.Settled w.state → ∀ b ∈ w.begun, b.1 ∉ w.dropped →
    (b.1 ∈ w.state.ended ↔ w.Called b.2)
  /-- Those who are awake look until nobody is, and then those are gone who could go on. -/
  settles : w.state.waits.length ≤ patience → ∃ x, system.Looks w.toWakeful x ∧
    x.state = w.state.settle ∧ x.awake = []

/-- **Every world that a new source comes to be keeps to the law.** -/
theorem signal_law (h : Reachable w) : Lawful w := by
  have hsound := h.sound
  have hended : ∀ b ∈ w.begun, b.1 ∈ w.state.ended → w.Called b.2 := by
    intro b hb hid
    obtain ⟨x, hx, hcancelled⟩ := hsound.ended b.1 hid
    have heq : (b.1, x) = b := Keyed.eq_of_mem hsound.booked.nodup hx hb rfl
    exact heq ▸ (hsound.isCancelled_iff hx).mp hcancelled
  exact {
    first := hsound.first
    fired := hsound.fired
    reports := fun x hx => hsound.isTriggered_iff hx
    forever := fun hne w' hleads x hx hroot => by
      have hsound' := Reachable.sound (h.trans hleads)
      refine (hsound'.isTriggered_iff hx).mpr ⟨hroot, fun hnil => hne ?_⟩
      exact List.prefix_nil.mp (hnil ▸ answers_leads hleads)
    booked := hsound.booked
    ended := hended
    awake := fun b hb hwaits hsleeps hcalled => by
      obtain ⟨s, hstep⟩ := (hsound.exists_step_iff hb hwaits).mpr hcalled
      exact hsleeps (hsound.alert b.1 s hstep)
    rest := hsound.alert.settled
    settled := fun hsettled b hb hkept => by
      refine ⟨hended b hb, fun hcalled => ?_⟩
      refine (hsound.booked.mem_ended_iff (List.mem_map_of_mem hb) hkept).mpr fun hwaits => ?_
      obtain ⟨s, hstep⟩ := (hsound.exists_step_iff hb hwaits).mpr hcalled
      exact absurd (hsettled b.1) (hstep ▸ Option.some_ne_none s)
    settles := fun hroom => hsound.alert.exists_looks brief (by simpa [system] using hroom) }

/-- The clone of a clone ends the wait that began before, once the source is fired; a clone made
after the source was fired again and dropped ends its wait at once; and a clone of a signal that
never fires ends none. -/
theorem clones_hear_the_source : ∃ w : World, Reachable w ∧ Lawful w ∧ w.answers = [true, false] ∧
    w.state.source.dropped = true ∧ w.state.ended = [1, 3] ∧ w.state.waits = [(2, .never)] := by
  let first : Listener := ⟨.subscribed, .subscribed⟩
  let second : Listener := ⟨.cloned first.lineage, .subscribed⟩
  let third : Listener := ⟨.cloned second.lineage, .subscribed⟩
  let deaf : Listener := ⟨.never, .never⟩
  have hfirst : Reachable _ := .single (.subscribe rfl)
  have hsecond := hfirst.tail (@Step.clone _ first (by decide))
  have hthird := hsecond.tail (@Step.clone _ second (by decide))
  have hdeaf := (hthird.tail .never).tail (@Step.clone _ deaf (by decide))
  have hwaits := hdeaf.tail (@Step.wait _ third 1 (by decide) (by decide))
  have hsleeps := hwaits.tail (.look (@System.Look.look _ _ _ _ _ 1 (by decide)))
  have hnever := hsleeps.tail (@Step.wait _ ⟨.cloned .never, .never⟩ 2 (by decide) (by decide))
  have hvain := hnever.tail (.look (@System.Look.look _ _ _ _ _ 2 (by decide)))
  have hfired := hvain.tail .trigger
  have hended := hfired.tail (.look (@System.Look.look _ _ _ _ _ 1 (by decide)))
  have hgone := (hended.tail .trigger).tail (.dropSource rfl)
  have hlate := (hgone.tail (@Step.clone _ first (by decide))).tail
    (@Step.wait _ second 3 (by decide) (by decide))
  have hover := hlate.tail (.look (@System.Look.look _ _ _ _ _ 3 (by decide)))
  exact ⟨_, hover, signal_law hover, by decide⟩

end World
end Sim.Signals
end Parley
