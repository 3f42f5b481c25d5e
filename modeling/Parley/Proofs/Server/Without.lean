import Parley.Proofs.Server.Books

/-! A server without some of its connections.

Some streams are *theirs*. `without` takes the connections on these streams from a server, and
with them all that connections have in common; one free slot is put there. The other tasks do not
notice. A step of a loop that does not have to wait for a slot, and a step of a connection on
another stream, is the same step there (`stepLoop_without`, `stepHandshake_without`,
`stepEngine_without`), and whatever a connection on one of these streams does, the server without
it stays as it is (`without_of_connectionStepped`). -/
namespace Parley.Server
open Channel

/-- A server without the connections on some streams, and without what its connections have in
common: who is tracked, how many slots are free, and who waits until nothing is tracked. -/
def without (theirs : StreamId → Bool) (s : Server) : Server :=
  { s with
    admission := { max := 0, wait := 0, free := 1 }
    tracker := { next := s.tracker.next }
    connections := s.connections.filter (!theirs ·.stream)
    idling := [] }

/-- What a step leads to, without some connections. -/
def restOf {α : Type} (theirs : StreamId → Bool) (r : Server × α) : Server × α :=
  (r.1.without theirs, r.2)

section
variable {theirs : StreamId → Bool} {s s' : Server} {c : Connection} {l : Loop}
  {now : Nat} {id : CallId} {events : List Event}

/-- What is made of two steps is the same if their rests are. -/
theorem map_of_restOf {α β : Type} {x x' : Option (Server × α)} {f f' : Server × α → β}
    (h : x'.map (restOf theirs) = x.map (restOf theirs))
    (hf : ∀ s s' a, s'.without theirs = s.without theirs → f' (s', a) = f (s, a)) :
    x'.map f' = x.map f := by
  cases x with
  | none => rw [Option.map_eq_none_iff.mp h]; rfl
  | some r =>
    obtain ⟨r', rfl, hr⟩ := Option.map_eq_some_iff.mp h
    obtain ⟨hserver, hrest⟩ := Prod.mk.inj hr
    obtain ⟨server, a⟩ := r
    obtain ⟨server', a'⟩ := r'
    obtain rfl : a' = a := hrest
    exact congrArg some (hf server server' a' hserver)

theorem without_without (s : Server) : (s.without theirs).without theirs = s.without theirs := by
  simp [without, List.filter_filter]

/-! ### Loops -/

theorem restOf_setLoop {α : Type} (s : Server) (l : Loop) (a : α) :
    restOf theirs ((s.without theirs).setLoop l, a) = restOf theirs (s.setLoop l, a) := by
  simp [restOf, without, setLoop, List.filter_filter]

theorem restOf_endLoop {α : Type} (s : Server) (l : Loop) (a : α) :
    restOf theirs (((s.without theirs).endLoop l).1, a) = restOf theirs ((s.endLoop l).1, a) := by
  simp [restOf, without, endLoop, List.filter_filter]

theorem restOf_loopReturns (s : Server) (l : Loop) (r : Except Error Unit) :
    restOf theirs ((s.without theirs).loopReturns l r) = restOf theirs (s.loopReturns l r) := by
  simp [restOf, without, loopReturns, endLoop, List.filter_filter]

theorem restOf_giveIn (s : Server) (l : Loop) (stream : StreamId) :
    restOf theirs ((s.without theirs).giveIn l stream) = restOf theirs (s.giveIn l stream) := by
  simp [restOf, without, giveIn, forget, loopReturns, endLoop, Tracker.release, List.filter_filter]

theorem restOf_takeIn (s : Server) (l : Loop) (stream : StreamId) (guard : Nat) :
    restOf theirs ((s.without theirs).takeIn l stream guard) =
      restOf theirs (s.takeIn l stream guard) := by
  simp [restOf, without, takeIn, setLoop, List.filter_filter]

theorem accept_without (s : Server) (now : Nat) (l : Loop) :
    ((s.without theirs).accept now l).map (restOf theirs) =
      (s.accept now l).map (restOf theirs) := by
  unfold accept
  split
  · split
    · exact congrArg some (restOf_loopReturns s _ _)
    · exact congrArg some (restOf_setLoop s _ _)
    · exact congrArg some (restOf_loopReturns s _ _)
  · exact congrArg some (restOf_setLoop s _ _)
  · rfl

theorem not_queued {loops : List Loop} (h : queued loops = []) (hl : l ∈ loops) :
    l.stage.isQueued = false := by
  by_contra hqueued
  have hmem : l.id ∈ queued loops :=
    List.mem_map_of_mem (List.mem_filter.mpr ⟨hl, (Bool.not_eq_false _).mp hqueued⟩)
  rw [h] at hmem
  cases hmem

theorem stage_ne_queued {stream : StreamId} {guard : Nat} (h : queued s.loops = [])
    (hl : s.loops.find? (·.id == id) = some l) : l.stage ≠ .queued stream guard := by
  intro hstage
  have hfalse := not_queued h (Keyed.mem_of_find? hl).1
  rw [hstage] at hfalse
  cases hfalse

/-- A loop that does not have to wait for a slot finds a free one. -/
theorem exists_acquired {stream : StreamId} {guard : Nat}
    (hl : s.loops.find? (·.id == id) = some l) (hstage : l.stage = .cleared stream guard)
    (hafter : ∀ r, s.stepLoop now id = some r → queued r.1.loops = []) :
    ∃ admission, s.admission.acquire id now = (true, admission) := by
  cases hacquire : s.admission.acquire id now with
  | mk free admission =>
    cases free with
    | true => exact ⟨admission, rfl⟩
    | false =>
      have hid : l.id = id := (Keyed.mem_of_find? hl).2
      let waiting : Loop := { l with stage := .queued stream guard }
      have hnone := hafter ({ s with admission }.setLoop waiting, [])
        (by simp only [stepLoop, hl, hstage, hacquire, waiting])
      have hset := Keyed.find?_set (k := Loop.id) (y := waiting) hl hid
      have hfalse := not_queued hnone (Keyed.mem_of_find? hset).1
      cases hfalse

/-- A step of a loop does not depend on the connections, nor on what they share. -/
theorem stepLoop_without (hbefore : queued s.loops = [])
    (hafter : ∀ r, s.stepLoop now id = some r → queued r.1.loops = []) :
    ((s.without theirs).stepLoop now id).map (restOf theirs) =
      (s.stepLoop now id).map (restOf theirs) := by
  cases hl : s.loops.find? (·.id == id) with
  | none =>
    have hl' : (s.without theirs).loops.find? (·.id == id) = none := hl
    simp only [stepLoop, hl, hl']
  | some l =>
    have hl' : (s.without theirs).loops.find? (·.id == id) = some l := hl
    cases hstage : l.stage with
    | accepting =>
      simp only [stepLoop, hl, hl', hstage]
      show Option.map _ (if s.shutdown.fired then _ else _) = _
      split
      · exact congrArg some (restOf_loopReturns s l _)
      · exact accept_without s now l
    | pausing due =>
      simp only [stepLoop, hl, hl', hstage]
      show Option.map _ (if s.shutdown.fired then _ else _) = _
      split
      · exact congrArg some (restOf_loopReturns s l _)
      · split
        · exact congrArg some (restOf_setLoop s _ _)
        · rfl
    | taken stream =>
      simp only [stepLoop, hl, hl', hstage]
      exact congrArg some (restOf_setLoop { s with tracker := s.tracker.track.2 } _ _)
    | tracked stream guard =>
      simp only [stepLoop, hl, hl', hstage]
      show Option.map _ (if s.shutdown.fired then _ else _) = _
      split
      · exact congrArg some (restOf_giveIn s l stream)
      · exact congrArg some (restOf_setLoop s _ _)
    | cleared stream guard =>
      obtain ⟨admission, hacquire⟩ := exists_acquired hl hstage hafter
      have hacquire' : (s.without theirs).admission.acquire id now = (true, _) := rfl
      simp only [stepLoop, hl, hl', hstage, hacquire, hacquire']
      exact congrArg some (restOf_takeIn { s with admission } l stream guard)
    | queued => exact absurd hstage (stage_ne_queued hbefore hl)

/-- Dropping a loop does not depend on them either. -/
theorem dropLoop_without (hbefore : queued s.loops = []) :
    restOf theirs ((s.without theirs).dropLoop id) = restOf theirs (s.dropLoop id) := by
  cases hl : s.loops.find? (·.id == id) with
  | none =>
    have hl' : (s.without theirs).loops.find? (·.id == id) = none := hl
    simp only [dropLoop, hl, hl']
    exact congrArg (fun s => (s, [])) (without_without s)
  | some l =>
    have hl' : (s.without theirs).loops.find? (·.id == id) = some l := hl
    cases hstage : l.stage with
    | accepting
    | pausing
    | taken =>
      simp only [dropLoop, hl, hl', hstage]
      exact restOf_endLoop s l _
    | tracked
    | cleared =>
      simp only [dropLoop, hl, hl', hstage]
      exact restOf_endLoop { s with tracker := s.tracker.release } l _
    | queued => exact absurd hstage (stage_ne_queued hbefore hl)

/-- Whether a loop can take a step depends on the loops, the signal and the time. -/
theorem isSome_stepLoop {v : Server} (hloops : v.loops = s.loops)
    (hsignal : v.shutdown = s.shutdown) (hbefore : queued s.loops = []) :
    (v.stepLoop now id).isSome = (s.stepLoop now id).isSome := by
  cases hl : s.loops.find? (·.id == id) with
  | none => simp only [stepLoop, hloops, hl]
  | some l =>
    cases hstage : l.stage with
    | accepting =>
      simp only [stepLoop, hloops, hsignal, hl, hstage]
      split
      · rfl
      · unfold accept
        split
        · split <;> rfl
        · rfl
        · rfl
    | pausing due =>
      simp only [stepLoop, hloops, hsignal, hl, hstage]
      split
      · rfl
      · split <;> rfl
    | taken => simp only [stepLoop, hloops, hl, hstage, Option.isSome_some]
    | tracked =>
      simp only [stepLoop, hloops, hsignal, hl, hstage]
      split <;> rfl
    | cleared =>
      simp only [stepLoop, hloops, hl, hstage]
      split <;> split <;> rfl
    | queued => exact absurd hstage (stage_ne_queued hbefore hl)

/-! ### Connections on other streams -/

/-- Where connections are changed in their places, those that are taken out do not matter. -/
theorem filter_map_filter {f : Connection → Connection} {zs : List Connection}
    (hf : ∀ z ∈ zs, (f z).stream = z.stream) :
    ((zs.filter (!theirs ·.stream)).map f).filter (!theirs ·.stream) =
      (zs.map f).filter (!theirs ·.stream) := by
  rw [List.filter_map, List.filter_map, List.filter_filter]
  refine congrArg (List.map f) (List.filter_congr fun z hz => ?_)
  show (!theirs (f z).stream && !theirs z.stream) = !theirs (f z).stream
  rw [hf z hz, Bool.and_self]

/-- If only such are changed, nothing is. -/
theorem filter_map_theirs {f : Connection → Connection} {zs : List Connection}
    (hf : ∀ z ∈ zs, (f z).stream = z.stream)
    (hsame : ∀ z ∈ zs, theirs z.stream = false → f z = z) :
    (zs.map f).filter (!theirs ·.stream) = zs.filter (!theirs ·.stream) := by
  rw [List.filter_map]
  have hfilter : zs.filter ((!theirs ·.stream) ∘ f) = zs.filter (!theirs ·.stream) :=
    List.filter_congr fun z hz => congrArg (fun x => !theirs x) (hf z hz)
  rw [hfilter]
  refine (List.map_congr_left fun z hz => ?_).trans (List.map_id _)
  obtain ⟨hz, hours⟩ := List.mem_filter.mp hz
  exact hsame z hz (by simpa using hours)

theorem stream_beginHandshake (s : Server) (now guard : Nat) (secret : Bytes) (z : Connection) :
    (if z.guard = guard then
      let due := dueAfter s.config.handshakeTimeout now
      { z with progress := .shaking (.start secret due) }
    else z : Connection).stream = z.stream := by
  split <;> rfl

theorem beginHandshake_without (s : Server) (now guard : Nat) (secret : Bytes) :
    ((s.without theirs).beginHandshake now guard secret).without theirs =
      (s.beginHandshake now guard secret).without theirs :=
  congrArg (fun connections => { s.without theirs with connections })
    (filter_map_filter fun z _ => stream_beginHandshake s now guard secret z)

theorem restOf_endConnection {α : Type} (s : Server) (c : Connection) (a : α) :
    restOf theirs ((s.without theirs).endConnection c, a) =
      restOf theirs (s.endConnection c, a) := by
  simp only [restOf, without, endConnection, Tracker.release, List.filter_filter]
  congr 1
  congr 1
  refine List.filter_congr fun z _ => ?_
  cases !theirs z.stream <;> simp

section
variable (hguards : (s.connections.map (·.guard)).Nodup) (hc : c ∈ s.connections)
include hguards hc

theorem find?_without (hours : theirs c.stream = false) :
    (s.without theirs).connections.find? (·.guard == c.guard) = some c := by
  refine Keyed.find?_of_mem (hguards.sublist (List.filter_sublist.map _)) ?_
  exact List.mem_filter.mpr ⟨hc, by rw [hours]; rfl⟩

theorem wantsSecret_without (hours : theirs c.stream = false) :
    (s.without theirs).wantsSecret c.guard = s.wantsSecret c.guard := by
  unfold wantsSecret
  congr 1
  show (s.connections.filter (!theirs ·.stream)).any _ = _
  rw [List.any_filter]
  refine Bool.eq_iff_iff.mpr ?_
  simp only [List.any_eq_true]
  refine exists_congr fun z => and_congr_right fun hz => ?_
  by_cases hguard : z.guard = c.guard
  · rw [Keyed.eq_of_mem hguards hz hc hguard, hours]
    simp
  · simp [hguard]

theorem stream_setConnection (progress : Progress) (z : Connection) (hz : z ∈ s.connections) :
    (if z.guard = c.guard then { c with progress } else z : Connection).stream = z.stream := by
  split
  · rename_i hguard
    rw [Keyed.eq_of_mem hguards hz hc hguard]
  · rfl

theorem restOf_setConnection {α : Type} (progress : Progress) (a : α) :
    restOf theirs ((s.without theirs).setConnection { c with progress }, a) =
      restOf theirs (s.setConnection { c with progress }, a) :=
  congrArg (fun connections => ({ s.without theirs with connections }, a))
    (filter_map_filter (stream_setConnection hguards hc progress))

/-- The handshake of a connection does not depend on the others. -/
theorem stepHandshake_without {env : Env} {d : Duplex} (hours : theirs c.stream = false) :
    ((s.without theirs).stepHandshake env c.guard d).map (restOf theirs) =
      (s.stepHandshake env c.guard d).map (restOf theirs) := by
  have hfind := Keyed.find?_of_mem hguards hc
  have hfind' := find?_without hguards hc hours
  cases hprogress : c.progress with
  | engaged e => simp only [stepHandshake, hfind, hfind', hprogress]
  | arriving =>
    simp only [stepHandshake, hfind, hfind', hprogress]
    show Option.map _ (if s.shutdown.fired then _ else _) = _
    split
    · exact congrArg some (restOf_endConnection s c _)
    · rfl
  | shaking h =>
    simp only [stepHandshake, hfind, hfind', hprogress]
    show Option.map _ (if s.shutdown.fired then _ else _) = _
    split
    · exact congrArg some (restOf_endConnection s c _)
    · cases h.step .server env.now d with
      | none => rfl
      | some r =>
        cases r with
        | going h d => exact congrArg some (restOf_setConnection hguards hc _ _)
        | agreed key => exact congrArg some (restOf_setConnection hguards hc _ _)
        | failed e => exact congrArg some (restOf_endConnection s c _)

/-- Nor does its engine. -/
theorem stepEngine_without {env : Env} {t : Engine.Task} {d : Duplex}
    (hours : theirs c.stream = false) :
    ((s.without theirs).stepEngine env c.guard t d).map (restOf theirs) =
      (s.stepEngine env c.guard t d).map (restOf theirs) := by
  have hfind := Keyed.find?_of_mem hguards hc
  have hfind' := find?_without hguards hc hours
  cases hprogress : c.progress with
  | arriving => simp only [stepEngine, hfind, hfind', hprogress]
  | shaking h => simp only [stepEngine, hfind, hfind', hprogress]
  | engaged e =>
    have henv : env.engine (s.without theirs) = env.engine s := rfl
    simp only [stepEngine, hfind, hfind', hprogress, henv]
    cases e.step (env.engine s) t d with
    | none => rfl
    | some r =>
      obtain ⟨e, d, events⟩ := r
      cases hends : ends events with
      | true =>
        simp only [hends]
        exact congrArg some (restOf_endConnection s c _)
      | false =>
        simp only [hends]
        exact congrArg some (restOf_setConnection hguards hc _ _)

/-! ### Their connections -/

theorem guard_ne (htheirs : theirs c.stream = true) (z : Connection) (hz : z ∈ s.connections)
    (hours : theirs z.stream = false) : z.guard ≠ c.guard := by
  intro hguard
  rw [Keyed.eq_of_mem hguards hz hc hguard, htheirs] at hours
  cases hours

/-- Without it a server does not notice what a connection of theirs does. -/
theorem without_of_connectionStepped (htheirs : theirs c.stream = true)
    (hstep : ConnectionStepped s c s' events) : s'.without theirs = s.without theirs := by
  have hne := guard_ne hguards hc htheirs
  cases hstep with
  | @goes progress =>
    exact congrArg (fun connections => { s.without theirs with connections })
      (filter_map_theirs (stream_setConnection hguards hc progress)
        fun z hz hours => if_neg (hne z hz hours))
  | ends =>
    refine congrArg (fun connections => { s.without theirs with connections }) ?_
    show (s.connections.filter (·.guard != c.guard)).filter (!theirs ·.stream) = _
    rw [List.filter_filter]
    refine List.filter_congr fun z hz => ?_
    cases hours : theirs z.stream with
    | true => rfl
    | false => simpa [hours] using hne z hz hours

theorem without_of_beginHandshake {secret : Bytes} (htheirs : theirs c.stream = true) :
    (s.beginHandshake now c.guard secret).without theirs = s.without theirs :=
  congrArg (fun connections => { s.without theirs with connections })
    (filter_map_theirs (fun z _ => stream_beginHandshake s now c.guard secret z)
      fun z hz hours => if_neg (guard_ne hguards hc htheirs z hz hours))

end
end
end Parley.Server
