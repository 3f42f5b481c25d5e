import Parley.Proofs.Server.Site

/-! What accept loops return.

A loop returns an error only if its own listener met one that is fatal to it. A step of a loop
`Meets` no error but those that wait for it, so that at every site a run leads to loops have met
and returned only what their listeners were made to meet in the run (`Site.Run.blames`). Nothing
that is done on a stream is among that. -/
namespace Parley.Server
open Channel

/-- A loop's listener met an error that is fatal to the loop. -/
def Faulted (done : List Act) (id : CallId) (e : Error) : Prop :=
  ∃ address io, .serve id address ∈ done ∧ .fault address io ∈ done ∧
    classifyAccept io = .fatal ∧ e = .io io

/-- A step of a loop meets no error that was not before it, and returns none but those. -/
structure Meets (l : Loop) (loops : List Loop) (s' : Server) (events : List Event) : Prop where
  loops : ∀ m ∈ s'.loops,
    m ∈ loops ∨ m.id = l.id ∧ m.address = l.address ∧ ∀ e ∈ m.faults, e ∈ l.faults
  returns : ∀ id e, .returned id (.failed e) ∈ events →
    id = l.id ∧ ∃ io ∈ l.faults, classifyAccept io = .fatal ∧ e = .io io

section
variable {s s' : Server} {l : Loop} {loops : List Loop} {now : Nat} {id : CallId}
  {events : List Event}

/-- The loop goes on with what it has. -/
theorem meets_goes (l' : Loop)
    (hloops : s'.loops = loops.map fun m => if m.id = l'.id then l' else m)
    (hsame : l'.id = l.id ∧ l'.address = l.address) (hfaults : ∀ e ∈ l'.faults, e ∈ l.faults)
    (hevents : ∀ id o, .returned id o ∉ events) : Meets l loops s' events where
  loops m hm := by
    rw [hloops] at hm
    rcases Keyed.mem_set (k := Loop.id) hm with rfl | hm
    · exact .inr ⟨hsame.1, hsame.2, hfaults⟩
    · exact .inl hm
  returns id _ hmem := absurd hmem (hevents id _)

/-- The loop is over, and says what it returns. -/
theorem meets_returns (dropped : List StreamId) {r : Except Error Unit}
    (hloops : s'.loops = loops.filter (·.id != l.id))
    (hevents : events = dropped.map .dropped ++ [.returned l.id (.ofResult r)])
    (hr : ∀ e, r = .error e → ∃ io ∈ l.faults, classifyAccept io = .fatal ∧ e = .io io) :
    Meets l loops s' events where
  loops m hm := .inl (List.mem_filter.mp (hloops ▸ hm)).1
  returns id e hmem := by
    have hlast : Event.returned id (.failed e) = .returned l.id (.ofResult r) := by
      simpa [hevents] using hmem
    obtain ⟨rfl, ho⟩ := Event.returned.inj hlast
    refine ⟨rfl, hr e ?_⟩
    cases r with
    | ok => cases ho
    | error => cases ho; rfl

theorem meets_accept (h : s.accept now l = some (s', events)) : Meets l s.loops s' events := by
  unfold accept at h
  split at h
  · rename_i e faults hfaults
    have hfewer : ∀ io ∈ faults, io ∈ l.faults := fun io hio => by
      rw [hfaults]
      exact List.mem_cons_of_mem e hio
    split at h
    · cases h
      exact meets_returns l.backlog rfl rfl fun _ hok => by cases hok
    · cases h
      exact meets_goes _ rfl ⟨rfl, rfl⟩ hfewer fun _ _ => List.not_mem_nil
    · rename_i hfatal
      cases h
      refine meets_returns l.backlog rfl rfl fun e' he => ?_
      cases he
      exact ⟨e, by rw [hfaults]; exact List.mem_cons_self, hfatal, rfl⟩
  · cases h
    exact meets_goes _ rfl ⟨rfl, rfl⟩ (fun _ he => he) fun _ _ => List.not_mem_nil
  · cases h

theorem meets_stepLoop (h : s.stepLoop now id = some (s', events)) :
    ∃ l ∈ s.loops, l.id = id ∧ Meets l s.loops s' events := by
  unfold stepLoop at h
  cases hl : s.loops.find? (·.id == id) with
  | none => simp only [hl] at h; cases h
  | some l =>
    obtain ⟨hmem, hid⟩ := Keyed.mem_of_find? hl
    refine ⟨l, hmem, hid, ?_⟩
    have hok : ∀ e, (.ok () : Except Error Unit) = .error e →
        ∃ io ∈ l.faults, classifyAccept io = .fatal ∧ e = .io io := fun e he => by cases he
    have hquiet : ∀ id o, (.returned id o : Event) ∉ [] := fun _ _ => List.not_mem_nil
    have htaken : ∀ id o, (.returned id o : Event) ∉ [.accepted, .opened] := fun _ _ => by simp
    simp only [hl] at h
    cases hstage : l.stage with
    | accepting =>
      simp only [hstage] at h
      split at h
      · cases h
        exact meets_returns l.backlog rfl rfl hok
      · exact meets_accept h
    | pausing due =>
      simp only [hstage] at h
      split at h
      · cases h
        exact meets_returns l.backlog rfl rfl hok
      · split at h
        · cases h
          exact meets_goes _ rfl ⟨rfl, rfl⟩ (fun _ he => he) hquiet
        · cases h
    | taken stream =>
      simp only [hstage] at h
      cases h
      exact meets_goes _ rfl ⟨rfl, rfl⟩ (fun _ he => he) hquiet
    | tracked stream guard =>
      simp only [hstage] at h
      split at h
      · cases h
        exact meets_returns (stream :: l.backlog) rfl rfl hok
      · cases h
        exact meets_goes _ rfl ⟨rfl, rfl⟩ (fun _ he => he) hquiet
    | cleared stream guard =>
      simp only [hstage] at h
      cases hacquire : s.admission.acquire id now with
      | mk free admission =>
        cases free with
        | true =>
          simp only [hacquire] at h
          cases h
          exact meets_goes _ rfl ⟨rfl, rfl⟩ (fun _ he => he) htaken
        | false =>
          simp only [hacquire] at h
          cases h
          exact meets_goes _ rfl ⟨rfl, rfl⟩ (fun _ he => he) hquiet
    | queued stream guard =>
      simp only [hstage] at h
      split at h
      · cases h
      · cases h
        exact meets_goes _ rfl ⟨rfl, rfl⟩ (fun _ he => he) htaken
      · cases h
        exact meets_returns (stream :: l.backlog) rfl rfl hok
      · cases h
        exact meets_goes _ rfl ⟨rfl, rfl⟩ (fun _ he => he) fun _ _ => by simp [forget]

end

namespace Site
variable {reply : Bytes → Option Bytes} {P : Site → Prop} {s s' : Site} {a : Act}
  {done as : List Act}

/-- Loops have only met the errors that their listeners met, and returned none but those. -/
structure Blames (done : List Act) (s : Site) : Prop where
  loops : ∀ l ∈ s.world.server.loops,
    .serve l.id l.address ∈ done ∧ ∀ e ∈ l.faults, .fault l.address e ∈ done
  returns : ∀ t id call e, (t, .loop id (.returned call (.failed e))) ∈ s.trace →
    Faulted done call e

theorem Blames.mono {more : List Act} (h : s.Blames done) (hsub : ∀ a ∈ done, a ∈ more) :
    s.Blames more where
  loops l hl := ⟨hsub _ (h.loops l hl).1, fun e he => hsub _ ((h.loops l hl).2 e he)⟩
  returns t id call e hmem := by
    obtain ⟨address, io, hserve, hfault, hrest⟩ := h.returns t id call e hmem
    exact ⟨address, io, hsub _ hserve, hsub _ hfault, hrest⟩

/-- What is not done to the loops. -/
theorem Blames.aside (h : s.Blames done) (hloops : s'.world.server.loops = s.world.server.loops)
    (htrace : ∀ t id ev, (t, .loop id ev) ∈ s'.trace → (t, .loop id ev) ∈ s.trace) :
    s'.Blames done where
  loops l hl := h.loops l (hloops ▸ hl)
  returns t id call e hmem := h.returns t id call e (htrace t id _ hmem)

theorem Blames.looped (h : s.Blames done) (id : CallId) {server : Server} {events : List Event}
    {l : Loop} (hl : l ∈ s.world.server.loops)
    (hmeets : Meets l s.world.server.loops server events) :
    (s.looped id server events).Blames done where
  loops m hm := by
    rcases hmeets.loops m hm with hm | ⟨hid, haddress, hfaults⟩
    · exact h.loops m hm
    · rw [hid, haddress]
      exact ⟨(h.loops l hl).1, fun e he => (h.loops l hl).2 e (hfaults e he)⟩
  returns t by' call e hmem := by
    rcases List.mem_append.mp hmem with hmem | hmem
    · exact h.returns t by' call e hmem
    · obtain ⟨ev, hev, heq⟩ := List.mem_map.mp hmem
      cases heq
      obtain ⟨rfl, io, hio, hfatal, rfl⟩ := hmeets.returns call e hev
      exact ⟨l.address, io, (h.loops l hl).1, (h.loops l hl).2 io hio, hfatal, rfl⟩

theorem Blames.stepped (h : s.Blames done) (stream : StreamId) (d : Duplex) (events : List Event)
    {server : Server} (hloops : server.loops = s.world.server.loops) :
    (s.stepped stream server d events).Blames done := by
  refine h.aside hloops fun t id ev hmem => ?_
  simpa [Site.stepped] using hmem

theorem Blames.perform (h : s.Blames done) (hact : s.perform reply a = some s') :
    s'.Blames (done ++ [a]) := by
  have hgrown := h.mono fun b hb => List.mem_append_left [a] hb
  cases performed_of_perform hact with
  | serve =>
    refine ⟨fun l hl => ?_, hgrown.returns⟩
    rcases List.mem_append.mp hl with hl | hl
    · exact hgrown.loops l hl
    · rw [List.mem_singleton.mp hl]
      exact ⟨List.mem_append_right _ List.mem_cons_self, fun e he => by cases he⟩
  | offer =>
    refine ⟨fun l hl => ?_, hgrown.returns⟩
    obtain ⟨m, hm, rfl⟩ := List.mem_map.mp hl
    split <;> exact hgrown.loops m hm
  | fault =>
    refine ⟨fun l hl => ?_, hgrown.returns⟩
    obtain ⟨m, hm, rfl⟩ := List.mem_map.mp hl
    obtain ⟨hserve, hfaults⟩ := hgrown.loops m hm
    split
    · rename_i haddress
      refine ⟨hserve, fun io hio => ?_⟩
      rcases List.mem_append.mp hio with hio | hio
      · exact hfaults io hio
      · rw [List.mem_singleton.mp hio]
        subst haddress
        exact List.mem_append_right _ List.mem_cons_self
    · exact ⟨hserve, hfaults⟩
  | @loop id _ _ hstep =>
    obtain ⟨l, hl, -, hmeets⟩ := meets_stepLoop hstep
    exact hgrown.looped id hl hmeets
  | dropLoop hid =>
    obtain ⟨l, hl, rfl, hdropped, hevents⟩ := loopDropped_of_mem hid
    have hmeets : Meets l s.world.server.loops (s.world.server.dropLoop l.id).1
        (s.world.server.dropLoop l.id).2 :=
      ⟨fun m hm => .inl (List.mem_filter.mp (hdropped.loops_eq ▸ hm)).1,
        fun call e hmem => by rw [hevents] at hmem; simp at hmem⟩
    have hlooped := hgrown.looped l.id hl hmeets
    exact ⟨hlooped.loops, hlooped.returns⟩
  | @handshake stream _ _ d events _ hstep =>
    obtain ⟨c, -, -, hstepped⟩ := connectionStepped_of_stepHandshake hstep
    exact hgrown.stepped stream d events hstepped.loops_eq
  | @engine stream _ _ _ _ d events _ hstep =>
    obtain ⟨c, -, -, hstepped⟩ := connectionStepped_of_stepEngine hstep
    have hseen := hgrown.stepped stream d events hstepped.loops_eq
    exact ⟨hseen.loops, hseen.returns⟩
  | @idle _ server _ hstep =>
    obtain ⟨-, -, hserver, -⟩ := stepIdle_eq_some hstep
    have hloops : server.loops = s.world.server.loops := by rw [hserver]
    exact hgrown.aside hloops fun _ _ _ hmem => hmem
  | begin
  | pass
  | far
  | shutdown
  | dropIdle => exact hgrown.aside rfl fun _ _ _ hmem => hmem

theorem Run.blames (hrun : Run reply P s as s') (h : s.Blames done) : s'.Blames (done ++ as) := by
  induction hrun generalizing done with
  | nil => rwa [List.append_nil]
  | cons _ hact _ ih =>
    have hlater := ih (h.perform hact)
    rwa [List.append_assoc] at hlater

/-- **An error that an accept loop returned is one that its own listener met.** -/
theorem Run.faulted {config : Config.Server} {connection : Config.Connection}
    {views : StreamId → Duplex} {capacity t : Nat} {id : CallId} {e : Error}
    (hrun : Run reply P (start config connection views capacity) as s)
    (h : (t, id, .failed e) ∈ s.returns) : Faulted as id e := by
  have hstart : (start config connection views capacity).Blames [] :=
    ⟨fun _ hl => absurd hl List.not_mem_nil, fun _ _ _ _ hmem => absurd hmem List.not_mem_nil⟩
  obtain ⟨⟨t', n⟩, hn, hpick⟩ := List.mem_filterMap.mp h
  obtain ⟨picked, hnote, heq⟩ := Option.map_eq_some_iff.mp hpick
  obtain ⟨rfl, rfl⟩ := Prod.mk.inj heq
  dsimp only at hnote
  split at hnote
  · cases hnote
    exact (hrun.blames hstart).returns _ _ _ _ hn
  · cases hnote

end Site
end Parley.Server
