import Parley.Proofs.Client.Books

/-! What a call comes to that waits for a connection's end.

A connection stays where it is whatever happens at its client: its end is not undone, and the
call that waits for it waits on, returns how it ended, or is dropped (`Follows`). So a call that
joins or closes a connection returns how that connection ended, and nothing else
(`returns_end`). -/
namespace Parley.Client

variable {w w' : World} {c c' : Client} {k k' m : Connection} {d : Dial} {now : Nat}
  {id call : CallId} {events : List Event}

/-- What may become of a connection, given what calls have come to. -/
structure Follows (log : Record) (k k' : Connection) : Prop where
  id : k'.id = k.id
  result : ∀ r, k.result = some r → k'.result = some r
  call : ∀ call, k.awaiting = some call → k'.awaiting = some call ∨
    (∃ r, k'.result = some r ∧ (call, .ofResult r) ∈ log.returned) ∨ call ∈ log.dropped

theorem Follows.of_eq {log : Record} (hid : k'.id = k.id) (hresult : k'.result = k.result)
    (hawaiting : k'.awaiting = k.awaiting) : Follows log k k' :=
  ⟨hid, fun _ h => hresult.trans h, fun _ h => .inl (hawaiting.trans h)⟩

theorem Follows.trans {log : Record} {k'' : Connection} (h : Follows log k k')
    (h' : Follows log k' k'') : Follows log k k'' where
  id := h'.id.trans h.id
  result r hr := h'.result r (h.result r hr)
  call call hcall := by
    rcases h.call call hcall with hwaits | ⟨r, hr, hret⟩ | hdrop
    · exact h'.call call hwaits
    · exact .inr (.inl ⟨r, h'.result r hr, hret⟩)
    · exact .inr (.inr hdrop)

theorem mem_setConnection (hm : m ∈ c.connections) (hid : k.id = m.id) :
    k ∈ (c.setConnection k).connections :=
  List.mem_map.mpr ⟨m, hm, if_pos hid.symm⟩

/-- Where a connection is put back changed, each one is still there. -/
theorem exists_setConnection {log : Record} (hk : w.ledger.Kept) (hm : m ∈ w.client.connections)
    (hfollows : Follows log m k') (h : k ∈ w.client.connections) :
    ∃ k'' ∈ (w.client.setConnection k').connections, Follows log k k'' := by
  by_cases hid : k.id = m.id
  · obtain rfl : k = m := Keyed.eq_of_mem hk.named h hm hid
    exact ⟨k', mem_setConnection h hfollows.id, hfollows⟩
  · have hne : k.id ≠ k'.id := by rwa [hfollows.id]
    exact ⟨k, Keyed.mem_set_of_ne (k := Connection.id) h hne, .of_eq rfl rfl rfl⟩

theorem connections_dialStepped (h : DialStepped w.client now d c events)
    (hk : k ∈ w.client.connections) : k ∈ c.connections := by
  cases h with
  | opens => exact List.mem_append_left _ hk
  | _ => exact hk

theorem connections_dialDropped (h : DialDropped c d c') : c'.connections = c.connections := by
  cases h <;> rfl

theorem exists_taskStepped (hkept : w.ledger.Kept) (hm : m ∈ w.client.connections)
    (hstep : TaskStepped w.client m c events) {log : Record} (h : k ∈ w.client.connections) :
    ∃ k' ∈ c.connections, Follows log k k' := by
  cases hstep with
  | @goes engine events =>
    exact exists_setConnection hkept hm (.of_eq rfl rfl rfl) h
  | @ends engine r events hdriven =>
    -- It has not ended before.
    have hlive : m.result = none := Option.isNone_iff_eq_none.mp
      ((hkept.sound m hm).driven.mpr hdriven)
    refine exists_setConnection hkept hm ⟨rfl, fun r' hr' => ?_, fun _ h => .inl h⟩ h
    rw [hlive] at hr'
    cases hr'

theorem exists_cancel {log : Record} (hkept : w.ledger.Kept) (id : CallId)
    (h : k ∈ w.client.connections) : ∃ k' ∈ (w.client.cancel id).connections, Follows log k k' := by
  rcases cancel_eq w.client id with hsame | ⟨m, hm, -, hset⟩
  · rw [hsame]
    exact ⟨k, h, .of_eq rfl rfl rfl⟩
  · rw [hset]
    exact exists_setConnection hkept hm (.of_eq rfl rfl rfl) h

/-- Whoever joins a connection is its holder, and nobody waited for its end before. -/
theorem follows_join {log : Record} (hsound : k.Sound) (hheld : k.held = true) (call : CallId) :
    Follows log k { k with held := false, awaiting := some call } :=
  ⟨rfl, fun _ h => h, fun _ h => nomatch (hsound.held hheld).symm.trans h⟩

/-- **No connection is lost sight of.** -/
theorem exists_follows (hkept : w.ledger.Kept) (hmove : w.Move w') (h : k ∈ w.client.connections) :
    ∃ k' ∈ w'.client.connections, Follows w'.log k k' := by
  cases hmove with
  | connect
  | shutdown
  | dropIdle
  | drop => exact ⟨k, h, .of_eq rfl rfl rfl⟩
  | dial hstep =>
    obtain ⟨d, -, -, hstep⟩ := dialStepped_of_stepDial hstep
    exact ⟨k, connections_dialStepped hstep h, .of_eq rfl rfl rfl⟩
  | @refused call e hdialing =>
    obtain ⟨d, -, -, hstep⟩ := dialStepped_refused hdialing 0 e
    exact ⟨k, connections_dialStepped hstep h, .of_eq rfl rfl rfl⟩
  | @dialed call stream secret hdialing =>
    obtain ⟨d, -, -, hstep⟩ := dialStepped_dialed hdialing 0 stream secret
    exact ⟨k, connections_dialStepped hstep h, .of_eq rfl rfl rfl⟩
  | handshake hstep =>
    obtain ⟨d, -, -, hstep⟩ := dialStepped_of_stepHandshake hstep
    exact ⟨k, connections_dialStepped hstep h, .of_eq rfl rfl rfl⟩
  | @dropDial call hid =>
    obtain ⟨d, -, -, hdropped, -⟩ := dialDropped_of_mem hid
    refine ⟨k, ?_, .of_eq rfl rfl rfl⟩
    show k ∈ (w.client.dropDial call).1.connections
    rwa [connections_dialDropped hdropped]
  | @call id e e' he =>
    refine ⟨if k.id = id then { k with engine := e' } else k, List.mem_map_of_mem h, ?_⟩
    split <;> exact .of_eq rfl rfl rfl
  | dropCall => exact ⟨_, List.mem_map_of_mem h, .of_eq rfl rfl rfl⟩
  | engine hstep =>
    obtain ⟨m, hm, -, hstep⟩ := taskStepped_of_stepEngine hstep
    exact exists_taskStepped hkept hm hstep h
  | relay hstep =>
    obtain ⟨m, hm, -, -, -, -, rfl, rfl⟩ := stepRelay_eq_some hstep
    exact exists_setConnection hkept hm (.of_eq rfl rfl rfl) h
  | ending hstep =>
    obtain ⟨m, hm, -, call, r, hcall, hresult, rfl, rfl⟩ := stepEnd_eq_some hstep
    refine exists_setConnection hkept hm ⟨rfl, fun _ h => h, fun call' hcall' => ?_⟩ h
    obtain rfl := Option.some.inj (hcall.symm.trans hcall')
    exact .inr (.inl ⟨r, hresult, List.mem_append_right _ (List.mem_singleton_self _)⟩)
  | join _ hjoin =>
    obtain ⟨m, hm, -, hheld, rfl⟩ := join_eq_true hjoin
    exact exists_setConnection hkept hm (follows_join (hkept.sound m hm) hheld _) h
  | close hnew hclose =>
    obtain ⟨c₁, hjoin, rfl⟩ := close_eq_true hclose
    have hkept₁ := kept_join hkept hnew hjoin
    obtain ⟨m, hm, -, hheld, rfl⟩ := join_eq_true hjoin
    obtain ⟨k₁, hk₁, hfollows₁⟩ := exists_setConnection hkept hm
      (follows_join (hkept.sound m hm) hheld _) h
    obtain ⟨k₂, hk₂, hfollows₂⟩ := exists_cancel hkept₁ _ hk₁
    exact ⟨k₂, hk₂, hfollows₁.trans hfollows₂⟩
  | letGo =>
    rcases letGo_eq w.client _ with hsame | ⟨m, hm, -, hheld, hset⟩
    · rw [hsame]
      exact ⟨k, h, .of_eq rfl rfl rfl⟩
    · rw [hset]
      exact exists_setConnection hkept hm (.of_eq rfl rfl rfl) h
  | @dropEnd call =>
    refine ⟨_, List.mem_map_of_mem h, ?_⟩
    split
    · rename_i hcall
      refine ⟨rfl, fun _ h => h, fun call' hcall' => .inr (.inr ?_)⟩
      obtain rfl := Option.some.inj (hcall.symm.trans hcall')
      exact List.mem_append_right _ (List.mem_singleton_self _)
    · exact .of_eq rfl rfl rfl
  | idle hstep =>
    obtain ⟨-, -, rfl, -⟩ := stepIdle_eq_some hstep
    exact ⟨k, h, .of_eq rfl rfl rfl⟩

/-! ### Calls that wait for an end -/

/-- A call waits for a connection's end, has returned how it ended, or was dropped. -/
inductive Tracks (id call : CallId) (w : World) : Prop where
  | waits {k : Connection} (hk : k ∈ w.client.connections) (hid : k.id = id)
      (hcall : k.awaiting = some call)
  | returned {k : Connection} {r : Except Error Unit} (hk : k ∈ w.client.connections)
      (hid : k.id = id)
      (hresult : k.result = some r) (hret : (call, .ofResult r) ∈ w.log.returned)
  | dropped (hdrop : call ∈ w.log.dropped)

theorem tracks_close (hclose : c.close id call = (true, c')) (log : Record) :
    Tracks id call { client := c', log } := by
  obtain ⟨c₁, hjoin, rfl⟩ := close_eq_true hclose
  obtain ⟨m, hm, rfl, -, rfl⟩ := join_eq_true hjoin
  let joined : Connection := { m with held := false, awaiting := some call }
  have hin : joined ∈ (c.setConnection joined).connections := mem_setConnection hm rfl
  rcases cancel_eq (c.setConnection joined) m.id with hsame | ⟨k, hk, hid, hset⟩
  · rw [hsame]
    exact .waits hin rfl rfl
  · -- All connections of that name were put in its place.
    obtain rfl : k = joined := by
      obtain ⟨k', -, rfl⟩ := List.mem_map.mp hk
      split at hid
      · rename_i heq
        exact if_pos heq
      · rename_i hne
        exact absurd hid hne
    rw [hset]
    exact .waits (mem_setConnection hin rfl) rfl rfl

theorem tracks_move (hkept : w.ledger.Kept) (h : Tracks id call w) (hmove : w.Move w') :
    Tracks id call w' := by
  have hlasts := World.lasts_move hmove
  cases h with
  | waits hk hid hcall =>
    obtain ⟨k', hk', hfollows⟩ := exists_follows hkept hmove hk
    rcases hfollows.call call hcall with hwaits | ⟨r, hr, hret⟩ | hdrop
    · exact .waits hk' (hfollows.id.trans hid) hwaits
    · exact .returned hk' (hfollows.id.trans hid) hr hret
    · exact .dropped hdrop
  | returned hk hid hresult hret =>
    obtain ⟨k', hk', hfollows⟩ := exists_follows hkept hmove hk
    exact .returned hk' (hfollows.id.trans hid) (hfollows.result _ hresult)
      (hlasts.returned.subset hret)
  | dropped hdrop => exact .dropped (hlasts.dropped.subset hdrop)

theorem tracks_leads (hw : w.Reachable) (h : Tracks id call w) (hlater : World.Leads w w') :
    Tracks id call w' := by
  induction hlater with
  | refl => exact h
  | tail hleads hmove ih => exact tracks_move (kept_of_reachable (hw.leads hleads)) ih hmove

/-- **A call that waits for a connection's end returns how it ended.** -/
theorem returns_end (hw : w.Reachable) (h : Tracks id call w) {o : Engine.Outcome}
    (hret : (call, o) ∈ w.log.returned) :
    ∃ k ∈ w.client.connections, k.id = id ∧ ∃ r, k.result = some r ∧ o = .ofResult r := by
  have hkept := kept_of_reachable hw
  have hfinished : w.log.finished.Nodup := hkept.finished_nodup
  cases h with
  | waits hk hid hcall =>
    have hplaces := hkept.places.nodup_iff.mp hkept.calls
    have hrest := (List.nodup_append.mp hplaces).2.1
    exact absurd rfl ((List.nodup_append.mp hrest).2.2 _ (List.mem_filterMap.mpr ⟨_, hk, hcall⟩) _
      (List.mem_append_right _ (w.log.mem_finished hret)))
  | @returned k r hk hid hresult hret' =>
    exact ⟨k, hk, hid, r, hresult, w.log.eq_of_returned hfinished hret hret'⟩
  | dropped hdrop => exact absurd hdrop (w.log.not_dropped_of_returned hfinished hret)

end Parley.Client
