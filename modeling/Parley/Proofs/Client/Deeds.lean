import Mathlib.Data.List.Count
import Parley.Proofs.Client.Ending
import Parley.Proofs.Metrics

/-! What becomes of the connect calls of a client.

A connect call is underway until it has made a connection, has failed, or is dropped. If it fails
it has a slot, and then it was dialing or in its handshake, or it has none, and was turned away at
admission. `Deeds` lists the calls by what became of them, as the states before and after a step
show it, so that it can be held against what is reported of the step: that counts the calls that
failed with a slot, and the connections that begin and end (`adds_reports`). -/
namespace Parley.Client
open Channel

/-! ### Deeds -/

/-- What connect calls have come to. -/
structure Deeds where
  /-- They were made. -/
  called : List CallId := []
  /-- They have made connections. -/
  connected : List CallId := []
  /-- They have failed at dialing or in the handshake, with an error or at their deadline. -/
  failed : List (CallId × Error) := []
  /-- They have failed before they had a slot. -/
  turnedAway : List (CallId × Error) := []
  /-- They were dropped. -/
  abandoned : List CallId := []

instance : Append Deeds where
  append d δ := {
    called := d.called ++ δ.called
    connected := d.connected ++ δ.connected
    failed := d.failed ++ δ.failed
    turnedAway := d.turnedAway ++ δ.turnedAway
    abandoned := d.abandoned ++ δ.abandoned }

/-- Whether a call is a connect call that is underway, at some stage. -/
def hasDial (c : Client) (p : Stage → Bool) (id : CallId) : Bool :=
  c.dials.any fun d => d.id == id && p d.stage

/-- The error that a call has returned. -/
def failure? : CallId × Engine.Outcome → Option (CallId × Error)
  | (id, .failed e) => some (id, e)
  | _ => none

/-- The calls that have returned errors between two worlds. -/
def World.failures (w w' : World) : List (CallId × Error) :=
  (w'.log.returned.drop w.log.returned.length).filterMap failure?

/-- What connect calls have come to between two worlds. -/
def World.deeds (w w' : World) : Deeds where
  called := (w'.client.dials.drop w.client.dials.length).map (·.id)
  connected := (w'.client.connections.drop w.client.connections.length).map (·.id)
  failed := (w.failures w').filter fun x => w.client.hasDial (·.hasSlot) x.1
  turnedAway := (w.failures w').filter fun x => w.client.hasDial (!·.hasSlot) x.1
  abandoned := (w'.log.dropped.drop w.log.dropped.length).filter (w.client.hasDial fun _ => true)

/-- One thing that happens at a client, with what is reported of it. -/
inductive World.Reports (w : World) : World → List Event → Prop where
  | connect {id address} (hnew : id ∉ w.log.calls) :
      Reports w ((w.become (w.client.connect id address)).making id) []
  | dial {now id c events} (h : w.client.stepDial now id = some (c, events)) :
      Reports w (w.after c events) events
  | refused {id e} (h : (w.client.dialing id).isSome = true) :
      Reports w (w.after (w.client.refused id e).1 (w.client.refused id e).2)
        (w.client.refused id e).2
  | dialed {id stream secret} (h : (w.client.dialing id).isSome = true) :
      Reports w (w.become (w.client.dialed id stream secret)) []
  | handshake {now id s c s' events}
      (h : w.client.stepHandshake now id s = some (c, s', events)) :
      Reports w (w.after c events) events
  | dropDial {id} (h : id ∈ w.client.dials.map (·.id)) :
      Reports w ((w.after (w.client.dropDial id).1 (w.client.dropDial id).2).dropping id)
        (w.client.dropDial id).2
  | call {id e e'} (he : w.client.engine? id = some e) (h : Taken e e') :
      Reports w (w.become (w.client.setEngine id e')) []
  | dropCall {call} : Reports w (w.become (w.client.dropCall call)) []
  | engine {env id t s c s' events}
      (h : w.client.stepEngine env id t s = some (c, s', events)) :
      Reports w (w.after c events) events
  | relay {id c events} (h : w.client.stepRelay id = some (c, events)) :
      Reports w (w.after c events) events
  | ending {id c events} (h : w.client.stepEnd id = some (c, events)) :
      Reports w (w.after c events) events
  | join {id call c} (hnew : call ∉ w.log.calls) (h : w.client.join id call = (true, c)) :
      Reports w ((w.become c).making call) []
  | close {id call c} (hnew : call ∉ w.log.calls) (h : w.client.close id call = (true, c)) :
      Reports w ((w.become c).making call) []
  | letGo {id} : Reports w (w.become (w.client.letGo id)) []
  | dropEnd {call} (h : call ∈ w.client.connections.filterMap (·.awaiting)) :
      Reports w ((w.become (w.client.dropEnd call)).dropping call) []
  | shutdown {id} (hnew : id ∉ w.log.calls) :
      Reports w ((w.become (w.client.beginShutdown id)).making id) []
  | idle {id c events} (h : w.client.stepIdle id = some (c, events)) :
      Reports w ((w.after c events).resting id) events
  | dropIdle {id} (h : id ∈ w.client.idling) :
      Reports w ((w.become (w.client.dropIdle id)).dropping id) []
  | drop : Reports w (w.become w.client.drop) []

variable {w w' : World} {c : Client} {d : Dial} {now : Nat} {id : CallId} {events : List Event}

/-- Every move has a report, and a report is that of a move. -/
theorem move_iff_exists_reports : w.Move w' ↔ ∃ events, w.Reports w' events := by
  constructor
  · intro h
    cases h with
    | connect hnew => exact ⟨_, .connect hnew⟩
    | dial h => exact ⟨_, .dial h⟩
    | refused h => exact ⟨_, .refused h⟩
    | dialed h => exact ⟨_, .dialed h⟩
    | handshake h => exact ⟨_, .handshake h⟩
    | dropDial h => exact ⟨_, .dropDial h⟩
    | call he h => exact ⟨_, .call he h⟩
    | dropCall => exact ⟨_, .dropCall⟩
    | engine h => exact ⟨_, .engine h⟩
    | relay h => exact ⟨_, .relay h⟩
    | ending h => exact ⟨_, .ending h⟩
    | join hnew h => exact ⟨_, .join hnew h⟩
    | close hnew h => exact ⟨_, .close hnew h⟩
    | letGo => exact ⟨_, .letGo⟩
    | dropEnd h => exact ⟨_, .dropEnd h⟩
    | shutdown hnew => exact ⟨_, .shutdown hnew⟩
    | idle h => exact ⟨_, .idle h⟩
    | dropIdle h => exact ⟨_, .dropIdle h⟩
    | drop => exact ⟨_, .drop⟩
  · rintro ⟨events, h⟩
    cases h with
    | connect hnew => exact .connect hnew
    | dial h => exact .dial h
    | refused h => exact .refused h
    | dialed h => exact .dialed h
    | handshake h => exact .handshake h
    | dropDial h => exact .dropDial h
    | call he h => exact .call he h
    | dropCall => exact .dropCall
    | engine h => exact .engine h
    | relay h => exact .relay h
    | ending h => exact .ending h
    | join hnew h => exact .join hnew h
    | close hnew h => exact .close hnew h
    | letGo => exact .letGo
    | dropEnd h => exact .dropEnd h
    | shutdown hnew => exact .shutdown hnew
    | idle h => exact .idle h
    | dropIdle h => exact .dropIdle h
    | drop => exact .drop

/-! ### What is reported of a step -/

/-- What is reported of a step counts what has been done in it. -/
structure Adds (w w' : World) (events : List Event) : Prop where
  counted : Counted events (live w.client.connections) (live w'.client.connections) 0 0
    (w.deeds w').failed.length
  calls : ((w.deeds w').called ++ w.client.dials.map (·.id)).Perm
    ((w.deeds w').connected ++ (w.deeds w').failed.map (·.1) ++ (w.deeds w').turnedAway.map (·.1) ++
      (w.deeds w').abandoned ++ w'.client.dials.map (·.id))

theorem hasDial_eq_false {p : Stage → Bool} (h : id ∉ w.client.dials.map (·.id)) :
    w.client.hasDial p id = false := by
  refine List.any_eq_false.mpr fun d hd hand => h (List.mem_map.mpr ⟨d, hd, ?_⟩)
  simpa using (Bool.and_eq_true_iff.mp hand).1

theorem hasDial_of_mem (hk : w.ledger.Kept) (hd : d ∈ w.client.dials) (p : Stage → Bool) :
    w.client.hasDial p d.id = p d.stage := by
  cases hp : p d.stage with
  | true => exact List.any_eq_true.mpr ⟨d, hd, by simp [hp]⟩
  | false =>
    refine List.any_eq_false.mpr fun x hx hand => ?_
    obtain ⟨hid, hstage⟩ := Bool.and_eq_true_iff.mp hand
    obtain rfl : x = d := Keyed.eq_of_mem hk.dials_nodup hx hd (by simpa using hid)
    rw [hp] at hstage
    cases hstage

theorem failures_eq (returned : List (CallId × Engine.Outcome))
    (h : w'.log.returned = w.log.returned ++ returned) :
    w.failures w' = returned.filterMap failure? := by
  rw [World.failures, h, List.drop_left]

/-- Where nothing is tracked or tracked no more and the connect calls are as they were, the
connections that have not ended are as many as before. -/
theorem live_eq (hk : w.ledger.Kept) (hk' : w'.ledger.Kept)
    (hdials : w'.client.dials = w.client.dials)
    (htracker : w'.client.tracker = w.client.tracker) :
    live w'.client.connections = live w.client.connections := by
  have hbefore : w.client.tracker.active = underway w.client.dials + live w.client.connections :=
    hk.tracked
  have hafter : w'.client.tracker.active = underway w'.client.dials + live w'.client.connections :=
    hk'.tracked
  rw [hdials, htracker] at hafter
  omega

/-- And where something is tracked no more it is one of them. -/
theorem live_released (hk : w.ledger.Kept) (hk' : w'.ledger.Kept)
    (hdials : w'.client.dials = w.client.dials)
    (htracker : w'.client.tracker = w.client.tracker.release)
    (hlive : 0 < live w.client.connections) :
    live w.client.connections = live w'.client.connections + 1 := by
  have hbefore : w.client.tracker.active = underway w.client.dials + live w.client.connections :=
    hk.tracked
  have hafter : w'.client.tracker.active = underway w'.client.dials + live w'.client.connections :=
    hk'.tracked
  rw [hdials, htracker, show w.client.tracker.release.active = w.client.tracker.active - 1 from rfl]
    at hafter
  omega

/-- What is not about connect calls does nothing with them. -/
theorem adds_beside (returned : List (CallId × Engine.Outcome)) (dropped : List CallId)
    (hdials : w'.client.dials = w.client.dials)
    (hconnections : w'.client.connections.length = w.client.connections.length)
    (hreturned : w'.log.returned = w.log.returned ++ returned)
    (hdropped : w'.log.dropped = w.log.dropped ++ dropped)
    (hbeside : ∀ id ∈ returned.map (·.1) ++ dropped, id ∉ w.client.dials.map (·.id))
    (hcounted : Counted events (live w.client.connections) (live w'.client.connections) 0 0 0) :
    Adds w w' events := by
  have hfailures (p : Stage → Bool) :
      (w.failures w').filter (fun x => w.client.hasDial p x.1) = [] := by
    rw [failures_eq _ hreturned]
    refine List.filter_eq_nil_iff.mpr fun x hx => ?_
    obtain ⟨⟨id, o⟩, hmem, ho⟩ := List.mem_filterMap.mp hx
    cases o with
    | done => cases ho
    | response => cases ho
    | failed e =>
      cases ho
      rw [hasDial_eq_false (hbeside id (List.mem_append_left _ (List.mem_map_of_mem hmem)))]
      decide
  have habandoned : dropped.filter (w.client.hasDial fun _ => true) = [] :=
    List.filter_eq_nil_iff.mpr fun id hid => by
      rw [hasDial_eq_false (hbeside id (List.mem_append_right _ hid))]
      decide
  have hdeeds : w.deeds w' = {} := by
    rw [World.deeds, hfailures, hfailures, hdropped, List.drop_left, habandoned, hdials,
      List.drop_length, ← hconnections, List.drop_length]
    rfl
  refine ⟨?_, ?_⟩ <;> rw [hdeeds]
  · exact hcounted
  · rw [hdials]
    exact .refl _

/-! Connect calls. -/

/-- A connect call that goes on counts nothing. -/
theorem adds_setDial (hdials : c.dials = w.client.dials)
    (hconnections : c.connections = w.client.connections) (x : Dial) :
    Adds w (w.become (c.setDial x)) [] := by
  have hids : (c.setDial x).dials.map (·.id) = w.client.dials.map (·.id) :=
    hdials ▸ Keyed.map_key_set (k := Dial.id) c.dials x
  have hlength : (c.setDial x).dials.length = w.client.dials.length :=
    hdials ▸ List.length_map _
  have hdeeds : w.deeds (w.become (c.setDial x)) = {} := by
    rw [World.deeds, World.failures, World.become, ← hlength, List.drop_length]
    simp [setDial, hconnections]
  refine ⟨?_, ?_⟩ <;> rw [hdeeds]
  · show Counted _ _ (live c.connections) _ _ _
    rw [hconnections]
    exact .nil _
  · exact .of_eq hids.symm

theorem length_rest_le (w : World) (d : Dial) : (rest w d).length ≤ w.client.dials.length :=
  List.length_filter_le ..

section
variable (hk : w.ledger.Kept) (hd : d ∈ w.client.dials)
include hk hd

theorem dials_perm_rest : (w.client.dials.map (·.id)).Perm (d.id :: (rest w d).map (·.id)) :=
  (Keyed.perm_cons hk.dials_nodup hd).map _

/-- A connect call that fails is counted if it has a slot, and else turned away. -/
theorem adds_dialFails (hdials : c.dials = rest w d)
    (hconnections : c.connections = w.client.connections) {e : Error}
    (hreturned : (events.foldl Record.note w.log).returned = w.log.returned ++ [(d.id, .failed e)])
    (hevents : ∀ n, Counted events n n 0 0 (if d.stage.hasSlot then 1 else 0)) :
    Adds w (w.after c events) events := by
  have hdropped : (w.after c events).log.dropped = w.log.dropped := (w.log.notes_kept events).2
  have hclient : (w.after c events).client = c := rfl
  have hshort : c.dials.length ≤ w.client.dials.length := hdials ▸ length_rest_le w d
  have hdeeds : w.deeds (w.after c events) =
      if d.stage.hasSlot then { failed := [(d.id, e)] } else { turnedAway := [(d.id, e)] } := by
    rw [World.deeds, failures_eq _ hreturned, hdropped, List.drop_length, hclient,
      List.drop_eq_nil_of_le hshort, hconnections, List.drop_length]
    cases hslot : d.stage.hasSlot <;> simp [failure?, hasDial_of_mem hk hd, hslot]
  have hcounted := hevents (live w.client.connections)
  cases hslot : d.stage.hasSlot <;> rw [hslot] at hdeeds hcounted <;> refine ⟨?_, ?_⟩ <;>
    rw [hdeeds, hclient]
  · rwa [hconnections]
  · simpa [hdials] using dials_perm_rest hk hd
  · rwa [hconnections]
  · simpa [hdials] using dials_perm_rest hk hd

/-- A connect call that makes a connection. -/
theorem adds_opens {k : Connection} (hid : k.id = d.id) (hlive : k.isLive = true)
    (hdials : c.dials = rest w d) (hconnections : c.connections = w.client.connections ++ [k]) :
    Adds w (w.after c [.opened, .returned d.id .done]) [.opened, .returned d.id .done] := by
  have hshort : c.dials.length ≤ w.client.dials.length := hdials ▸ length_rest_le w d
  have hfailures : w.failures (w.after c [.opened, .returned d.id .done]) = [] :=
    failures_eq [(d.id, .done)] rfl
  have hdeeds : w.deeds (w.after c [.opened, .returned d.id .done]) = { connected := [d.id] } := by
    rw [World.deeds, hfailures, ← hid]
    simp [World.after, Record.note, List.drop_eq_nil_of_le hshort, hconnections]
  refine ⟨?_, ?_⟩ <;> rw [hdeeds]
  · show Counted _ _ (live c.connections) _ _ _
    rw [hconnections, live, live, List.countP_append, List.countP_singleton, if_pos hlive]
    exact (counted_opened _).append (counted_quiet rfl _)
  · simpa [World.after, hdials] using dials_perm_rest hk hd

/-- A connect call that is dropped counts nothing. -/
theorem adds_dropDial (hdropped : DialDropped w.client d c) (streams : List StreamId) :
    Adds w ((w.after c (streams.map .dropped)).dropping d.id) (streams.map .dropped) := by
  have hdials : c.dials = rest w d := hdropped.dials_eq
  have hconnections : c.connections = w.client.connections := connections_dialDropped hdropped
  have hshort : c.dials.length ≤ w.client.dials.length := hdials ▸ length_rest_le w d
  have hlog : (streams.map Event.dropped).foldl Record.note w.log = w.log :=
    w.log.notes_dropped streams
  have hdeeds : w.deeds ((w.after c (streams.map .dropped)).dropping d.id) =
      { abandoned := [d.id] } := by
    simp [World.deeds, World.failures, World.after, World.dropping, Record.dropping, hlog,
      List.drop_eq_nil_of_le hshort, hconnections, hasDial_of_mem hk hd]
  refine ⟨?_, ?_⟩ <;> rw [hdeeds]
  · show Counted _ _ (live c.connections) _ _ _
    rw [hconnections]
    exact counted_dropped streams _
  · simpa [World.after, World.dropping, hdials] using dials_perm_rest hk hd

theorem adds_dialStepped (hstep : DialStepped w.client now d c events) :
    Adds w (w.after c events) events := by
  cases hstep with
  | tracks =>
    exact adds_setDial (c := { w.client with tracker := w.client.tracker.track.2 }) rfl rfl _
  | @queues admission
  | @admits admission
  | @takesUp admission => exact adds_setDial (c := { w.client with admission }) rfl rfl _
  | clears
  | goes => exact adds_setDial rfl rfl _
  | givesIn hfired hstage =>
    refine adds_dialFails hk hd rfl rfl rfl fun n => ?_
    rw [hstage]
    exact counted_quiet rfl n
  | stopsWaiting hstage =>
    refine adds_dialFails hk hd rfl rfl rfl fun n => ?_
    rw [hstage]
    exact counted_quiet rfl n
  | fails hslot =>
    refine adds_dialFails hk hd rfl rfl rfl fun n => ?_
    rw [hslot]
    exact (counted_handshakeFailed n).append (counted_quiet rfl n)
  | opens hslot => exact adds_opens hk hd rfl rfl rfl rfl

end

/-! Whatever else happens. -/

theorem adds_connect (w : World) (id : CallId) (address : String) :
    Adds w ((w.become (w.client.connect id address)).making id) [] := by
  have hdeeds : w.deeds ((w.become (w.client.connect id address)).making id) =
      { called := [id] } := by
    simp [World.deeds, World.failures, World.become, World.making, Record.making, connect]
  refine ⟨?_, ?_⟩ <;> rw [hdeeds]
  · exact .nil _
  · show (id :: _).Perm (([] : List CallId) ++ [] ++ [] ++ [] ++ List.map _ (w.client.dials ++ [_]))
    rw [List.map_append]
    exact (List.perm_append_singleton _ _).symm

/-- The calls that wait for a connection's end or for idleness are no connect calls. -/
theorem not_dial_of_waiting (hk : w.ledger.Kept)
    (h : id ∈ awaiting w.client.connections ∨ id ∈ w.client.idling) :
    id ∉ w.client.dials.map (·.id) := by
  intro hdial
  have hplaces := (List.nodup_append.mp (hk.places.nodup_iff.mp hk.calls)).2.2
  refine hplaces _ hdial _ ?_ rfl
  rcases h with hawaits | hidles
  · exact List.mem_append_left _ hawaits
  · exact List.mem_append_right _ (List.mem_append_left _ hidles)

/-- Nor does a call that waits for something else count for anything when it is over. -/
theorem adds_quiet (returned : List (CallId × Engine.Outcome)) (dropped : List CallId)
    (hk : w.ledger.Kept) (hk' : w'.ledger.Kept) (hdials : w'.client.dials = w.client.dials)
    (htracker : w'.client.tracker = w.client.tracker)
    (hconnections : w'.client.connections.length = w.client.connections.length)
    (hreturned : w'.log.returned = w.log.returned ++ returned)
    (hdropped : w'.log.dropped = w.log.dropped ++ dropped)
    (hwaiting : ∀ id ∈ returned.map (·.1) ++ dropped,
      id ∈ awaiting w.client.connections ∨ id ∈ w.client.idling)
    (hevents : ∀ ev ∈ events, ev.isQuiet = true) : Adds w w' events := by
  refine adds_beside returned dropped hdials hconnections hreturned hdropped
    (fun id hid => not_dial_of_waiting hk (hwaiting id hid)) ?_
  rw [live_eq hk hk' hdials htracker]
  exact counted_of_quiet hevents _

/-- Most of what happens is neither reported nor in the record of what calls came to. -/
theorem adds_silent (hk : w.ledger.Kept) (hk' : w'.ledger.Kept)
    (hdials : w'.client.dials = w.client.dials) (htracker : w'.client.tracker = w.client.tracker)
    (hconnections : w'.client.connections.length = w.client.connections.length)
    (hreturned : w'.log.returned = w.log.returned) (hdropped : w'.log.dropped = w.log.dropped) :
    Adds w w' [] :=
  adds_quiet [] [] hk hk' hdials htracker hconnections
    (by rw [hreturned, List.append_nil]) (by rw [hdropped, List.append_nil])
    (fun _ h => absurd h List.not_mem_nil) (fun _ h => absurd h List.not_mem_nil)

/-- A connection whose task is over is one fewer. -/
theorem adds_taskStepped {k : Connection} (hk : w.ledger.Kept)
    (hk' : (w.after c events).ledger.Kept) (hmem : k ∈ w.client.connections)
    (hstep : TaskStepped w.client k c events) : Adds w (w.after c events) events := by
  cases hstep with
  | @goes engine events hdrive =>
    have hlog : (w.after (w.client.setConnection { k with engine }) (events.map .engine)).log =
        w.log := w.log.notes_engine events
    exact adds_quiet [] [] hk hk' rfl rfl (List.length_map _)
      (by rw [hlog, List.append_nil]) (by rw [hlog, List.append_nil])
      (fun _ h => absurd h List.not_mem_nil) (List.forall_mem_map.mpr fun _ _ => rfl)
  | @ends engine r events hdriven hdrive =>
    -- It has not ended before.
    have hlive : 0 < live w.client.connections :=
      List.countP_pos_iff.mpr ⟨k, hmem, (hk.sound k hmem).driven.mpr hdriven⟩
    have hlog : (events.map Event.engine ++ [Event.closed]).foldl Record.note w.log = w.log := by
      rw [List.foldl_append, Record.notes_engine]
      rfl
    refine adds_beside [] [] rfl (List.length_map _)
      (by rw [World.after, hlog, List.append_nil]) (by rw [World.after, hlog, List.append_nil])
      (fun _ h => absurd h List.not_mem_nil) ?_
    rw [live_released hk hk' rfl rfl hlive]
    exact (counted_engine events _).append (counted_closed _)

theorem cancel_beside (c : Client) (id : CallId) :
    (c.cancel id).dials = c.dials ∧ (c.cancel id).tracker = c.tracker ∧
      (c.cancel id).connections.length = c.connections.length := by
  rcases cancel_eq c id with hsame | ⟨k, -, -, hset⟩
  · rw [hsame]
    exact ⟨rfl, rfl, rfl⟩
  · rw [hset]
    exact ⟨rfl, rfl, List.length_map _⟩

theorem letGo_beside (c : Client) (id : CallId) :
    (c.letGo id).dials = c.dials ∧ (c.letGo id).tracker = c.tracker ∧
      (c.letGo id).connections.length = c.connections.length := by
  rcases letGo_eq c id with hsame | ⟨k, -, -, -, hset⟩
  · rw [hsame]
    exact ⟨rfl, rfl, rfl⟩
  · rw [hset]
    exact ⟨rfl, rfl, List.length_map _⟩

/-- **Whatever happens is counted.** -/
theorem adds_reports (hk : w.ledger.Kept) (h : w.Reports w' events) : Adds w w' events := by
  have hk' : w'.ledger.Kept := kept_move hk (move_iff_exists_reports.mpr ⟨events, h⟩)
  cases h with
  | connect => exact adds_connect w _ _
  | dial hstep =>
    obtain ⟨d, hd, -, hstep⟩ := dialStepped_of_stepDial hstep
    exact adds_dialStepped hk hd hstep
  | @refused id e hdialing =>
    obtain ⟨d, hd, -, hstep⟩ := dialStepped_refused hdialing 0 e
    exact adds_dialStepped hk hd hstep
  | @dialed id stream secret hdialing =>
    obtain ⟨d, hd, -, hstep⟩ := dialStepped_dialed hdialing 0 stream secret
    exact adds_dialStepped hk hd hstep
  | handshake hstep =>
    obtain ⟨d, hd, -, hstep⟩ := dialStepped_of_stepHandshake hstep
    exact adds_dialStepped hk hd hstep
  | dropDial hid =>
    obtain ⟨d, hd, rfl, hdropped, hevents⟩ := dialDropped_of_mem hid
    rw [hevents]
    exact adds_dropDial hk hd hdropped _
  | engine hstep =>
    obtain ⟨k, hmem, -, hstep⟩ := taskStepped_of_stepEngine hstep
    exact adds_taskStepped hk hk' hmem hstep
  | call
  | dropCall => exact adds_silent hk hk' rfl rfl (List.length_map _) rfl rfl
  | relay hstep =>
    obtain ⟨k, -, -, -, -, -, rfl, rfl⟩ := stepRelay_eq_some hstep
    exact adds_silent hk hk' rfl rfl (List.length_map _) rfl rfl
  | ending hstep =>
    obtain ⟨k, hmem, -, call, r, hcall, -, rfl, rfl⟩ := stepEnd_eq_some hstep
    refine adds_quiet [(call, .ofResult r)] [] hk hk' rfl rfl
      (List.length_map _) rfl (List.append_nil _).symm ?_ (by simp [Event.isQuiet])
    intro id hid
    obtain rfl := List.mem_singleton.mp hid
    exact .inl (List.mem_filterMap.mpr ⟨k, hmem, hcall⟩)
  | join hnew hjoin =>
    obtain ⟨k, -, -, -, rfl⟩ := join_eq_true hjoin
    exact adds_silent hk hk' rfl rfl (List.length_map _) rfl rfl
  | @close id call c hnew hclose =>
    obtain ⟨c₁, hjoin, rfl⟩ := close_eq_true hclose
    obtain ⟨k, -, -, -, rfl⟩ := join_eq_true hjoin
    obtain ⟨hdials, htracker, hlength⟩ :=
      cancel_beside (w.client.setConnection { k with held := false, awaiting := some call }) id
    exact adds_silent hk hk' hdials htracker (hlength.trans (List.length_map _)) rfl rfl
  | @letGo id =>
    obtain ⟨hdials, htracker, hlength⟩ := letGo_beside w.client id
    exact adds_silent hk hk' hdials htracker hlength rfl rfl
  | @dropEnd call hcall =>
    refine adds_quiet [] [call] hk hk' rfl rfl
      (List.length_map _) (List.append_nil _).symm rfl ?_ (fun _ h => absurd h List.not_mem_nil)
    intro id hid
    obtain rfl := List.mem_singleton.mp hid
    exact .inl hcall
  | shutdown
  | drop => exact adds_silent hk hk' rfl rfl rfl rfl rfl
  | @idle id c events hstep =>
    obtain ⟨hmem, -, rfl, rfl⟩ := stepIdle_eq_some hstep
    refine adds_quiet [(id, .done)] [] hk hk' rfl rfl rfl rfl
      (List.append_nil _).symm ?_ (by simp [Event.isQuiet])
    intro i hi
    obtain rfl := List.mem_singleton.mp hi
    exact .inr hmem
  | @dropIdle id hmem =>
    refine adds_quiet [] [id] hk hk' rfl rfl rfl
      (List.append_nil _).symm rfl ?_ (fun _ h => absurd h List.not_mem_nil)
    intro i hi
    obtain rfl := List.mem_singleton.mp hi
    exact .inr hmem

/-! ### All that was done -/

/-- A world, and what the connect calls made there have come to. -/
structure Story where
  world : World
  deeds : Deeds := {}

/-- One thing more happens, and is reported. -/
inductive Story.Next (x : Story) : Story → List Event → Prop where
  | reports {w : World} {events : List Event} (h : x.world.Reports w events) :
      Next x ⟨w, x.deeds ++ x.world.deeds w⟩ events

/-- Every connect call that was made has come to one thing or is underway. -/
structure Story.Balanced (x : Story) : Prop where
  kept : x.world.ledger.Kept
  calls : x.deeds.called.Perm
    (x.deeds.connected ++ x.deeds.failed.map (·.1) ++ x.deeds.turnedAway.map (·.1) ++
      x.deeds.abandoned ++ x.world.client.dials.map (·.id))

theorem balanced_create (config : Config.Client) (connection : Config.Connection) :
    Story.Balanced ⟨{ client := .create config connection }, {}⟩ where
  kept := kept_of_reachable ⟨config, connection, .refl⟩
  calls := .refl _

theorem balanced_next {x y : Story} (hx : x.Balanced) (h : x.Next y events) : y.Balanced := by
  obtain @⟨w, events, hreports⟩ := h
  have hadds := adds_reports hx.kept hreports
  refine ⟨kept_move hx.kept (move_iff_exists_reports.mpr ⟨_, hreports⟩),
    List.perm_iff_count.mpr fun i => ?_⟩
  have hbefore := hx.calls.count_eq i
  have hthen := hadds.calls.count_eq i
  generalize x.world.deeds w = δ at hthen ⊢
  show List.count i (x.deeds.called ++ δ.called) =
    List.count i ((x.deeds.connected ++ δ.connected) ++ (x.deeds.failed ++ δ.failed).map (·.1) ++
      (x.deeds.turnedAway ++ δ.turnedAway).map (·.1) ++ (x.deeds.abandoned ++ δ.abandoned) ++
      w.client.dials.map (·.id))
  simp only [List.map_append, List.count_append] at hbefore hthen ⊢
  omega

end Parley.Client
