import Mathlib.Data.List.Count
import Parley.Proofs.Metrics
import Parley.Proofs.Server.Books

/-! What becomes of the streams that a server takes.

A stream that an accept loop has taken is held by the loop until it has a slot, has waited for one
too long, is shut out by the signal, or goes with a loop that is dropped. A connection that is
started on it makes its handshake until that fails, is interrupted by the signal, or is agreed on.
`Deeds` lists the streams by what became of them. They are read off the states before and after a
step, and not off the events, so that they can be held against what the events say: each step
counts what was done in it (`Adds`, `adds_does`). -/
namespace Parley.Server
open Channel

/-! ### Deeds -/

/-- What was done with streams. -/
structure Deeds where
  /-- Accept loops have taken them. -/
  taken : List StreamId := []
  /-- Connections were started on them. -/
  started : List StreamId := []
  /-- They have waited for a slot until their time was out. -/
  timedOut : List StreamId := []
  /-- They were given up because of the signal. -/
  shutOut : List StreamId := []
  /-- They were given up with the call that held them. -/
  abandoned : List StreamId := []
  /-- Their handshakes have failed, with an error or at their deadline. -/
  failed : List (StreamId × Error) := []
  /-- The signal came in their handshakes. -/
  interrupted : List StreamId := []
  /-- Their handshakes have yielded a key. -/
  agreed : List StreamId := []

instance : Append Deeds where
  append d δ := {
    taken := d.taken ++ δ.taken
    started := d.started ++ δ.started
    timedOut := d.timedOut ++ δ.timedOut
    shutOut := d.shutOut ++ δ.shutOut
    abandoned := d.abandoned ++ δ.abandoned
    failed := d.failed ++ δ.failed
    interrupted := d.interrupted ++ δ.interrupted
    agreed := d.agreed ++ δ.agreed }

/-- The streams that loops hold. -/
def held (loops : List Loop) : List StreamId := loops.filterMap (·.stage.stream?)

/-- The stream that waits for a slot. -/
def Stage.waiting? : Stage → Option StreamId
  | .queued stream _ => some stream
  | _ => none

/-- The streams that wait for a slot. -/
def inLine (loops : List Loop) : List StreamId := loops.filterMap (·.stage.waiting?)

/-- The stream of a connection whose handshake is not over. -/
def Connection.underway? (c : Connection) : Option StreamId :=
  match c.progress with
  | .engaged _ => none
  | .arriving | .shaking _ => some c.stream

/-- The streams whose handshakes are not over. -/
def underway (connections : List Connection) : List StreamId :=
  connections.filterMap (·.underway?)

/-- The stream that the loop of a call holds. -/
def streamOf (s : Server) (id : CallId) : List StreamId :=
  ((s.loops.find? (·.id == id)).bind (·.stage.stream?)).toList

/-- Whether a wait is over because its time is out. -/
def lapsed : Option (Except Error Unit × Admission) → Bool
  | some (.error (.timeout _), _) => true
  | _ => false

/-- Whether a loop waits for a slot and its time is out. -/
def outOfTime (s : Server) (now : Nat) (id : CallId) : Bool :=
  (s.loops.find? (·.id == id)).any (·.stage.isQueued) &&
    lapsed (s.admission.stepWait id now s.shutdown.fired)

/-- What a loop does in a step after which the server is `s'`. -/
def loopDeeds (s : Server) (now : Nat) (id : CallId) (s' : Server) : Deeds where
  taken := if s.streamOf id = [] then s'.streamOf id else []
  started := (s'.connections.drop s.connections.length).map (·.stream)
  timedOut := if s.outOfTime now id then s.streamOf id else []
  shutOut := if s.shutdown.fired && s'.loops.all (·.id != id) then s.streamOf id else []

def Progress.handshake? : Progress → Option Handshake
  | .shaking h => some h
  | _ => none

/-- What a connection does in a step of its handshake. -/
def handshakeDeeds (s : Server) (env : Env) (guard : Nat) (d : Duplex) : Deeds :=
  match s.connections.find? (·.guard == guard) with
  | none => {}
  | some c =>
    if s.shutdown.fired then { interrupted := [c.stream] }
    else
      match c.progress.handshake?.bind (·.step .server env.now d) with
      | some (.failed e) => { failed := [(c.stream, e)] }
      | some (.agreed _) => { agreed := [c.stream] }
      | _ => {}

/-- One thing that happens at a server, with what is reported and what is done. -/
inductive World.Does (w : World) : World → List Event → Deeds → Prop where
  | serve {id address} (hnew : id ∉ w.log.calls) :
      Does w ((w.become (w.server.serve id address)).making id) [] {}
  | offer {address stream} : Does w (w.become (w.server.offer address stream)) [] {}
  | fault {address e} : Does w (w.become (w.server.fault address e)) [] {}
  | loop {now id s events} (h : w.server.stepLoop now id = some (s, events)) :
      Does w (w.after s events) events (w.server.loopDeeds now id s)
  | dropLoop {id} (h : id ∈ w.server.loops.map (·.id)) :
      Does w ((w.after (w.server.dropLoop id).1 (w.server.dropLoop id).2).dropping id)
        (w.server.dropLoop id).2 { abandoned := w.server.streamOf id }
  | begin {now guard secret} (h : w.server.wantsSecret guard = true) :
      Does w (w.become (w.server.beginHandshake now guard secret)) [] {}
  | handshake {env guard d s d' events}
      (h : w.server.stepHandshake env guard d = some (s, d', events)) :
      Does w (w.after s events) events (w.server.handshakeDeeds env guard d)
  | engine {env guard t d s d' events}
      (h : w.server.stepEngine env guard t d = some (s, d', events)) :
      Does w (w.after s events) events {}
  | shutdown {id} (hnew : id ∉ w.log.calls) :
      Does w ((w.become (w.server.beginShutdown id)).making id) [] {}
  | idle {id s events} (h : w.server.stepIdle id = some (s, events)) :
      Does w ((w.after s events).resting id) events {}
  | dropIdle {id} (h : id ∈ w.server.idling) :
      Does w ((w.become (w.server.dropIdle id)).dropping id) [] {}
  /-- Nobody has the server any more, which is as good as the signal to its connections. -/
  | letGo (hloops : w.server.loops = []) (hidling : w.server.idling = []) :
      Does w (w.become { w.server with shutdown := w.server.shutdown.trigger.2 }) [] {}

variable {w w' : World} {s s' : Server} {l y : Loop} {now : Nat} {id : CallId}
  {events : List Event} {δ : Deeds}

/-- The books stay in order. -/
theorem kept_does (hk : w.ledger.Kept) (h : w.Does w' events δ) : w'.ledger.Kept := by
  cases h with
  | serve hnew => exact kept_move hk (.serve hnew)
  | offer => exact kept_move hk .offer
  | fault => exact kept_move hk .fault
  | loop h => exact kept_move hk (.loop h)
  | dropLoop h => exact kept_move hk (.dropLoop h)
  | begin h => exact kept_move hk (.begin h)
  | handshake h => exact kept_move hk (.handshake h)
  | engine h => exact kept_move hk (.engine h)
  | shutdown hnew => exact kept_move hk (.shutdown hnew)
  | idle h => exact kept_move hk (.idle h)
  | dropIdle h => exact kept_move hk (.dropIdle h)
  | letGo => exact { hk with begun := fun _ => rfl }

/-! ### What a step counts -/

/-- A step counts what was done in it, and does something with what was there. -/
structure Adds (s s' : Server) (events : List Event) (δ : Deeds) : Prop where
  counted : Counted events s.connections.length s'.connections.length δ.started.length
    δ.timedOut.length δ.failed.length
  streams : (δ.taken ++ held s.loops).Perm
    (δ.started ++ δ.timedOut ++ δ.shutOut ++ δ.abandoned ++ held s'.loops)
  handshakes : (δ.started ++ underway s.connections).Perm
    (δ.failed.map (·.1) ++ δ.interrupted ++ δ.agreed ++ underway s'.connections)

/-! Accept loops. -/

theorem held_cons (l : Loop) (rest : List Loop) :
    held (l :: rest) = l.stage.stream?.toList ++ held rest := by
  simp only [held, List.filterMap_eq_flatMap_toList, List.flatMap_cons]

section
variable (hnodup : (s.loops.map (·.id)).Nodup) (hl : l ∈ s.loops)
include hnodup hl

theorem streamOf_of_mem : s.streamOf l.id = l.stage.stream?.toList := by
  rw [streamOf, Keyed.find?_of_mem hnodup hl]
  rfl

theorem held_perm : (held s.loops).Perm
    (l.stage.stream?.toList ++ held (s.loops.filter (·.id != l.id))) := by
  rw [← held_cons]
  exact (Keyed.perm_cons hnodup hl).filterMap _

theorem held_set (hid : y.id = l.id) : (held (s.setLoop y).loops).Perm
    (y.stage.stream?.toList ++ held (s.loops.filter (·.id != l.id))) := by
  rw [← held_cons]
  exact (Keyed.perm_set hnodup hl hid).filterMap _

theorem streamOf_set (hid : y.id = l.id) :
    (s.setLoop y).streamOf l.id = y.stage.stream?.toList := by
  rw [streamOf, setLoop, Keyed.find?_set (Keyed.find?_of_mem hnodup hl) hid]
  rfl

theorem outOfTime_of_mem : s.outOfTime now l.id =
    (l.stage.isQueued && lapsed (s.admission.stepWait l.id now s.shutdown.fired)) := by
  rw [outOfTime, Keyed.find?_of_mem hnodup hl]
  rfl

/-- A loop that holds its stream on, or takes one, counts nothing. -/
theorem adds_stays (hid : y.id = l.id) (hloops : s'.loops = (s.setLoop y).loops)
    (hconnections : s'.connections = s.connections)
    (hstream : l.stage.stream? = none ∨ y.stage.stream? = l.stage.stream?)
    (hin : s.outOfTime now l.id = false) : Adds s s' [] (s.loopDeeds now l.id s') := by
  have hthere : s'.loops.all (·.id != l.id) = false := by
    rw [hloops]
    refine List.all_eq_false.mpr ⟨y, List.mem_map.mpr ⟨l, hl, if_pos hid.symm⟩, ?_⟩
    simp [hid]
  have hafter : s'.streamOf l.id = y.stage.stream?.toList := by
    rw [← streamOf_set hnodup hl hid, streamOf, streamOf, hloops]
  have hheld := held_set hnodup hl hid
  rw [← hloops] at hheld
  have hdeeds : s.loopDeeds now l.id s' =
      { taken := if l.stage.stream?.toList = [] then y.stage.stream?.toList else [] } := by
    rw [loopDeeds, streamOf_of_mem hnodup hl, hafter, hin, hthere, hconnections, List.drop_length,
      Bool.and_false]
    rfl
  rw [hdeeds]
  refine ⟨hconnections ▸ .nil _, ?_, hconnections ▸ .refl _⟩
  refine ((held_perm hnodup hl).append_left _).trans (.trans ?_ hheld.symm)
  rcases hstream with hnone | hsame
  · rw [hnone]
    exact .refl _
  · rw [hsame]
    cases l.stage.stream? <;> exact .refl _

/-- A loop that is gone had nothing, or the signal has come. -/
theorem adds_goes (hloops : s'.loops = s.loops.filter (·.id != l.id))
    (hconnections : s'.connections = s.connections)
    (hevents : Counted events s.connections.length s.connections.length 0 0 0)
    (hstream : l.stage.stream? = none ∨ s.shutdown.fired = true)
    (hin : s.outOfTime now l.id = false) : Adds s s' events (s.loopDeeds now l.id s') := by
  have hgone : s'.loops.all (·.id != l.id) = true := by simp [hloops]
  have hafter : s'.streamOf l.id = [] := by
    have hfind : s'.loops.find? (·.id == l.id) = none := by simp [hloops]
    rw [streamOf, hfind]
    rfl
  have hdeeds : s.loopDeeds now l.id s' = { shutOut := l.stage.stream?.toList } := by
    rw [loopDeeds, streamOf_of_mem hnodup hl, hafter, hin, hgone, hconnections, List.drop_length,
      ite_self, Bool.and_true]
    rcases hstream with hnone | hfired
    · simp [hnone]
    · simp [hfired]
  rw [hdeeds]
  refine ⟨by rw [hconnections]; exact hevents, ?_, hconnections ▸ .refl _⟩
  rw [hloops]
  simpa using held_perm hnodup hl

/-- A stream that has a slot is counted as accepted. -/
theorem adds_takeIn {a : Admission} {stream : StreamId} (guard : Nat)
    (hstream : l.stage.stream? = some stream) (hin : s.outOfTime now l.id = false) :
    Adds s ({ s with admission := a }.takeIn l stream guard).1 [.accepted, .opened]
      (s.loopDeeds now l.id ({ s with admission := a }.takeIn l stream guard).1) := by
  have hthere : (s.setLoop { l with stage := .accepting }).loops.all (·.id != l.id) = false :=
    List.all_eq_false.mpr
      ⟨{ l with stage := .accepting }, List.mem_map.mpr ⟨l, hl, if_pos rfl⟩, by simp⟩
  have hdeeds : s.loopDeeds now l.id ({ s with admission := a }.takeIn l stream guard).1 =
      { started := [stream] } := by
    have hthere' : ({ s with admission := a }.takeIn l stream guard).1.loops.all (·.id != l.id) =
        false := hthere
    rw [loopDeeds, streamOf_of_mem hnodup hl, hstream, hin, hthere', Bool.and_false]
    simp [takeIn, setLoop]
  rw [hdeeds]
  refine ⟨?_, ?_, ?_⟩
  · show Counted _ _ (s.connections ++ [_]).length _ _ _
    rw [List.length_append]
    exact (counted_accepted _).append (counted_opened _)
  · refine ((held_perm hnodup hl).trans ?_)
    rw [hstream]
    exact ((held_set (y := { l with stage := .accepting }) hnodup hl rfl).symm).cons _
  · show (stream :: underway s.connections).Perm (underway (s.connections ++ [_]))
    rw [underway, underway, List.filterMap_append]
    exact (List.perm_append_singleton _ _).symm

/-- A stream that has waited too long is counted as rejected. -/
theorem adds_rejects {a : Admission} {stream : StreamId} (hopen : s.shutdown.fired = false)
    (hstream : l.stage.stream? = some stream) (hout : s.outOfTime now l.id = true) :
    Adds s (({ s with admission := a }.forget stream).1.setLoop { l with stage := .accepting })
      [.dropped stream, .rejected]
      (s.loopDeeds now l.id
        (({ s with admission := a }.forget stream).1.setLoop { l with stage := .accepting })) := by
  have hdeeds : s.loopDeeds now l.id
      (({ s with admission := a }.forget stream).1.setLoop { l with stage := .accepting }) =
      { timedOut := [stream] } := by
    simp [loopDeeds, streamOf_of_mem hnodup hl, hstream, hout, hopen, setLoop, forget]
  rw [hdeeds]
  refine ⟨(counted_dropped [stream] _).append (counted_rejected _), ?_, .refl _⟩
  refine ((held_perm hnodup hl).trans ?_)
  rw [hstream]
  exact ((held_set (y := { l with stage := .accepting }) hnodup hl rfl).symm).cons _

end

theorem counted_loopReturns (s : Server) (l : Loop) (r : Except Error Unit) (n : Nat) :
    Counted (s.loopReturns l r).2 n n 0 0 0 :=
  (counted_dropped l.backlog n).append (counted_quiet rfl n)

theorem counted_giveIn (s : Server) (l : Loop) (stream : StreamId) (n : Nat) :
    Counted (s.giveIn l stream).2 n n 0 0 0 :=
  (counted_dropped [stream] n).append (counted_loopReturns (s.forget stream).1 l (.ok ()) n)

/-- Whoever is told to stop waiting is not out of time. -/
theorem lapsed_of_fired {a : Admission} : lapsed (a.stepWait id now true) = false := by
  cases h : a.stepWait id now true with
  | none => rfl
  | some x =>
    obtain ⟨r, a'⟩ := x
    cases r with
    | ok => rfl
    | error e =>
      obtain ⟨-, rfl⟩ := Admission.stepWait_eq_error h
      rfl

/-- A loop whose stream is rejected is out of time. -/
theorem lapsed_of_rejects {stream : StreamId} {guard : Nat}
    (hfind : s.loops.find? (·.id == l.id) = some l) (hstage : l.stage = .queued stream guard)
    (hopen : s.shutdown.fired = false)
    (h : s.stepLoop now l.id = some (s', [.dropped stream, .rejected])) :
    lapsed (s.admission.stepWait l.id now s.shutdown.fired) = true := by
  simp only [stepLoop, hfind, hstage] at h
  cases hwait : s.admission.stepWait l.id now s.shutdown.fired with
  | none => simp only [hwait] at h; cases h
  | some x =>
    obtain ⟨r, admission⟩ := x
    cases r with
    | ok => simp [hwait, takeIn] at h
    | error e =>
      obtain ⟨-, rfl⟩ := Admission.stepWait_eq_error hwait
      rw [hopen]
      rfl

theorem Stage.stream?_of_isOpen {stage : Stage} (h : stage.isOpen = true) :
    stage.stream? = none := by
  cases stage <;> first | rfl | cases h

theorem adds_stepLoop (hnodup : (s.loops.map (·.id)).Nodup)
    (h : s.stepLoop now id = some (s', events)) : Adds s s' events (s.loopDeeds now id s') := by
  obtain ⟨l, hl, rfl, hstep⟩ := loopStepped_of_stepLoop h
  have hnot : l.stage.isQueued = false → s.outOfTime now l.id = false := fun hqueued => by
    rw [outOfTime_of_mem hnodup hl, hqueued, Bool.false_and]
  cases hstep with
  | @accepts y hopen hstage hid hstage' =>
    exact adds_stays hnodup hl hid rfl rfl (.inl (Stage.stream?_of_isOpen hstage))
      (hnot (Stage.guard?_of_isOpen hstage).2)
  | @returns y r hstage hid hr =>
    exact adds_goes hnodup hl (hid ▸ rfl) rfl (counted_loopReturns s y r _)
      (.inl (Stage.stream?_of_isOpen hstage)) (hnot (Stage.guard?_of_isOpen hstage).2)
  | @tracks stream hstage =>
    exact adds_stays (y := { l with stage := .tracked stream s.tracker.next }) hnodup hl rfl rfl
      rfl (.inr (by rw [hstage]; rfl)) (hnot (by rw [hstage]; rfl))
  | @clears stream guard hopen hstage =>
    exact adds_stays (y := { l with stage := .cleared stream guard }) hnodup hl rfl rfl rfl
      (.inr (by rw [hstage]; rfl)) (hnot (by rw [hstage]; rfl))
  | @queues stream guard admission hstage =>
    exact adds_stays (y := { l with stage := .queued stream guard }) hnodup hl rfl rfl rfl
      (.inr (by rw [hstage]; rfl)) (hnot (by rw [hstage]; rfl))
  | @givesIn stream guard hfired hstage =>
    exact adds_goes hnodup hl rfl rfl (counted_giveIn s l stream _) (.inr hfired)
      (hnot (by rw [hstage]; rfl))
  | @admits stream guard admission hstage hacquire =>
    exact adds_takeIn hnodup hl guard (by rw [hstage]; rfl) (hnot (by rw [hstage]; rfl))
  | @takesUp stream guard admission hstage hwait =>
    refine adds_takeIn hnodup hl guard (by rw [hstage]; rfl) ?_
    rw [outOfTime_of_mem hnodup hl, hwait]
    exact Bool.and_false _
  | @stopsWaiting stream guard hfired hstage =>
    refine adds_goes hnodup hl rfl rfl (counted_giveIn _ l stream _) (.inr hfired) ?_
    rw [outOfTime_of_mem hnodup hl, hfired, lapsed_of_fired, Bool.and_false]
  | @rejects stream guard hopen hstage =>
    refine adds_rejects hnodup hl hopen (by rw [hstage]; rfl) ?_
    rw [outOfTime_of_mem hnodup hl, hstage, Stage.isQueued, Bool.true_and]
    exact lapsed_of_rejects (Keyed.find?_of_mem hnodup hl) hstage hopen h

theorem LoopDropped.connections_eq (h : LoopDropped s l s') : s'.connections = s.connections := by
  cases h <;> rfl

/-- The stream of a loop that is dropped goes with it. -/
theorem adds_dropLoop (hnodup : (s.loops.map (·.id)).Nodup) (h : id ∈ s.loops.map (·.id)) :
    Adds s (s.dropLoop id).1 (s.dropLoop id).2 { abandoned := s.streamOf id } := by
  obtain ⟨l, hl, rfl, hdropped, hevents⟩ := loopDropped_of_mem h
  refine ⟨?_, ?_, ?_⟩
  · rw [hevents, hdropped.connections_eq]
    exact counted_dropped _ _
  · rw [hdropped.loops_eq, streamOf_of_mem hnodup hl]
    exact held_perm hnodup hl
  · rw [hdropped.connections_eq]
    exact .refl _

/-! Connections. -/

theorem underway_cons (c : Connection) (rest : List Connection) :
    underway (c :: rest) = c.underway?.toList ++ underway rest := by
  simp only [underway, List.filterMap_eq_flatMap_toList, List.flatMap_cons]

section
variable {c k : Connection} (hnodup : (s.connections.map (·.guard)).Nodup)
  (hc : c ∈ s.connections)
include hnodup hc

theorem underway_perm : (underway s.connections).Perm
    (c.underway?.toList ++ underway (s.connections.filter (·.guard != c.guard))) := by
  rw [← underway_cons]
  exact (Keyed.perm_cons hnodup hc).filterMap _

theorem underway_set (hguard : k.guard = c.guard) :
    (underway (s.setConnection k).connections).Perm
      (k.underway?.toList ++ underway (s.connections.filter (·.guard != c.guard))) := by
  rw [← underway_cons]
  exact (Keyed.perm_set hnodup hc hguard).filterMap _

/-- A connection is over: its handshake ends with it, or was over before. -/
theorem adds_ends (failures : List (StreamId × Error)) (cut : List StreamId)
    (hevents : ∀ n, Counted events n n 0 0 failures.length)
    (hover : c.underway?.toList = failures.map (·.1) ++ cut) :
    Adds s (s.endConnection c) (events ++ [.closed])
      { failed := failures, interrupted := cut } := by
  refine ⟨?_, .refl _, ?_⟩
  · rw [(Keyed.perm_cons hnodup hc).length_eq]
    exact (hevents _).append (counted_closed _)
  · refine (underway_perm hnodup hc).trans (.of_eq ?_)
    rw [hover]
    exact congrArg (· ++ _) (List.append_nil _).symm

/-- A connection goes on; its handshake may just have been agreed on. -/
theorem adds_goesOn (yielded : List StreamId) (hguard : k.guard = c.guard)
    (hevents : ∀ n, Counted events n n 0 0 0)
    (hover : c.underway?.toList = yielded ++ k.underway?.toList) :
    Adds s (s.setConnection k) events { agreed := yielded } := by
  refine ⟨?_, .refl _, ?_⟩
  · show Counted _ _ (List.map _ _).length _ _ _
    rw [List.length_map]
    exact hevents _
  · refine (underway_perm hnodup hc).trans
      (.trans (.of_eq ?_) ((underway_set hnodup hc hguard).symm.append_left _))
    rw [hover]
    exact List.append_assoc ..

end

/-- A handshake that begins was not over. -/
theorem adds_beginHandshake {guard : Nat} (hnodup : (s.connections.map (·.guard)).Nodup)
    (h : s.wantsSecret guard = true) (now : Nat) (secret : Bytes) :
    Adds s (s.beginHandshake now guard secret) [] {} := by
  obtain ⟨-, hany⟩ := Bool.and_eq_true_iff.mp h
  obtain ⟨c, hc, hwants⟩ := List.any_eq_true.mp hany
  obtain ⟨hguard, harriving⟩ := Bool.and_eq_true_iff.mp hwants
  obtain rfl : c.guard = guard := by simpa using hguard
  have hunderway : c.underway? = some c.stream := by
    cases hprogress : c.progress with
    | arriving => rw [Connection.underway?, hprogress]
    | shaking x => simp [hprogress] at harriving
    | engaged e => simp [hprogress] at harriving
  refine ⟨?_, .refl _, ?_⟩
  · show Counted _ _ (List.map _ _).length _ _ _
    rw [List.length_map]
    exact .nil _
  · refine (underway_perm hnodup hc).trans (.trans (.of_eq ?_)
      ((Keyed.perm_map (k := Connection.guard) hnodup hc _).filterMap _).symm)
    rw [hunderway]
    rfl

theorem adds_stepHandshake {env : Env} {guard : Nat} {d d' : Duplex}
    (hnodup : (s.connections.map (·.guard)).Nodup)
    (h : s.stepHandshake env guard d = some (s', d', events)) :
    Adds s s' events (s.handshakeDeeds env guard d) := by
  unfold stepHandshake at h
  unfold handshakeDeeds
  cases hfind : s.connections.find? (·.guard == guard) with
  | none => simp only [hfind] at h; cases h
  | some c =>
    obtain ⟨hc, rfl⟩ := Keyed.mem_of_find? hfind
    simp only [hfind] at h ⊢
    cases hprogress : c.progress with
    | engaged e => simp only [hprogress] at h; cases h
    | arriving =>
      have hunderway : c.underway? = some c.stream := by rw [Connection.underway?, hprogress]
      simp only [hprogress] at h
      split at h
      · rename_i hfired
        cases h
        rw [if_pos hfired]
        exact adds_ends hnodup hc [] [c.stream] .nil (by rw [hunderway]; rfl)
      · cases h
    | shaking x =>
      have hunderway : c.underway? = some c.stream := by rw [Connection.underway?, hprogress]
      simp only [hprogress] at h
      split at h
      · rename_i hfired
        cases h
        rw [if_pos hfired]
        exact adds_ends hnodup hc [] [c.stream] .nil (by rw [hunderway]; rfl)
      · rename_i hopen
        rw [if_neg hopen, Progress.handshake?, Option.bind_some]
        cases hstep : x.step .server env.now d with
        | none => simp only [hstep] at h; cases h
        | some y =>
          cases y with
          | going x' d' =>
            simp only [hstep] at h
            cases h
            exact adds_goesOn (k := { c with progress := .shaking x' }) hnodup hc [] rfl .nil
              (by rw [hunderway]; rfl)
          | agreed key =>
            simp only [hstep] at h
            cases h
            exact adds_goesOn (k := { c with progress := .engaged _ }) hnodup hc [c.stream] rfl .nil
              (by rw [hunderway]; rfl)
          | failed e =>
            simp only [hstep] at h
            cases h
            have hended := adds_ends hnodup hc [(c.stream, e)] [] counted_handshakeFailed
              (by rw [hunderway]; rfl)
            exact hended

theorem adds_stepEngine {env : Env} {guard : Nat} {t : Engine.Task} {d d' : Duplex}
    (hnodup : (s.connections.map (·.guard)).Nodup)
    (h : s.stepEngine env guard t d = some (s', d', events)) : Adds s s' events {} := by
  unfold stepEngine at h
  cases hfind : s.connections.find? (·.guard == guard) with
  | none => simp only [hfind] at h; cases h
  | some c =>
    obtain ⟨hc, rfl⟩ := Keyed.mem_of_find? hfind
    simp only [hfind] at h
    cases hprogress : c.progress with
    | arriving => simp only [hprogress] at h; cases h
    | shaking x => simp only [hprogress] at h; cases h
    | engaged e =>
      have hunderway : c.underway? = none := by rw [Connection.underway?, hprogress]
      simp only [hprogress] at h
      split at h
      · cases h
      · rename_i e' d' evs hstep
        split at h
        · cases h
          exact adds_ends hnodup hc [] [] (counted_engine evs) (by rw [hunderway]; rfl)
        · cases h
          exact adds_goesOn (k := { c with progress := .engaged e' }) hnodup hc [] rfl
            (counted_engine evs) (by rw [hunderway]; rfl)

/-- **Whatever happens is counted.** -/
theorem adds_does (hk : w.ledger.Kept) (h : w.Does w' events δ) :
    Adds w.server w'.server events δ := by
  have hloops := hk.loops_nodup
  have hconnections : (w.server.connections.map (·.guard)).Nodup :=
    (List.nodup_append.mp hk.guards).2.1
  have hsame {s' : Server} (hl : held s'.loops = held w.server.loops)
      (hc : s'.connections = w.server.connections) : Adds w.server s' [] {} :=
    ⟨hc ▸ .nil _, .of_eq hl.symm, hc ▸ .refl _⟩
  cases h with
  | serve =>
    refine hsame ?_ rfl
    show held (w.server.loops ++ [_]) = _
    rw [held, List.filterMap_append]
    exact List.append_nil _
  | offer
  | fault =>
    refine hsame ?_ rfl
    show held (List.map _ _) = _
    rw [held, List.filterMap_map]
    refine List.filterMap_congr fun l _ => ?_
    rw [Function.comp_apply]
    split <;> rfl
  | loop h => exact adds_stepLoop hloops h
  | dropLoop h => exact adds_dropLoop hloops h
  | begin h => exact adds_beginHandshake hconnections h _ _
  | handshake h => exact adds_stepHandshake hconnections h
  | engine h => exact adds_stepEngine hconnections h
  | shutdown
  | dropIdle
  | letGo => exact hsame rfl rfl
  | idle h =>
    obtain ⟨-, -, rfl, rfl⟩ := stepIdle_eq_some h
    exact ⟨counted_quiet rfl _, .refl _, .refl _⟩

/-! ### All that was done -/

/-- A world, and all that was done there. -/
structure Story where
  world : World
  deeds : Deeds := {}

/-- One thing more happens, and is reported. -/
inductive Story.Next (x : Story) : Story → List Event → Prop where
  | does {w : World} {events : List Event} {δ : Deeds} (h : x.world.Does w events δ) :
      Next x ⟨w, x.deeds ++ δ⟩ events

/-- Every stream that was taken has come to one thing or is still held, and every handshake that
began has come to one thing or is underway. -/
structure Story.Balanced (x : Story) : Prop where
  kept : x.world.ledger.Kept
  streams : x.deeds.taken.Perm
    (x.deeds.started ++ x.deeds.timedOut ++ x.deeds.shutOut ++ x.deeds.abandoned ++
      held x.world.server.loops)
  handshakes : x.deeds.started.Perm
    (x.deeds.failed.map (·.1) ++ x.deeds.interrupted ++ x.deeds.agreed ++
      underway x.world.server.connections)

theorem balanced_create (config : Config.Server) (connection : Config.Connection) :
    Story.Balanced ⟨{ server := .create config connection }, {}⟩ where
  kept := kept_of_reachable ⟨config, connection, .refl⟩
  streams := .refl _
  handshakes := .refl _

theorem balanced_next {x y : Story} (hx : x.Balanced) (h : x.Next y events) : y.Balanced := by
  obtain @⟨w, events, δ, hdoes⟩ := h
  have hadds := adds_does hx.kept hdoes
  refine ⟨kept_does hx.kept hdoes, List.perm_iff_count.mpr fun i => ?_,
    List.perm_iff_count.mpr fun i => ?_⟩
  · have hbefore := hx.streams.count_eq i
    have hthen := hadds.streams.count_eq i
    show List.count i (x.deeds.taken ++ δ.taken) =
      List.count i ((x.deeds.started ++ δ.started) ++ (x.deeds.timedOut ++ δ.timedOut) ++
        (x.deeds.shutOut ++ δ.shutOut) ++ (x.deeds.abandoned ++ δ.abandoned) ++ held w.server.loops)
    simp only [List.count_append] at hbefore hthen ⊢
    omega
  · have hbefore := hx.handshakes.count_eq i
    have hthen := hadds.handshakes.count_eq i
    show List.count i (x.deeds.started ++ δ.started) =
      List.count i ((x.deeds.failed ++ δ.failed).map (·.1) ++
        (x.deeds.interrupted ++ δ.interrupted) ++ (x.deeds.agreed ++ δ.agreed) ++
        underway w.server.connections)
    simp only [List.map_append, List.count_append] at hbefore hthen ⊢
    omega

/-! ### Rest -/

/-- Where no task can go on, the streams that loops hold wait for a slot. -/
theorem held_of_settled {env : Env} {view : StreamId → Duplex} (hk : w.ledger.Kept)
    (hsettled : Settled env view w.server) : held w.server.loops = inLine w.server.loops := by
  refine List.filterMap_congr fun l hl => ?_
  have hfind : w.server.loops.find? (·.id == l.id) = some l := Keyed.find?_of_mem hk.loops_nodup hl
  have hnone := hsettled.loops l.id
  cases hstage : l.stage with
  | accepting
  | pausing due
  | queued stream guard => rfl
  | taken stream =>
    simp only [stepLoop, hfind, hstage] at hnone
    cases hnone
  | tracked stream guard =>
    simp only [stepLoop, hfind, hstage] at hnone
    split at hnone <;> cases hnone
  | cleared stream guard =>
    simp only [stepLoop, hfind, hstage] at hnone
    cases hacquire : w.server.admission.acquire l.id env.now with
    | mk free admission => cases free <;> simp only [hacquire] at hnone <;> cases hnone

/-- A handshake whose stream has no room fails when its time is out. -/
theorem stepHandshake_late (env : Env) {guard due : Nat} {secret : Bytes} (c : Connection)
    (hfind : s.connections.find? (·.guard == guard) = some c)
    (hprogress : c.progress = .shaking (.start secret (some due)))
    (hopen : s.shutdown.fired = false) (hdue : due ≤ env.now) :
    s.stepHandshake env guard (.ofCapacity 0) =
      some (s.endConnection c, (Duplex.ofCapacity 0).hangUp, [.handshakeFailed, .closed]) := by
  have hkey : Crypto.X25519.publicKey secret ≠ [] := fun h => by
    simpa using congrArg List.length h
  simp [stepHandshake, hfind, hprogress, hopen, Handshake.start, Handshake.step, Exchange.start,
    Exchange.advance, hkey, Duplex.ofCapacity, Pipe.push, Pipe.room, hdue]

end Parley.Server
