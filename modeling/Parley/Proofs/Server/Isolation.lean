import Parley.Proofs.Server.Faults
import Parley.Proofs.Server.Serving
import Parley.Proofs.Server.Without

/-! Connections of one server are isolated from each other.

Some streams are *theirs*: their far ends do as they like, and so do the connections on them.
`Site.without` takes all that from a site. An act of theirs leaves the rest as it is
(`without_of_perform`); any other act does the same with them and without them
(`perform_without`), as long as no stream has to wait for a slot, and whether it can be done does
not depend on them (`isSome_perform`). So a run without their acts is a run of the site without
them (`Run.without`), and two runs that differ only in their acts end at sites where the same was
seen of everybody else, at the same times: `connections_are_isolated`.

Theirs may be a single stream; or all streams but one, and then nothing matters to that one but
what is done on it, by the loops and by the program. What waits until no connection is left
depends on theirs, and is counted as theirs. -/
namespace Parley.Server
open Channel

/-- Whether a note is of a connection of theirs. -/
def Note.isTheirs (theirs : StreamId → Bool) : Note → Bool
  | .loop .. => false
  | .connection stream _ | .sent stream _ => theirs stream

/-- Whether an act is done on a stream of theirs, or waits until their connections are over. -/
def Act.isTheirs (theirs : StreamId → Bool) : Act → Bool
  | .begin stream _ | .handshake stream | .engine stream .. | .far stream _ => theirs stream
  | .idle _ | .dropIdle _ => true
  | .serve .. | .offer .. | .fault .. | .pass _ | .loop _ | .dropLoop _ | .shutdown _ => false

/-- The handshake that a connection is in. -/
def exchanged (c : Connection) : Option Exchange :=
  match c.progress with
  | .shaking x => some x.exchange
  | _ => none

theorem shaking_of_exchanged {c : Connection} {x : Exchange} (h : exchanged c = some x) :
    ∃ due, c.progress = .shaking ⟨x, due⟩ := by
  unfold exchanged at h
  split at h
  · rename_i y hy
    obtain rfl := Option.some.inj h
    exact ⟨y.due, hy⟩
  · cases h

namespace Site

/-- A site without their connections and what they made of it. -/
def without (theirs : StreamId → Bool) (s : Site) : Site where
  world := { server := s.world.server.without theirs, log := { calls := s.world.log.calls } }
  now := s.now
  views x := if theirs x then .ofCapacity 0 else s.views x
  pool := { capacity := 0 }
  trace := s.trace.filter (!·.2.isTheirs theirs)

variable {reply : Bytes → Option Bytes} {P : Site → Prop} {theirs : StreamId → Bool}
  {s s' v : Site} {a : Act} {as : List Act}

theorem without_congr
    (hserver : v.world.server.without theirs = s.world.server.without theirs)
    (hcalls : v.world.log.calls = s.world.log.calls) (hnow : v.now = s.now)
    (hviews : ∀ x, theirs x = false → v.views x = s.views x)
    (htrace : v.trace.filter (!·.2.isTheirs theirs) = s.trace.filter (!·.2.isTheirs theirs)) :
    v.without theirs = s.without theirs := by
  have hsame : (fun x => if theirs x then Duplex.ofCapacity 0 else v.views x) =
      fun x => if theirs x then .ofCapacity 0 else s.views x := by
    funext x
    cases hx : theirs x with
    | true => rfl
    | false => exact hviews x hx
  simp only [without, hserver, hcalls, hnow, hsame, htrace]

theorem views_without {x : StreamId} (h : theirs x = false) :
    (s.without theirs).views x = s.views x := if_neg (by simp [h])

theorem trace_kept (s : Site) :
    (s.without theirs).trace.filter (!·.2.isTheirs theirs) =
      s.trace.filter (!·.2.isTheirs theirs) := by
  simp [without, List.filter_filter]

theorem trace_without (s : Site) (notes : List (Nat × Note)) :
    ((s.without theirs).trace ++ notes).filter (!·.2.isTheirs theirs) =
      (s.trace ++ notes).filter (!·.2.isTheirs theirs) := by
  rw [List.filter_append, List.filter_append, trace_kept]

/-- What is done to the world alone. -/
theorem without_world {w w' : World} (hserver : w'.server.without theirs = w.server.without theirs)
    (hcalls : w'.log.calls = w.log.calls) :
    ({ s.without theirs with world := w' } : Site).without theirs =
      ({ s with world := w } : Site).without theirs :=
  without_congr hserver hcalls rfl (fun _ => views_without) (trace_kept s)

theorem calls_after (w : World) (server : Server) (events : List Event) :
    (w.after server events).log.calls = w.log.calls := by
  show (events.foldl Record.note w.log).calls = _
  induction events generalizing w with
  | nil => rfl
  | cons ev events ih =>
    refine (ih { w with log := w.log.note ev }).trans ?_
    cases ev <;> rfl

theorem without_looped {server server' : Server} (id : CallId) (events : List Event)
    (h : server'.without theirs = server.without theirs) :
    ((s.without theirs).looped id server' events).without theirs =
      (s.looped id server events).without theirs := by
  refine without_congr h ?_ rfl (fun x hx => ?_) (trace_without s _)
  · exact (calls_after _ server' events).trans (calls_after s.world server events).symm
  · simp only [looped, views_without hx]

theorem without_stepped {server server' : Server} {stream : StreamId} (d : Duplex)
    (events : List Event) (hours : theirs stream = false)
    (h : server'.without theirs = server.without theirs) :
    ((s.without theirs).stepped stream server' d events).without theirs =
      (s.stepped stream server d events).without theirs := by
  refine without_congr h ?_ rfl (fun x hx => ?_) ?_
  · exact (calls_after _ server' events).trans (calls_after s.world server events).symm
  · simp only [stepped, Function.update_apply, views_without hx]
  · simp only [stepped, views_without hours, List.append_assoc]
    exact trace_without s _

theorem connectionOn_without {stream : StreamId} (h : theirs stream = false) :
    connectionOn (s.without theirs).world.server stream = connectionOn s.world.server stream := by
  show (s.world.server.connections.filter (!theirs ·.stream)).find? (·.stream == stream) = _
  rw [List.find?_filter, connectionOn]
  congr 1
  funext c
  by_cases hc : c.stream = stream
  · simp [hc, h]
  · simp [hc]

/-- What others do is the same with them and without them. -/
theorem perform_without (reply : Bytes → Option Bytes) (hs : s.world.Reachable)
    (hours : a.isTheirs theirs = false) (hbefore : s.Unqueued)
    (hafter : ∀ id, a = .loop id →
      ∀ r, s.world.server.stepLoop s.now id = some r → queued r.1.loops = []) :
    ((s.without theirs).perform reply a).map (Site.without theirs) =
      (s.perform reply a).map (Site.without theirs) := by
  have hguards := guards_nodup hs
  cases a with
  | serve id address =>
    simp only [perform]
    show Option.map _ (if id ∈ s.world.log.calls then _ else _) = _
    split
    · rfl
    · exact congrArg some
        (without_world (congrArg (·.serve id address) (without_without _)) rfl)
  | offer address stream =>
    exact congrArg some
      (without_world (congrArg (·.offer address stream) (without_without _)) rfl)
  | fault address e =>
    exact congrArg some
      (without_world (congrArg (·.fault address e) (without_without _)) rfl)
  | pass ms =>
    exact congrArg some
      (without_congr (without_without _) rfl rfl (fun _ => views_without) (trace_kept s))
  | loop id =>
    simp only [perform, Option.map_map]
    exact map_of_restOf (stepLoop_without hbefore (hafter id rfl)) fun _ _ => without_looped id
  | dropLoop id =>
    simp only [perform]
    show Option.map _ (if id ∈ s.world.server.loops.map (·.id) then _ else _) = _
    split
    · refine congrArg some ?_
      have hrest : restOf theirs ((s.world.server.without theirs).dropLoop id) =
          restOf theirs (s.world.server.dropLoop id) := dropLoop_without hbefore
      obtain ⟨hserver, hevents⟩ := Prod.mk.inj hrest
      show ((s.without theirs).looped id _ ((s.world.server.without theirs).dropLoop id).2).without
        theirs = (s.looped id _ (s.world.server.dropLoop id).2).without theirs
      rw [hevents]
      exact without_looped id _ hserver
    · rfl
  | begin stream secret =>
    simp only [perform, connectionOn_without hours]
    cases hc : connectionOn s.world.server stream with
    | none => rfl
    | some c =>
      obtain ⟨hmem, rfl⟩ := mem_of_connectionOn hc
      show Option.map _ (if (s.world.server.without theirs).wantsSecret c.guard then _ else _) =
        Option.map _ (if s.world.server.wantsSecret c.guard then _ else _)
      rw [wantsSecret_without hguards hmem hours]
      split
      · refine congrArg some (without_world ?_ rfl)
        exact beginHandshake_without _ _ _ _
      · rfl
  | handshake stream =>
    simp only [perform, connectionOn_without hours, views_without hours]
    cases hc : connectionOn s.world.server stream with
    | none => rfl
    | some c =>
      obtain ⟨hmem, rfl⟩ := mem_of_connectionOn hc
      simp only [Option.map_map]
      exact map_of_restOf (stepHandshake_without hguards hmem hours)
        fun _ _ r => without_stepped r.1 r.2 hours
  | engine stream t carriers =>
    simp only [perform, connectionOn_without hours, views_without hours]
    cases hc : connectionOn s.world.server stream with
    | none => rfl
    | some c =>
      obtain ⟨hmem, rfl⟩ := mem_of_connectionOn hc
      simp only [Option.map_map]
      exact map_of_restOf (stepEngine_without hguards hmem hours)
        fun _ _ r => without_stepped r.1 r.2 hours
  | far stream f =>
    refine congrArg some (without_congr (without_without _) rfl rfl (fun x hx => ?_) ?_)
    · simp only [Function.update_apply, views_without hx, views_without hours]
    · exact trace_kept s
  | shutdown id =>
    simp only [perform]
    show Option.map _ (if id ∈ s.world.log.calls then _ else _) = _
    split
    · rfl
    · exact congrArg some
        (without_world (congrArg (fun v : Server => { v with shutdown := v.shutdown.trigger.2 })
          (without_without _)) rfl)
  | idle
  | dropIdle => cases hours

/-- Whether such an act can be done does not depend on their connections. -/
theorem isSome_perform (hs : s.world.Reachable) (hours : a.isTheirs theirs = false)
    (hbefore : s.Unqueued) :
    ((s.without theirs).perform reply a).isSome = (s.perform reply a).isSome := by
  by_cases hloop : ∃ id, a = .loop id
  · obtain ⟨id, rfl⟩ := hloop
    simp only [perform, Option.isSome_map]
    exact isSome_stepLoop rfl rfl hbefore
  · have hsame := perform_without reply hs hours hbefore
      fun id hid => absurd ⟨id, hid⟩ hloop
    simpa only [Option.isSome_map] using congrArg Option.isSome hsame

/-! ### What they do -/

theorem ne_of_theirs {x y : StreamId} (hx : theirs x = false) (hy : theirs y = true) : x ≠ y := by
  rintro rfl
  rw [hx] at hy
  cases hy

/-- A step of a connection of theirs. -/
theorem without_stepped_theirs {server : Server} {c : Connection} (d : Duplex)
    {events : List Event} (hs : s.world.Reachable) (hc : c ∈ s.world.server.connections)
    (htheirs : theirs c.stream = true)
    (hstep : ∃ c' ∈ s.world.server.connections, c'.guard = c.guard ∧
      ConnectionStepped s.world.server c' server events) :
    (s.stepped c.stream server d events).without theirs = s.without theirs := by
  have hguards := guards_nodup hs
  obtain ⟨c', hc', hguard, hstep⟩ := hstep
  obtain rfl := Keyed.eq_of_mem hguards hc' hc hguard
  refine without_congr (without_of_connectionStepped hguards hc htheirs hstep)
    (calls_after s.world server events) rfl (fun x hx => ?_) ?_
  · exact Function.update_of_ne (ne_of_theirs hx htheirs) d s.views
  · simp [stepped, Note.isTheirs, htheirs]

/-- What they do leaves everything else as it is. -/
theorem without_of_perform (hs : s.world.Reachable) (htheirs : a.isTheirs theirs = true)
    (h : s.perform reply a = some s') : s'.without theirs = s.without theirs := by
  cases performed_of_perform h with
  | serve
  | offer
  | fault
  | pass
  | loop
  | dropLoop
  | shutdown => cases htheirs
  | begin hc =>
    obtain ⟨hmem, rfl⟩ := mem_of_connectionOn hc
    refine without_congr ?_ rfl rfl (fun _ _ => rfl) rfl
    exact without_of_beginHandshake (guards_nodup hs) hmem htheirs
  | @handshake _ _ _ d _ hc hstep =>
    obtain ⟨hmem, rfl⟩ := mem_of_connectionOn hc
    exact without_stepped_theirs d hs hmem htheirs (connectionStepped_of_stepHandshake hstep)
  | @engine _ _ _ _ _ d _ hc hstep =>
    obtain ⟨hmem, rfl⟩ := mem_of_connectionOn hc
    exact without_stepped_theirs d hs hmem htheirs (connectionStepped_of_stepEngine hstep)
  | far =>
    exact without_congr rfl rfl rfl
      (fun x hx => Function.update_of_ne (ne_of_theirs hx htheirs) _ s.views) rfl
  | @idle _ server events hstep =>
    obtain ⟨-, -, hserver, -⟩ := stepIdle_eq_some hstep
    refine without_congr ?_ (calls_after s.world server events) rfl (fun _ _ => rfl) rfl
    show server.without theirs = _
    rw [hserver]
    rfl
  | dropIdle => exact without_congr rfl rfl rfl (fun _ _ => rfl) rfl

/-! ### Runs -/

/-- A run, without what they do, is a run of the site without their connections. -/
theorem Run.without (hrun : Run reply Unqueued s as s') (hs : s.world.Reachable) :
    (as.filter (!·.isTheirs theirs)).foldlM
      (fun v a => (v.perform reply a).map (Site.without theirs)) (s.without theirs) =
        some (s'.without theirs) := by
  induction hrun with
  | nil => rfl
  | @cons s a s' as s'' hbefore hact hrest ih =>
    have hlater := ih (reachable_of_perform hs hact)
    cases htheirs : a.isTheirs theirs with
    | true =>
      rw [List.filter_cons_of_neg (by simp [htheirs])]
      rwa [without_of_perform hs htheirs hact] at hlater
    | false =>
      have hafter : ∀ id, a = .loop id →
          ∀ r, s.world.server.stepLoop s.now id = some r → queued r.1.loops = [] := by
        rintro id rfl r hr
        obtain ⟨r', hr', rfl⟩ := Option.map_eq_some_iff.mp hact
        obtain rfl := Option.some.inj (hr'.symm.trans hr)
        exact hrest.first
      have hstep := perform_without reply hs htheirs hbefore hafter
      rw [List.filter_cons_of_pos (by simp [htheirs]), List.foldlM_cons, hstep, hact]
      exact hlater

/-- What is seen does not depend on them where it is not about them. -/
theorem seen_without {α : Type} {pick : Note → Option α}
    (hpick : ∀ n, n.isTheirs theirs = true → pick n = none) :
    (s.without theirs).seen pick = s.seen pick := by
  simp only [seen, without, List.filterMap_filter]
  refine List.filterMap_congr fun n _ => ?_
  cases hn : n.2.isTheirs theirs with
  | true => simp [hpick n.2 hn]
  | false => rfl

/-- Two sites at which the same was seen of the others, and of the accept loops. -/
structure Alike (theirs : StreamId → Bool) (s v : Site) : Prop where
  dispatches : ∀ x, theirs x = false → v.dispatches x = s.dispatches x
  outbound : ∀ x, theirs x = false → v.outbound x = s.outbound x
  results : ∀ x, theirs x = false → v.results x = s.results x
  returns : v.returns = s.returns

theorem alike_of_without (h : v.without theirs = s.without theirs) : Alike theirs s v := by
  have hseen : ∀ {α : Type} (pick : Note → Option α),
      (∀ n, n.isTheirs theirs = true → pick n = none) → v.seen pick = s.seen pick := by
    intro α pick hpick
    rw [← seen_without hpick, h, seen_without hpick]
  constructor
  case dispatches =>
    refine fun x hx => hseen _ fun n hn => ?_
    split
    · exact if_neg (ne_of_theirs hx hn).symm
    · rfl
  case outbound =>
    refine fun x hx => hseen _ fun n hn => ?_
    split
    · exact if_neg (ne_of_theirs hx hn).symm
    · rfl
  case results =>
    refine fun x hx => hseen _ fun n hn => ?_
    split
    · exact if_neg (ne_of_theirs hx hn).symm
    · rfl
  case returns =>
    refine hseen _ fun n hn => ?_
    split
    · cases hn
    · rfl

/-- **Connections of one server are isolated from each other.** In two runs in which no stream
waits for a slot, and which differ only in what is done on streams of theirs, the same happens on
every other stream at the same times, and so do the accept loops return; whatever else can be done
after the one can be done after the other, and a carrier of either pool carries the same. In no
run does a loop return an error but one that its own listener met. -/
theorem connections_are_isolated (reply : Bytes → Option Bytes) (theirs : StreamId → Bool)
    (config : Config.Server) (connection : Config.Connection) (views : StreamId → Duplex)
    (capacity : Nat) :
    (∀ as bs s v, Run reply Unqueued (start config connection views capacity) as s →
      Run reply Unqueued (start config connection views capacity) bs v →
      as.filter (!·.isTheirs theirs) = bs.filter (!·.isTheirs theirs) →
        Alike theirs s v ∧
        (∀ a : Act, a.isTheirs theirs = false →
          (v.perform reply a).isSome = (s.perform reply a).isSome) ∧
        ∀ f waiter, (v.pool.carry f waiter).1.outgoing = (s.pool.carry f waiter).1.outgoing) ∧
    ∀ as s, Run reply (fun _ => True) (start config connection views capacity) as s →
      ∀ t id e, (t, id, .failed e) ∈ s.returns → Faulted as id e := by
  have hstart := reachable_start config connection views capacity
  refine ⟨fun as bs s v hs hv hsame => ?_, fun as s hs t id e => hs.faulted⟩
  have hrest : v.without theirs = s.without theirs := by
    have hruns := (hv.without hstart).symm.trans ((congrArg _ hsame.symm).trans (hs.without hstart))
    exact Option.some.inj hruns
  refine ⟨alike_of_without hrest, fun a ha => ?_, fun f waiter => ?_⟩
  · have hv' : ((v.without theirs).perform reply a).isSome = (v.perform reply a).isSome :=
      isSome_perform (hv.reachable hstart) ha hv.last
    rw [← hv', hrest]
    exact isSome_perform (hs.reachable hstart) ha hs.last
  · have hclean : (start config connection views capacity).pool.Clean :=
      Engine.Pool.clean_empty capacity
    rw [(hs.clean hclean).outgoing_carry, (hv.clean hclean).outgoing_carry]

/-- The connection on a stream, and no other there, is about to send its key; nothing has come
there yet. -/
def Poised (secret : Bytes) (stream : StreamId) (s : Site) : Prop :=
  s.world.server.connection = {} ∧ s.now = 0 ∧ s.world.server.shutdown.fired = false ∧
    s.dispatches stream = [] ∧
      (s.world.server.connections.filter (·.stream == stream)).map exchanged =
        [some (.start secret)]

instance (secret : Bytes) (stream : StreamId) : DecidablePred (Poised secret stream) := fun _ =>
  inferInstanceAs (Decidable (_ ∧ _ ∧ _ ∧ _ ∧ _))

/-- Such a connection serves its stream. -/
theorem Poised.serves {secret : Bytes} {stream : StreamId} (h : s.Poised secret stream)
    (hs : s.world.Reachable) (hunqueued : s.Unqueued) :
    ∃ c due d, c.stream = stream ∧ c.progress = .shaking (.start secret due) ∧
      Serves {} 0 c d [] s := by
  obtain ⟨hsettings, hnow, hrunning, hdispatches, hexchanged⟩ := h
  obtain ⟨c, hfilter, hc⟩ := List.map_eq_singleton_iff.mp hexchanged
  have hkept : ∀ k, k ∈ s.world.server.connections ∧ k.stream = stream ↔ k = c := by
    intro k
    have hmem : k ∈ s.world.server.connections.filter (·.stream == stream) ↔ k ∈ [c] := by
      rw [hfilter]
    rwa [List.mem_filter, List.mem_singleton, beq_iff_eq] at hmem
  obtain ⟨hmem, rfl⟩ := (hkept c).mpr rfl
  obtain ⟨due, hprogress⟩ := shaking_of_exchanged hc
  exact ⟨c, due, _, rfl, hprogress, hs, hsettings, hnow, hrunning, hunqueued, hmem,
    fun k hk hstream => (hkept k).mp ⟨hk, hstream⟩, rfl, hdispatches⟩

/-- Whether one act after another can be done while no stream waits for a slot, and something is
so in the end. -/
def passes (reply : Bytes → Option Bytes) (p : Site → Bool) (s : Site) : List Act → Bool
  | [] => (queued s.world.server.loops).isEmpty && p s
  | a :: as =>
    (queued s.world.server.loops).isEmpty && match s.perform reply a with
      | none => false
      | some s' => passes reply p s' as

theorem exists_run {p : Site → Bool} (h : s.passes reply p as = true) :
    ∃ s', Run reply Unqueued s as s' ∧ p s' = true := by
  induction as generalizing s with
  | nil =>
    obtain ⟨hfirst, hp⟩ := Bool.and_eq_true_iff.mp h
    exact ⟨s, .nil (List.isEmpty_iff.mp hfirst), hp⟩
  | cons a as ih =>
    obtain ⟨hfirst, hrest⟩ := Bool.and_eq_true_iff.mp h
    cases hact : s.perform reply a with
    | none =>
      rw [hact] at hrest
      cases hrest
    | some next =>
      rw [hact] at hrest
      obtain ⟨s', hrun, hp⟩ := ih hrest
      exact ⟨s', .cons (List.isEmpty_iff.mp hfirst) hact hrun, hp⟩

/-- A server takes two streams, something is done on the first, and the connection on the second
is about to send its key. -/
def twoStreams (acts : List Act) : List Act :=
  [.serve 0 "a", .offer "a" 7, .loop 0, .loop 0, .loop 0, .loop 0,
    .offer "a" 8, .loop 0, .loop 0, .loop 0, .loop 0] ++ acts ++ [.begin 8 [1]]

/-- A key and a message have come from the far end. -/
def spoken (key : SessionKey) : Duplex where
  outgoing := { capacity := 64 }
  incoming := {
    capacity := 64
    held := Bytes.ofNatLE Exchange.keyLength 9 ++ wire key .clientToServer 0 [⟨0, [1]⟩] }

/-- They come on the second stream, and the connection there takes its steps. -/
def hearing (key : SessionKey) (n : Nat) : List Act :=
  .far 8 (fun _ => spoken key) ::
    (List.replicate 5 (.handshake 8) ++ List.replicate n (.engine 8 .read []))

/-- That one hangs up is not noticed on the other stream, on which a message comes either way; that
the listener breaks is, by its loop. -/
theorem hangUp_is_not_noticed :
    (∃ key n s v, Exchange.agree .server [1] (Bytes.ofNatLE Exchange.keyLength 9) = .ok key ∧
      Run (fun _ => none) Unqueued (start {} {} (fun _ => .ofCapacity 0) 0)
        (twoStreams [.far 7 .hangUp, .begin 7 [], .handshake 7] ++ hearing key n) s ∧
      Run (fun _ => none) Unqueued (start {} {} (fun _ => .ofCapacity 0) 0)
        (twoStreams [] ++ hearing key n) v ∧
      Alike (· == 7) s v ∧ s.dispatches 8 = [(0, ⟨0, [1]⟩)] ∧ v.dispatches 8 = [(0, ⟨0, [1]⟩)]) ∧
    ∃ s, Run (fun _ => none) (fun _ => True) (start {} {} (fun _ => .ofCapacity 0) 0)
        [.serve 0 "a", .fault "a" .brokenPipe, .loop 0] s ∧
      (0, 0, .failed (.io .brokenPipe)) ∈ s.returns ∧
      Faulted [.serve 0 "a", .fault "a" .brokenPipe, .loop 0] 0 (.io .brokenPipe) := by
  constructor
  · obtain ⟨key, hagree⟩ := Shaking.exists_agreed .server
    obtain ⟨n, hn⟩ := exists_heard (f := ⟨0, [1]⟩) {} (fun _ => none) 0 64
      (Bytes.length_ofNatLE ..) hagree rfl (by decide : Exchange.keyLength ≤ 64) (spellable_byte 1)
      rfl rfl
    have hheard : ∀ acts, (start {} {} (fun _ => .ofCapacity 0) 0).passes (fun _ => none)
        (fun s => decide (s.Poised [1] 8)) (twoStreams acts) = true →
        ∃ s, Run (fun _ => none) Unqueued (start {} {} (fun _ => .ofCapacity 0) 0)
          (twoStreams acts ++ hearing key n) s ∧ s.dispatches 8 = [(0, ⟨0, [1]⟩)] := by
      intro acts hpasses
      obtain ⟨s, hrun, hpoised⟩ := exists_run hpasses
      obtain ⟨c, due, d, hstream, hc, hserves⟩ :=
        (of_decide_eq_true hpoised).serves (hrun.reachable (reachable_start ..)) hrun.last
      obtain ⟨s', hrun', hdispatches⟩ := hn s c due d [] hc hserves
      rw [hstream] at hrun' hdispatches
      exact ⟨s', hrun.append hrun', hdispatches⟩
    obtain ⟨s, hs, hsays⟩ :=
      hheard [.far 7 .hangUp, .begin 7 [], .handshake 7] (by decide +kernel)
    obtain ⟨v, hv, hvsays⟩ := hheard [] (by decide +kernel)
    have hsame := ((connections_are_isolated _ (· == 7) _ _ _ _).1 _ _ s v hs hv
      (by rw [List.filter_append, List.filter_append]; rfl)).1
    exact ⟨key, n, s, v, hagree, hs, hv, hsame, hsays, hvsays⟩
  · obtain ⟨s, hrun, hreturns⟩ : ∃ s, Run (fun _ => none) (fun _ => True)
          (start {} {} (fun _ => .ofCapacity 0) 0)
          [.serve 0 "a", .fault "a" .brokenPipe, .loop 0] s ∧
        (0, 0, .failed (.io .brokenPipe)) ∈ s.returns :=
      ⟨_, .cons trivial rfl (.cons trivial rfl (.cons trivial rfl (.nil trivial))),
        List.mem_singleton.mpr rfl⟩
    exact ⟨s, hrun, hreturns,
      (connections_are_isolated _ (· == 7) _ _ _ _).2 _ s hrun _ _ _ hreturns⟩

end Site
end Parley.Server
