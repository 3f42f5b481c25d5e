import Parley.Proofs.Channel.Handshaking
import Parley.Proofs.Network.Errand
import Parley.Proofs.Network.Moving

/-! The end of a command-line call.

Once the client's drive is over, the call waits for the end of its connection, shuts its client
down and returns (`until_closing`, `until_leaving`). Nothing that others do keeps it from this. -/
namespace Parley
open Channel

/-! ### What others cannot change -/

namespace Sim.Network
variable {own : CallId} {n n' : Network} {t : Task}

theorem exists_bound {α : Type} {P : α → Nat → Prop} (xs : List α)
    (h : ∀ x ∈ xs, ∃ b : Nat, ∀ i : Nat, b ≤ i → P x i) :
    ∃ b : Nat, ∀ i : Nat, b ≤ i → ∀ x ∈ xs, P x i := by
  induction xs with
  | nil => exact ⟨0, by simp⟩
  | cons x xs ih =>
    obtain ⟨b, hb⟩ := h x List.mem_cons_self
    obtain ⟨b', hb'⟩ := ih fun y hy => h y (List.mem_cons_of_mem x hy)
    refine ⟨b + b', fun i hi => List.forall_mem_cons.mpr ⟨hb i (by omega), hb' i (by omega)⟩⟩

theorem exists_ne (x : StreamId) : ∃ b : Nat, ∀ i : Nat, b ≤ i → x ≠ i :=
  ⟨x + 1, fun _ hi => Nat.ne_of_lt hi⟩

theorem exists_lacks (c : Client) : ∃ b : Nat, ∀ i : Nat, b ≤ i → c.Lacks i := by
  obtain ⟨b, hb⟩ := exists_bound (P := fun (d : Client.Dial) i => d.stage.stream? ≠ some i) c.dials
    fun d _ => by
      cases d.stage.stream? with
      | none => exact ⟨0, by simp⟩
      | some x =>
        obtain ⟨b, hb⟩ := exists_ne x
        exact ⟨b, fun i hi heq => hb i hi (Option.some.inj heq)⟩
  obtain ⟨b', hb'⟩ := exists_bound (P := fun (k : Client.Connection) i => k.stream ≠ i)
    c.connections fun k _ => exists_ne k.stream
  exact ⟨b + b', fun i hi => ⟨hb i (by omega), hb' i (by omega)⟩⟩

/-- Nobody holds a stream of a large number. -/
theorem exists_apart (own : CallId) (n : Network) :
    ∃ b : Nat, ∀ i : Nat, b ≤ i → n.Apart own .nowhere i := by
  obtain ⟨b₁, h₁⟩ := exists_lacks n.client
  obtain ⟨b₂, h₂⟩ := exists_bound (P := fun (r : Running) i => r.script.client.Lacks i) n.scripts
    fun r _ => exists_lacks _
  obtain ⟨b₃, h₃⟩ := exists_bound (P := fun (p : Plain) i => p.stream ≠ i) n.plains
    fun p _ => exists_ne p.stream
  obtain ⟨b₄, h₄⟩ := exists_bound (P := fun (l : Server.Loop) i => i ∉ l.streams) n.server.loops
    fun l _ => by
      obtain ⟨b, hb⟩ := exists_bound (P := fun (x : StreamId) i => x ≠ i) l.streams
        fun x _ => exists_ne x
      exact ⟨b, fun i hi hmem => hb i hi i hmem rfl⟩
  obtain ⟨b₅, h₅⟩ := exists_bound (P := fun (c : Server.Connection) i => c.stream ≠ i)
    n.server.connections fun c _ => exists_ne c.stream
  exact ⟨b₁ + b₂ + b₃ + b₄ + b₅, fun i hi => ⟨h₁ i (by omega),
    fun r hr _ => h₂ i (by omega) r hr, h₃ i (by omega),
    ⟨fun l hl _ => h₄ i (by omega) l hl, fun c hc _ => h₅ i (by omega) c hc⟩⟩⟩

/-- **No other task touches the call's script.** -/
theorem running_step (ht : t.client? ≠ some (.script own)) (h : step t n = some n') :
    n'.running? own = n.running? own := by
  obtain ⟨b, hb⟩ := exists_apart own n
  refine (Beside.step (hb (b + n'.links.length) (by omega)) ?_ (.inr (by omega)) h).running
  rintro (hc | ⟨-, hne⟩)
  · exact ht hc
  · exact hne rfl

end Sim.Network

namespace Sim.Network.Watch
variable {own : CallId} {u v : Watch} {t : Task} {n : Network}

/-- The call's own tasks. -/
abbrev mine (own : CallId) (t : Task) : Prop := t.client? = some (.script own)

theorem after_of_not_mine (h : ¬ mine own t) : u.after own t n = { u with network := n } := if_neg h

/-- What one of the call's own steps adds. -/
theorem after_of_mine (h : mine own t) {printed : List String} {reports : List (CallId × Report)}
    {new took : StreamId → Bytes} (hprinted : n.printed = u.network.printed ++ printed)
    (hreports : n.reports = u.network.reports ++ reports)
    (hsent : ∀ s, (n.view s true).outgoing.held = (u.network.view s true).outgoing.held ++ new s)
    (htook : ∀ s, (u.network.view s true).incoming.held = took s ++ (n.view s true).incoming.held) :
    u.after own t n =
      { network := n
        printed := u.printed ++ printed
        reports := u.reports ++ reports
        sent := fun s => u.sent s ++ new s
        taken := fun s => u.taken s ++ took s } := by
  rw [after, if_pos h, hprinted, hreports, List.drop_left, List.drop_left]
  congr
  · funext s
    rw [hsent, List.drop_left]
  · funext s
    rw [htook, List.length_append, Nat.add_sub_cancel_right, List.take_left]

/-- Others leave the script of the call as it is, and all that it did. -/
theorem others_running {calm : Network → Prop} (h : Others own calm (mine own) u v) :
    v.network.running? own = u.network.running? own ∧ v.printed = u.printed ∧
      v.reports = u.reports ∧ v.sent = u.sent ∧ v.taken = u.taken := by
  induction h with
  | refl => exact ⟨rfl, rfl, rfl, rfl, rfl⟩
  | @tail v w _ hstep ih =>
    obtain ⟨-, t, hnone, hstep⟩ := hstep
    cases hstep with
    | passes => exact ih
    | @task t n hn =>
      have ht : ¬ mine own t := hnone t rfl
      rw [after_of_not_mine ht]
      exact ⟨(running_step ht hn).trans ih.1, ih.2⟩

end Sim.Network.Watch

/-! ### After the drive -/

/-- An engine that has no drive and no calls only takes note of what it is owed. -/
theorem Engine.undriven_step {e e' : Engine} {env : Engine.Env} {t : Engine.Task} {d d' : Duplex}
    {events : List Engine.Event} (hdrive : e.drive = none) (hcalls : e.calls = [])
    (h : e.step env t d = some (e', d', events)) :
    0 < e.owed ∧ e' = { e with owed := e.owed - 1, notified := true } ∧ d' = d ∧ events = [] := by
  cases t with
  | notify =>
    have h : e.stepNotify d = some (e', d', events) := h
    unfold Engine.stepNotify at h
    split at h
    · cases h
    · rename_i howed
      cases h
      exact ⟨Nat.pos_of_ne_zero howed, rfl, rfl, rfl⟩
  | call id => simp [Engine.step, Engine.stepCall, hcalls] at h
  | cancel => simp [Engine.step, Engine.stepCancel, hdrive] at h
  | read => simp [Engine.step, Engine.stepRead, hdrive] at h
  | write => simp [Engine.step, Engine.stepWrite, hdrive] at h
  | close => simp [Engine.step, Engine.stepClose, hdrive] at h

/-! ### A call of the command line -/

/-- A call of the command line: its name, and what it is asked to do. -/
structure Errand where
  own : CallId
  config : Config
  notify : Bool
  message : String

namespace Errand
open Sim Network

variable (j : Errand)

def payload : Bytes := Utf8.encode j.message

/-- What the call asks of its engine, by a deadline. -/
def query (due : Nat) : Engine.Query :=
  if j.notify then .message j.own j.payload
  else .request j.own j.payload j.config.connection.maxRead due

/-- What the call prints. -/
def answer : List String := if j.notify then [] else [j.message]

/-- The call where its script is at this stage with this client. -/
def running (stage : Client.Script.Stage) (client : Client) : Running where
  script :=
    { id := j.own
      notify := j.notify
      message := j.message
      requestTimeout := j.config.connection.requestTimeout
      stage
      client }

/-- The client with nothing but one connection. -/
def engaged (k : Client.Connection) (tracker : Tracker) (admission : Admission)
    (shutdown : Shutdown) (idling : List CallId) : Client :=
  { Client.create j.config.client j.config.connection with
    tracker, admission, shutdown, idling
    connections := [k] }

/-- On one stream the call has sent a public key, and the message in a frame of its own, under the
session key of whoever has sent it a public key there; it has sent nothing else. -/
def Sends (sent taken : StreamId → Bytes) : Prop :=
  ∃ stream secret secret', Crypto.X25519.publicKey secret' <+: taken stream ∧
    sent = fun s => if s = stream then
      Crypto.X25519.publicKey secret ++
        wire (Exchange.sessionKey .server secret' (Crypto.X25519.publicKey secret)) .clientToServer
          0 [⟨if j.notify then 0 else 1, j.payload⟩]
      else []

/-- The call is over: it has returned without an error and printed the answer, and its client has
nothing left. -/
structure Over (u : Watch) : Prop where
  ended : ∃ r, u.network.running? j.own = some r ∧ r.ended = true ∧ r.script.client.active = 0 ∧
    ∀ k ∈ r.script.client.connections, k.result.isSome = true
  reports : u.reports = [(j.own, .outcome .done)]
  printed : u.printed = j.answer
  sent : j.Sends u.sent u.taken

/-- The call has not returned, and has printed nothing but the answer. -/
structure Pending (u : Watch) : Prop where
  reports : u.reports = []
  printed : u.printed = [] ∨ u.printed = j.answer

variable {j}

/-! ### After the drive -/

/-- The connection when its drive has ended well; the call waits for the end of it, or leaves. -/
def parted (j : Errand) (leaving : Bool) (s : StreamId) (e : Engine) : Client.Connection where
  id := j.own
  stream := s
  engine := e
  own := { fired := true }
  held := false
  awaiting := if leaving then none else some j.own
  result := some (.ok ())

/-- The call when the drive of its connection has ended well. -/
structure Parts (j : Errand) (leaving : Bool) (e : Engine) (u : Watch) : Prop where
  running : ∃ s tracker admission, tracker.active = 0 ∧ u.network.running? j.own = some
    (j.running (if leaving then .leaving else .closing) (j.engaged (j.parted leaving s e) tracker
      admission { fired := leaving } (if leaving then [j.own] else [])))
  drive : e.drive = none
  calls : e.calls = []
  reports : u.reports = []
  printed : u.printed = j.answer
  sent : j.Sends u.sent u.taken

variable {leaving : Bool} {e : Engine} {u v w : Watch} {t : Task} {calm : Network → Prop}

theorem Parts.others (h : j.Parts leaving e u)
    (hothers : Watch.Others j.own calm (Watch.mine j.own) u v) : j.Parts leaving e v := by
  obtain ⟨hrunning, hprinted, hreports, hsent, htaken⟩ := Watch.others_running hothers
  refine ⟨?_, h.drive, h.calls, hreports.trans h.reports, hprinted.trans h.printed,
    hsent ▸ htaken ▸ h.sent⟩
  rw [hrunning]
  exact h.running

theorem Parts.pending (h : j.Parts leaving e u) : j.Pending u := ⟨h.reports, .inr h.printed⟩

theorem clientAt_running {n : Network} {stage : Client.Script.Stage} {c : Client}
    (h : n.running? j.own = some (j.running stage c)) :
    n.clientAt (.script j.own) = some c := by
  show (n.running? j.own).map _ = some c
  rw [h]
  rfl

theorem find_engaged {k : Client.Connection} {tracker : Tracker} {admission : Admission}
    {shutdown : Shutdown} {idling : List CallId} {id : CallId} {x : Client.Connection}
    (h : (j.engaged k tracker admission shutdown idling).connections.find? (·.id == id) = some x) :
    x = k ∧ k.id = id := by
  obtain ⟨hmem, hid⟩ := Keyed.mem_of_find? (k := Client.Connection.id) h
  obtain rfl := List.mem_singleton.mp hmem
  exact ⟨rfl, hid⟩

theorem setConnection_engaged (k k' : Client.Connection) (hid : k.id = k'.id) (tracker : Tracker)
    (admission : Admission) (shutdown : Shutdown) (idling : List CallId) :
    (j.engaged k tracker admission shutdown idling).setConnection k' =
      j.engaged k' tracker admission shutdown idling := by
  simp [Client.setConnection, engaged, hid]

/-- What a step that touches no stream adds. -/
theorem of_moved {P : Watch → Prop} {n : Network} {r : Running} {printed : List String}
    {reports : List (CallId × Report)} (ht : Watch.mine j.own t)
    (h : Moved j.own u.network n r printed reports)
    (hP : P { network := n
              printed := u.printed ++ printed
              reports := u.reports ++ reports
              sent := u.sent
              taken := u.taken }) : P (u.after j.own t n) := by
  have hview : ∀ s, n.view s true = u.network.view s true := fun s => by
    rw [view, view, h.links]
  rw [Watch.after_of_mine ht h.printed h.reports
    (fun s => by rw [hview, List.append_nil] : ∀ s, _ = _ ++ (fun _ => []) s)
    (fun s => by rw [hview, List.nil_append] : ∀ s, _ = (fun _ => []) s ++ _)]
  simpa only [List.append_nil] using hP

/-- The call moves on when a call of its client has returned. -/
theorem moved_running {n : Network} {stage stage' : Client.Script.Stage} {c c' client : Client}
    {all events : List Event} {ev : Event} {o : Engine.Outcome} {out : Client.Script.Output}
    (h : n.running? j.own = some (j.running stage c)) (hall : all = events ++ [ev])
    (hevents : ∀ x ∈ events, x.isPlain = true) (hev : outcome? ev = some o)
    (hnext : (j.running stage c').script.next n.now o =
      ((j.running stage' client).script, [], out)) :
    Moved j.own n (n.clientDid (.script j.own) (c', all))
      { j.running stage' client with ended := out.result.isSome } out.printed.toList
      (out.result.toList.map fun result => (j.own, .outcome (.ofResult result))) := by
  rw [hall]
  exact moved_clientDid_returned h rfl hevents hev hnext

/-- A call that returns outside of an engine. -/
theorem moved_returned {n : Network} {stage stage' : Client.Script.Stage} {c c' client : Client}
    {o : Engine.Outcome} {out : Client.Script.Output}
    (h : n.running? j.own = some (j.running stage c))
    (hnext : (j.running stage c').script.next n.now o =
      ((j.running stage' client).script, [], out)) :
    Moved j.own n (n.clientDid (.script j.own) (c', [.returned j.own o]))
      { j.running stage' client with ended := out.result.isSome } out.printed.toList
      (out.result.toList.map fun result => (j.own, .outcome (.ofResult result))) :=
  moved_running h (List.nil_append _).symm (fun _ hx => absurd hx List.not_mem_nil) rfl hnext

variable {s : StreamId} {tracker : Tracker} {admission : Admission} {shutdown : Shutdown}
  {idling : List CallId} {id : CallId} {c : Client} {events : List Event}

theorem stepRelay_parted :
    (j.engaged (j.parted leaving s e) tracker admission shutdown idling).stepRelay id = none := by
  unfold Client.stepRelay
  split
  · rfl
  · rename_i k hk
    obtain ⟨rfl, -⟩ := find_engaged hk
    rfl

theorem stepEnd_parted (h : (j.engaged (j.parted leaving s e) tracker admission shutdown idling).stepEnd
      id = some (c, events)) :
    leaving = false ∧ c = j.engaged (j.parted true s e) tracker admission shutdown idling ∧
      events = [.returned j.own .done] := by
  unfold Client.stepEnd at h
  split at h
  · cases h
  · rename_i k hk
    obtain ⟨rfl, -⟩ := find_engaged hk
    cases leaving with
    | true => cases h
    | false =>
      cases h
      exact ⟨rfl, setConnection_engaged (j.parted false s e) (j.parted true s e) rfl .., rfl⟩

theorem stepIdle_engaged {k : Client.Connection}
    (h : (j.engaged k tracker admission shutdown idling).stepIdle id = some (c, events)) :
    id ∈ idling ∧ c = j.engaged k tracker admission shutdown (idling.filter (· != id)) ∧
      events = [.returned id .done] := by
  unfold Client.stepIdle at h
  split at h
  · rename_i hidle
    cases h
    exact ⟨List.contains_iff_mem.mp (Bool.and_eq_true_iff.mp hidle).1, rfl, rfl⟩
  · cases h

theorem stepEngine_parted {env : Client.Env} {t : Engine.Task} {d d' : Duplex}
    (hdrive : e.drive = none) (hcalls : e.calls = [])
    (h : (j.engaged (j.parted leaving s e) tracker admission shutdown idling).stepEngine env id t d =
      some (c, d', events)) :
    ∃ e' : Engine, e'.owed < e.owed ∧ e'.drive = none ∧ e'.calls = [] ∧ d' = d ∧ events = [] ∧
      c = j.engaged (j.parted leaving s e') tracker admission shutdown idling := by
  unfold Client.stepEngine at h
  split at h
  · cases h
  · rename_i k hk
    obtain ⟨rfl, -⟩ := find_engaged hk
    split at h
    · cases h
    · rename_i e' d'' events' hstep
      obtain ⟨howed, rfl, rfl, rfl⟩ := Engine.undriven_step hdrive hcalls hstep
      cases h
      exact ⟨{ e with owed := e.owed - 1, notified := true }, Nat.sub_lt howed Nat.one_pos, hdrive,
        hcalls, rfl, rfl, setConnection_engaged (j.parted leaving s e) (j.parted leaving s
          { e with owed := e.owed - 1, notified := true }) rfl ..⟩

theorem links_setView_view (n : Network) (s : StreamId) :
    (n.setView s true (n.view s true)).links = n.links := by
  simp only [setView, view, if_pos, List.getD_eq_getElem?_getD]
  refine List.ext_getElem? fun i => ?_
  by_cases hi : s = i
  · subst hi
    by_cases hs : s < n.links.length
    · simp [hs]
    · simp [hs]
  · rw [List.getElem?_set_ne hi]

/-- What a step of the call's own comes to once its drive has ended. -/
theorem Parts.step (h : j.Parts leaving e u) (ht : Watch.mine j.own t)
    (hstep : Watch.Step j.own u (some t) w) :
    (∃ e', e'.owed < e.owed ∧ j.Parts leaving e' w) ∨
      (leaving = false ∧ j.Parts true e w) ∨ leaving = true ∧ j.Over w := by
  obtain ⟨s, tracker, admission, hactive, hrunning⟩ := h.running
  cases hstep with | @task _ n hn => ?_
  cases clientStepped_of_step (clientAt_running hrunning) ht hn with
  | waits _ hs => cases hs
  | refused hdialing | dials hdialing => cases hdialing
  | handshake hx => exact absurd hx List.not_mem_nil
  | @engine _ _ k _ _ _ _ hs =>
    obtain ⟨e', howed, hdrive, hcalls, rfl, rfl, rfl⟩ := stepEngine_parted h.drive h.calls hs
    have hset : Moved j.own u.network
        (u.network.setView k.stream true (u.network.view k.stream true)) _ [] [] :=
      moved_same hrunning rfl rfl (links_setView_view ..) rfl (List.append_nil _).symm
        (List.append_nil _).symm
    have hmoved := hset.trans (moved_clientDid hset.running (j.engaged (j.parted leaving s e')
      tracker admission { fired := leaving } (if leaving then [j.own] else []))
      fun _ hx => absurd hx List.not_mem_nil)
    refine .inl ⟨e', howed, of_moved ht hmoved ?_⟩
    exact ⟨⟨s, tracker, admission, hactive, hmoved.running⟩, hdrive, hcalls,
      (List.append_nil _).trans h.reports, (List.append_nil _).trans h.printed, h.sent⟩
  | relay hs =>
    rw [stepRelay_parted] at hs
    cases hs
  | ends hs =>
    obtain ⟨rfl, rfl, rfl⟩ := stepEnd_parted hs
    have hnext :
        (j.running .closing (j.engaged (j.parted true s e) tracker admission {} [])).script.next
          u.network.now .done = ((j.running .leaving (j.engaged (j.parted true s e) tracker admission
          { fired := true } [j.own])).script, [], {}) := rfl
    have hmoved := moved_returned hrunning hnext
    refine .inr (.inl ⟨rfl, of_moved ht hmoved ?_⟩)
    exact ⟨⟨s, tracker, admission, hactive, hmoved.running⟩, h.drive, h.calls,
      (List.append_nil _).trans h.reports, (List.append_nil _).trans h.printed, h.sent⟩
  | idle hs =>
    obtain ⟨hid, rfl, rfl⟩ := stepIdle_engaged hs
    cases leaving with
    | false => cases hid
    | true =>
      obtain rfl := List.mem_singleton.mp hid
      have hnext : (j.running .leaving (j.engaged (j.parted true s e) tracker admission
          { fired := true } ([j.own].filter (· != j.own)))).script.next u.network.now .done =
          ((j.running .leaving (j.engaged (j.parted true s e) tracker admission
            { fired := true, dropped := true } ([j.own].filter (· != j.own)))).script, [],
            { result := some (.ok ()) }) := rfl
      have hmoved := moved_returned hrunning hnext
      refine .inr (.inr ⟨rfl, of_moved ht hmoved ?_⟩)
      refine ⟨⟨_, hmoved.running, rfl, hactive, ?_⟩, ?_, (List.append_nil _).trans h.printed,
        h.sent⟩
      · intro k hk
        obtain rfl := List.mem_singleton.mp hk
        rfl
      · rw [h.reports]
        rfl

/-- The call's next step: its connection has ended, or its client is idle. -/
def last (j : Errand) (leaving : Bool) : Task :=
  if leaving then .clientIdle (.script j.own) j.own else .connectionEnd (.script j.own) j.own

theorem Parts.ready (h : j.Parts leaving e u) : Network.step (j.last leaving) u.network ≠ none := by
  obtain ⟨s, tracker, admission, hactive, hrunning⟩ := h.running
  have hclient := clientAt_running hrunning
  cases leaving with
  | false =>
    simp [last, Network.step, onClient, hclient, Client.stepEnd, engaged, parted]
  | true =>
    simp [last, Network.step, onClient, hclient, Client.stepIdle, engaged, Tracker.isIdle, hactive]

/-- How far a call is whose drive has ended. -/
def remaining : Bool × Engine → Nat × Nat
  | (leaving, e) => ((!leaving).toNat, e.owed)

/-- **Once its drive has ended well, the call returns.** -/
theorem Parts.until (h : j.Parts leaving e u) :
    Watch.Until j.own calm j.Pending j.Over u := by
  have hwf : WellFounded (InvImage (Prod.Lex (· < ·) (· < ·)) remaining) :=
    InvImage.wf _ (Prod.lex Nat.lt_wfRel Nat.lt_wfRel).wf
  refine Watch.until_of_measure hwf (fun p u => j.Parts p.1 p.2 u)
    (fun _ => Watch.mine j.own) (fun p u v h hv => h.others hv) (fun p u h => h.pending)
    (fun p u h _ => ⟨j.last p.1, ?_, fun v hv _ => hv.ready⟩) (fun p u v t h _ ht hstep => ?_)
    (a := (leaving, e)) h
  · obtain ⟨leaving, e⟩ := p
    cases leaving <;> rfl
  · obtain ⟨leaving, e⟩ := p
    rcases h.step ht hstep with ⟨e', hlt, hv⟩ | ⟨rfl, hv⟩ | ⟨-, hv⟩
    · exact .inl ⟨(leaving, e'), .right _ hlt, hv⟩
    · exact .inl ⟨(true, e), .left _ _ Nat.zero_lt_one, hv⟩
    · exact .inr (.done hv)

end Errand
end Parley
