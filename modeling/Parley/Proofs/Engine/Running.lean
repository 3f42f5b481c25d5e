import Parley.Proofs.Channel.Opening
import Parley.Proofs.Engine.Sending

/-! What undisturbed engines do.

An engine that looks at its queue while nothing is in its way sends the frames it finds there
(`sends`), and waits when there are none (`settles`); one that finds a sealed frame in its pipe
receives it (`receives`). Once it is cancelled and has nothing left to send, it comes to an end
(`ends`). -/
namespace Parley.Engine
open Channel

variable {key : SessionKey} {role : Role} {env : Env} {s s' : Site} {e : Engine} {d : Duplex}
  {events : List Event}

/-- Things happen at a site one after another, in the same surroundings. -/
abbrev Moves (key : SessionKey) (role : Role) (env : Env) : Site → Site → Prop :=
  Relation.ReflTransGen (Move key role env)

/-! ### Parts of longer runs -/

theorem World.leads (w : World) (h : Moves key role env w.toSite s) :
    World.Leads key role w { w with toSite := s } := by
  induction h with
  | refl => exact .refl
  | tail _ hmove ih => exact ih.tail (.near hmove)

/-- A step by which no frame is accepted; with the bytes that it reads. -/
theorem Move.of_step (t : Task) (events : List Event)
    (h : s.engine.step env t s.stream = some (e, d, events))
    (hqueue : e.queue.length ≤ s.engine.queue.length) {bs : Bytes}
    (hbs : bs ++ d.incoming.held = s.stream.incoming.held) :
    Move key role env s
      ⟨e, d, events.foldl Log.note { s.log with taken := s.log.taken ++ bs }⟩ := by
  have hafter : s.after e d events =
      ⟨e, d, events.foldl Log.note { s.log with taken := s.log.taken ++ bs }⟩ := by
    simp only [Site.after, Site.logged, Site.gone_eq hbs, List.drop_eq_nil_of_le hqueue,
      List.append_nil]
  rw [← hafter]
  exact .step h

/-- A step by which no frame is accepted and no byte read. -/
theorem Move.of_quiet (t : Task) (events : List Event)
    (h : s.engine.step env t s.stream = some (e, d, events))
    (hqueue : e.queue.length ≤ s.engine.queue.length)
    (hheld : d.incoming.held = s.stream.incoming.held) :
    Move key role env s ⟨e, d, events.foldl Log.note s.log⟩ := by
  have hmove : Move key role env s
      ⟨e, d, events.foldl Log.note { s.log with taken := s.log.taken ++ [] }⟩ :=
    .of_step t events h hqueue hheld
  rwa [List.append_nil] at hmove

/-! ### Sending -/

/-- The site in the middle of writing a batch. -/
def Site.amid (s : Site) (r : Drive) (out : Pipe) : Site where
  engine := { s.engine with queue := [], drive := some r }
  stream := { s.stream with outgoing := out }
  log := s.log

/-- These frames are handed to the stream. -/
def Site.wrote (s : Site) (os : List Outgoing) : Site :=
  { s with
    engine := s.engine.completeAll os true
    log := { s.log with written := s.log.written ++ os } }

section
variable {r : Drive} {o : Outgoing} {os : List Outgoing} {out out' : Pipe} {sealer sealer' : Sealer}
  {job job' : Sealer.Job} {due count : Nat} {fs : List Frame}

theorem takesBatch (hr : s.engine.drive = some r) (hw : r.writing = .looking)
    (hqueue : s.engine.queue ≠ []) :
    Move key role env s (s.amid { r with
      writing := .next s.engine.queue s.engine.queue.length } s.stream.outgoing) := by
  refine Move.of_quiet .write [] ?_ (Nat.zero_le _) rfl
  simp [step, stepWrite, hr, hw, takeBatch, hqueue, driving]

theorem begins (h : sealer.write o.frame = .ok (job, sealer')) :
    Move key role env (s.amid { r with sealer, writing := .next (o :: os) count } out)
      (s.amid { r with
        sealer := sealer'
        writing := .writing job (s.engine.writeDue env.now) o os count } out) := by
  refine Move.of_quiet .write [] ?_ (Nat.zero_le _) rfl
  simp [step, stepWrite, Site.amid, startFrame, h, driving, writeDue]

theorem places (h : sealer.advance job out = some (.ok (some job', sealer', out'))) :
    Move key role env (s.amid { r with sealer, writing := .writing job due o os count } out)
      (s.amid { r with sealer := sealer', writing := .writing job' due o os count } out') := by
  refine Move.of_quiet .write [] ?_ (Nat.zero_le _) rfl
  simp [step, stepWrite, Site.amid, h, driving]

theorem placesLast (h : sealer.advance job out = some (.ok (none, sealer', out'))) :
    Move key role env (s.amid { r with sealer, writing := .writing job due o os count } out)
      ((s.wrote [o]).amid { r with sealer := sealer', writing := .next os count } out') := by
  refine Move.of_quiet .write [.written o] ?_ (Nat.zero_le _) rfl
  simp only [step, stepWrite, Site.amid, Site.wrote, h, driving, complete_eq, completeAll_eq, tell]
  cases ho : o.waiter <;> simp [ho]

theorem endsBatch :
    Move key role env (s.amid { r with sealer, writing := .next [] count } out)
      (s.amid { r with
        sealer, writing := .flushing (s.engine.writeDue env.now) count } out) := by
  refine Move.of_quiet .write [] ?_ (Nat.zero_le _) rfl
  simp [step, stepWrite, Site.amid, startFrame, driving, writeDue]

theorem flushes (h : sealer.advance .flushing out = some (.ok (some job, sealer', out'))) :
    Move key role env (s.amid { r with sealer, writing := .flushing due count } out)
      (s.amid { r with sealer := sealer', writing := .flushing due count } out') := by
  refine Move.of_quiet .write [] ?_ (Nat.zero_le _) rfl
  simp [step, stepWrite, Site.amid, h, driving]

theorem flushesLast (h : sealer.advance .flushing out = some (.ok (none, sealer', out'))) :
    Move key role env (s.amid { r with sealer, writing := .flushing due count } out)
      (s.amid { r with sealer := sealer', writing := .looking } out') := by
  refine Move.of_quiet .write [.sent count] ?_ (Nat.zero_le _) rfl
  simp [step, stepWrite, Site.amid, h, driving]

/-- A call that runs to its end while nobody reads. -/
theorem places_of_runs {bs : Bytes} (h : Sealer.Runs job sealer out bs sealer' out')
    (hbs : bs = []) :
    Moves key role env (s.amid { r with sealer, writing := .writing job due o os count } out)
      ((s.wrote [o]).amid { r with sealer := sealer', writing := .next os count } out') := by
  induction h with
  | done h => exact .single (placesLast h)
  | step h _ ih => exact .head (places h) (ih hbs)
  | @taken job sealer p p' bs bs' _ _ max h _ ih =>
    obtain ⟨rfl, hrest⟩ := List.append_eq_nil_iff.mp hbs
    have hsame : p' = p := by
      obtain ⟨-, rfl, -⟩ := Pipe.pull_eq_some h
      have hheld : p.held.drop max = p.held := Pipe.pull_conserves h
      simp only [hheld]
    rw [← hsame]
    exact ih hrest

theorem wrote_wrote (s : Site) (os os' : List Outgoing) :
    (s.wrote os).wrote os' = s.wrote (os ++ os') := by
  simp only [Site.wrote, completeAll, List.foldl_append, List.append_assoc]

theorem wrote_nil (s : Site) : s.wrote [] = s := by
  simp only [Site.wrote, completeAll, List.foldl_nil, List.append_nil]

theorem writes_of_writes {bs : Bytes} (h : Sealer.Writes fs sealer out bs sealer' out')
    (hbs : bs = []) (hos : frames os = fs) :
    Moves key role env (s.amid { r with sealer, writing := .next os count } out)
      ((s.wrote os).amid { r with sealer := sealer', writing := .next [] count } out') := by
  induction h generalizing s os with
  | nil =>
    obtain rfl := List.map_eq_nil_iff.mp hos
    rw [wrote_nil]
  | cons hwrite hrun _ ih =>
    obtain ⟨o, os, rfl, rfl, rfl⟩ := List.map_eq_cons_iff.mp hos
    obtain ⟨hfirst, hrest⟩ := List.append_eq_nil_iff.mp hbs
    have hnext := ih (s := s.wrote [o]) hrest rfl
    rw [wrote_wrote, List.singleton_append] at hnext
    exact .head (begins hwrite) ((places_of_runs hrun hfirst).trans hnext)

/-- With room in the pipe, a flush hands over what is in the buffer. -/
theorem flushes_all (hopen : out.closed = false)
    (hroom : out.held.length + sealer.outlet.held.length ≤ out.capacity) :
    Moves key role env (s.amid { r with sealer, writing := .flushing due count } out)
      (s.amid { r with sealer := { sealer with outlet := sealer.outlet.keep [] }, writing := .looking }
        { out with held := out.held ++ sealer.outlet.held }) := by
  by_cases hempty : sealer.outlet.held = []
  · have hkeep : sealer.outlet.keep [] = sealer.outlet := Outlet.eq_of_empty rfl hempty rfl
    rw [hkeep, hempty, List.append_nil]
    exact .single (flushesLast (by rw [Sealer.advance, if_pos hempty]))
  · have hdrain : sealer.advance .flushing out =
        some (.ok (some .flushing, { sealer with outlet := sealer.outlet.keep [] },
          { out with held := out.held ++ sealer.outlet.held })) := by
      rw [Sealer.advance, if_neg hempty, Sealer.drainFor, Outlet.drain,
        Pipe.push_of_fits hopen hempty (by rw [Pipe.room]; omega)]
      rfl
    exact .head (flushes hdrain) (.single (flushesLast rfl))

/-- The whole queue is handed over, in these bytes. -/
def Site.sent (s : Site) (r : Drive) (bytes : Bytes) : Site :=
  (s.wrote s.engine.queue).amid
    { r with sealer := { r.sealer with
      nonces.counter := r.sealer.nonces.counter + s.engine.queue.length } }
    { s.stream.outgoing with held := s.stream.outgoing.held ++ bytes }

/-- **What is queued is sent**, if the frames may be sent and there is room for them. -/
theorem sends (hr : s.engine.drive = some r) (hw : r.writing = .looking)
    (hqueue : s.engine.queue ≠ []) (hopen : s.stream.outgoing.closed = false)
    (hfits : ∀ f ∈ frames s.engine.queue, f.Fits r.sealer.maxPlaintext)
    (hcounter : r.sealer.nonces.counter + s.engine.queue.length ≤ Nonce.last)
    (hheld : r.sealer.outlet.held = []) {bytes : Bytes}
    (hbytes : bytes = wire r.sealer.key r.sealer.nonces.direction r.sealer.nonces.counter
      (frames s.engine.queue))
    (hroom : s.stream.outgoing.held.length + bytes.length ≤ s.stream.outgoing.capacity) :
    Moves key role env s (s.sent r bytes) := by
  subst hbytes
  obtain ⟨sealer, out, hwrites, hopen', hcap⟩ := Sealer.exists_writes (s := r.sealer) hopen hfits
    (by rw [length_frames]; exact hcounter)
    (by rw [hheld, List.length_nil, Nat.add_zero]; exact hroom)
  have hbytes := (Sealer.writes_bytes hwrites).1
  rw [hheld, List.append_nil, List.nil_append] at hbytes
  have hout : out.held.length + sealer.outlet.held.length ≤ out.capacity := by
    have hlen := congrArg List.length hbytes
    simp only [List.length_append] at hlen
    omega
  have hsealer : { sealer with outlet := sealer.outlet.keep [] } = { r.sealer with
      nonces.counter := r.sealer.nonces.counter + s.engine.queue.length } := by
    have hkeep : sealer.outlet.keep [] = r.sealer.outlet :=
      Outlet.eq_of_empty rfl hheld (Sealer.buffer_writes hwrites)
    rw [hkeep, Sealer.writes_sealer hwrites, length_frames]
  have hpipe : { out with held := out.held ++ sealer.outlet.held } =
      { s.stream.outgoing with held := s.stream.outgoing.held ++
          (wire r.sealer.key r.sealer.nonces.direction r.sealer.nonces.counter
            (frames s.engine.queue)) } := by
    simp only [hbytes, hcap, hopen', hopen]
  let s' : Site := s.wrote s.engine.queue
  let count : Nat := s.engine.queue.length
  have hbatch : Moves key role env
      (s.amid { r with writing := .next s.engine.queue count } s.stream.outgoing)
      (s'.amid { r with sealer, writing := .next [] count } out) :=
    writes_of_writes hwrites rfl rfl
  have hflush : Moves key role env
      (s'.amid { r with sealer, writing := .flushing (s'.engine.writeDue env.now) count } out)
      (s'.amid { r with sealer := { sealer with outlet := sealer.outlet.keep [] }, writing := .looking }
        { out with held := out.held ++ sealer.outlet.held }) :=
    flushes_all hopen' hout
  rw [hsealer, hpipe, ← hw] at hflush
  exact .head (takesBatch hr hw hqueue) (hbatch.trans (.head endsBatch hflush))

end

/-! ### Receiving -/

section
variable {r : Drive} {c : Bytes} {due : Option Nat} {f : Frame} {fs : List Frame}

/-- Where the read loop was is forgotten once it has a frame. -/
theorem dispatch_driving (e : Engine) (r' : Drive) (reading : ReadLoop) :
    (e.driving r').dispatch env { r with reading } f = e.dispatch env r f := by
  unfold dispatch
  split
  · rfl
  · cases hfound : e.table.find? (·.seq == f.seq) with
    | none =>
      simp only [driving, hfound]
    | some a =>
      simp only [driving, hfound, resolve, readLoopEnds_eq, answer_eq]
      split <;> rfl

theorem queue_dispatch (e : Engine) (r : Drive) : (e.dispatch env r f).queue = e.queue := by
  unfold dispatch
  split
  · rfl
  · split
    · simp only [resolve, readLoopEnds_eq, answer_eq]
      split <;> rfl
    · rfl

/-- A frame was read, in these bytes, and sent to where it belongs. -/
def Site.given (s : Site) (env : Env) (r : Drive) (f : Frame) (inc : Pipe) (bs : Bytes) : Site where
  engine := s.engine.dispatch env r f
  stream := { s.stream with incoming := inc }
  log := { s.log with taken := s.log.taken ++ bs, received := s.log.received ++ [f] }

/-- **What is there is received**: the first frame of those whose bytes are at hand goes where
it belongs. -/
theorem receives (env : Env) (hr : s.engine.drive = some r) (hreads : r.control.reads = true)
    (hread : r.reading = .reading c due)
    (h : r.opener.Ahead c s.stream.incoming [] (f :: fs)) :
    ∃ o inc bs, o.Ahead [] inc [] fs ∧
      (inc.closed = s.stream.incoming.closed ∧ inc.capacity = s.stream.incoming.capacity) ∧
      Moves key role env s (s.given env { r with opener := o } f inc bs) := by
  induction hm : Opener.effort r.opener s.stream.incoming [] using Nat.strongRecOn
    generalizing s r c with
  | ind m ih =>
    subst hm
    obtain ⟨reading, o, inc, hadv, hless, hcap⟩ := h.exists_advance h.there
    obtain ⟨bs, hbs⟩ := Opener.advance_held hadv
    cases reading with
    | partly c' =>
      let s' : Site :=
        { engine := s.engine.driving { r with opener := o, reading := .reading c' due }
          stream := { s.stream with incoming := inc }
          log := { s.log with taken := s.log.taken ++ bs } }
      have hmove : Move key role env s s' := by
        refine Move.of_step .read [] ?_ ?_ hbs
        · simp [step, stepRead, hr, hreads, hread, hadv]
        · exact Nat.le_refl _
      obtain ⟨o', inc', bs', hrest, ⟨hclosed, hcap'⟩, hmoves⟩ :=
        ih _ hless (s := s') (r := { r with opener := o, reading := .reading c' due })
          rfl hreads rfl (h.advance_partly hadv) rfl
      obtain ⟨-, -, -, hp⟩ := Opener.advance_partly h.short hadv
      have hsame : inc.closed = s.stream.incoming.closed := by rw [hp]
      refine ⟨o', inc', bs ++ bs', hrest, ⟨hclosed.trans hsame, hcap'.trans hcap⟩, .head hmove ?_⟩
      have hengine : s'.engine.dispatch env
          { r with opener := o', reading := .reading c' due } f =
          s.engine.dispatch env { r with opener := o' } f :=
        dispatch_driving (r := { r with opener := o' }) s.engine _ (.reading c' due)
      rw [Site.given, hengine] at hmoves
      rw [Site.given, ← List.append_assoc]
      exact hmoves
    | frame g =>
      obtain ⟨gs, hgs, hrest⟩ := h.advance_frame hadv
      obtain ⟨rfl, rfl⟩ := List.cons.inj hgs
      obtain ⟨-, -, rfl, -⟩ := Opener.advance_frame h.short hadv
      refine ⟨o, _, bs, hrest, ⟨rfl, rfl⟩, .single ?_⟩
      refine Move.of_step .read [.received f] ?_ ?_ hbs
      · simp [step, stepRead, hr, hreads, hread, hadv]
      · exact Nat.le_of_eq (congrArg List.length (queue_dispatch ..))
    | ended => exact absurd (h.advance_ended hadv) (List.cons_ne_nil f fs)
    | failed e => exact absurd hadv h.not_failed

end

/-! ### The rest of a life -/

/-- The stream was given up in good order. -/
def Site.hungUp (s : Site) : Site where
  engine := s.engine.finished
  stream := Duplex.hangUp { s.stream with outgoing := s.stream.outgoing.close }
  log := { s.log with ended := s.log.ended ++ [.ok ()] }

/-- A cancelled engine that has sent everything comes to an end. -/
theorem closes {r : Drive} (hr : s.engine.drive = some r) (hw : r.writing = .looking)
    (hdraining : r.control = .draining (.ok ())) (hqueue : s.engine.queue = [])
    (hstopped : s.engine.stopped = true) (hheld : r.sealer.outlet.held = []) :
    ∃ e, Moves key role env s { s with engine := e }.hungUp := by
  let e : Engine := s.engine.close env.now r (.ok ())
  have hempty : Move key role env s { s with engine := e } := by
    refine Move.of_quiet .write [] ?_ (Nat.le_refl _) rfl
    simp [step, stepWrite, hr, hw, takeBatch, hqueue, hstopped, writeLoopEnds, hdraining, e]
  have hclose : Move key role env { s with engine := e } { s with engine := e }.hungUp := by
    refine Move.of_quiet .close [.ended (.ok ())] ?_ (Nat.zero_le _) rfl
    simp [step, stepClose, e, Engine.close, driving, Sealer.advance, hheld, finish_eq]
  exact ⟨e, .head hempty (.single hclose)⟩

/-- The engine takes up a cancellation. -/
def Site.cancelled (s : Site) (r : Drive) : Site :=
  { s with engine := s.engine.stop.driving { r with control := .draining (.ok ()) } }

theorem cancels {r : Drive} (hr : s.engine.drive = some r) (hserving : r.control = .serving)
    (hcancelled : env.cancelled = true) : Move key role env s (s.cancelled r) := by
  refine Move.of_quiet .cancel [] ?_ (Nat.le_refl _) rfl
  simp [step, stepCancel, hr, hserving, hcancelled]

/-- An engine that is cancelled when it has sent everything comes to an end. -/
theorem ends {r : Drive} (hr : s.engine.drive = some r) (hw : r.writing = .looking)
    (hserving : r.control = .serving) (hqueue : s.engine.queue = [])
    (hheld : r.sealer.outlet.held = []) (hcancelled : env.cancelled = true) :
    ∃ e, Moves key role env s { s with engine := e }.hungUp := by
  obtain ⟨e, hmoves⟩ : ∃ e, Moves key role env (s.cancelled r)
      { s.cancelled r with engine := e }.hungUp :=
    closes (s := s.cancelled r) rfl hw rfl hqueue rfl hheld
  exact ⟨e, .head (cancels hr hserving hcancelled) hmoves⟩

/-- A call that was answered returns. -/
theorem returns (id : CallId) {c : Call} {o : Outcome}
    (hc : s.engine.calls.find? (·.id == id) = some c) (ho : c.answer = some o) :
    Move key role env s { s with
      engine := s.engine.leave c
      log := { s.log with returned := s.log.returned ++ [(id, o)] } } := by
  refine Move.of_quiet (.call id) [.returned id o] ?_ ?_ rfl
  · simp [step, stepCall, hc, ho]
  · exact Nat.le_of_eq (congrArg List.length (queue_leave ..))

/-- A request without an answer fails at its deadline. -/
theorem expires (id : CallId) {c : Call} {seq : UInt32} {due : Nat}
    (hc : s.engine.calls.find? (·.id == id) = some c) (ho : c.answer = none)
    (hwait : c.wait = .response seq due) (hdue : due ≤ env.now) :
    Move key role env s { s with
      engine := s.engine.leave c
      log := { s.log with
        returned := s.log.returned ++ [(id, .failed (.timeout .request))] } } := by
  refine Move.of_quiet (.call id)
    [.requestTimedOut, .returned id (.failed (.timeout .request))] ?_ ?_ rfl
  · simp [step, stepCall, hc, ho, hwait, hdue]
  · exact Nat.le_of_eq (congrArg List.length (queue_leave ..))

/-- The application has replied to a frame. -/
def Site.replied (s : Site) (env : Env) (r : Drive) (f : Frame) (payload : Bytes) : Site :=
  { s with
    engine := (s.engine.readOn env r).enqueue { frame := ⟨f.seq, payload⟩ }
    log := { s.log with
      accepted := s.log.accepted ++ [{ frame := ⟨f.seq, payload⟩ }]
      delivered := s.log.delivered ++ [f] } }

/-- A reply that may be sent is queued. -/
theorem replies {r : Drive} {f : Frame} {payload : Bytes} (hr : s.engine.drive = some r)
    (hreads : r.control.reads = true) (hread : r.reading = .handling f) (hf : f.isMessage = false)
    (hattentive : env.attentive = true) (hreply : env.reply f.payload = some payload)
    (htaken : s.engine.refusal payload.length = none) :
    Move key role env s (s.replied env r f payload) := by
  have hstep : s.engine.step env .read s.stream =
      some ((s.engine.readOn env r).enqueue { frame := ⟨f.seq, payload⟩ }, s.stream,
        [.delivered f]) := by
    have htaken' : (s.engine.readOn env r).refusal payload.length = none := htaken
    simp [step, stepRead, hr, hreads, hread, hattentive, handled, hf, hreply, reply, htaken']
  have hmove : Move key role env s _ := .step hstep
  rw [Site.after, Site.logged, Site.gone_self, List.append_nil] at hmove
  have hqueue : ((s.engine.readOn env r).enqueue { frame := ⟨f.seq, payload⟩ }).queue.drop
      s.engine.queue.length = [{ frame := ⟨f.seq, payload⟩ }] := List.drop_left
  rw [hqueue] at hmove
  exact hmove

/-- The application has taken a frame that it does not reply to. -/
def Site.handed (s : Site) (env : Env) (r : Drive) (f : Frame) : Site :=
  { s with
    engine := s.engine.readOn env r
    log := { s.log with delivered := s.log.delivered ++ [f] } }

theorem hands {r : Drive} {f : Frame} (hr : s.engine.drive = some r)
    (hreads : r.control.reads = true) (hread : r.reading = .handling f)
    (hattentive : env.attentive = true) (hreply : env.reply f.payload = none) :
    Move key role env s (s.handed env r f) := by
  refine Move.of_quiet .read [.delivered f] ?_ (Nat.le_refl _) rfl
  simp [step, stepRead, hr, hreads, hread, hattentive, handled, hreply]

/-- A message that nobody waits for is queued. -/
def Site.posted (s : Site) (payload : Bytes) : Site :=
  { s with
    engine := s.engine.enqueue { frame := ⟨Frame.noResponse, payload⟩ }
    log := { s.log with
      accepted := s.log.accepted ++ [{ frame := ⟨Frame.noResponse, payload⟩ }] } }

theorem posts {payload : Bytes} (htaken : s.engine.refusal payload.length = none) :
    s.engine.post payload = .ok (s.posted payload).engine ∧
      Move key role env s (s.posted payload) := by
  have hpost : s.engine.post payload = .ok (s.posted payload).engine := by
    simp only [post, htaken]
    rfl
  have hmove : Move key role env s _ := .post hpost
  have hqueue : (s.posted payload).engine.queue.drop s.engine.queue.length =
      [{ frame := ⟨Frame.noResponse, payload⟩ }] := List.drop_left
  rw [Site.after, Site.logged, Site.gone_self, List.append_nil, hqueue] at hmove
  exact ⟨hpost, hmove⟩

/-! ### Waiting -/

/-- The write loop waits, and has been notified of everything. -/
def Site.settled (s : Site) (r : Drive) : Site :=
  { s with
    engine := { s.engine with
      owed := 0, notified := false, drive := some { r with writing := .waiting } } }

section
variable {r : Drive}

/-- A write loop that finds nothing to do waits. -/
theorem waits (hr : s.engine.drive = some r) (hw : r.writing = .looking)
    (hqueue : s.engine.queue = []) (hopen : s.engine.stopped = false) :
    Move key role env s
      { s with engine := s.engine.driving { r with writing := .waiting } } := by
  refine Move.of_quiet .write [] ?_ (Nat.le_refl _) rfl
  simp [step, stepWrite, hr, hw, takeBatch, hqueue, hopen]

/-- A write loop without anything to do waits in the end, also if it is notified of what it
has done already. -/
theorem settles (hr : s.engine.drive = some r) (hw : r.writing = .looking)
    (hqueue : s.engine.queue = []) (hopen : s.engine.stopped = false) (howed : s.engine.owed = 1) :
    Moves key role env s (s.settled r) := by
  let s₁ : Site := { s with engine := { s.engine with owed := 0, notified := true } }
  let s₂ : Site := { s₁ with engine := s₁.engine.driving { r with writing := .waiting } }
  let s₃ : Site := { s with
    engine := { s.engine with owed := 0, notified := false, drive := some r } }
  have hnotify : Move key role env s s₁ := by
    refine Move.of_quiet .notify [] ?_ (Nat.le_refl _) rfl
    simp [step, stepNotify, howed]
  have hwoken : Move key role env s₂ s₃ := by
    refine Move.of_quiet .write [] ?_ (Nat.le_refl _) rfl
    simp [step, stepWrite, s₂, s₁, driving, ← hw]
  exact .head hnotify (.head (waits hr hw hqueue hopen)
    (.head hwoken (.single (waits rfl hw hqueue hopen))))

end

/-! ### A far end that does not read -/

/-- A notification that is owed is stored. -/
theorem notifies (howed : s.engine.owed ≠ 0) :
    Move key role env s { s with
      engine := { s.engine with owed := s.engine.owed - 1, notified := true } } := by
  refine Move.of_quiet .notify [] ?_ (Nat.le_refl _) rfl
  simp [step, stepNotify, howed]

section
variable {r : Drive} {o : Outgoing} {os : List Outgoing} {out : Pipe} {bytes : Bytes}

/-- A frame for which there is room in the empty buffer stays there. -/
theorem buffers {count : Nat} (hfits : o.frame.Fits r.sealer.maxPlaintext)
    (hcounter : r.sealer.nonces.counter < Nonce.last) (hempty : r.sealer.outlet.held = [])
    (hbytes : bytes = sealed r.sealer.key r.sealer.nonces.direction r.sealer.nonces.counter o.frame)
    (hsmall : bytes.length < r.sealer.outlet.capacity) :
    Moves key role env (s.amid { r with writing := .next (o :: os) count } out)
      ((s.wrote [o]).amid { r with
        sealer := { r.sealer with
          nonces.counter := r.sealer.nonces.counter + 1, outlet := r.sealer.outlet.put bytes }
        writing := .next os count } out) := by
  have hwrite := Sealer.write_eq_ok_iff.mpr ⟨hfits, hcounter, rfl, rfl⟩
  have hleft := Sealer.left_of_write hwrite
  rw [← hbytes, Sealer.Job.left] at hleft
  have hrun := Sealer.runs_put
    (s := { r.sealer with nonces.counter := r.sealer.nonces.counter + 1 })
    (by
      rw [hleft]
      show r.sealer.outlet.size + bytes.length < _
      rw [Outlet.size_of_empty hempty, Nat.zero_add]
      exact hsmall) out
  rw [hleft] at hrun
  exact .head (begins hwrite) (places_of_runs hrun rfl)

/-- The frame of the queue is in the buffer, and as much of it as there was room for in the
pipe. -/
def Site.stalled (s : Site) (r : Drive) (bytes : Bytes) (due : Nat) : Site :=
  (s.wrote s.engine.queue).amid { r with
    sealer := { r.sealer with
      nonces.counter := r.sealer.nonces.counter + 1
      outlet := (r.sealer.outlet.put bytes).keep (bytes.drop s.stream.outgoing.room) }
    writing := .flushing due s.engine.queue.length }
    { s.stream.outgoing with
      held := s.stream.outgoing.held ++ bytes.take s.stream.outgoing.room }

/-- A frame for which there is no room in the pipe is not flushed. -/
theorem stalls (hr : s.engine.drive = some r) (hw : r.writing = .looking)
    (hqueue : s.engine.queue = [o]) (hfits : o.frame.Fits r.sealer.maxPlaintext)
    (hcounter : r.sealer.nonces.counter < Nonce.last) (hempty : r.sealer.outlet.held = [])
    (hbytes : bytes = sealed r.sealer.key r.sealer.nonces.direction r.sealer.nonces.counter o.frame)
    (hsmall : bytes.length < r.sealer.outlet.capacity) (hopen : s.stream.outgoing.closed = false)
    (hroom : s.stream.outgoing.room ≠ 0) :
    Moves key role env s
      (s.stalled r bytes ((s.wrote s.engine.queue).engine.writeDue env.now)) := by
  have hbatch : Move key role env s
      (s.amid { r with writing := .next [o] s.engine.queue.length } s.stream.outgoing) := by
    have h : Move key role env s _ := takesBatch hr hw (by rw [hqueue]; exact List.cons_ne_nil o [])
    rwa [hqueue] at h ⊢
  refine .head hbatch ((buffers hfits hcounter hempty hbytes hsmall).trans
    (.head endsBatch (.single ?_)))
  rw [Site.stalled, hqueue]
  refine flushes (s := s.wrote [o]) (r := r)
    (?_ : Sealer.advance .flushing _ _ = some (.ok (some .flushing, _, _)))
  have hheld : (r.sealer.outlet.put bytes).held = bytes := by
    rw [Outlet.held_put, hempty, List.nil_append]
  have hne : (r.sealer.outlet.put bytes).held ≠ [] := by
    rw [hheld, hbytes]
    exact sealed_ne_nil _ _ _ _
  rw [Sealer.advance, if_neg hne, Sealer.drainFor_of_room _ hopen hroom, hheld]

theorem flush_waits (hheld : r.sealer.outlet.held ≠ []) (hopen : out.closed = false)
    (hfull : out.room = 0) : r.sealer.advance .flushing out = none := by
  rw [Sealer.advance, if_neg hheld, Sealer.drainFor_of_full _ hopen hfull]

theorem stepWrite_stalled {due count : Nat} (hr : e.drive = some r)
    (hw : r.writing = .flushing due count) (hheld : r.sealer.outlet.held ≠ [])
    (hopen : d.outgoing.closed = false) (hfull : d.outgoing.room = 0) (hearly : env.now < due) :
    e.stepWrite env d = none := by
  simp only [stepWrite, hr, hw, flush_waits hheld hopen hfull, expired_some,
    if_neg (Nat.not_le_of_lt hearly), Option.bind_none]

/-- What could not be flushed is given up at the deadline. -/
def Site.gaveUp (s : Site) (result : Except Error Unit) : Site where
  engine := s.engine.stop.finished
  stream := s.stream.hangUp
  log := { s.log with
    troubles := s.log.troubles ++ [.timeout .write], ended := s.log.ended ++ [result] }

theorem givesUp {due count : Nat} (hr : s.engine.drive = some r)
    (hw : r.writing = .flushing due count) (hheld : r.sealer.outlet.held ≠ [])
    (hopen : s.stream.outgoing.closed = false) (hfull : s.stream.outgoing.room = 0)
    (hdue : due ≤ env.now) :
    Move key role env s (s.gaveUp (r.control.writeEnded (.error (.timeout .write)))) := by
  have hstuck := flush_waits hheld hopen hfull
  refine Move.of_quiet .write [.writeFailed (.timeout .write),
    .ended (r.control.writeEnded (.error (.timeout .write)))] ?_ (Nat.zero_le _) rfl
  simp only [step, stepWrite, hr, hw, hstuck, expired_some, if_pos hdue, Option.bind_some,
    writeLoopEnds, finish_eq]
  rfl

end

/-! ### First requests -/

/-- Nothing has happened at this end of a stream. -/
def Site.fresh (settings : Settings) (d : Duplex) : Site where
  engine := { settings }
  stream := d

/-- The loops over a stream that was just attached. -/
def firstDrive (key : SessionKey) (role : Role) (env : Env) (settings : Settings) : Drive where
  sealer := Sealer.create key role settings.maxWrite
  opener := Opener.create key role settings.maxRead
  reading := .reading [] (dueAfter settings.readTimeout env.now)

/-- The stream was attached first of all. -/
def Site.started (key : SessionKey) (role : Role) (env : Env) (settings : Settings) (d : Duplex) :
    Site where
  engine := { settings, phase := .running, drive := some (firstDrive key role env settings) }
  stream := d

/-- The engine's first call is a request, and its stream is attached. -/
def Site.asked (key : SessionKey) (role : Role) (env : Env) (settings : Settings) (d : Duplex)
    (payload : Bytes) (capacity due : Nat) : Site where
  engine := {
    settings
    phase := .running
    queue := [{ frame := ⟨1, payload⟩ }]
    table := [{ seq := 1, call := 0, capacity }]
    sequence := ⟨1⟩
    owed := 1
    calls := [{ id := 0, wait := .response 1 due }]
    drive := some (firstDrive key role env settings) }
  stream := d
  log := {
    calls := [0]
    issued := [⟨0, ⟨1, payload⟩⟩]
    accepted := [{ frame := ⟨1, payload⟩ }] }

theorem starts (settings : Settings) (d : Duplex) :
    Move key role env (.fresh settings d) (.started key role env settings d) := by
  have hmove : Move key role env (.fresh settings d) ((Site.fresh settings d).after
      (Site.started key role env settings d).engine (Site.fresh settings d).stream []) := .start rfl
  simp only [Site.after, Site.logged, Site.gone_self] at hmove
  exact hmove

theorem asks {settings : Settings} {payload : Bytes}
    (hfits : Frame.checkPayload payload.length settings.maxWrite = .ok ()) (d : Duplex)
    (capacity due : Nat) :
    Moves key role env (.fresh settings d)
      (.asked key role env settings d payload capacity due) := by
  have hrequest : (Site.fresh settings d).engine.request 0 payload capacity due =
      .ok { (Site.asked key role env settings d payload capacity due).engine with
        phase := .idle, drive := none } := by
    simp only [request, refusal, Site.fresh, hfits]
    rfl
  have hfirst : Move key role env (.fresh settings d) _ :=
    .request List.not_mem_nil (Nat.succ_pos _) hrequest
  let s : Site := { Site.asked key role env settings d payload capacity due with
    engine := { (Site.asked key role env settings d payload capacity due).engine with
      phase := .idle, drive := none } }
  have hsecond : Move key role env s (s.after { s.engine with
      phase := .running
      drive := some (firstDrive key role env settings) } s.stream []) := .start rfl
  simp only [Site.after, Site.logged, Site.gone_self, List.append_nil, List.foldl_nil,
    List.drop_length] at hfirst hsecond
  exact .head hfirst (.single hsecond)

/-- A stream that was just attached has its first frame in the pipe. -/
theorem ahead_first (settings : Settings) {inc : Pipe} {f : Frame} (hopen : inc.closed = false)
    (hheld : inc.held = wire key role.inbound 0 [f]) (hspell : f.Spellable)
    (hadmits : Admits settings.maxRead f) :
    (firstDrive key role env settings).opener.Ahead [] inc [] [f] := by
  refine ⟨?_, Opener.short_nil, fun hclosed => ?_, fun g hg => ?_, fun _ => ?_⟩
  · rw [List.append_nil, hheld]
    rfl
  · exact absurd hclosed (by rw [hopen]; decide)
  · rw [List.mem_singleton.mp hg]
    exact ⟨hspell, hadmits⟩
  · exact (by decide : 0 + 1 ≤ Nonce.last)

/-! ### A whole life -/

/-- Surroundings in which no time passes and the application replies at once. -/
def prompt (cancelled : Bool) (reply : Bytes → Option Bytes) : Env where
  now := 0
  cancelled
  attentive := true
  reply

/-- An empty stream that has room for a few frames. -/
def roomy : Duplex := ⟨{ capacity := 100 }, { capacity := 100 }⟩

theorem length_wire_byte (key : SessionKey) (d : Direction) (n : UInt32) (b : UInt8) :
    (wire key d 0 [⟨n, [b]⟩]).length = 25 := by
  rw [wire_singleton, length_sealed, Frame.length_encode]
  rfl

/-- One byte is sent over an empty stream. -/
theorem sends_byte {r : Drive} {o : Outgoing} {n : UInt32} {b : UInt8}
    (hr : s.engine.drive = some r)
    (hw : r.writing = .looking) (hqueue : s.engine.queue = [o]) (ho : o.frame = ⟨n, [b]⟩)
    (hlimit : Frame.checkPayload 1 r.sealer.maxPlaintext = .ok ())
    (hcounter : r.sealer.nonces.counter = 0) (hbuffer : r.sealer.outlet.held = [])
    (hopen : s.stream.outgoing.closed = false) (hheld : s.stream.outgoing.held = [])
    (hroom : 25 ≤ s.stream.outgoing.capacity) :
    Moves key role env s
      (s.sent r (wire r.sealer.key r.sealer.nonces.direction 0 [⟨n, [b]⟩])) := by
  have hframes : frames s.engine.queue = [⟨n, [b]⟩] := by
    rw [hqueue, ← ho]
    rfl
  refine sends hr hw ?_ hopen ?_ ?_ hbuffer ?_ ?_
  · rw [hqueue]
    exact List.cons_ne_nil o []
  · intro f hf
    rw [hframes] at hf
    rw [List.mem_singleton.mp hf]
    exact ⟨hlimit, spellable_byte b⟩
  · rw [hcounter, hqueue]
    exact (by decide : 0 + 1 ≤ Nonce.last)
  · rw [hcounter, hframes]
  · rw [hheld, length_wire_byte]
    exact hroom

/-- An engine asks for one byte, sends it, and is cancelled before there is a response. -/
theorem exists_life (key : SessionKey) : ∃ w, World.Reachable key .client w ∧
    w.log.ended = [.ok ()] ∧ w.log.troubles = [] ∧ w.stream.outgoing.held = [] ∧
    w.log.issued = [⟨0, ⟨1, [1]⟩⟩] ∧ w.log.accepted = [{ frame := ⟨1, [1]⟩ }] := by
  let settings : Settings := ({} : Config.Connection).settings
  let env : Env := prompt true fun _ => none
  let w₀ : World := .fresh {} 100 100
  let asked : Site := .asked key .client env settings roomy [1] 1 9
  have hasked : Moves key .client env w₀.toSite asked := asks rfl roomy 1 9
  let bytes : Bytes := wire key .clientToServer 0 [⟨1, [1]⟩]
  let sent : Site := asked.sent (firstDrive key .client env settings) bytes
  have hsent : Moves key .client env asked sent :=
    sends_byte rfl rfl rfl rfl rfl rfl rfl rfl rfl (by decide : 25 ≤ 100)
  obtain ⟨e, hends⟩ : ∃ e, Moves key .client env sent { sent with engine := e }.hungUp :=
    ends rfl rfl rfl rfl rfl rfl
  let w₁ : World := { w₀ with toSite := { sent with engine := e }.hungUp }
  have hleads : World.Leads key .client w₀ w₁ := w₀.leads ((hasked.trans hsent).trans hends)
  -- The far end reads everything.
  have hfar : World.Step key .client w₁ { w₁ with
      stream := { w₁.stream with outgoing := { w₁.stream.outgoing with held := [] } }
      heard := w₁.heard ++ bytes } := .far (by rw [List.append_nil]; rfl)
  exact ⟨_, ⟨_, _, _, hleads.tail hfar⟩, rfl, rfl, rfl, rfl, rfl⟩

end Parley.Engine
