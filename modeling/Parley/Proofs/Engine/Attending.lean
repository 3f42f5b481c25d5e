import Parley.Config.Validation
import Parley.Proofs.Engine.Dispatch
import Parley.Proofs.Engine.Quiescence
import Parley.Proofs.Engine.Timing

/-! An engine that only serves.

The far end sends the wire of some frames in whatever pieces, ends its stream, and reads
whatever comes back (`Attended.Peer`). The engine makes no call, is not cancelled and meets no
deadline, and its application replies by a function of the payload (`Calm`). Each frame has one
answer at most, and the answers of several frames are those of each of them (`answers`).

Until the stream has ended, what was accepted into the queue are the answers of the frames that
were delivered; then the engine drains, and in the end it has closed its stream (`Stage`). No
write fails on the way: the stream is open, nonces are left, and every answer fits (`not_fails`).
Every step keeps this (`attends_of_leads`). -/
namespace Parley.Engine
open Channel

/-! ### Answers -/

/-- What goes back for a frame: the application's reply, unless the frame is a message or the
reply is too long. -/
def answer? (reply : Bytes → Option Bytes) (max : Nat) (f : Frame) : Option Frame :=
  if f.isMessage then none
  else (reply f.payload).bind fun r =>
    if Frame.checkPayload r.length max = .ok () then some ⟨f.seq, r⟩ else none

/-- What goes back for these frames. -/
def answers (reply : Bytes → Option Bytes) (max : Nat) (fs : List Frame) : List Frame :=
  fs.filterMap (answer? reply max)

section
variable {reply : Bytes → Option Bytes} {max : Nat} {f g : Frame} {fs gs : List Frame}

theorem checkPayload_of_answer (h : answer? reply max f = some g) :
    Frame.checkPayload g.payload.length max = .ok () := by
  unfold answer? at h
  split at h
  · cases h
  · obtain ⟨r, -, h⟩ := Option.bind_eq_some_iff.mp h
    split at h
    · rename_i hcheck
      cases h
      exact hcheck
    · cases h

theorem answer?_eq_some {payload : Bytes} (hf : f.isMessage = false)
    (hreply : reply f.payload = some payload)
    (hcheck : Frame.checkPayload payload.length max = .ok ()) :
    answer? reply max f = some ⟨f.seq, payload⟩ := by
  rw [answer?, hf, hreply]
  simp [hcheck]

theorem answer?_eq_none (h : f.isMessage = true ∨ ∀ payload, reply f.payload = some payload →
    Frame.checkPayload payload.length max ≠ .ok ()) : answer? reply max f = none := by
  rw [answer?]
  split
  · rfl
  · rename_i hf
    rw [Option.bind_eq_none_iff]
    intro r hr
    exact if_neg ((h.resolve_left hf) r hr)

@[simp] theorem answers_append :
    answers reply max (fs ++ gs) = answers reply max fs ++ answers reply max gs :=
  List.filterMap_append

theorem answers_concat :
    answers reply max (fs ++ [f]) = answers reply max fs ++ (answer? reply max f).toList := by
  rw [answers_append]
  cases h : answer? reply max f <;> simp [answers, h]

theorem length_answers_le : (answers reply max fs).length ≤ fs.length :=
  List.length_filterMap_le _ _

theorem checkPayload_of_mem_answers (h : g ∈ answers reply max fs) :
    Frame.checkPayload g.payload.length max = .ok () := by
  obtain ⟨f, -, hf⟩ := List.mem_filterMap.mp h
  exact checkPayload_of_answer hf

/-- The length of every answer can be spelled if the size of the write buffer passes its check. -/
theorem spellable_of_checkBuffer {c : Config.Connection}
    (h : Config.checkBuffer c.writeBufferSize = none) :
    ∀ f ∈ answers reply c.settings.maxWrite fs, f.Spellable := by
  intro f hf
  have hpayload := Frame.checkPayload_eq_ok_iff.mp (checkPayload_of_mem_answers hf)
  have hmax : c.settings.maxWrite ≤ Config.maxBufferSize := (Config.bounds_of_checkBuffer h).2
  rw [Frame.Spellable, Frame.length_encode]
  simp only [Config.maxBufferSize, Frame.seqLength, Frame.tagLength, Frame.prefixLength,
    UInt32.size] at hmax hpayload ⊢
  omega

end

/-! ### The far end -/

/-- A world whose far end has these bytes still to send. -/
structure Attended extends World where
  coming : Bytes

/-- The surroundings of an engine that is left alone: it is not cancelled, no deadline has passed,
and the application replies by this function whenever it likes. -/
structure Calm (reply : Bytes → Option Bytes) (env : Env) (e : Engine) : Prop where
  reply : env.reply = reply
  uncancelled : env.cancelled = false
  early : ∀ due ∈ e.dues, env.now < due

namespace Attended

/-- What the far end does: it sends some of what it has, ends its stream after that, or reads
some of what there is. -/
inductive Peer (x : Attended) : Attended → Prop where
  | sends {bs rest left : Bytes} {p : Pipe} (hne : bs ≠ []) (hcoming : x.coming = bs ++ rest)
      (h : x.stream.incoming.push bs = some (.ok (left, p))) :
      Peer x { x with stream := { x.stream with incoming := p }, coming := left ++ rest }
  | finishes (hdone : x.coming = []) (hopen : x.stream.incoming.closed = false) :
      Peer x { x with stream := { x.stream with incoming := x.stream.incoming.close } }
  | hears {bs rest : Bytes} (hne : bs ≠ []) (h : bs ++ rest = x.stream.outgoing.held) :
      Peer x { x with
        stream := { x.stream with outgoing := { x.stream.outgoing with held := rest } }
        heard := x.heard ++ bs }

/-- The engine makes a step in calm surroundings, or the far end does something. -/
inductive Step (reply : Bytes → Option Bytes) (x : Attended) : Attended → Prop where
  | engine {env : Env} {t : Task} {e : Engine} {d : Duplex} {events : List Event}
      (hcalm : Calm reply env x.engine) (h : x.engine.step env t x.stream = some (e, d, events)) :
      Step reply x { x with toSite := x.toSite.after e d events }
  | peer {y : Attended} (h : x.Peer y) : Step reply x y

abbrev Leads (reply : Bytes → Option Bytes) : Attended → Attended → Prop :=
  Relation.ReflTransGen (Step reply)

/-- A stream was just attached, and the far end has these frames to send. -/
def fresh (key : SessionKey) (role : Role) (env : Env) (c : Config.Connection) (out inc : Nat)
    (fs : List Frame) : Attended where
  toSite := .started key role env c.settings ⟨{ capacity := out }, { capacity := inc }⟩
  coming := wire key role.inbound 0 fs

end Attended

variable {key : SessionKey} {role : Role} {env : Env} {reply : Bytes → Option Bytes}
  {c : Config.Connection} {out inc : Nat} {fs : List Frame} {x y : Attended} {w : World}
  {r : Drive} {e e' : Engine} {d d' : Duplex} {events : List Event}

theorem Attended.Peer.world (h : x.Peer y) : World.Step key role x.toWorld y.toWorld := by
  have hnone : ∀ d : Duplex, d.outgoing.held = x.stream.outgoing.held →
      World.Step key role x.toWorld { x.toWorld with stream := d } := fun d hd => by
    have hstep : World.Step key role x.toWorld
        { x.toWorld with stream := d, heard := x.heard ++ [] } := .far hd
    rwa [List.append_nil] at hstep
  cases h with
  | sends => exact hnone _ rfl
  | finishes => exact hnone _ rfl
  | hears _ h => exact .far h

/-! ### Nothing goes wrong -/

/-- **No write fails** while the stream is open, nonces are left, and what was accepted fits. -/
theorem not_fails (hc : Carries key role.outbound w.outlook r.lane)
    (hopen : w.stream.outgoing.closed = false)
    (hfits : ∀ o ∈ w.log.accepted, o.frame.Fits w.engine.settings.maxWrite)
    (hcount : w.log.accepted.length ≤ Nonce.last) {now : Nat} (hearly : ∀ due ∈ r.dues, now < due)
    {err : Error} : ¬ r.writing.Fails now r.sealer w.stream.outgoing err := by
  intro hfails
  cases hfails with
  | @sealing o rest count err hl h =>
    have hrest : r.lane.rest = o :: rest := by rw [Drive.lane, hl]; rfl
    have horder : w.log.accepted = w.log.written ++ r.lane.current ++ (o :: rest) ++
        w.engine.queue := hrest ▸ hc.order
    have hmem : o ∈ w.log.accepted := by
      rw [horder]
      exact List.mem_append_left _ (List.mem_append_right _ List.mem_cons_self)
    have hfits' := hfits o hmem
    have hmax : r.sealer.maxPlaintext = w.engine.settings.maxWrite := hc.maxPlaintext
    rw [← hmax] at hfits'
    have hcounter : r.sealer.nonces.counter = (w.log.written ++ r.lane.current).length :=
      congrArg Nonces.counter hc.nonces
    have hlength := congrArg List.length horder
    simp only [List.length_append, List.length_cons] at hlength hcounter
    have hwrite := Sealer.write_eq_ok_iff.mpr
      ⟨hfits', (by omega : r.sealer.nonces.counter < Nonce.last), rfl, rfl⟩
    rw [h] at hwrite
    cases hwrite
  | broken hl h =>
    obtain ⟨_, _, _, hres, -⟩ := Sealer.goes_advance hopen h
    cases hres
  | @late job due hl h hdue =>
    refine absurd hdue (Nat.not_le_of_lt (hearly due ?_))
    rw [Drive.dues, List.append_assoc]
    refine List.mem_append_left _ ?_
    cases hw : r.writing <;> rw [hw] at hl <;> cases hl <;> exact List.mem_singleton_self _

/-- An engine that has made no call waits for nobody. -/
theorem alone_stepped (h : Stepped env e d e' d' events) (hcalls : e.calls = [])
    (htable : e.table = []) : e'.calls = [] ∧ e'.table = [] := by
  cases h with
  | answered hc
  | expired hc =>
    rw [hcalls] at hc
    cases hc
  | resolved _ _ _ _ ha
  | overflowed _ _ _ _ _ ha =>
    rw [htable] at ha
    cases ha
  | closed
  | closeFailed =>
    refine ⟨?_, rfl⟩
    simp [finished, tell, hcalls]
  | writeFailed =>
    refine ⟨?_, rfl⟩
    simp [finished, tell, completeAll_eq, Engine.stop, hcalls]
  | placed => simp [complete_eq, tell, driving, hcalls, htable]
  | readEnded
  | readExpired =>
    rw [readLoopEnds_eq]
    exact ⟨hcalls, htable⟩
  | _ => exact ⟨hcalls, htable⟩

/-- An engine whose drive is over and that has no calls only delivers notifications. -/
theorem over_stepped (h : Stepped env e d e' d' events) (hdrive : e.drive = none)
    (hcalls : e.calls = []) :
    e.owed ≠ 0 ∧ e' = { e with owed := e.owed - 1, notified := true } ∧ d' = d ∧ events = [] := by
  cases h with
  | notified howed => exact ⟨howed, rfl, rfl, rfl⟩
  | answered hc
  | expired hc =>
    rw [hcalls] at hc
    cases hc
  | _ =>
    have hr := ‹e.drive = some _›
    rw [hdrive] at hr
    cases hr

/-- **Nothing goes wrong** as long as no write fails: there is no trouble, and the stream is closed
only when the drive is over. -/
theorem clean_stepped (hw : World.Reachable key role w) (hr : w.engine.drive = some r)
    (hopen : w.stream.outgoing.closed = false)
    (hfine : ∀ err, ¬ r.writing.Fails env.now r.sealer w.stream.outgoing err)
    (h : Stepped env w.engine w.stream e d events) :
    (w.logged e d events).troubles = w.log.troubles ∧ d.outgoing.closed = e.drive.isNone := by
  have hdrive : ∀ {r'}, w.engine.drive = some r' → r = r' := fun hr' =>
    Option.some.inj (hr.symm.trans hr')
  have hl := loops_of_reachable hw hr
  have hheld : r.control.isClosing = true → r.sealer.outlet.held = [] := fun hclosing =>
    hl.flushed (by rw [hl.writes.mpr hclosing]; rfl)
  have hdriven : ∀ {e' : Engine}, e'.drive = w.engine.drive →
      w.stream.outgoing.closed = e'.drive.isNone := fun he => by
    rw [he, hr]
    exact hopen
  have hstill : ∀ {job job' s out}, r.sealer.advance job w.stream.outgoing =
      some (.ok (job', s, out)) → job ≠ .closing → out.closed = false := fun hadv hjob => by
    obtain ⟨_, _, _, hres, hgoes⟩ := Sealer.goes_advance hopen hadv
    cases hres
    exact hgoes.opened hjob
  cases h with
  | writeFailed hr' _ hfails =>
    obtain rfl := hdrive hr'
    exact absurd hfails (hfine _)
  | closeFailed hr' hclosing hbuffer =>
    obtain rfl := hdrive hr'
    exact absurd (hheld (by rw [hclosing]; rfl)) hbuffer
  | draining hr' hclosing hadv =>
    obtain rfl := hdrive hr'
    rw [Sealer.advance, if_pos (hheld (by rw [hclosing]; rfl))] at hadv
    cases hadv
  | closed => exact ⟨rfl, rfl⟩
  | @placing _ job _ current _ _ _ _ _ hr' hwriting hadv
  | @placed _ job _ current _ _ _ _ hr' hwriting hadv =>
    obtain rfl := hdrive hr'
    obtain ⟨pieces, rfl, -⟩ := ((outbound_of_reachable hw).carries hr).hand current job
      (by rw [Drive.lane, hwriting]; rfl)
    exact ⟨rfl, hstill hadv (by rintro ⟨⟩)⟩
  | flushing hr' _ hadv
  | flushed hr' _ hadv =>
    obtain rfl := hdrive hr'
    exact ⟨rfl, hstill hadv (by rintro ⟨⟩)⟩
  | notified => exact ⟨rfl, hdriven rfl⟩
  | answered
  | expired =>
    rw [leave_eq]
    exact ⟨rfl, hdriven rfl⟩
  | readEnded
  | readExpired
  | overflowed =>
    rw [readLoopEnds_eq]
    exact ⟨rfl, hopen⟩
  | _ => exact ⟨rfl, hopen⟩

theorem closed_stepped (h : Stepped env e d e' d' events) (hclosed : d.incoming.closed = true) :
    d'.incoming.closed = true := by
  have hkept : ∀ {o o' : Opener} {c p reading},
      o.advance c d.incoming = some (reading, o', p) → p.closed = true := fun hadv => by
    rw [Opener.advance_pipe hadv]
    exact hclosed
  cases h with
  | collected _ _ hadv
  | readEnded _ _ hadv
  | handed _ _ hadv
  | resolved _ _ hadv
  | overflowed _ _ _ hadv => exact hkept hadv
  | closed
  | closeFailed
  | writeFailed => rfl
  | _ => exact hclosed

/-! ### While the stream is served -/

/-- The stream is served: these frames are still to come, those before them were delivered, and
their answers were accepted. -/
structure Serving (reply : Bytes → Option Bytes) (max : Nat) (fs : List Frame) (x : Attended)
    (r : Drive) : Prop where
  drive : x.engine.drive = some r
  control : r.control = .serving
  ahead : ∃ c gs, r.reading.collected = some c ∧ r.opener.Ahead c x.stream.incoming x.coming gs ∧
    x.log.delivered ++ r.reading.hand ++ gs = fs
  accepted : frames x.log.accepted = answers reply max x.log.delivered
  taking : x.engine.stopped = false
  running : x.log.ended = []

/-- What becomes of an attended engine after a step. -/
abbrev Attended.near (x : Attended) (s : Site) : Attended := { x with toSite := s }

variable {max : Nat} {r' : Drive}

/-- The write loop goes on. -/
theorem Serving.writes (hs : Serving reply max fs x r) (hr' : e.drive = some r')
    (hopener : r'.opener = r.opener) (hreading : r'.reading = r.reading)
    (hcontrol : r'.control = r.control) (hincoming : d.incoming = x.stream.incoming)
    (hqueue : e.queue.length ≤ x.engine.queue.length)
    (hstopped : e.stopped = x.engine.stopped)
    (hdelivered : (x.logged e d events).delivered = x.log.delivered)
    (hended : (x.logged e d events).ended = x.log.ended) :
    Serving reply max fs (x.near (x.after e d events)) r' where
  drive := hr'
  control := hcontrol.trans hs.control
  ahead := by
    obtain ⟨c, gs, hc, hahead, hall⟩ := hs.ahead
    refine ⟨c, gs, hreading ▸ hc, ?_, ?_⟩
    · show r'.opener.Ahead c d.incoming x.coming gs
      rw [hopener, hincoming]
      exact hahead
    · show (x.logged e d events).delivered ++ r'.reading.hand ++ gs = fs
      rw [hdelivered, hreading]
      exact hall
  accepted := by
    show frames (x.logged e d events).accepted = answers reply max (x.logged e d events).delivered
    rw [accepted_of_queue events hqueue, hdelivered]
    exact hs.accepted
  taking := hstopped.trans hs.taking
  running := hended.trans hs.running

/-- Frames that were accepted as answers fit, and there is a nonce for each. -/
theorem fits_of_answers {os : List Outgoing} {gs : List Frame}
    (h : frames os = answers reply max gs) (hgs : gs <+: fs)
    (hspell : ∀ f ∈ answers reply max fs, f.Spellable) (hcount : fs.length ≤ Nonce.last) :
    (∀ o ∈ os, o.frame.Fits max) ∧ os.length ≤ Nonce.last := by
  obtain ⟨rest, rfl⟩ := hgs
  refine ⟨fun o ho => ?_, ?_⟩
  · have hmem : o.frame ∈ answers reply max gs := h ▸ List.mem_map_of_mem ho
    refine ⟨checkPayload_of_mem_answers hmem, hspell _ ?_⟩
    rw [answers_append]
    exact List.mem_append_left _ hmem
  · have hlength : (answers reply max gs).length ≤ gs.length := length_answers_le
    rw [← h, length_frames] at hlength
    rw [List.length_append] at hcount
    omega

theorem Calm.early_of_drive (h : Calm reply env e) (hr : e.drive = some r) :
    ∀ due ∈ r.dues, env.now < due := fun due hdue => h.early due (mem_dues_of_drive hr hdue)

/-- While it reads, all frames that were not delivered are ahead. -/
theorem Serving.ahead_of_reading (hs : Serving reply max fs x r) {c : Bytes} {due : Option Nat}
    (hread : r.reading = .reading c due) :
    ∃ gs, r.opener.Ahead c x.stream.incoming x.coming gs ∧ x.log.delivered ++ gs = fs := by
  obtain ⟨c', gs, hc, hahead, hall⟩ := hs.ahead
  rw [hread] at hc hall
  cases hc
  exact ⟨gs, hahead, by simpa [ReadLoop.hand] using hall⟩

/-- The stream has ended: everything was delivered, and the engine winds down. -/
theorem Serving.ends (hs : Serving reply max fs x r) {c : Bytes} {due : Option Nat} {o : Opener}
    {inc : Pipe} (hread : r.reading = .reading c due)
    (hadv : r.opener.advance c x.stream.incoming = some (.ended, o, inc)) :
    (∃ r', Winds (.ok ()) (x.after (x.engine.readLoopEnds { r with opener := o } (.ok ()))
      { x.stream with incoming := inc } []) r') ∧
      frames (x.logged (x.engine.readLoopEnds { r with opener := o } (.ok ()))
        { x.stream with incoming := inc } []).accepted = answers reply max fs ∧
      inc = x.stream.incoming ∧ x.coming = [] ∧ inc.closed = true := by
  obtain ⟨gs, hahead, hall⟩ := hs.ahead_of_reading hread
  obtain rfl := hahead.advance_ended hadv
  obtain ⟨rfl, hempty, hheld, hclosed⟩ := Opener.advance_ended hadv
  rw [Opener.advance_empty _ hempty hheld, if_pos hclosed] at hadv
  cases hadv
  have hqueue : (x.engine.readLoopEnds r (.ok ())).queue.length ≤ x.engine.queue.length :=
    Nat.le_of_eq (by rw [readLoopEnds_eq])
  refine ⟨⟨{ r with reading := .ended, control := .draining (.ok ()) }, ?_⟩, ?_, rfl,
    hahead.arrived hclosed, hclosed⟩
  · refine ⟨?_, rfl, .inl rfl, ?_, hs.running⟩ <;>
      simp [Site.after, readLoopEnds_eq, hs.control, Control.readEnded, Control.isServing]
  · rw [accepted_of_queue _ hqueue, hs.accepted, ← hall, List.append_nil]

/-- The application is done with a frame, and its answer, if there is one, was accepted. -/
theorem Serving.delivers (hs : Serving reply max fs x r) {f : Frame} {os : List Outgoing}
    {due : Option Nat} (hread : r.reading = .handling f)
    (hr' : e.drive = some { r with reading := .reading [] due })
    (hstopped : e.stopped = x.engine.stopped) (hqueue : e.queue = x.engine.queue ++ os)
    (hanswer : frames os = (answer? reply max f).toList) :
    Serving reply max fs (x.near (x.after e x.stream [.delivered f]))
      { r with reading := .reading [] due } := by
  obtain ⟨c, gs, hc, hahead, hall⟩ := hs.ahead
  rw [hread] at hc hall
  cases hc
  refine { hs with
    drive := hr'
    ahead := ⟨[], gs, rfl, hahead, ?_⟩
    accepted := ?_
    taking := hstopped.trans hs.taking }
  · rw [← hall]
    simp [ReadLoop.hand, Site.after, Site.logged, Log.note]
  · show frames (x.logged e x.stream [.delivered f]).accepted =
      answers reply max (x.log.delivered ++ [f])
    rw [Site.accepted_logged, hqueue, List.drop_left, frames_append, hs.accepted, hanswer,
      answers_concat]

/-- The stream is served until it has ended, and what was accepted then are all the answers. -/
theorem serving_stepped (hs : Serving reply max fs x r)
    (hcalm : Calm reply env x.engine) (hmax : x.engine.settings.maxWrite = max)
    (hcalls : x.engine.calls = []) (htable : x.engine.table = [])
    (hclean : (x.logged e d events).troubles = x.log.troubles)
    (h : Stepped env x.engine x.stream e d events) :
    (∃ r', Serving reply max fs (x.near (x.after e d events)) r') ∨
      (∃ r', Winds (.ok ()) (x.after e d events) r') ∧
        frames (x.logged e d events).accepted = answers reply max fs ∧
        d = x.stream ∧ x.coming = [] ∧ d.incoming.closed = true := by
  have hdrive : ∀ {r'}, x.engine.drive = some r' → r = r' := fun hr =>
    Option.some.inj (hs.drive.symm.trans hr)
  have hearly := hcalm.early_of_drive hs.drive
  cases h with
  | notified => exact .inl ⟨r, hs.writes hs.drive rfl rfl rfl rfl (Nat.le_refl _) rfl rfl rfl⟩
  | answered hc
  | expired hc =>
    rw [hcalls] at hc
    cases hc
  | resolved _ _ _ _ ha
  | overflowed _ _ _ _ _ ha =>
    rw [htable] at ha
    cases ha
  | cancelled _ _ htold =>
    rw [hcalm.uncancelled] at htold
    cases htold
  | draining hr hclosing
  | closed hr hclosing
  | closeFailed hr hclosing =>
    obtain rfl := hdrive hr
    rw [hs.control] at hclosing
    cases hclosing
  | writeFailed =>
    simp [Site.logged, Log.note] at hclean
  | emptied _ _ _ hstopped =>
    rw [hs.taking] at hstopped
    cases hstopped
  | batched hr =>
    obtain rfl := hdrive hr
    exact .inl ⟨_, hs.writes rfl rfl rfl rfl rfl (Nat.zero_le _) rfl rfl rfl⟩
  | placed hr =>
    obtain rfl := hdrive hr
    rw [complete_eq]
    exact .inl ⟨_, hs.writes rfl rfl rfl rfl rfl (Nat.le_refl _) rfl rfl rfl⟩
  | waited hr
  | woken hr
  | batchDone hr
  | begun hr
  | placing hr
  | flushing hr
  | flushed hr =>
    obtain rfl := hdrive hr
    exact .inl ⟨_, hs.writes rfl rfl rfl rfl rfl (Nat.le_refl _) rfl rfl rfl⟩
  -- The read loop
  | collected hr hread hadv =>
    obtain rfl := hdrive hr
    obtain ⟨gs, hahead, hall⟩ := hs.ahead_of_reading hread
    refine .inl ⟨_, { hs with drive := rfl, ahead := ?_, accepted := ?_ }⟩
    · refine ⟨_, gs, rfl, hahead.advance_partly hadv, ?_⟩
      show x.log.delivered ++ [] ++ gs = fs
      rw [List.append_nil]
      exact hall
    · exact (congrArg frames (accepted_of_queue _ (Nat.le_refl _))).trans hs.accepted
  | handed hr hread hadv =>
    obtain rfl := hdrive hr
    obtain ⟨_, hahead, hall⟩ := hs.ahead_of_reading hread
    obtain ⟨gs, rfl, hrest⟩ := hahead.advance_frame hadv
    refine .inl ⟨_, { hs with drive := rfl, ahead := ?_, accepted := ?_ }⟩
    · refine ⟨[], gs, rfl, hrest, ?_⟩
      rw [← hall]
      simp [ReadLoop.hand, Site.after, Site.logged, Log.note]
    · exact (congrArg frames (accepted_of_queue _ (Nat.le_refl _))).trans hs.accepted
  | @readEnded _ _ _ reading _ _ _ hr hread hadv hres =>
    obtain rfl := hdrive hr
    cases reading with
    | partly
    | frame => cases hres
    | failed =>
      obtain ⟨_, hahead, -⟩ := hs.ahead_of_reading hread
      exact absurd hadv hahead.not_failed
    | ended =>
      cases hres
      obtain ⟨hwinds, haccepted, rfl, hdone, hclosed⟩ := hs.ends hread hadv
      exact .inr ⟨hwinds, haccepted, rfl, hdone, hclosed⟩
  | readExpired hr hread hexpired =>
    obtain rfl := hdrive hr
    rw [Drive.read_early hread hearly] at hexpired
    cases hexpired
  | @handled _ f hr hread hsilent =>
    obtain rfl := hdrive hr
    have hnone : answer? reply max f = none := by
      refine answer?_eq_none (hsilent.imp_right fun hrefused payload hreply hcheck => ?_)
      rw [← hcalm.reply] at hreply
      refine hrefused payload hreply ?_
      rw [← hmax] at hcheck
      simp [refusal, hcheck, hs.taking]
    exact .inl ⟨_, hs.delivers hread rfl rfl (List.append_nil _).symm (by rw [hnone]; rfl)⟩
  | replied hr hread hf hreply htaken =>
    obtain rfl := hdrive hr
    have hcheck := (refusal_eq_none htaken).1
    rw [hmax] at hcheck
    rw [hcalm.reply] at hreply
    exact .inl ⟨_, hs.delivers hread rfl rfl rfl
      (by rw [answer?_eq_some hf hreply hcheck]; rfl)⟩

/-! ### To the end -/

/-- Until the stream has ended; while what was queued is written; and when that is done. -/
inductive Stage (reply : Bytes → Option Bytes) (max : Nat) (fs : List Frame) (x : Attended) :
    Prop where
  | serving {r : Drive} (h : Serving reply max fs x r)
  | draining {r : Drive} (h : Winds (.ok ()) x.toSite r)
      (haccepted : frames x.log.accepted = answers reply max fs) (hdone : x.coming = [])
      (hclosed : x.stream.incoming.closed = true)
  | done (hdrive : x.engine.drive = none) (hended : x.log.ended = [.ok ()])
      (haccepted : frames x.log.accepted = answers reply max fs)

/-- Where an engine can be that only serves, and nothing has gone wrong. -/
structure Attends (key : SessionKey) (role : Role) (reply : Bytes → Option Bytes)
    (c : Config.Connection) (out inc : Nat) (fs : List Frame) (x : Attended) : Prop where
  world : World.Reachable key role x.toWorld
  settings : x.engine.settings = c.settings
  capacities : Engine.capacities x.stream = (out, inc)
  calls : x.engine.calls = []
  table : x.engine.table = []
  troubles : x.log.troubles = []
  closed : x.stream.outgoing.closed = x.engine.drive.isNone
  stage : Stage reply c.settings.maxWrite fs x

/-- What was accepted so far are answers, though perhaps not all of them. -/
theorem Stage.accepted (h : Stage reply max fs x) :
    ∃ gs, gs <+: fs ∧ frames x.log.accepted = answers reply max gs := by
  cases h with
  | serving h =>
    obtain ⟨c, gs, -, -, hall⟩ := h.ahead
    exact ⟨_, ⟨_, (List.append_assoc ..).symm.trans hall⟩, h.accepted⟩
  | draining _ haccepted => exact ⟨fs, List.prefix_rfl, haccepted⟩
  | done _ _ haccepted => exact ⟨fs, List.prefix_rfl, haccepted⟩

/-- The engine makes a step. -/
theorem Attends.engine (hx : Attends key role reply c out inc fs x)
    (hspell : ∀ f ∈ answers reply c.settings.maxWrite fs, f.Spellable)
    (hcount : fs.length ≤ Nonce.last) (hcalm : Calm reply env x.engine) {t : Task}
    (h : x.engine.step env t x.stream = some (e, d, events)) :
    Attends key role reply c out inc fs (x.near (x.after e d events)) := by
  have hs := stepped_of_step h
  have hmove : Move key role env x.toSite (x.after e d events) := .step h
  have hmax : x.engine.settings.maxWrite = c.settings.maxWrite := by rw [hx.settings]
  obtain ⟨hcalls, htable⟩ := alone_stepped hs hx.calls hx.table
  have hnext : (x.logged e d events).troubles = x.log.troubles ∧
      d.outgoing.closed = e.drive.isNone ∧
      Stage reply c.settings.maxWrite fs (x.near (x.after e d events)) := by
    cases hr : x.engine.drive with
    | none =>
      obtain ⟨-, rfl, rfl, rfl⟩ := over_stepped hs hr hx.calls
      refine ⟨rfl, hx.closed, ?_⟩
      cases hx.stage with
      | serving h =>
        have hdriven := h.drive
        rw [hr] at hdriven
        cases hdriven
      | draining h =>
        have hdriven := h.drive
        rw [hr] at hdriven
        cases hdriven
      | done _ hended haccepted =>
        refine .done hr hended ?_
        exact (congrArg frames (accepted_of_queue [] (Nat.le_refl _))).trans haccepted
    | some r =>
      obtain ⟨gs, hgs, haccepted⟩ := hx.stage.accepted
      obtain ⟨hfits, hnonces⟩ := fits_of_answers haccepted hgs hspell hcount
      rw [← hmax] at hfits
      have hopen : x.stream.outgoing.closed = false := by rw [hx.closed, hr]; rfl
      have hcarries := (outbound_of_reachable hx.world).carries hr
      have hclean := clean_stepped hx.world hr hopen
        (fun err => not_fails hcarries hopen hfits hnonces (hcalm.early_of_drive hr)) hs
      refine ⟨hclean.1, hclean.2, ?_⟩
      cases hx.stage with
      | serving h =>
        rcases serving_stepped h hcalm hmax hx.calls hx.table hclean.1 hs with
          ⟨r', hnext⟩ | ⟨⟨r', hnext⟩, haccepted', rfl, hdone, hended⟩
        · exact .serving hnext
        · exact .draining hnext haccepted' hdone hended
      | draining h haccepted hdone hended =>
        have haccepted' : frames (x.logged e d events).accepted =
            answers reply c.settings.maxWrite fs :=
          (congrArg frames (accepted_of_queue events (queue_stepped hs h.stopped))).trans haccepted
        rcases winds_stepped h hs with ⟨r', hnext⟩ | ⟨hdrive, hresult⟩
        · exact .draining hnext haccepted' hdone (closed_stepped hs hended)
        · exact .done hdrive hresult haccepted'
      | done hdrive =>
        rw [hr] at hdrive
        cases hdrive
  exact {
    world := hx.world.leads (.single (.near hmove))
    settings := (settings_move hmove).trans hx.settings
    capacities := (capacities_stepped hs).trans hx.capacities
    calls := hcalls
    table := htable
    troubles := hnext.1.trans hx.troubles
    closed := hnext.2.1
    stage := hnext.2.2 }

/-- The far end does something. -/
theorem Attends.peer (hx : Attends key role reply c out inc fs x) (h : x.Peer y) :
    Attends key role reply c out inc fs y := by
  have hworld : World.Reachable key role y.toWorld := hx.world.leads (.single h.world)
  cases h with
  | @sends bs rest left p hne hcoming hpush =>
    refine { hx with world := hworld, capacities := ?_, stage := ?_ }
    · obtain ⟨-, -, -, rfl⟩ := Pipe.push_ok hpush
      exact hx.capacities
    · cases hx.stage with
      | serving h =>
        obtain ⟨c', gs, hc, hahead, hall⟩ := h.ahead
        rw [hcoming] at hahead
        exact .serving { h with ahead := ⟨c', gs, hc, hahead.arrives hpush, hall⟩ }
      | draining _ _ hdone =>
        rw [hcoming] at hdone
        exact absurd (List.append_eq_nil_iff.mp hdone).1 hne
      | done hdrive hended haccepted => exact .done hdrive hended haccepted
  | finishes hdone =>
    refine { hx with world := hworld, stage := ?_ }
    cases hx.stage with
    | serving h =>
      obtain ⟨c', gs, hc, hahead, hall⟩ := h.ahead
      rw [hdone] at hahead
      refine .serving { h with ahead := ⟨c', gs, hc, ?_, hall⟩ }
      show Opener.Ahead _ _ _ x.coming _
      rw [hdone]
      exact hahead.ends
    | draining h haccepted => exact .draining { h with } haccepted hdone rfl
    | done hdrive hended haccepted => exact .done hdrive hended haccepted
  | hears =>
    refine { hx with world := hworld, stage := ?_ }
    cases hx.stage with
    | serving h => exact .serving { h with }
    | draining h haccepted hdone hclosed => exact .draining { h with } haccepted hdone hclosed
    | done hdrive hended haccepted => exact .done hdrive hended haccepted

theorem attends_fresh (hfs : ∀ f ∈ fs, f.Spellable ∧ Admits c.settings.maxRead f)
    (hcount : fs.length ≤ Nonce.last) :
    Attends key role reply c out inc fs (.fresh key role env c out inc fs) where
  world := by
    have hstart : Move key role env (World.fresh c out inc).toSite
      (.started key role env c.settings ⟨{ capacity := out }, { capacity := inc }⟩) := starts _ _
    exact ⟨c, out, inc, .single (.near hstart)⟩
  settings := rfl
  capacities := rfl
  calls := rfl
  table := rfl
  troubles := rfl
  closed := rfl
  stage := by
    refine .serving (r := firstDrive key role env c.settings)
      { drive := rfl, control := rfl, accepted := rfl, taking := rfl, running := rfl,
        ahead := ⟨[], fs, rfl, ⟨?_, Opener.short_nil, ?_, hfs, fun _ => ?_⟩, rfl⟩ }
    · rfl
    · rintro ⟨⟩
    · exact Nat.le_trans (Nat.le_of_eq (Nat.zero_add _)) hcount

/-- **An engine that only serves stays one**, whatever it and the far end do. -/
theorem attends_of_leads (hfs : ∀ f ∈ fs, f.Spellable ∧ Admits c.settings.maxRead f)
    (hcount : fs.length ≤ Nonce.last)
    (hspell : ∀ f ∈ answers reply c.settings.maxWrite fs, f.Spellable)
    (h : Attended.Leads reply (.fresh key role env c out inc fs) x) :
    Attends key role reply c out inc fs x := by
  induction h with
  | refl => exact attends_fresh hfs hcount
  | tail _ hstep ih =>
    cases hstep with
    | engine hcalm h => exact ih.engine hspell hcount hcalm h
    | peer h => exact ih.peer h

end Parley.Engine
