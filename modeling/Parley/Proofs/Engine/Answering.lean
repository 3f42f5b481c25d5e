import Parley.Proofs.Channel.Meeting
import Parley.Proofs.Engine.Service

/-! A serving engine whose far end may still send.

The far end sends the wire of some frames and does not end its stream. As long as it does not, the
engine serves (`Answering.stepped`), whatever the far end takes and adds (`Answering.far`). Where
the engine can make no step, it has read all that has arrived, and either there is no room for what
it has to send, or it has sent everything (`Answering.stuck`). -/
namespace Parley.Engine
open Channel

variable {key : SessionKey} {role : Role} {env : Env} {reply : Bytes → Option Bytes}
  {c : Config.Connection} {fs : List Frame} {x y : Attended} {r : Drive} {e e' : Engine}
  {d d' : Duplex} {events : List Event} {t : Task}

/-! ### The far end -/

/-- The far end takes some of what is in the outgoing pipe, and adds to the incoming pipe some of
what it has still to send; it ends neither. -/
inductive Attended.Far (x : Attended) : Attended → Prop where
  | intro {bs coming : Bytes} {o i : Pipe} (hout : bs ++ o.held = x.stream.outgoing.held)
      (hopened : o.closed = x.stream.outgoing.closed)
      (hinc : i.held ++ coming = x.stream.incoming.held ++ x.coming)
      (hlistening : i.closed = false) :
      Far x { x with stream := ⟨o, i⟩, heard := x.heard ++ bs, coming }

theorem Attended.Far.world (h : x.Far y) : World.Step key role x.toWorld y.toWorld := by
  obtain ⟨hout, -, -, -⟩ := h
  exact .far hout

theorem Serving.far {max : Nat} (hs : Serving reply max fs x r) (h : x.Far y) :
    Serving reply max fs y r := by
  obtain ⟨-, -, hinc, hlistening⟩ := h
  obtain ⟨c, gs, hc, hahead, hall⟩ := hs.ahead
  exact { hs with ahead := ⟨c, gs, hc, hahead.elsewhere hlistening hinc, hall⟩ }

/-- A drive that goes on leaves the incoming pipe open, and takes from it only what is there. -/
theorem incoming_driven (h : Stepped env e d e' d' events) (hdriven : e'.drive ≠ none) :
    d'.incoming = { d.incoming with held := d'.incoming.held } := by
  cases h with
  | closed
  | closeFailed
  | writeFailed => exact absurd rfl hdriven
  | collected _ _ hadv
  | readEnded _ _ hadv
  | handed _ _ hadv
  | resolved _ _ hadv
  | overflowed _ _ _ hadv => exact Opener.advance_pipe hadv
  | _ => rfl

/-! ### The engine -/

/-- Where an engine can be that serves these frames, as long as its stream is open. -/
structure Answering (key : SessionKey) (role : Role) (reply : Bytes → Option Bytes)
    (c : Config.Connection) (fs : List Frame) (x : Attended) (r : Drive) : Prop where
  world : World.Reachable key role x.toWorld
  settings : x.engine.settings = c.settings
  calls : x.engine.calls = []
  table : x.engine.table = []
  troubles : x.log.troubles = []
  opened : x.stream.outgoing.closed = false
  listening : x.stream.incoming.closed = false
  serving : Serving reply c.settings.maxWrite fs x r

theorem Answering.far (hx : Answering key role reply c fs x r) (h : x.Far y) :
    Answering key role reply c fs y r := by
  have hworld := hx.world.leads (.single h.world)
  have hserving := hx.serving.far h
  obtain ⟨-, hopened, -, hlistening⟩ := h
  exact { hx with
    world := hworld
    opened := hopened.trans hx.opened
    listening := hlistening
    serving := hserving }

/-- An engine that was given an open stream is reachable, whatever the stream holds for it. -/
theorem reachable_started (key : SessionKey) (role : Role) (env : Env) (c : Config.Connection)
    {d : Duplex} (hempty : d.outgoing.held = []) :
    World.Reachable key role { toSite := .started key role env c.settings d } := by
  have hfar : World.Step key role (World.fresh c 0 0)
      { World.fresh c 0 0 with stream := d, heard := [] ++ [] } := .far hempty
  have hstart : Move key role env (Site.fresh c.settings d) (.started key role env c.settings d) :=
    starts c.settings d
  exact ⟨c, 0, 0, (Relation.ReflTransGen.single hfar).tail (.near hstart)⟩

/-- An engine that was just given an open stream has these frames to read. -/
theorem ahead_started (key : SessionKey) (role : Role) (env : Env)
    {inc : Pipe} {coming : Bytes} (hlistening : inc.closed = false)
    (hfs : ∀ f ∈ fs, f.Spellable ∧ Admits c.settings.maxRead f) (hcount : fs.length ≤ Nonce.last)
    (hcoming : inc.held ++ coming = wire key role.inbound 0 fs) :
    (firstDrive key role env c.settings).opener.Ahead [] inc coming fs := by
  refine ⟨hcoming, Opener.short_nil, fun hclosed => ?_, hfs, fun _ => ?_⟩
  · rw [hlistening] at hclosed
    cases hclosed
  · exact Nat.le_trans (Nat.le_of_eq (Nat.zero_add _)) hcount

/-- An engine that was just given a stream with nothing of its own in it, and on which these frames
come, serves them. -/
theorem answering_started (env : Env) (hfs : ∀ f ∈ fs, f.Spellable ∧ Admits c.settings.maxRead f)
    (hcount : fs.length ≤ Nonce.last) (hempty : d.outgoing.held = [])
    (hopened : d.outgoing.closed = false) (hlistening : d.incoming.closed = false) {coming : Bytes}
    (hcoming : d.incoming.held ++ coming = wire key role.inbound 0 fs) :
    Answering key role reply c fs
      { toSite := .started key role env c.settings d, coming } (firstDrive key role env c.settings)
      where
  world := reachable_started key role env c hempty
  settings := rfl
  calls := rfl
  table := rfl
  troubles := rfl
  opened := hopened
  listening := hlistening
  serving := {
    drive := rfl
    control := rfl
    ahead := ⟨[], fs, rfl, ahead_started key role env hlistening hfs hcount hcoming, rfl⟩
    accepted := rfl
    taking := rfl
    running := rfl }

/-- What was accepted so far are the answers to some of the frames. -/
theorem Answering.accepted (hx : Answering key role reply c fs x r) :
    ∃ gs, gs <+: fs ∧ frames x.log.accepted = answers reply c.settings.maxWrite gs :=
  Stage.accepted (.serving hx.serving)

theorem Answering.fine (hx : Answering key role reply c fs x r)
    (hspell : ∀ f ∈ answers reply c.settings.maxWrite fs, f.Spellable)
    (hcount : fs.length ≤ Nonce.last) {now : Nat} (hearly : ∀ due ∈ r.dues, now < due)
    (err : Error) : ¬ r.writing.Fails now r.sealer x.stream.outgoing err := by
  obtain ⟨gs, hgs, haccepted⟩ := hx.accepted
  obtain ⟨hfits, hnonces⟩ := fits_of_answers haccepted hgs hspell hcount
  rw [← hx.settings] at hfits
  exact not_fails ((outbound_of_reachable hx.world).carries hx.serving.drive) hx.opened hfits
    hnonces hearly

/-- **A step of the engine leaves it serving.** -/
theorem Answering.stepped (hx : Answering key role reply c fs x r)
    (hspell : ∀ f ∈ answers reply c.settings.maxWrite fs, f.Spellable)
    (hcount : fs.length ≤ Nonce.last) (hcalm : Calm reply env x.engine)
    (h : x.engine.step env t x.stream = some (e, d, events)) :
    ∃ r', Answering key role reply c fs (x.near (x.after e d events)) r' := by
  have hs := stepped_of_step h
  have hmove : Move key role env x.toSite (x.after e d events) := .step h
  obtain ⟨hcalls, htable⟩ := alone_stepped hs hx.calls hx.table
  have hclean := clean_stepped hx.world hx.serving.drive hx.opened
    (hx.fine hspell hcount (hcalm.early_of_drive hx.serving.drive)) hs
  have hmax : x.engine.settings.maxWrite = c.settings.maxWrite := by rw [hx.settings]
  rcases serving_stepped hx.serving hcalm hmax hx.calls hx.table hclean.1 hs with
    ⟨r', hnext⟩ | ⟨-, -, rfl, -, hclosed⟩
  · have hdriven : e.drive = some r' := hnext.drive
    have hne : e.drive ≠ none := by
      rw [hdriven]
      exact Option.some_ne_none r'
    have hinc := congrArg Pipe.closed (incoming_driven hs hne)
    exact ⟨r', {
      world := hx.world.leads (.single (.near hmove))
      settings := (settings_move hmove).trans hx.settings
      calls := hcalls
      table := htable
      troubles := hclean.1.trans hx.troubles
      opened := hclean.2.trans (by rw [hdriven]; rfl)
      listening := hinc.trans hx.listening
      serving := hnext }⟩
  · rw [hx.listening] at hclosed
    cases hclosed

theorem Answering.relieved (hx : Answering key role reply c fs x r)
    (hcalm : Calm reply env x.engine) (h : x.engine.step env t x.stream = some (e, d, events)) :
    (x.near (x.after e d events)).Relieved x := by
  refine (relieved_stepped hx.serving.drive (fun c' hc' => ?_) (stepped_of_step h)).resolve_right ?_
  · obtain ⟨c, gs, hc, hahead, -⟩ := hx.serving.ahead
    obtain rfl := Option.some.inj (hc.symm.trans hc')
    exact ⟨gs, hahead⟩
  · rintro ⟨htold, -⟩
    rw [hcalm.uncancelled] at htold
    cases htold

/-- **A serving engine that can make no step has read what has arrived**; and either it waits for
room, or everything has left it. -/
theorem Answering.stuck (hx : Answering key role reply c fs x r) (hattentive : env.attentive = true)
    (hstuck : ∀ t, x.engine.step env t x.stream = none) :
    x.stream.incoming.held = [] ∧ (x.stream.outgoing.room = 0 ∨
      x.heard ++ x.stream.outgoing.held = wire key role.outbound 0 (frames x.log.accepted)) := by
  obtain ⟨⟨-, -, -, -, hheld⟩, hwrites⟩ := stuck_of_served (loops_of_reachable hx.world
    hx.serving.drive) hx.serving.drive hx.serving.control hattentive hstuck
  refine ⟨hheld, hwrites.imp_right fun ⟨hwaiting, hqueue, hbuffer⟩ => ?_⟩
  exact (all_out_of_waiting hx.world hx.serving.drive hwaiting hqueue hbuffer).2

/-- When nothing is left to arrive, all answers were accepted. -/
theorem Answering.accepted_of_stuck (hx : Answering key role reply c fs x r)
    (hattentive : env.attentive = true) (hstuck : ∀ t, x.engine.step env t x.stream = none)
    (hdone : x.coming = []) : frames x.log.accepted = answers reply c.settings.maxWrite fs := by
  obtain ⟨⟨c', due, hread, hempty, hheld⟩, -⟩ := stuck_of_served (loops_of_reachable hx.world
    hx.serving.drive) hx.serving.drive hx.serving.control hattentive hstuck
  obtain ⟨c'', gs, hc, hahead, hall⟩ := hx.serving.ahead
  rw [hdone] at hahead
  obtain ⟨-, rfl⟩ := hahead.nothing_left hempty hheld
  rw [hx.serving.accepted, ← hall, hread]
  simp [ReadLoop.hand]

end Parley.Engine
