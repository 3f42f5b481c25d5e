import Parley.Proofs.Channel.Sealing
import Parley.Proofs.Engine.Running

/-! A stream that has been used before.

What is in the outgoing pipe when an engine gets its stream, the rest of a public key perhaps, is
no concern of the engine's: whatever it does it would also do without these bytes, had the pipe as
much less capacity (`step_past`, `Move.past`). -/
namespace Parley
open Channel

namespace Channel
variable {n : Nat} {p q : Pipe} {s s' : Sealer} {job : Sealer.Job} {job' : Option Sealer.Job}

/-- A pipe without the first bytes in it, and without the room that they take. -/
def Pipe.past (n : Nat) (p : Pipe) : Pipe :=
  { p with capacity := p.capacity - n, held := p.held.drop n }

theorem Pipe.room_past (h : n ≤ p.held.length) : (p.past n).room = p.room := by
  simp only [room, past, List.length_drop]
  omega

theorem Pipe.push_past (h : n ≤ p.held.length) (bs : Bytes) :
    (p.past n).push bs = (p.push bs).map fun r => r.map fun (rest, q) => (rest, q.past n) := by
  unfold push
  rw [room_past h]
  show (if p.closed = true then _ else _) = _
  split
  · rfl
  · split
    · rfl
    · simp only [past, Option.map_some, Except.map, List.drop_append_of_le_length h]

/-- A stream whose outgoing pipe is without its first bytes. -/
def Duplex.past (n : Nat) (d : Duplex) : Duplex := { d with outgoing := d.outgoing.past n }

namespace Sealer

theorem drainFor_past (h : n ≤ p.held.length) :
    s.drainFor job (p.past n) =
      (s.drainFor job p).map fun r => r.map fun (job', s', q) => (job', s', q.past n) := by
  simp only [drainFor, Outlet.drain, Pipe.push_past h]
  cases p.push s.outlet.held with
  | none => rfl
  | some r => cases r <;> rfl

theorem advance_past (h : n ≤ p.held.length) :
    s.advance job (p.past n) =
      (s.advance job p).map fun r => r.map fun (job', s', q) => (job', s', q.past n) := by
  unfold advance
  split
  · rfl
  · rename_i piece rest
    split
    · exact drainFor_past h
    · split
      · rw [Pipe.push_past h]
        cases p.push piece with
        | none => rfl
        | some r => cases r <;> rfl
      · rfl
  · split
    · rfl
    · exact drainFor_past h
  · split
    · rfl
    · exact drainFor_past h

theorem held_advance (h : s.advance job p = some (.ok (job', s', q))) : p.held <+: q.held := by
  cases stepped_of_advance h with
  | drains
  | passes => exact List.prefix_append ..
  | _ => exact List.prefix_rfl

end Sealer
end Channel

namespace Engine
variable {key : SessionKey} {role : Role} {env : Env} {n : Nat} {e e' : Engine} {d d' : Duplex}
  {events : List Event} {s s' : Site} {t : Task}

/-- What a step of the engine comes to with a stream whose first bytes are left out. -/
def Step.past (n : Nat) (x : Step) : Step := x.map fun (e, d, events) => (e, d.past n, events)

theorem writeLoopEnds_past (e : Engine) (now : Nat) (r : Drive) (d : Duplex)
    (res : Except Error Unit) :
    e.writeLoopEnds now r (d.past n) res = Step.past n (e.writeLoopEnds now r d res) := by
  cases res <;> rfl

theorem stepWrite_past (h : n ≤ d.outgoing.held.length) (e : Engine) :
    e.stepWrite env (d.past n) = Step.past n (e.stepWrite env d) := by
  unfold stepWrite
  split
  · rfl
  · rename_i r hr
    split
    · unfold takeBatch
      split
      · rfl
      · split
        · exact writeLoopEnds_past ..
        · rfl
    · split <;> rfl
    · rename_i batch count hw
      unfold startFrame
      split
      · rfl
      · split
        · exact writeLoopEnds_past ..
        · rfl
    · rename_i job due current rest count hw
      simp only [Duplex.past, Sealer.advance_past h]
      cases r.sealer.advance job d.outgoing with
      | none =>
        simp only [Option.map_none]
        cases expired (some due) .write env.now with
        | none => rfl
        | some err =>
          rw [Option.bind_some, Option.bind_some]
          exact writeLoopEnds_past ..
      | some res =>
        cases res with
        | error => exact writeLoopEnds_past ..
        | ok x =>
          obtain ⟨job', s', q⟩ := x
          cases job' <;> rfl
    · rename_i due count hw
      simp only [Duplex.past, Sealer.advance_past h]
      cases r.sealer.advance .flushing d.outgoing with
      | none =>
        simp only [Option.map_none]
        cases expired (some due) .write env.now with
        | none => rfl
        | some err =>
          rw [Option.bind_some, Option.bind_some]
          exact writeLoopEnds_past ..
      | some res =>
        cases res with
        | error => exact writeLoopEnds_past ..
        | ok x =>
          obtain ⟨job', s', q⟩ := x
          cases job' <;> rfl
    · rfl

theorem stepClose_past (h : n ≤ d.outgoing.held.length) (e : Engine) :
    e.stepClose env (d.past n) = Step.past n (e.stepClose env d) := by
  unfold stepClose
  split
  · rename_i r hr
    split
    · rename_i result due hcontrol
      simp only [Duplex.past, Sealer.advance_past h]
      cases r.sealer.advance .closing d.outgoing with
      | none =>
        simp only [Option.map_none]
        cases expired (some due) .write env.now <;> rfl
      | some res =>
        cases res with
        | error => rfl
        | ok x =>
          obtain ⟨job', s', q⟩ := x
          cases job' <;> rfl
    · rfl
  · rfl

theorem stepRead_past (e : Engine) (d : Duplex) :
    e.stepRead env (d.past n) = Step.past n (e.stepRead env d) := by
  unfold stepRead
  split
  · rfl
  · rename_i r hr
    split
    · rfl
    · split
      · rfl
      · split <;> rfl
      · rename_i collected due hread
        simp only [Duplex.past]
        cases r.opener.advance collected d.incoming with
        | none =>
          dsimp only
          cases expired due .read env.now <;> rfl
        | some x =>
          obtain ⟨reading, opener, incoming⟩ := x
          cases reading <;> rfl

/-- **An engine takes the same steps on a stream without the bytes that were there before.** -/
theorem step_past (h : n ≤ d.outgoing.held.length) (e : Engine) :
    e.step env t (d.past n) = Step.past n (e.step env t d) := by
  cases t with
  | notify =>
    simp only [step, stepNotify]
    split <;> rfl
  | call id =>
    simp only [step, stepCall]
    split
    · rfl
    · split
      · rfl
      · rfl
      · split <;> rfl
  | cancel =>
    simp only [step, stepCancel]
    split
    · split
      · split <;> rfl
      · rfl
    · rfl
  | read => exact stepRead_past e d
  | write => exact stepWrite_past h e
  | close => exact stepClose_past h e

theorem held_stepped (h : Stepped env e d e' d' events) :
    d.outgoing.held <+: d'.outgoing.held := by
  cases h with
  | draining _ _ hadv
  | placing _ _ hadv
  | placed _ _ hadv
  | flushing _ _ hadv
  | flushed _ _ hadv => exact Sealer.held_advance hadv
  | closed _ _ hadv =>
    have hheld := Sealer.held_advance hadv
    exact hheld
  | _ => exact List.prefix_rfl

theorem abandon_past (e : Engine) (d : Duplex) :
    e.abandon (d.past n) = ((e.abandon d).1, (e.abandon d).2.past n) := by
  unfold abandon
  cases e.drive <;> rfl

theorem held_abandon (e : Engine) (d : Duplex) :
    (e.abandon d).2.outgoing.held = d.outgoing.held := by
  unfold abandon
  cases e.drive <;> rfl

/-- A site whose outgoing pipe is without its first bytes. -/
def Site.past (n : Nat) (s : Site) : Site := { s with stream := s.stream.past n }

/-- Whatever happens at a site, what is in the outgoing pipe stays there. -/
theorem held_move (h : Move key role env s s') :
    s.stream.outgoing.held <+: s'.stream.outgoing.held := by
  cases h with
  | step h => exact held_stepped (stepped_of_step h)
  | abandon => exact ⟨[], (List.append_nil _).trans (held_abandon ..).symm⟩
  | _ => exact List.prefix_rfl

/-- **Whatever happens at a site would also happen without the bytes that were there before.** -/
theorem Move.past (h : Move key role env s s') (hn : n ≤ s.stream.outgoing.held.length) :
    Move key role env (s.past n) (s'.past n) := by
  cases h with
  | post h => exact .post h
  | write hnew h => exact .write hnew h
  | request hnew hfree h => exact .request hnew hfree h
  | refuse hnew h => exact .refuse hnew h
  | giveUp hc => exact .giveUp hc
  | start h => exact .start h
  | abandon =>
    have hmove : Move key role env (s.past n) _ := .abandon
    have hpast : (s.past n).engine.abandon (s.past n).stream = _ :=
      abandon_past s.engine s.stream
    rwa [hpast] at hmove
  | @step t e d events h =>
    have hstep : (s.past n).engine.step env t (s.past n).stream = _ := step_past hn s.engine
    rw [h] at hstep
    exact .step hstep

/-! ### Sites on such a stream -/

/-- A site on a stream whose outgoing pipe held these bytes before, and what its far end has read
since. -/
structure Greeted extends Site where
  greeting : Bytes
  heard : Bytes := []

namespace Greeted
variable {x y : Greeted}

/-- An engine that has just been given a stream. -/
def fresh (settings : Settings) (d : Duplex) : Greeted where
  engine := { settings }
  stream := d
  greeting := d.outgoing.held

/-- Either a move of the site, or the far end reads some of what is in the outgoing pipe
and does whatever it likes to the rest of the stream. -/
inductive Step (key : SessionKey) (role : Role) (x : Greeted) : Greeted → Prop where
  | near {env : Env} {s : Site} (h : Move key role env x.toSite s) :
      Step key role x { x with toSite := s }
  | far {d : Duplex} {bytes : Bytes} (h : bytes ++ d.outgoing.held = x.stream.outgoing.held) :
      Step key role x { x with stream := d, heard := x.heard ++ bytes }

/-- One comes to be another. -/
abbrev Leads (key : SessionKey) (role : Role) : Greeted → Greeted → Prop :=
  Relation.ReflTransGen (Step key role)

/-- What an engine that has just been given a stream comes to be. -/
def Reachable (key : SessionKey) (role : Role) (x : Greeted) : Prop :=
  ∃ (c : Config.Connection) (d : Duplex), Leads key role (fresh c.settings d) x

theorem leads (x : Greeted) (h : Moves key role env x.toSite s) :
    Leads key role x { x with toSite := s } := by
  induction h with
  | refl => exact .refl
  | tail _ hmove ih => exact ih.tail (.near hmove)

theorem Reachable.leads (h : x.Reachable key role) (hlater : Leads key role x y) :
    y.Reachable key role := by
  obtain ⟨c, d, hleads⟩ := h
  exact ⟨c, d, hleads.trans hlater⟩

/-- What is still to be read of what was there before. -/
def ahead (x : Greeted) : Nat := x.greeting.length - x.heard.length

/-- The same without what was there before. -/
def world (x : Greeted) : World where
  toSite := x.toSite.past x.ahead
  heard := x.heard.drop x.greeting.length

/-- What was there before comes first. -/
def Fronted (x : Greeted) : Prop := x.greeting <+: x.heard ++ x.stream.outgoing.held

theorem Fronted.ahead_le (h : x.Fronted) : x.ahead ≤ x.stream.outgoing.held.length := by
  have hlen := h.length_le
  rw [List.length_append] at hlen
  unfold ahead
  omega

theorem fronted_step (h : x.Fronted) (hstep : Step key role x y) : y.Fronted := by
  cases hstep with
  | near hm => exact h.trans ((List.prefix_append_right_inj x.heard).mpr (held_move hm))
  | far hheld =>
    rw [Fronted, List.append_assoc]
    exact hheld ▸ h

theorem world_step (h : x.Fronted) (hstep : Step key role x y) :
    World.Step key role x.world y.world := by
  cases hstep with
  | near hm => exact .near (hm.past h.ahead_le)
  | @far d bytes hheld =>
    have hfar : World.Step key role x.world { x.world with
        stream := d.past (x.ahead - bytes.length)
        heard := x.world.heard ++ bytes.drop x.ahead } := by
      refine .far ?_
      show bytes.drop x.ahead ++ d.outgoing.held.drop (x.ahead - bytes.length) =
        x.stream.outgoing.held.drop x.ahead
      rw [← hheld, List.drop_append]
    have hahead : x.ahead - bytes.length = x.greeting.length - (x.heard ++ bytes).length := by
      rw [List.length_append, ahead]
      omega
    have hheard : x.heard.drop x.greeting.length ++ bytes.drop x.ahead =
        (x.heard ++ bytes).drop x.greeting.length := List.drop_append.symm
    have hworld : World.mk ⟨x.engine, d.past (x.ahead - bytes.length), x.log⟩
        (x.heard.drop x.greeting.length ++ bytes.drop x.ahead) =
        world { x with stream := d, heard := x.heard ++ bytes } := by
      rw [hahead, hheard]
      rfl
    rw [← hworld]
    exact hfar

theorem reachable_world (h : x.Reachable key role) :
    x.Fronted ∧ World.Reachable key role x.world := by
  obtain ⟨c, d, hleads⟩ := h
  induction hleads with
  | refl =>
    have hnone : d.outgoing.held.drop d.outgoing.held.length = [] :=
      List.drop_eq_nil_of_le (Nat.le_refl _)
    have hfar : World.Step key role (World.fresh c 0 0) { World.fresh c 0 0 with
        stream := d.past d.outgoing.held.length, heard := [] ++ [] } := .far hnone
    have hworld : World.mk ⟨{ settings := c.settings }, d.past d.outgoing.held.length, {}⟩
        ([] ++ []) = (fresh c.settings d).world := by
      rw [world, fresh, List.drop_nil]
      rfl
    exact ⟨List.prefix_rfl, c, 0, 0, .single (hworld ▸ hfar)⟩
  | tail _ hstep ih => exact ⟨fronted_step ih.1 hstep, ih.2.leads (.single (world_step ih.1 hstep))⟩

end Greeted
end Engine
end Parley
