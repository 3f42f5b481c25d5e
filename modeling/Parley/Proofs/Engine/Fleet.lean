import Mathlib.Logic.Function.Basic
import Parley.Proofs.Engine.Carriers
import Parley.Proofs.Engine.Ledger
import Parley.Proofs.Engine.Submission

/-! Engines that share a pool of carriers.

The frames that an engine has not done with are in carriers: a call takes one from the pool, a reply
brings one of its own, and when its frame is written or refused a carrier goes to the pool. A
`Fleet` is a pool with the engines that use it, each with its stream and its carriers; an `Act` is
one thing done there, and leads to one thing (`Fleet.perform`).

Carriers come to the pool from every engine and from elsewhere, in any order and with anything in
them. Still each carrier in use holds its engine's next frame, in order (`Fleet.Sound`), and what
the engines do is what they would do with fresh carriers (`carriers_are_like_fresh_ones`). -/
namespace Parley.Engine
open Channel

/-- The frames that an engine has not done with, oldest first. -/
def inHand (e : Engine) : List Outgoing := e.batch ++ e.queue

/-! ### What an engine does with its frames -/

section
variable {env : Env} {e e' : Engine} {d d' : Duplex} {events : List Event}

theorem inHand_of_drive {r : Drive} (hr : e.drive = some r) :
    e.inHand = r.writing.batch ++ e.queue := by
  rw [inHand, batch, hr]
  rfl

/-- A step is done with the first frames, or adds a reply behind them. -/
theorem inHand_stepped (h : Stepped env e d e' d' events) :
    e'.inHand <:+ e.inHand ∨ ∃ f, e'.inHand = e.inHand ++ [{ frame := f }] := by
  cases h with
  | notified => exact .inl List.suffix_rfl
  | answered
  | expired =>
    rw [leave_eq]
    exact .inl List.suffix_rfl
  | closed
  | closeFailed
  | writeFailed => exact .inl List.nil_suffix
  | cancelled hr
  | draining hr
  | flushing hr
  | collected hr
  | handed hr
  | resolved hr
  | handled hr =>
    rw [inHand_of_drive hr]
    exact .inl List.suffix_rfl
  | waited hr hw
  | woken hr hw
  | emptied hr hw
  | batchDone hr hw
  | begun hr hw
  | placing hr hw
  | flushed hr hw =>
    rw [inHand_of_drive hr, hw]
    exact .inl List.suffix_rfl
  | @batched r hr hw hqueue =>
    have hsame : ({ e with queue := [] }.driving
        { r with writing := .next e.queue e.queue.length }).inHand = e.inHand := by
      rw [inHand_of_drive hr, hw]
      exact List.append_nil _
    exact .inl (hsame ▸ List.suffix_rfl)
  | placed hr hw =>
    rw [inHand_of_drive hr, hw, complete_eq]
    exact .inl (List.suffix_cons ..)
  | readEnded hr
  | readExpired hr
  | overflowed hr =>
    rw [inHand_of_drive hr, readLoopEnds_eq]
    exact .inl List.suffix_rfl
  | replied hr =>
    rw [inHand_of_drive hr]
    exact .inr ⟨_, (List.append_assoc ..).symm⟩

theorem inHand_start {now : Nat} {s : Sealer} {o : Opener} (h : e.start now s o = .ok e') :
    e'.inHand <:+ e.inHand := by
  obtain ⟨-, rfl⟩ := start_eq_ok h
  exact List.suffix_append ..

theorem inHand_giveUp (e : Engine) (id : CallId) : (e.giveUp id).inHand = e.inHand := by
  unfold giveUp
  split
  · rfl
  · rw [leave_eq]
    rfl

/-- The batch is dropped. -/
theorem inHand_abandon (e : Engine) (d : Duplex) :
    (e.abandon d).1.inHand = e.inHand.drop e.batch.length := by
  rw [inHand, inHand, List.drop_left]
  unfold abandon
  cases hr : e.drive with
  | none =>
    rw [batch, hr]
    rfl
  | some r =>
    dsimp only
    rw [completeAll_eq]
    rfl

end

/-! ### Submissions -/

/-- The carrier that a submission loads. -/
def Submission.carrier (s : Desk) : Submission → Carrier
  | .post payload => (s.pool.carry ⟨Frame.noResponse, payload⟩ none).1
  | .write id payload => (s.pool.carry ⟨Frame.noResponse, payload⟩ (some id)).1
  | .request _ payload _ _ =>
    { (s.pool.carry ⟨Frame.noResponse, payload⟩ none).1 with seq := s.engine.nextSeq }

namespace Desk
variable {s : Desk} {a : Submission} {err : Error}

/-- A submission that is taken has taken a carrier, whose frame comes last in the queue. -/
theorem after_taken (h : s.engine.refusal a.payload.length = none) :
    ∃ s', s.after (submit a) = (.ok (), s') ∧ s'.pool = s.pool.acquire.2 ∧
      s'.engine.inHand = s.engine.inHand ++ [(a.carrier s).outgoing] := by
  cases a with
  | post payload =>
    exact ⟨_, (after_bind_ok (after_load_ok h)).trans rfl, rfl, (List.append_assoc ..).symm⟩
  | write id payload =>
    exact ⟨_, (after_bind_ok (after_load_ok h)).trans rfl, rfl, (List.append_assoc ..).symm⟩
  | request id payload capacity due =>
    exact ⟨_, (after_bind_ok (after_load_ok h)).trans rfl, rfl, (List.append_assoc ..).symm⟩

/-- One that is refused has taken none, or has given it back. -/
theorem after_refusal (h : s.engine.refusal a.payload.length = some err) :
    ∃ s', s.after (submit a) = (.error err, s') ∧ s'.engine = s.engine ∧
      (s'.pool = s.pool ∨ ∃ c, s'.pool = s.pool.acquire.2.release c) := by
  have hload : ∀ waiter, ∃ s', s.after (load a.payload waiter) = (.error err, s') ∧
      s'.engine = s.engine ∧ (s'.pool = s.pool ∨ ∃ c, s'.pool = s.pool.acquire.2.release c) := by
    intro waiter
    obtain ⟨s', hload, hengine, hpool⟩ := after_load_error h
    exact ⟨s', hload, hengine, hpool.imp_right fun h => ⟨_, h⟩⟩
  cases a with
  | post payload
  | request id payload capacity due =>
    obtain ⟨s', hnone, hleft⟩ := hload none
    exact ⟨s', after_bind_error hnone, hleft⟩
  | write id payload =>
    obtain ⟨s', hsome, hleft⟩ := hload (some id)
    exact ⟨s', after_bind_error hsome, hleft⟩

/-- With a clean pool a submission comes to what the call comes to. -/
theorem after_submit (h : s.pool.Clean) :
    (s.after (submit a)).1 = (a.submit s.engine).map (fun _ => ()) ∧
      (s.after (submit a)).2.engine = match a.submit s.engine with
        | .ok e => e
        | .error _ => s.engine := by
  cases hsubmit : a.submit s.engine with
  | error err =>
    obtain ⟨s', hafter, hengine⟩ := after_refused hsubmit
    rw [hafter]
    exact ⟨rfl, hengine⟩
  | ok e =>
    obtain ⟨s', hafter, hengine⟩ := after_accepted hsubmit h.outgoing_carry
    rw [hafter]
    exact ⟨rfl, hengine⟩

end Desk

/-! ### Fleets -/

/-- An engine with its stream, and the carriers of the frames that it has not done with. -/
structure Member where
  engine : Engine
  stream : Duplex
  carriers : List Carrier := []

structure Fleet where
  pool : Pool
  members : Nat → Member

namespace Fleet

/-- One thing that is done. -/
inductive Act where
  | submit (i : Nat) (a : Submission)
  | start (i now : Nat) (sealer : Sealer) (opener : Opener)
  /-- A step of an engine. If it queues a reply, this is what the reply's buffer can hold. -/
  | step (i : Nat) (env : Env) (t : Task) (capacity : Nat)
  | giveUp (i : Nat) (id : CallId)
  | abandon (i : Nat)
  /-- What the far end and the network make of a stream. -/
  | far (i : Nat) (g : Duplex → Duplex)
  /-- A carrier is taken from the pool for something else. -/
  | acquire
  /-- A carrier comes to the pool, from wherever and with anything in it. -/
  | release (c : Carrier)

/-- What is seen of an act: the outcome of a call, or what a step reports. -/
inductive Report where
  | result (r : Except Error Unit)
  | events (events : List Event)

/-- Nothing has happened yet to any engine; the pool keeps so many carriers. -/
def fresh (settings : Nat → Settings) (stream : Nat → Duplex) (capacity : Nat) : Fleet where
  pool := { capacity }
  members i := { engine := { settings := settings i }, stream := stream i }

/-- The pool and one member are like this now. -/
def put (f : Fleet) (pool : Pool) (i : Nat) (m : Member) : Fleet where
  pool
  members := Function.update f.members i m

/-- An engine has gone on. The carriers of the frames that it is done with go to the pool, and a
reply is behind the others in one of its own. -/
def goesOn (f : Fleet) (i : Nat) (engine : Engine) (stream : Duplex) (capacity : Nat) : Fleet :=
  let carriers := (f.members i).carriers
  let done := carriers.length - engine.inHand.length
  let replies := (engine.inHand.drop carriers.length).map fun o => Carrier.wrap o.frame capacity
  f.put ((carriers.take done).foldl .release f.pool) i
    { engine, stream, carriers := carriers.drop done ++ replies }

/-- What an act leads to, if it can be done. -/
def perform (f : Fleet) : Act → Option (Fleet × Report)
  | .submit i a =>
    let m := f.members i
    let desk : Desk := ⟨m.engine, f.pool⟩
    let r := desk.after (Desk.submit a)
    let carriers := m.carriers ++ match r.1 with
      | .ok _ => [a.carrier desk]
      | .error _ => []
    some (f.put r.2.pool i { m with engine := r.2.engine, carriers }, .result r.1)
  | .start i now sealer opener =>
    match (f.members i).engine.start now sealer opener with
    | .error err => some (f, .result (.error err))
    | .ok engine => some (f.goesOn i engine (f.members i).stream 0, .result (.ok ()))
  | .step i env t capacity =>
    ((f.members i).engine.step env t (f.members i).stream).map fun r =>
      (f.goesOn i r.1 r.2.1 capacity, .events r.2.2)
  | .giveUp i id =>
    some (f.goesOn i ((f.members i).engine.giveUp id) (f.members i).stream 0, .events [])
  | .abandon i =>
    let m := f.members i
    let r := m.engine.abandon m.stream
    -- The batch is dropped with its carriers.
    let carriers := m.carriers.drop m.engine.batch.length
    some (f.put f.pool i ⟨r.1, r.2, carriers⟩, .events [])
  | .far i g =>
    let m := f.members i
    some (f.put f.pool i { m with stream := g m.stream }, .events [])
  | .acquire => some ({ f with pool := f.pool.acquire.2 }, .events [])
  | .release c => some ({ f with pool := f.pool.release c }, .events [])

/-- One act after another, and what is seen of them. -/
inductive Run : Fleet → List Act → List Report → Fleet → Prop where
  | nil {f} : Run f [] [] f
  | cons {f a r f' as rs f''} (h : f.perform a = some (f', r)) (hrest : Run f' as rs f'') :
      Run f (a :: as) (r :: rs) f''

variable {f f' g : Fleet} {i : Nat} {a : Act} {as : List Act} {r : Report} {rs : List Report}

/-- The pool is clean, and the carriers in use hold the frames that the engines have not done
with, in order. -/
structure Sound (f : Fleet) : Prop where
  clean : f.pool.Clean
  holds : ∀ i, (f.members i).carriers.map (·.outgoing) = (f.members i).engine.inHand

theorem sound_fresh (settings : Nat → Settings) (stream : Nat → Duplex) (capacity : Nat) :
    (fresh settings stream capacity).Sound :=
  ⟨Pool.clean_empty capacity, fun _ => rfl⟩

theorem Sound.put (h : f.Sound) {pool : Pool} (hclean : pool.Clean) {m : Member}
    (hm : m.carriers.map (·.outgoing) = m.engine.inHand) : (f.put pool i m).Sound where
  clean := hclean
  holds j := by
    unfold Fleet.put
    by_cases hj : j = i
    · simp only [hj, Function.update_self, hm]
    · simp only [Function.update_of_ne hj, h.holds j]

theorem Sound.goesOn (h : f.Sound) {engine : Engine} {stream : Duplex} {capacity : Nat}
    (hstep : engine.inHand <:+ (f.members i).engine.inHand ∨
      ∃ o, engine.inHand = (f.members i).engine.inHand ++ [{ frame := o }]) :
    (f.goesOn i engine stream capacity).Sound := by
  refine h.put (h.clean.releaseAll _) ?_
  have hholds := h.holds i
  have hlength := congrArg List.length hholds
  rw [List.length_map] at hlength
  rw [List.map_append, List.map_drop, hholds, hlength]
  rcases hstep with hdone | ⟨o, hreply⟩
  · rw [List.drop_of_length_le hdone.length_le, List.map_nil, List.map_nil, List.append_nil]
    exact (List.suffix_iff_eq_drop.mp hdone).symm
  · rw [hreply, List.drop_left, List.length_append, Nat.sub_eq_zero_of_le (Nat.le_add_right ..)]
    rfl

theorem Sound.perform (h : f.Sound) (hact : f.perform a = some (f', r)) : f'.Sound := by
  cases a with
  | submit i a =>
    cases hact
    let desk : Desk := ⟨(f.members i).engine, f.pool⟩
    cases hrefusal : desk.engine.refusal a.payload.length with
    | none =>
      obtain ⟨s, hafter, hpool, hinHand⟩ := Desk.after_taken hrefusal
      rw [show (Desk.mk (f.members i).engine f.pool).after (Desk.submit a) = _ from hafter]
      refine h.put (hpool ▸ h.clean.acquire.2) ?_
      rw [List.map_append, h.holds i]
      exact hinHand.symm
    | some err =>
      obtain ⟨s, hafter, hengine, hpool⟩ := Desk.after_refusal hrefusal
      rw [show (Desk.mk (f.members i).engine f.pool).after (Desk.submit a) = _ from hafter]
      refine h.put ?_ ?_
      · rcases hpool with hpool | ⟨c, hpool⟩ <;> rw [hpool]
        · exact h.clean
        · exact h.clean.acquire.2.release c
      · rw [List.append_nil, hengine]
        exact h.holds i
  | start i now sealer opener =>
    simp only [Fleet.perform] at hact
    split at hact <;> cases hact
    · exact h
    · rename_i engine hstart
      exact h.goesOn (.inl (inHand_start hstart))
  | step i env t capacity =>
    obtain ⟨⟨e, d, events⟩, hstep, hr⟩ := Option.map_eq_some_iff.mp hact
    cases hr
    exact h.goesOn (inHand_stepped (stepped_of_step hstep))
  | giveUp i id =>
    cases hact
    exact h.goesOn (.inl ⟨[], inHand_giveUp _ id⟩)
  | abandon i =>
    cases hact
    refine h.put h.clean ?_
    rw [inHand_abandon, ← h.holds i, List.map_drop]
  | far i g =>
    cases hact
    exact h.put h.clean (h.holds i)
  | acquire =>
    cases hact
    exact ⟨h.clean.acquire.2, h.holds⟩
  | release c =>
    cases hact
    exact ⟨h.clean.release c, h.holds⟩

theorem Run.sound (hrun : Run f as rs f') (h : f.Sound) : f'.Sound := by
  induction hrun with
  | nil => exact h
  | cons hact _ ih => exact ih (h.perform hact)

/-! ### What the pool makes no difference to -/

/-- The engines with their streams. -/
def engines (f : Fleet) (i : Nat) : Engine × Duplex := ((f.members i).engine, (f.members i).stream)

theorem engines_put (f : Fleet) (pool : Pool) (i : Nat) (m : Member) :
    (f.put pool i m).engines = Function.update f.engines i (m.engine, m.stream) := by
  funext j
  unfold engines put
  by_cases hj : j = i
  · simp only [hj, Function.update_self]
  · simp only [Function.update_of_ne hj]

theorem engines_goesOn (f : Fleet) (i : Nat) (e : Engine) (d : Duplex) (capacity : Nat) :
    (f.goesOn i e d capacity).engines = Function.update f.engines i (e, d) :=
  engines_put ..

/-- **What an act comes to does not depend on the pool.** -/
theorem Sound.same (hf : f.Sound) (hg : g.Sound) (hsame : f.engines = g.engines)
    (hact : f.perform a = some (f', r)) :
    ∃ g', g.perform a = some (g', r) ∧ f'.engines = g'.engines := by
  have hengine : ∀ i, (f.members i).engine = (g.members i).engine := fun i =>
    congrArg Prod.fst (congrFun hsame i)
  have hstream : ∀ i, (f.members i).stream = (g.members i).stream := fun i =>
    congrArg Prod.snd (congrFun hsame i)
  cases a with
  | submit i a =>
    cases hact
    obtain ⟨hresult, hafter⟩ := @Desk.after_submit ⟨(f.members i).engine, f.pool⟩ a hf.clean
    obtain ⟨hresult', hafter'⟩ := @Desk.after_submit ⟨(g.members i).engine, g.pool⟩ a hg.clean
    refine ⟨_, congrArg some (congrArg₂ Prod.mk rfl (congrArg Report.result ?_)), ?_⟩
    · rw [hresult, hresult', hengine]
    · rw [engines_put, engines_put, hafter, hafter', hsame]
      simp only [hengine, hstream]
  | start i now sealer opener =>
    simp only [Fleet.perform, hengine, hstream] at hact ⊢
    split at hact <;> cases hact
    · exact ⟨g, rfl, hsame⟩
    · refine ⟨_, rfl, ?_⟩
      rw [engines_goesOn, engines_goesOn, hsame]
  | step i env t capacity =>
    obtain ⟨⟨e, d, events⟩, hstep, hr⟩ := Option.map_eq_some_iff.mp hact
    cases hr
    rw [hengine, hstream] at hstep
    refine ⟨_, Option.map_eq_some_iff.mpr ⟨_, hstep, rfl⟩, ?_⟩
    rw [engines_goesOn, engines_goesOn, hsame]
  | giveUp i id =>
    cases hact
    refine ⟨_, rfl, ?_⟩
    rw [engines_goesOn, engines_goesOn, hsame, hengine, hstream]
  | abandon i =>
    cases hact
    refine ⟨_, rfl, ?_⟩
    rw [engines_put, engines_put, hsame]
    simp only [hengine, hstream]
  | far i g =>
    cases hact
    refine ⟨_, rfl, ?_⟩
    rw [engines_put, engines_put, hsame]
    simp only [hengine, hstream]
  | acquire
  | release =>
    cases hact
    exact ⟨_, rfl, hsame⟩

/-- Nor does what a run comes to. -/
theorem Run.same (hrun : Run f as rs f') (hf : f.Sound) (hg : g.Sound)
    (hsame : f.engines = g.engines) : ∃ g', Run g as rs g' ∧ f'.engines = g'.engines := by
  induction hrun generalizing g with
  | nil => exact ⟨g, .nil, hsame⟩
  | cons hact _ ih =>
    obtain ⟨g₁, hact', hsame₁⟩ := hf.same hg hsame hact
    obtain ⟨g', hrun', hsame'⟩ := ih (hf.perform hact) (hg.perform hact') hsame₁
    exact ⟨g', .cons hact' hrun', hsame'⟩

theorem capacity_perform (hact : f.perform a = some (f', r)) :
    f'.pool.capacity = f.pool.capacity := by
  cases a with
  | submit i a =>
    cases hact
    let desk : Desk := ⟨(f.members i).engine, f.pool⟩
    show (desk.after (Desk.submit a)).2.pool.capacity = _
    cases hrefusal : desk.engine.refusal a.payload.length with
    | none =>
      obtain ⟨s, hafter, hpool, -⟩ := Desk.after_taken hrefusal
      rw [hafter, hpool, Pool.capacity_acquire]
    | some err =>
      obtain ⟨s, hafter, -, hpool | ⟨c, hpool⟩⟩ := Desk.after_refusal hrefusal
      · rw [hafter, hpool]
      · rw [hafter, hpool, Pool.capacity_release, Pool.capacity_acquire]
  | start i now sealer opener =>
    simp only [Fleet.perform] at hact
    split at hact <;> cases hact
    · rfl
    · exact Pool.capacity_releaseAll ..
  | step i env t capacity =>
    obtain ⟨_, -, hr⟩ := Option.map_eq_some_iff.mp hact
    cases hr
    exact Pool.capacity_releaseAll ..
  | giveUp =>
    cases hact
    exact Pool.capacity_releaseAll ..
  | abandon
  | far =>
    cases hact
    rfl
  | acquire =>
    cases hact
    exact Pool.capacity_acquire _
  | release c =>
    cases hact
    exact Pool.capacity_release _ c

theorem Run.capacity (hrun : Run f as rs f') : f'.pool.capacity = f.pool.capacity := by
  induction hrun with
  | nil => rfl
  | cons hact _ ih => exact ih.trans (capacity_perform hact)

/-- **Carriers from the pool are like fresh ones.** Whatever the engines that share it do, and
whatever carriers are taken from it and come to it besides, those that wait in the pool have nothing
in them and small buffers, are no more than it keeps, and are one less when one is taken and one
more when one is kept. So a carrier that is taken and loaded holds this frame and this waiter and
nothing else, the carriers in use hold the frames that their engines have not done with, and with a
pool of any other capacity the engines and their streams come to the same and report the same: also
with one that keeps none, where every carrier is a fresh one. -/
theorem carriers_are_like_fresh_ones {settings : Nat → Settings} {stream : Nat → Duplex}
    {capacity : Nat} (hrun : Run (fresh settings stream capacity) as rs f) :
    (∀ c ∈ f.pool.idle, c.Blank) ∧ f.pool.idle.length ≤ capacity ∧
    f.pool.acquire.2.idle.length = f.pool.idle.length - 1 ∧
    (∀ c, (f.pool.release c).idle.length =
      if c.capacity ≤ Carrier.maxRetained ∧ f.pool.idle.length < capacity
      then f.pool.idle.length + 1 else f.pool.idle.length) ∧
    (∀ o waiter, (f.pool.carry o waiter).1.Holds o waiter) ∧
    (∀ i, (f.members i).carriers.map (·.outgoing) = (f.members i).engine.inHand) ∧
    ∀ capacity', ∃ g, Run (fresh settings stream capacity') as rs g ∧ g.engines = f.engines ∧
      (capacity' = 0 → g.pool.acquire = ({}, g.pool)) := by
  have hstart := sound_fresh settings stream
  obtain ⟨hclean, hholds⟩ := hrun.sound (hstart capacity)
  have hcapacity : f.pool.capacity = capacity := hrun.capacity
  refine ⟨hclean.blank, hcapacity ▸ hclean.bound, Pool.length_acquire _,
    fun c => hcapacity ▸ Pool.length_release _ c, fun o waiter => (hclean.carry o waiter).1, hholds,
    fun capacity' => ?_⟩
  obtain ⟨g, hrun', hsame⟩ := hrun.same (hstart capacity) (hstart capacity') rfl
  refine ⟨g, hrun', hsame.symm, fun hzero => ?_⟩
  have hbound := (hrun'.sound (hstart capacity')).clean.bound
  have hidle : g.pool.idle = [] := by
    rw [hrun'.capacity] at hbound
    exact List.eq_nil_of_length_eq_zero (Nat.le_zero.mp (hzero ▸ hbound))
  rw [Pool.acquire, hidle]

/-- Engines over short streams. -/
def dinghies (capacity : Nat) : Fleet :=
  fresh (fun _ => ({} : Config.Connection).settings) (fun _ => .ofCapacity 8) capacity

/-- A carrier comes to the pool with a frame and a waiter in it, and then two calls are made. -/
def handMeDown : List Act :=
  [.release { seq := 7, buffer := [1, 2, 3], capacity := 100, waiter := some 5 },
    .submit 0 (.post [9]), .submit 1 (.request 6 [8] 4 10)]

/-- The first call takes that carrier, and its frame is as if it had a fresh one. -/
theorem used_carrier_is_like_a_fresh_one :
    ∃ f rs, Run (dinghies 4) handMeDown rs f ∧
      (f.members 0).carriers = [{ buffer := [9], capacity := 100 }] ∧
      (f.members 1).carriers = [{ seq := 1, buffer := [8], capacity := 8 }] ∧
      ∃ g, Run (dinghies 0) handMeDown rs g ∧ g.engines = f.engines := by
  obtain ⟨f, rs, hrun, hfirst, hsecond⟩ : ∃ f rs, Run (dinghies 4) handMeDown rs f ∧
      (f.members 0).carriers = [{ buffer := [9], capacity := 100 }] ∧
      (f.members 1).carriers = [{ seq := 1, buffer := [8], capacity := 8 }] :=
    ⟨_, _, .cons rfl (.cons rfl (.cons rfl .nil)), rfl, rfl⟩
  obtain ⟨g, hrun', hsame, -⟩ := (carriers_are_like_fresh_ones hrun).2.2.2.2.2.2 0
  exact ⟨f, rs, hrun, hfirst, hsecond, g, hrun', hsame⟩

end Fleet

end Parley.Engine
