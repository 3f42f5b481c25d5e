import Parley.Proofs.Engine.Dealings
import Parley.Proofs.Engine.Delivery
import Parley.Proofs.Engine.Greeting
import Parley.Proofs.Engine.Loops

/-! How a drive parts with its stream.

The write direction is shut down only when everything that was accepted is out, to the last byte
(`allOut_of_closing`): then nothing is left that could fail. The only other end is that the write
loop fails, and what that comes to depends on what came first (`parts_of_ended`). -/
namespace Parley.Engine
open Channel

variable {key : SessionKey} {role : Role} {env : Env} {w w' : World} {s : Site} {e : Engine}
  {d : Duplex} {events : List Event} {r : Drive} {res : Except Error Unit}

/-- Everything that was accepted has been handed over, to the last byte. -/
structure World.AllOut (key : SessionKey) (role : Role) (w : World) : Prop where
  written : w.log.written = w.log.accepted
  bytes : w.heard ++ w.stream.outgoing.held = wire key role.outbound 0 (frames w.log.accepted)

/-- Nothing is left to hand over when the stream is to be closed, neither in the queue nor in the
buffer. -/
theorem allOut_of_closing (h : World.Reachable key role w) (hr : w.engine.drive = some r)
    (hclosing : r.control.isClosing = true) : w.AllOut key role ∧ r.sealer.outlet.held = [] := by
  have hcarries := (outbound_of_reachable h).carries hr
  have hloops := loops_of_reachable h hr
  have hheld : r.sealer.outlet.held = [] :=
    hloops.flushed (by rw [hloops.writes.mpr hclosing]; rfl)
  obtain ⟨-, hqueue, hrest, hhand⟩ := hcarries.closing hclosing
  have hcurrent : r.lane.current = [] := by rw [Lane.current, hhand]; rfl
  have hleft : r.lane.left = [] := by rw [Lane.left, hhand]; rfl
  have horder := hcarries.order
  have hbytes := hcarries.bytes
  rw [hcurrent, hrest, hqueue, List.append_nil, List.append_nil, List.append_nil] at horder
  have hbuffer : r.lane.sealer.outlet.held = [] := hheld
  rw [hcurrent, hleft, hbuffer, List.append_nil, List.append_nil, List.append_nil, ← horder]
    at hbytes
  exact ⟨⟨horder.symm, hbytes⟩, hheld⟩

theorem WriteLoop.Fails.going {now : Nat} {sealer : Sealer} {p : Pipe} {l : WriteLoop} {err : Error}
    (h : l.Fails now sealer p err) : l ≠ .ended := by
  rintro rfl
  cases h with
  | sealing hl
  | broken hl
  | late hl => cases hl

namespace Greeted
variable {x : Greeted} {t : Task}

/-- Everything that was accepted has been handed over, to the last byte. -/
structure AllOut (key : SessionKey) (role : Role) (x : Greeted) : Prop where
  written : x.log.written = x.log.accepted
  bytes : x.heard ++ x.stream.outgoing.held =
    x.greeting ++ wire key role.outbound 0 (frames x.log.accepted)

theorem allOut_of_world (hfront : x.Fronted) (h : x.world.AllOut key role) : x.AllOut key role where
  written := h.written
  bytes := by
    have hbytes : x.heard.drop x.greeting.length ++ x.stream.outgoing.held.drop x.ahead =
        wire key role.outbound 0 (frames x.log.accepted) := h.bytes
    obtain ⟨rest, hrest⟩ := hfront
    have hdrop : (x.heard ++ x.stream.outgoing.held).drop x.greeting.length = rest := by
      rw [← hrest, List.drop_left]
    rw [← hrest, ← hbytes, ← hdrop, List.drop_append]
    rfl

/-- How a drive ends, with what it comes to: the stream is closed, or the write loop fails, and
then it matters whether the engine was serving. -/
inductive Parts (key : SessionKey) (role : Role) (x y : Greeted) : Except Error Unit → Prop where
  | closes {r : Drive} {res : Except Error Unit} {due : Nat} (hr : x.engine.drive = some r)
      (hcontrol : r.control = .closing res due) (hout : x.AllOut key role)
      (hclosed : y.stream.outgoing = x.stream.outgoing.close)
      (htroubles : y.log.troubles = x.log.troubles) : Parts key role x y res
  | fails {r : Drive} {err : Error} (hr : x.engine.drive = some r) (hcontrol : r.control = .serving)
      (htroubles : y.log.troubles = x.log.troubles ++ [err]) : Parts key role x y (.error err)
  | failsDraining {r : Drive} {res : Except Error Unit} {err : Error}
      (hr : x.engine.drive = some r) (hcontrol : r.control = .draining res)
      (htroubles : y.log.troubles = x.log.troubles ++ [err]) : Parts key role x y res

/-- **A drive ends in one of these ways.** -/
theorem parts_of_ended (h : x.Reachable key role)
    (hs : x.engine.step env t x.stream = some (e, d, events)) (hrunning : x.log.ended = [])
    (hended : (x.logged e d events).ended = [res]) :
    Parts key role x { x with toSite := x.after e d events } res := by
  obtain ⟨hfront, hworld⟩ := reachable_world h
  have hlast : ∀ {res'}, x.log.ended ++ [res'] = [res] → res' = res := fun hlog => by
    rw [hrunning] at hlog
    exact (List.cons.inj hlog).1
  cases stepped_of_step hs with
  | @closed r res' due sealer out hr hclosing hadv =>
    obtain rfl := hlast hended
    obtain ⟨hout, hheld⟩ := allOut_of_closing hworld hr (by rw [hclosing]; rfl)
    rw [Sealer.advance, if_pos hheld] at hadv
    cases hadv
    exact .closes hr hclosing (allOut_of_world hfront hout) rfl rfl
  | @closeFailed r res' due err hr hclosing hbuffer =>
    exact absurd (allOut_of_closing hworld hr (by rw [hclosing]; rfl)).2 hbuffer
  | @writeFailed r err res' hr hresult hfails =>
    obtain rfl := hlast hended
    subst hresult
    cases hcontrol : r.control with
    | serving => exact .fails hr hcontrol rfl
    | draining res => exact .failsDraining hr hcontrol rfl
    | closing res due =>
      -- The write loop is over by then.
      exact absurd ((loops_of_reachable hworld hr).writes.mpr (by rw [hcontrol]; rfl)) hfails.going
  | _ => exact absurd (hrunning.symm.trans hended) (List.cons_ne_nil _ _).symm

/-- What has happened once is not undone. -/
theorem grows_leads {y : Greeted} (h : Leads key role x y) : x.log.Grows y.log := by
  induction h with
  | refl => exact .refl _
  | tail _ hstep ih =>
    cases hstep with
    | near hm => exact ih.trans hm.grows
    | far => exact ih

theorem over_of_ended (h : x.Reachable key role) (hended : x.log.ended ≠ []) : Over x.engine :=
  Engine.over_of_ended (reachable_world h).2 hended

/-- Nothing is accepted when a drive ends, or later. -/
theorem accepted_of_ended {y : Greeted} (h : x.Reachable key role) (hstep : Step key role x y)
    (hended : y.log.ended ≠ []) : y.log.accepted = x.log.accepted := by
  cases hstep with
  | far => rfl
  | @near env s hm =>
    by_cases hbefore : x.log.ended = []
    · cases hm with
      | step hs =>
        rcases ended_stepped (stepped_of_step hs) with hover | hsame
        · exact accepted_of_queue _ (by rw [hover.queue]; exact Nat.zero_le _)
        · exact absurd (hsame.trans hbefore) hended
      | _ => exact absurd hbefore hended
    · exact accepted_of_stopped hm (over_of_ended h hbefore).stopped

/-- **A drive that is over has parted with its stream at some step**, and everything that was ever
accepted was accepted before. -/
theorem exists_parts {z : Greeted} (h : x.Reachable key role) (hrunning : x.log.ended = [])
    (hleads : Leads key role x z) (hended : z.log.ended = [res]) :
    ∃ u v, Leads key role x u ∧ Step key role u v ∧ Leads key role v z ∧
      z.log.accepted = u.log.accepted ∧ Parts key role u v res := by
  induction hleads with
  | refl => exact absurd (hrunning.symm.trans hended) (List.cons_ne_nil _ _).symm
  | @tail y z hlead hstep ih =>
    have hy : y.Reachable key role := h.leads hlead
    have hsame := accepted_of_ended hy hstep (by rw [hended]; exact List.cons_ne_nil _ _)
    by_cases hbefore : y.log.ended = []
    · refine ⟨y, z, hlead, hstep, .refl, hsame, ?_⟩
      cases hstep with
      | far => exact absurd (hbefore.symm.trans hended) (List.cons_ne_nil _ _).symm
      | near hm =>
        cases hm with
        | step hs => exact parts_of_ended hy hs hbefore hended
        | _ => exact absurd (hbefore.symm.trans hended) (List.cons_ne_nil _ _).symm
    · have hprefix : y.log.ended <+: [res] := hended ▸ (grows_leads (.single hstep)).ended
      have hy' : y.log.ended = [res] :=
        (List.prefix_cons_iff.mp hprefix).elim (absurd · hbefore) fun ⟨t, ht, hnil⟩ => by
          rw [ht, List.prefix_nil.mp hnil]
      obtain ⟨u, v, hu, huv, hv, haccepted, hparts⟩ := ih hy'
      exact ⟨u, v, hu, huv, hv.tail hstep, hsame.trans haccepted, hparts⟩

end Greeted
end Parley.Engine
