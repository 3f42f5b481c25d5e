import Parley.Proofs.Engine.Dealings
import Parley.Proofs.Engine.Delivery
import Parley.Proofs.Engine.Receiving
import Parley.Proofs.Engine.Running

/-! Two engines at the two ends of one stream.

A `Pair` changes when something happens at either end. Seen from one end, what the other
does is something a far end may do (`Pair.Step.world`), so that all that is known of a
single engine holds of both. Hence the frames that one receives are the first of those that
the other accepted (`received_of_accepted`). -/
namespace Parley.Engine
open Channel

/-- An engine and what has happened at its end. -/
structure Party where
  engine : Engine
  log : Log := {}

/-- Two engines, and their stream as the client sees it. -/
structure Pair where
  parties : Role → Party
  stream : Duplex

namespace Pair

/-- The client's stream as one end sees it, or one end's as the client does. -/
def view : Role → Duplex → Duplex
  | .client => id
  | .server => Duplex.flip

@[simp] theorem view_view (r : Role) (d : Duplex) : view r (view r d) = d := by
  cases r <;> rfl

theorem view_opposite (r : Role) (d : Duplex) : view r.opposite d = (view r d).flip := by
  cases r <;> rfl

/-- One end. -/
def site (p : Pair) (r : Role) : Site where
  engine := (p.parties r).engine
  stream := view r p.stream
  log := (p.parties r).log

/-- The same, with one end and its stream in this state. -/
def put (p : Pair) (r : Role) (s : Site) : Pair where
  parties r' := if r' = r then ⟨s.engine, s.log⟩ else p.parties r'
  stream := view r s.stream

/-- One end and what it knows of the other, which is the bytes that were read. -/
def world (p : Pair) (r : Role) : World where
  toSite := p.site r
  heard := (p.parties r.opposite).log.taken

/-- Before anything has happened. Either end has its own settings. -/
def fresh (c : Role → Config.Connection) (out inc : Nat) : Pair where
  parties r := { engine := { settings := (c r).settings } }
  stream := ⟨{ capacity := out }, { capacity := inc }⟩

/-- Something happens at one of the ends, in whatever surroundings; the application there
replies as it always does. -/
inductive Step (key : SessionKey) (reply : Role → Bytes → Option Bytes) (p : Pair) :
    Pair → Prop where
  | move {r env s} (hreply : env.reply = reply r) (h : Move key r env (p.site r) s) :
      Step key reply p (p.put r s)

/-- Things happen at the two ends one after another. -/
abbrev Leads (key : SessionKey) (reply : Role → Bytes → Option Bytes) : Pair → Pair → Prop :=
  Relation.ReflTransGen (Step key reply)

/-- A pair that a fresh one comes to be. -/
def Reachable (key : SessionKey) (reply : Role → Bytes → Option Bytes) (p : Pair) : Prop :=
  ∃ c out inc, Leads key reply (fresh c out inc) p

section
variable {p : Pair} {r : Role} {s : Site}

@[simp] theorem site_put (p : Pair) (r : Role) (s : Site) : (p.put r s).site r = s := by
  simp only [site, put, if_pos, view_view]

/-- What happens at one end leaves the other as it is, but for the stream. -/
theorem parties_put_opposite (p : Pair) (r : Role) (s : Site) :
    (p.put r s).parties r.opposite = p.parties r.opposite := by
  simp only [put, if_neg (Role.opposite_ne r)]

theorem site_put_opposite (p : Pair) (r : Role) (s : Site) :
    (p.put r s).site r.opposite = { p.site r.opposite with stream := s.stream.flip } := by
  simp only [site, parties_put_opposite]
  rw [put, view_opposite, view_view]

theorem put_put (p : Pair) (r : Role) (s s' : Site) : (p.put r s).put r s' = p.put r s' := by
  simp only [put, Pair.mk.injEq, and_true]
  funext r'
  split <;> rfl

theorem put_site (p : Pair) (r : Role) : p.put r (p.site r) = p := by
  simp only [put, site, view_view]
  congr
  funext r'
  split
  · rename_i h
    rw [h]
  · rfl

theorem stream_opposite (p : Pair) (r : Role) :
    (p.site r.opposite).stream = (p.site r).stream.flip := view_opposite r p.stream

end

variable {key : SessionKey} {reply : Role → Bytes → Option Bytes} {p p' : Pair}

/-- To the end where something happens it is a move, and to the other what a far end does. -/
theorem Step.world (h : Step key reply p p') (r : Role) :
    World.Step key r (p.world r) (p'.world r) := by
  obtain @⟨m, env, s, -, hm⟩ := h
  rcases Role.eq_or_eq_opposite r m with rfl | rfl
  · have hworld : (p.put m s).world m = { p.world m with toSite := s } := by
      simp only [Pair.world, site_put, parties_put_opposite]
    rw [hworld]
    exact .near hm
  · obtain ⟨bs, hheld, htaken⟩ := hm.reads
    have hworld : (p.put m s).world m.opposite =
        { p.world m.opposite with
          stream := s.stream.flip, heard := (p.world m.opposite).heard ++ bs } := by
      simp only [Pair.world, site_put_opposite, Role.opposite_opposite]
      rw [show ((p.put m s).parties m).log = s.log by simp only [put, if_pos], htaken]
      rfl
    rw [hworld]
    refine .far ?_
    show bs ++ s.stream.incoming.held = (p.site m.opposite).stream.outgoing.held
    rw [hheld, stream_opposite]
    rfl

theorem leads {reply : Role → Bytes → Option Bytes} (p : Pair) {r : Role}
    (hreply : env.reply = reply r) (h : Moves key r env (p.site r) s) :
    Leads key reply p (p.put r s) := by
  induction h with
  | refl =>
    rw [put_site]
  | @tail t u _ hmove ih =>
    have hstep : Step key reply (p.put r t) ((p.put r t).put r u) :=
      .move hreply (by rw [site_put]; exact hmove)
    rw [put_put] at hstep
    exact ih.tail hstep

theorem world_fresh (c : Role → Config.Connection) (out inc : Nat) (r : Role) :
    ∃ out' inc', (fresh c out inc).world r = World.fresh (c r) out' inc' := by
  cases r
  · exact ⟨out, inc, rfl⟩
  · exact ⟨inc, out, rfl⟩

theorem Reachable.step (h : Reachable key reply p) (hstep : Step key reply p p') :
    Reachable key reply p' := by
  obtain ⟨c, out, inc, hleads⟩ := h
  exact ⟨c, out, inc, hleads.tail hstep⟩

/-- What holds of a fresh pair and is kept by every step holds of every pair. -/
theorem Reachable.induct {motive : Pair → Prop} (hfresh : ∀ c out inc, motive (fresh c out inc))
    (hstep : ∀ p p', Reachable key reply p → motive p → Step key reply p p' → motive p')
    (h : Reachable key reply p) : motive p := by
  obtain ⟨c, out, inc, hleads⟩ := h
  induction hleads with
  | refl => exact hfresh c out inc
  | tail hleads h ih => exact hstep _ _ ⟨c, out, inc, hleads⟩ ih h

theorem Reachable.world (h : Reachable key reply p) (r : Role) :
    World.Reachable key r (p.world r) := by
  refine Reachable.induct (motive := fun p => World.Reachable key r (p.world r)) ?_ ?_ h
  · intro c out inc
    obtain ⟨out', inc', hworld⟩ := world_fresh c out inc r
    exact ⟨c r, out', inc', hworld ▸ .refl⟩
  · exact fun p p' _ ih hstep => ih.leads (.single (hstep.world r))

/-- The receiving side of either end. -/
theorem Reachable.inbound (h : Reachable key reply p) (r : Role) :
    Inbound key r.inbound (p.site r).intake (p.site r).inlet :=
  inbound_of_reachable (h.world r)

/-- **The frames that one end receives are the first of those that the other accepted.** -/
theorem received_of_accepted (h : Reachable key reply p) (r : Role) :
    (p.parties r).log.received <+: frames (p.parties r.opposite).log.accepted := by
  have htaken := (h.inbound r).taken
  obtain ⟨cut, rest, hflow⟩ := (outbound_of_reachable (h.world r.opposite)).flow
  have hheard : (p.world r.opposite).heard = (p.parties r).log.taken := by
    rw [Pair.world, Role.opposite_opposite]
  -- What was taken is the first of what the other end handed over.
  have hout : (p.parties r).log.taken <+:
      wire key r.inbound 0 (frames ((p.parties r.opposite).log.written ++ cut)) := by
    have hbytes : (p.world r.opposite).heard ++ (p.world r.opposite).stream.outgoing.held ++ rest =
        wire key r.opposite.outbound 0 (frames ((p.parties r.opposite).log.written ++ cut)) :=
      hflow.bytes
    rw [Role.outbound_opposite, hheard, List.append_assoc] at hbytes
    rw [← hbytes]
    exact List.prefix_append ..
  obtain ⟨x, hx⟩ := htaken.bytes.trans hout
  exact (prefix_of_wire key r.inbound htaken.spellable (spellable_frames hflow.spellable) hx).trans
    (frames_mono hflow.order)

/-! ### Turns -/

theorem parties_put_self (p : Pair) (r : Role) (s : Site) :
    (p.put r s).parties r = ⟨s.engine, s.log⟩ := by
  simp only [put, if_pos]

/-- A step is a turn of one end, and leaves the other as it was. -/
theorem Step.turn (h : Step key reply p p') (r : Role) :
    (Turn (reply r) (p.site r) (p'.site r) ∧ p'.parties r.opposite = p.parties r.opposite) ∨
      (Turn (reply r.opposite) (p.site r.opposite) (p'.site r.opposite) ∧
        p'.parties r = p.parties r) := by
  obtain @⟨m, env, s, hreply, hm⟩ := h
  have hturn := turn_of_move hm
  rw [hreply] at hturn
  rcases Role.eq_or_eq_opposite r m with rfl | rfl
  · exact .inl ⟨by rw [site_put]; exact hturn, parties_put_opposite p m s⟩
  · refine .inr ⟨?_, parties_put_opposite p m s⟩
    rw [Role.opposite_opposite, site_put]
    exact hturn

theorem Step.grows (h : Step key reply p p') (r : Role) :
    (p.parties r).log.Grows (p'.parties r).log := by
  obtain @⟨m, env, s, -, hm⟩ := h
  rcases Role.eq_or_eq_opposite r m with rfl | rfl
  · rw [parties_put_self]
    exact hm.grows
  · rw [parties_put_opposite]
    exact .refl _

theorem account_of_parties {r : Role} (h : p'.parties r = p.parties r) :
    (p'.site r).account = (p.site r).account := by
  simp only [site, Site.account, h]

theorem Reachable.kept (h : Reachable key reply p) (r : Role) : (p.site r).ledger.Kept :=
  kept_of_reachable (h.world r)

theorem Reachable.sourced (h : Reachable key reply p) (r : Role) :
    Sourced (reply r) (p.site r).account := by
  refine Reachable.induct (motive := fun p => Sourced (reply r) (p.site r).account) ?_ ?_ h
  · exact fun c out inc x hx => absurd hx List.not_mem_nil
  · intro p p' _ ih hstep
    rcases hstep.turn r with ⟨hturn, -⟩ | ⟨-, hsame⟩
    · exact sourced_turn hturn ih
    · rw [account_of_parties hsame]
      exact ih

theorem Reachable.numbered (h : Reachable key reply p) (r : Role)
    (hfew : (p.parties r).log.issued.length < UInt32.size) : Numbered (p.site r).account := by
  refine Reachable.induct (motive := fun p => (p.parties r).log.issued.length < UInt32.size →
    Numbered (p.site r).account) ?_ ?_ h hfew
  · exact fun c out inc _ => ⟨rfl, rfl⟩
  · intro p p' hp ih hstep hfew
    have hbefore := ih (Nat.lt_of_le_of_lt (hstep.grows r).issued.length_le hfew)
    rcases hstep.turn r with ⟨hturn, -⟩ | ⟨-, hsame⟩
    · exact numbered_turn hturn hbefore (hp.kept r).tabled hfew
    · rw [account_of_parties hsame]
      exact hbefore

theorem delivered_received (h : Reachable key reply p) (r : Role) {f : Frame}
    (hf : f ∈ (p.parties r).log.delivered) : f ∈ (p.parties r).log.received :=
  (h.inbound r).taken.delivered f hf

/-- Whatever was received was accepted at the other end. -/
theorem accepted_of_received (h : Reachable key reply p) (r : Role) {f : Frame}
    (hf : f ∈ (p.parties r).log.received) :
    ∃ x ∈ (p.parties r.opposite).log.accepted, x.frame = f :=
  List.mem_map.mp ((received_of_accepted h r).subset hf)

end Pair
end Parley.Engine
