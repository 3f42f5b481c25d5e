import Parley.Proofs.Engine.Pair

/-! Whose responses requests get.

Both ends number their requests from 1 on, and a frame whose number some request waits for
is taken for its response, whatever it is. A request therefore gets the reply to it, unless
the other end has made a request under the same number: then it may get that request, or
what the two applications have made of it in turn while nobody waited for it (`Relayed`).
There is nothing else it can get (`correlation`).

The invariant says where the frames of a number come from: while a request waits, every
frame with its number that was received before stems from the other end's request. -/
namespace Parley.Engine
open Channel

/-- What a payload has become when it is back: one end replied to it, and the other to that. -/
inductive Relayed (f g : Bytes → Option Bytes) (payload : Bytes) : Bytes → Prop where
  | same : Relayed f g payload payload
  | back {x y z} (h : Relayed f g payload x) (hf : f x = some y) (hg : g y = some z) :
      Relayed f g payload z

namespace Pair

section
variable (reply : Role → Bytes → Option Bytes) (p : Pair) (r : Role)

/-- A frame stems from a request that the end opposite to `r` has made itself. -/
def Foreign (f : Frame) : Prop :=
  ∃ q ∈ (p.parties r.opposite).log.issued, q.frame.seq = f.seq ∧
    Relayed (reply r) (reply r.opposite) q.frame.payload f.payload

/-- A payload is the reply to a request that the application opposite to `r` was handed. -/
def Replied (f : Frame) (payload : Bytes) : Prop :=
  f ∈ (p.parties r.opposite).log.delivered ∧ reply r.opposite f.payload = some payload

/-- Frames with a number that no request has are foreign, and so are those that came before
a request that waits; what requests came to is a reply to them, or foreign. -/
structure Correlated : Prop where
  early : ∀ x ∈ (p.parties r.opposite).log.accepted, x.frame.isMessage = false →
    (∀ q ∈ (p.parties r).log.issued, q.frame.seq ≠ x.frame.seq) → Foreign reply p r x.frame
  waiting : ∀ a ∈ (p.parties r).engine.table, ∀ f ∈ (p.parties r).log.received,
    f.seq = a.seq → Foreign reply p r f
  answered : ∀ q ∈ (p.parties r).log.issued, ∀ v, (p.site r).Answers q.call v →
    Replied reply p r q.frame v ∨ Foreign reply p r ⟨q.frame.seq, v⟩

end

variable {key : SessionKey} {reply : Role → Bytes → Option Bytes} {p p' : Pair} {r : Role}

theorem Foreign.mono {f : Frame} (h : Foreign reply p r f)
    (hissued : (p.parties r.opposite).log.issued ⊆ (p'.parties r.opposite).log.issued) :
    Foreign reply p' r f := by
  obtain ⟨q, hq, hseq, hrelayed⟩ := h
  exact ⟨q, hissued hq, hseq, hrelayed⟩

theorem Foreign.grow {f : Frame} (h : Foreign reply p r f) (hstep : Step key reply p p') :
    Foreign reply p' r f :=
  h.mono (hstep.grows r.opposite).issued.subset

theorem Replied.grow {f : Frame} {v : Bytes} (h : Replied reply p r f v)
    (hstep : Step key reply p p') : Replied reply p' r f v :=
  ⟨(hstep.grows r.opposite).delivered.subset h.1, h.2⟩

/-! ### Where a frame comes from -/

/-- A frame with a number that the other end accepted is foreign, or its reply to a request,
if whatever it may be a reply to instead is foreign. -/
theorem foreign_or_replied (h : Reachable key reply p) {x : Outgoing}
    (hx : x ∈ (p.parties r.opposite).log.accepted) (hnumber : x.frame.isMessage = false)
    (hforeign : ∀ payload, ⟨x.frame.seq, payload⟩ ∈ (p.parties r).log.delivered →
      Foreign reply p r ⟨x.frame.seq, payload⟩) :
    Foreign reply p r x.frame ∨ ∃ q ∈ (p.parties r).log.issued, q.frame.seq = x.frame.seq ∧
      Replied reply p r q.frame x.frame.payload := by
  rcases h.sourced r.opposite x hx hnumber with ⟨q, hq, hframe⟩ | ⟨payload, hdel, hreply⟩
  · refine .inl ⟨q, hq, congrArg Frame.seq hframe, ?_⟩
    rw [hframe]
    exact .same
  · have hreceived := delivered_received h r.opposite hdel
    obtain ⟨y, hy, hframe⟩ := accepted_of_received h r.opposite hreceived
    rw [Role.opposite_opposite] at hy
    have hnumber' : y.frame.isMessage = false := by
      rw [hframe]
      exact hnumber
    rcases h.sourced r y hy hnumber' with ⟨q, hq, hrequest⟩ | ⟨payload', hdel', hreply'⟩
    · rw [hframe] at hrequest
      refine .inr ⟨q, hq, by rw [hrequest], ?_⟩
      rw [hrequest]
      exact ⟨hdel, hreply⟩
    · rw [hframe] at hdel' hreply'
      obtain ⟨q, hq, hseq, hrelayed⟩ := hforeign payload' hdel'
      exact .inl ⟨q, hq, hseq, hrelayed.back hreply' hreply⟩

/-! ### What each turn keeps -/

/-- The next request gets a number of its own. -/
theorem seq_ne_nextSeq (h : Reachable key reply p)
    (hfew : (p.parties r).log.issued.length + 1 < UInt32.size) {q : Issued}
    (hq : q ∈ (p.parties r).log.issued) : q.frame.seq ≠ (p.parties r).engine.nextSeq := by
  intro hseq
  have hnumbered := h.numbered r (Nat.lt_of_succ_lt hfew)
  have hbound : q.frame.seq.toNat ≤ (p.parties r).log.issued.length := (hnumbered.toNat_mem hq).2
  have hnext : (p.parties r).engine.nextSeq.toNat = (p.parties r).log.issued.length + 1 :=
    (hnumbered.next (h.kept r).tabled hfew).2
  rw [hseq, hnext] at hbound
  exact absurd hbound (Nat.not_succ_le_self _)

/-- An entry has the number of a request. -/
theorem number_of_entry (h : Reachable key reply p)
    (hfew : (p.parties r).log.issued.length < UInt32.size) {a : Awaited}
    (ha : a ∈ (p.parties r).engine.table) : a.seq ≠ Frame.noResponse := by
  obtain ⟨q, hq, -, hseq⟩ := (h.kept r).tabled.issued a ha
  have hnumber := (h.numbered r hfew).isMessage hq
  rw [Frame.isMessage, hseq] at hnumber
  exact beq_eq_false_iff_ne.mp hnumber

/-- A frame that was received before its number was given is foreign. -/
theorem Correlated.foreign_of_received (hc : Correlated reply p r) (h : Reachable key reply p)
    {f : Frame} (hf : f ∈ (p.parties r).log.received) (hnumber : f.isMessage = false)
    (hnew : ∀ q ∈ (p.parties r).log.issued, q.frame.seq ≠ f.seq) : Foreign reply p r f := by
  obtain ⟨x, hx, rfl⟩ := accepted_of_received h r hf
  exact hc.early x hx hnumber hnew

theorem early_far (h : Reachable key reply p) (hc : Correlated reply p r)
    (hstep : Step key reply p p') (hsame : p'.parties r = p.parties r) :
    ∀ x ∈ (p'.parties r.opposite).log.accepted, x.frame.isMessage = false →
      (∀ q ∈ (p'.parties r).log.issued, q.frame.seq ≠ x.frame.seq) →
      Foreign reply p' r x.frame := by
  intro x hx hnumber hnew
  refine (foreign_or_replied (h.step hstep) hx hnumber fun payload hdel => ?_).resolve_right ?_
  · rw [hsame] at hdel hnew
    have hreceived := delivered_received h r hdel
    exact (hc.foreign_of_received h hreceived hnumber hnew).grow hstep
  · rintro ⟨q, hq, hseq, -⟩
    exact hnew q hq hseq

/-- No entry is new, and no frame. -/
theorem Correlated.still_waiting (hc : Correlated reply p r) (hstep : Step key reply p p')
    (htable : ∀ a ∈ (p'.parties r).engine.table, a ∈ (p.parties r).engine.table)
    (hreceived : (p'.parties r).log.received = (p.parties r).log.received) :
    ∀ a ∈ (p'.parties r).engine.table, ∀ f ∈ (p'.parties r).log.received,
      f.seq = a.seq → Foreign reply p' r f := by
  intro a ha f hf hseq
  rw [hreceived] at hf
  exact (hc.waiting a (htable a ha) f hf hseq).grow hstep

theorem waiting_near (h : Reachable key reply p) (hc : Correlated reply p r)
    (hstep : Step key reply p p') (hturn : Turn (reply r) (p.site r) (p'.site r))
    (hfew : (p'.parties r).log.issued.length < UInt32.size) :
    ∀ a ∈ (p'.parties r).engine.table, ∀ f ∈ (p'.parties r).log.received,
      f.seq = a.seq → Foreign reply p' r f := by
  cases hturn with
  | @quiet table hacc htable =>
    have hentries : (p'.parties r).engine.table = table := congrArg Account.table hacc
    refine hc.still_waiting hstep (fun a ha => ?_) (congrArg Account.received hacc)
    rw [hentries] at ha
    exact htable a ha
  | posts hacc
  | delivers hacc
  | replies _ _ hacc =>
    have hentries : (p'.parties r).engine.table = _ := congrArg Account.table hacc
    exact hc.still_waiting hstep (fun a ha => by rwa [hentries] at ha)
      (congrArg Account.received hacc)
  | @asks id payload capacity _ hacc =>
    have hentries : (p'.parties r).engine.table = (p.parties r).engine.table ++ [_] :=
      congrArg Account.table hacc
    have hreceived : (p'.parties r).log.received = (p.parties r).log.received :=
      congrArg Account.received hacc
    have hissued : (p'.parties r).log.issued = (p.parties r).log.issued ++ [_] :=
      congrArg Account.issued hacc
    rw [hissued, List.length_append, List.length_singleton] at hfew
    intro a ha f hf hseq
    rw [hentries] at ha
    rw [hreceived] at hf
    rcases List.mem_append.mp ha with ha | ha
    · exact (hc.waiting a ha f hf hseq).grow hstep
    · have hnext : f.seq = (p.parties r).engine.nextSeq := by
        rw [hseq, List.mem_singleton.mp ha]
        rfl
      refine (hc.foreign_of_received h hf ?_ fun q hq => ?_).grow hstep
      · rw [Frame.isMessage, hnext]
        exact beq_eq_false_iff_ne.mpr (nextSeq_ne_zero _)
      · rw [hnext]
        exact seq_ne_nextSeq h hfew hq
  | @takes g hacc hother =>
    have hentries : (p'.parties r).engine.table = (p.parties r).engine.table :=
      congrArg Account.table hacc
    have hreceived : (p'.parties r).log.received = (p.parties r).log.received ++ [g] :=
      congrArg Account.received hacc
    have hissued : (p'.parties r).log.issued = (p.parties r).log.issued :=
      congrArg Account.issued hacc
    intro a ha f hf hseq
    rw [hentries] at ha
    rw [hreceived] at hf
    rcases List.mem_append.mp hf with hf | hf
    · exact (hc.waiting a ha f hf hseq).grow hstep
    · rw [List.mem_singleton.mp hf] at hseq
      rcases hother with hmessage | hnone
      · have hzero : g.seq = Frame.noResponse := beq_iff_eq.mp hmessage
        exact absurd (hseq.symm.trans hzero) (number_of_entry h (hissued ▸ hfew) ha)
      · exact absurd hseq.symm (hnone a ha)
  | @resolves g b hacc hg hb hbseq =>
    have hentries : (p'.parties r).engine.table =
        (p.parties r).engine.table.filter (·.seq != b.seq) := congrArg Account.table hacc
    have hreceived : (p'.parties r).log.received = (p.parties r).log.received ++ [g] :=
      congrArg Account.received hacc
    intro a ha f hf hseq
    rw [hentries, List.mem_filter] at ha
    rw [hreceived] at hf
    rcases List.mem_append.mp hf with hf | hf
    · exact (hc.waiting a ha.1 f hf hseq).grow hstep
    · rw [List.mem_singleton.mp hf] at hseq
      exact absurd (hseq.symm.trans hbseq.symm) (bne_iff_ne.mp ha.2)

/-- What a request comes to when a frame resolves it. -/
theorem answered_of_resolved (h : Reachable key reply p) (hc : Correlated reply p r)
    (hstep : Step key reply p p') (hfew : (p'.parties r).log.issued.length < UInt32.size)
    {f : Frame} {a : Awaited} (ha : a ∈ (p.parties r).engine.table) (hseq : a.seq = f.seq)
    (hnumber : f.isMessage = false) (hf : f ∈ (p'.parties r).log.received)
    (hdelivered : (p'.parties r).log.delivered = (p.parties r).log.delivered)
    {q : Issued} (hq : q ∈ (p'.parties r).log.issued) (hqseq : q.frame.seq = f.seq) :
    Replied reply p' r q.frame f.payload ∨ Foreign reply p' r f := by
  have hp' := h.step hstep
  obtain ⟨x, hx, rfl⟩ := accepted_of_received hp' r hf
  have hforeign : ∀ payload, ⟨x.frame.seq, payload⟩ ∈ (p'.parties r).log.delivered →
      Foreign reply p' r ⟨x.frame.seq, payload⟩ := by
    intro payload hdel
    rw [hdelivered] at hdel
    exact (hc.waiting a ha _ (delivered_received h r hdel) hseq.symm).grow hstep
  rcases foreign_or_replied hp' hx hnumber hforeign with hfound | ⟨q', hq', hseq', hreplied⟩
  · exact .inr hfound
  · rw [(hp'.numbered r hfew).seq_inj hq hq' (hqseq.trans hseq'.symm)]
    exact .inl hreplied

theorem answered_near (h : Reachable key reply p) (hc : Correlated reply p r)
    (hstep : Step key reply p p') (hturn : Turn (reply r) (p.site r) (p'.site r))
    (hfew : (p'.parties r).log.issued.length < UInt32.size) :
    ∀ q ∈ (p'.parties r).log.issued, ∀ v, (p'.site r).Answers q.call v →
      Replied reply p' r q.frame v ∨ Foreign reply p' r ⟨q.frame.seq, v⟩ := by
  have hkept : ∀ q ∈ (p.parties r).log.issued, ∀ v, (p.site r).Answers q.call v →
      Replied reply p' r q.frame v ∨ Foreign reply p' r ⟨q.frame.seq, v⟩ := fun q hq v hold =>
    (hc.answered q hq v hold).imp (·.grow hstep) (·.grow hstep)
  have hsame : (p'.parties r).log.issued = (p.parties r).log.issued →
      (∀ id v, (p'.site r).Answers id v → (p.site r).Answers id v) →
      ∀ q ∈ (p'.parties r).log.issued, ∀ v, (p'.site r).Answers q.call v →
        Replied reply p' r q.frame v ∨ Foreign reply p' r ⟨q.frame.seq, v⟩ :=
    fun hissued hanswers q hq v hnow => hkept q (hissued ▸ hq) v (hanswers _ _ hnow)
  cases hturn with
  | quiet hacc _ hanswers
  | posts hacc _ hanswers
  | takes hacc _ hanswers
  | delivers hacc hanswers
  | replies _ _ hacc hanswers => exact hsame (congrArg Account.issued hacc) hanswers
  | @asks id payload capacity hnew hacc hanswers =>
    have hissued : (p'.parties r).log.issued = (p.parties r).log.issued ++ [_] :=
      congrArg Account.issued hacc
    intro q hq v hnow
    rw [hissued] at hq
    rcases List.mem_append.mp hq with hq | hq
    · exact hkept q hq v (hanswers _ _ hnow)
    · rw [List.mem_singleton.mp hq] at hnow
      exact absurd ((h.kept r).named.known_of_cameTo (hanswers id v hnow)) hnew
  | @resolves f a hacc hnumber ha hseq hanswers =>
    have hissued : (p'.parties r).log.issued = (p.parties r).log.issued :=
      congrArg Account.issued hacc
    have hreceived : (p'.parties r).log.received = (p.parties r).log.received ++ [f] :=
      congrArg Account.received hacc
    intro q hq v hnow
    rcases hanswers _ _ hnow with hold | ⟨hcall, rfl⟩
    · exact hkept q (hissued ▸ hq) v hold
    · have htabled := (h.kept r).tabled
      obtain ⟨q', hq', hcall', hseq'⟩ := htabled.issued a ha
      have hold : q ∈ (p.parties r).log.issued := hissued ▸ hq
      obtain rfl : q' = q :=
        List.inj_on_of_nodup_map htabled.distinct hq' hold (hcall'.trans hcall.symm)
      have hqseq := hseq'.trans hseq
      have hf : f ∈ (p'.parties r).log.received := by
        rw [hreceived]
        exact List.mem_append_right _ (List.mem_singleton_self f)
      rw [hqseq]
      exact answered_of_resolved h hc hstep hfew ha hseq hnumber hf
        (congrArg Account.delivered hacc) hq hqseq

theorem correlated_step (h : Reachable key reply p) (hc : Correlated reply p r)
    (hstep : Step key reply p p') (hfew : (p'.parties r).log.issued.length < UInt32.size) :
    Correlated reply p' r := by
  rcases hstep.turn r with ⟨hturn, hsame⟩ | ⟨-, hsame⟩
  · refine ⟨?_, waiting_near h hc hstep hturn hfew, answered_near h hc hstep hturn hfew⟩
    intro x hx hnumber hnew
    rw [hsame] at hx
    have hold := hc.early x hx hnumber fun q hq => hnew q ((hstep.grows r).issued.subset hq)
    exact hold.grow hstep
  · have hsite : ∀ {id v}, (p'.site r).Answers id v → (p.site r).Answers id v := by
      intro id v hanswers
      simpa only [Site.Answers, Ledger.CameTo, Site.ledger, site, hsame] using hanswers
    refine ⟨early_far h hc hstep hsame, ?_, ?_⟩
    · intro a ha f hf hseq
      rw [hsame] at ha hf
      exact (hc.waiting a ha f hf hseq).grow hstep
    · intro q hq v hanswers
      rw [hsame] at hq
      exact (hc.answered q hq v (hsite hanswers)).imp (·.grow hstep) (·.grow hstep)

/-- As long as its numbers last, an end is correlated with the other. -/
theorem correlated_of_reachable (h : Reachable key reply p) (r : Role)
    (hfew : (p.parties r).log.issued.length < UInt32.size) : Correlated reply p r := by
  refine Reachable.induct (motive := fun p => (p.parties r).log.issued.length < UInt32.size →
    Correlated reply p r) ?_ ?_ h hfew
  · intro c out inc _
    refine ⟨?_, ?_, ?_⟩
    · exact fun x hx => absurd hx List.not_mem_nil
    · exact fun a ha => absurd ha List.not_mem_nil
    · exact fun q hq => absurd hq List.not_mem_nil
  · intro p p' hp ih hstep hfew
    have hbefore := ih (Nat.lt_of_le_of_lt (hstep.grows r).issued.length_le hfew)
    exact correlated_step hp hbefore hstep hfew

/-! ### Two runs -/

section
variable (key : SessionKey) (reply : Role → Bytes → Option Bytes)

/-- Two requests that are under way at the same time: the client's is answered by the
server's, which nobody was handed. -/
theorem requests_cross :
    ∃ p, Reachable key reply p ∧
      (p.parties .client).log.issued = [⟨0, ⟨1, [1]⟩⟩] ∧
      (p.parties .client).log.returned = [(0, .response [2])] ∧
      (p.parties .server).log.issued = [⟨0, ⟨1, [2]⟩⟩] ∧
      (p.parties .server).log.delivered = [] := by
  let settings : Settings := ({} : Config.Connection).settings
  let env : Role → Env := fun r => prompt false (reply r)
  let f : Frame := ⟨1, [2]⟩
  let p₀ : Pair := fresh (fun _ => {}) 100 100
  -- Both make a request, and the server sends its own.
  let client : Site := .asked key .client (env .client) settings roomy [1] 1 9
  let server : Site := .asked key .server (env .server) settings roomy [2] 1 9
  have hclient : Moves key .client (env .client) (p₀.site .client) client := asks rfl roomy 1 9
  let p₁ : Pair := p₀.put .client client
  have hserver : Moves key .server (env .server) (p₁.site .server) server := asks rfl roomy 1 9
  let sent : Site := server.sent (firstDrive key .server (env .server) settings)
    (wire key .serverToClient 0 [f])
  have hsent : Moves key .server (env .server) server sent :=
    sends_byte rfl rfl rfl rfl rfl rfl rfl rfl rfl (by decide : 25 ≤ 100)
  -- The client takes it for the response, and returns it.
  let p₂ : Pair := p₁.put .server sent
  have hahead : (firstDrive key .client (env .client) settings).opener.Ahead []
      sent.stream.outgoing [] [f] :=
    ahead_first settings rfl rfl (spellable_byte 2) rfl
  obtain ⟨o, inc, bs, -, -, hgiven⟩ := receives (s := p₂.site .client) (env .client) rfl rfl rfl hahead
  have hleads : Leads key reply p₀ _ := ((p₀.leads rfl hclient).trans
    (p₁.leads rfl (hserver.trans hsent))).trans
      (p₂.leads rfl (hgiven.tail (returns 0 rfl rfl)))
  exact ⟨_, ⟨_, _, _, hleads⟩, rfl, rfl, rfl, rfl⟩

/-- A request that is answered by the reply to it. -/
theorem request_answered (hreply : reply .server [1] = some [3]) :
    ∃ p, Reachable key reply p ∧
      (p.parties .client).log.issued = [⟨0, ⟨1, [1]⟩⟩] ∧
      (p.parties .client).log.returned = [(0, .response [3])] ∧
      (p.parties .server).log.issued = [] := by
  let settings : Settings := ({} : Config.Connection).settings
  let env : Role → Env := fun r => prompt false (reply r)
  let f : Frame := ⟨1, [1]⟩
  let g : Frame := ⟨1, [3]⟩
  let p₀ : Pair := fresh (fun _ => {}) 100 100
  -- The client makes a request and sends it.
  let client : Site := .asked key .client (env .client) settings roomy [1] 1 9
  have hclient : Moves key .client (env .client) (p₀.site .client) client := asks rfl roomy 1 9
  let asked : Site := client.sent (firstDrive key .client (env .client) settings)
    (wire key .clientToServer 0 [f])
  have hasked : Moves key .client (env .client) client asked :=
    sends_byte rfl rfl rfl rfl rfl rfl rfl rfl rfl (by decide : 25 ≤ 100)
  -- The server's application replies, and the reply is sent.
  let p₁ : Pair := p₀.put .client asked
  let first : Drive := firstDrive key .server (env .server) settings
  let server : Site := .started key .server (env .server) settings asked.stream.flip
  have hserver : Move key .server (env .server) (p₁.site .server) server :=
    starts settings asked.stream.flip
  have hahead : first.opener.Ahead [] asked.stream.outgoing [] [f] :=
    ahead_first settings rfl rfl (spellable_byte 1) rfl
  obtain ⟨o, inc, bs, -, -, hgiven⟩ := receives (s := server) (env .server) rfl rfl rfl hahead
  let replied : Site := (server.given (env .server) { first with opener := o } f inc bs).replied
    (env .server) { first with opener := o, reading := .handling f } f [3]
  have hreplied : Move key .server (env .server)
      (server.given (env .server) { first with opener := o } f inc bs) replied :=
    replies rfl rfl rfl rfl rfl hreply rfl
  let answered : Site := replied.sent { first with opener := o } (wire key .serverToClient 0 [g])
  have hanswered : Moves key .server (env .server) replied answered :=
    sends_byte rfl rfl rfl rfl rfl rfl rfl rfl rfl (by decide : 25 ≤ 100)
  -- The client's request comes to it.
  let p₂ : Pair := p₁.put .server answered
  have hahead' : (firstDrive key .client (env .client) settings).opener.Ahead []
      answered.stream.outgoing [] [g] :=
    ahead_first settings rfl rfl (spellable_byte 3) rfl
  obtain ⟨o', inc', bs', -, -, hgiven'⟩ :=
    receives (s := p₂.site .client) (env .client) rfl rfl rfl hahead'
  have hfirst : Leads key reply p₀ p₁ := p₀.leads rfl (hclient.trans hasked)
  have hsecond : Leads key reply p₁ p₂ :=
    p₁.leads rfl ((Relation.ReflTransGen.head hserver hgiven).trans (.head hreplied hanswered))
  have hthird : Leads key reply p₂ _ := p₂.leads rfl (hgiven'.tail (returns 0 rfl rfl))
  exact ⟨_, ⟨_, _, _, (hfirst.trans hsecond).trans hthird⟩, rfl, rfl, rfl⟩

end

/-! ### The headline -/

/-- **A request gets the reply to it, or what came of a request under the same number** that
the other end made itself, as long as numbers last. No other request of its own end has that
number. -/
theorem correlation (h : Reachable key reply p)
    (hfew : ∀ r, (p.parties r).log.issued.length < UInt32.size - 1) {q : Issued}
    (hq : q ∈ (p.parties r).log.issued) {v : Bytes}
    (hv : (q.call, .response v) ∈ (p.parties r).log.returned) :
    (∀ q' ∈ (p.parties r).log.issued, q'.frame.seq = q.frame.seq → q' = q) ∧
      ((q.frame ∈ (p.parties r.opposite).log.delivered ∧
          reply r.opposite q.frame.payload = some v) ∨
        ∃ q' ∈ (p.parties r.opposite).log.issued, q'.frame.seq = q.frame.seq ∧
          Relayed (reply r) (reply r.opposite) q'.frame.payload v) := by
  have hlast : (p.parties r).log.issued.length < UInt32.size := Nat.lt_of_lt_pred (hfew r)
  constructor
  · exact fun q' hq' hseq => (h.numbered r hlast).seq_inj hq' hq hseq
  · exact (correlated_of_reachable h r hlast).answered q hq v (.inl hv)

/-- Where the server asks nothing, the client's request can only come to the reply to it. -/
theorem request_gets_reply : ∃ p : Pair,
    Reachable ⟨[7]⟩ (fun _ _ => some [3]) p ∧
    (∀ r, (p.parties r).log.issued.length < UInt32.size - 1) ∧
    ⟨0, ⟨1, [1]⟩⟩ ∈ (p.parties .client).log.issued ∧
    (0, .response [3]) ∈ (p.parties .client).log.returned ∧
    ⟨1, [1]⟩ ∈ (p.parties .server).log.delivered := by
  obtain ⟨p, h, hclient, hreturned, hserver⟩ :=
    request_answered ⟨[7]⟩ (fun _ _ => some [3]) rfl
  have hfew : ∀ r, (p.parties r).log.issued.length < UInt32.size - 1 := by
    rintro (_ | _)
    · rw [hclient]
      decide
    · rw [hserver]
      decide
  have hq : ⟨0, ⟨1, [1]⟩⟩ ∈ (p.parties .client).log.issued := by
    rw [hclient]
    exact List.mem_singleton_self _
  have hv : (0, .response [3]) ∈ (p.parties .client).log.returned := by
    rw [hreturned]
    exact List.mem_singleton_self _
  refine ⟨p, h, hfew, hq, hv, ?_⟩
  rcases (correlation h hfew hq hv).2 with ⟨hdelivered, -⟩ | ⟨q', hq', -⟩
  · exact hdelivered
  · rw [show Role.client.opposite = .server from rfl, hserver] at hq'
    cases hq'

/-- Applications that echo, and requests for different bytes: the client's comes to the
server's byte, and the server's application was handed nothing. -/
theorem request_gets_request : ∃ p : Pair,
    Reachable ⟨[7]⟩ (fun _ => some) p ∧
    (∀ r, (p.parties r).log.issued.length < UInt32.size - 1) ∧
    ∃ q ∈ (p.parties .client).log.issued,
      (q.call, .response [2]) ∈ (p.parties .client).log.returned ∧
      (some q.frame.payload : Option Bytes) ≠ some [2] ∧
      (p.parties .server).log.delivered = [] := by
  obtain ⟨p, h, hclient, hreturned, hserver, hdelivered⟩ := requests_cross ⟨[7]⟩ (fun _ => some)
  refine ⟨p, h, ?_, ⟨0, ⟨1, [1]⟩⟩, ?_, ?_, by decide, hdelivered⟩
  · rintro (_ | _)
    · rw [hclient]
      decide
    · rw [hserver]
      decide
  · rw [hclient]
    exact List.mem_singleton_self _
  · rw [hreturned]
    exact List.mem_singleton_self _

end Pair
end Parley.Engine
