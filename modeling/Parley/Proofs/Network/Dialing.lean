import Parley.Proofs.Network.Waiting

/-! A command-line call from its beginning.

The call looks at its client's signal, takes a slot of its client's, and dials; all this is its own
(`Errand.Dials`). The dial finds a loop of the server's listening, which has the stream in its line
from then on, and the handshake begins with a fresh secret. -/
namespace Parley
open Channel Meeting

/-! ### A server that can be reached -/

namespace Sim.Network
variable {own li : CallId} {connection : Config.Connection} {address : String} {n n' : Network}
  {t : Task} {r : Running} {s : StreamId} {calm : Network → Prop} {u v : Watch}

/-- A call finds a server at an address, and new streams are new to everybody. -/
structure Reaches (own li : CallId) (connection : Config.Connection) (address : String)
    (n : Network) : Prop where
  steady : Steady connection n
  listens : n.server.Listens li address
  direct : address ∉ n.blackHoles
  alone : ∀ l ∈ n.listeners, l.address ≠ address
  apart : ∀ i : Nat, n.links.length ≤ i → n.Apart own .nowhere i

theorem Reaches.passes (h : Reaches own li connection address n) (now : Nat) :
    Reaches own li connection address { n with now } where
  steady := ⟨h.steady.reachable, h.steady.connection, h.steady.running, h.steady.echo,
    h.steady.attentive, h.steady.capacity, h.steady.fair⟩
  listens := h.listens
  direct := h.direct
  alone := h.alone
  apart i hi := ⟨(h.apart i hi).client, (h.apart i hi).scripts, (h.apart i hi).plains,
    (h.apart i hi).server⟩

theorem Reaches.lasts (h : Reaches own li connection address n) (hlasts : Lasts n n')
    (hlistens : n'.server.Listens li address)
    (hapart : ∀ i : Nat, n'.links.length ≤ i → n'.Apart own .nowhere i) :
    Reaches own li connection address n' where
  steady := h.steady.lasts hlasts
  listens := hlistens
  direct := hlasts.blackHoles ▸ h.direct
  alone l hl heq := by
    have hmem : address ∈ n'.listeners.map (·.address) := List.mem_map.mpr ⟨l, hl, heq⟩
    rw [hlasts.listeners] at hmem
    obtain ⟨l', hl', heq'⟩ := List.mem_map.mp hmem
    exact h.alone l' hl' heq'
  apart := hapart

/-- The steps of others leave the server where it can be reached, as long as all is calm. -/
theorem Reaches.others (h : Reaches own li connection address u.network)
    (hothers : Watch.Others own (Calm address) (Watch.mine own) u v) :
    Reaches own li connection address v.network := by
  induction hothers with
  | refl => exact h
  | @tail v w _ hstep ih =>
    obtain ⟨hcalm, t, hnone, hstep⟩ := hstep
    cases hstep with
    | passes => exact ih.passes _
    | @task t n hn =>
      have hmine : ¬ Watch.mine own t := hnone t rfl
      have ht : ¬ t.Ours own .nowhere := by
        rintro (hc | ⟨-, hne⟩)
        · exact hmine hc
        · exact hne rfl
      rw [Watch.after_of_not_mine hmine]
      have hbeside : ∀ i : Nat, v.network.links.length ≤ i → n.links.length ≤ i →
          Beside own .nowhere i v.network n :=
        fun i hi hi' => Beside.step (ih.apart i hi) ht (.inr hi') hn
      have hlength := (hbeside (v.network.links.length + n.links.length) (Nat.le_add_right ..)
        (Nat.le_add_left ..)).length
      exact ih.lasts (lasts_step hn) (listens_step ih.listens ih.steady.running hcalm hn)
        fun i hi => (hbeside i (Nat.le_trans hlength hi) hi).apart

/-- So does a step of the call's that touches no stream. -/
theorem Reaches.moved {printed : List String} {reports : List (CallId × Report)}
    (h : Reaches own li connection address n) (hn : step t n = some n')
    (hmoved : Moved own n n' r printed reports) : Reaches own li connection address n' := by
  refine h.lasts (lasts_step hn) ?_ fun i hi => hmoved.apart (h.apart i (hmoved.links ▸ hi))
  rw [show n'.server = n.server from congrArg Surroundings.server hmoved.surroundings]
  exact h.listens

/-! ### The dial -/

/-- The network when somebody has dialed the address. -/
def dialed (n : Network) (address : String) : Network :=
  { n with
    links := n.links ++ [.ofCapacity n.capacity]
    server := n.server.offer address n.links.length }

theorem Reaches.dial (h : Reaches own li connection address n) :
    n.dial address = some (n.links.length, n.dialed address) := by
  obtain ⟨l, hl, hserves⟩ := h.listens.loop
  have hany : n.server.loops.any (·.address == address) = true :=
    List.any_eq_true.mpr ⟨l, (Keyed.mem_of_find? (k := Server.Loop.id) hl).1,
      beq_iff_eq.mpr hserves.address⟩
  have hnone : n.listeners.find? (·.address == address) = none :=
    List.find?_eq_none.mpr fun l hl => by simpa using h.alone l hl
  unfold Network.dial
  rw [isListening, hany, Bool.true_or, if_pos rfl]
  dsimp only [link]
  rw [deliver]
  dsimp only
  rw [hnone]
  rfl

/-- The new stream is in the line of the loop that listens, and nowhere else. -/
theorem Reaches.dialed (h : Reaches own li connection address n) :
    (n.dialed address).Apart own (.loop li) n.links.length ∧
      ∃ l, (n.dialed address).server.loops.find? (·.id == li) = some l ∧ l.Serves address ∧
        l.streams.count n.links.length = 1 := by
  have hapart := h.apart n.links.length (Nat.le_refl _)
  obtain ⟨l, hl, hserves⟩ := h.listens.loop
  obtain ⟨hmem, -⟩ := Keyed.mem_of_find? (k := Server.Loop.id) hl
  have hlacks : n.links.length ∉ l.streams := hapart.server.loops l hmem Server.Spot.noConfusion
  refine ⟨⟨hapart.client, hapart.scripts, hapart.plains, ⟨fun m hm hne => ?_, fun c hc _ =>
    hapart.server.connections c hc Server.Spot.noConfusion⟩⟩, ?_⟩
  · obtain ⟨x, hx, rfl⟩ := List.mem_map.mp hm
    by_cases haddress : x.address = address
    · rw [if_pos haddress] at hne
      exact absurd (congrArg Server.Spot.loop (h.listens.alone x hx haddress).symm) hne
    · rw [if_neg haddress]
      exact hapart.server.loops x hx Server.Spot.noConfusion
  · have hfind : (n.dialed address).server.loops.find? (·.id == li) =
        (n.server.loops.find? (·.id == li)).map fun l =>
          if l.address = address then { l with backlog := l.backlog ++ [n.links.length] } else l :=
      Keyed.find?_map (k := Server.Loop.id) fun x => by split <;> rfl
    rw [hl, Option.map_some, if_pos hserves.address] at hfind
    refine ⟨_, hfind, ⟨hserves.address, hserves.faults, hserves.stage⟩, ?_⟩
    rw [show Server.Loop.streams _ = l.streams ++ [n.links.length] from
      (List.append_assoc ..).symm, List.count_append, List.count_eq_zero_of_not_mem hlacks,
      List.count_singleton_self]

end Sim.Network

namespace Errand
open Sim Network

/-! ### What the two ends are to send -/

variable {j : Errand} {secret secret' : Bytes}

theorem frame_query (due : Nat) :
    (j.query due).outgoing.frame = ⟨if j.notify then 0 else 1, j.payload⟩ := by
  unfold query
  split <;> rfl

theorem back_query (due : Nat) :
    (j.query due).back = if j.notify then [] else [⟨1, j.payload⟩] := by
  unfold query
  split <;> rfl

/-- The configuration has no problems, and the message fits the limits of both directions. -/
structure Fits (j : Errand) : Prop where
  valid : j.config.problems = []
  reads : j.payload.length + Frame.seqLength ≤ j.config.connection.maxRead
  writes : j.payload.length + Frame.seqLength ≤ j.config.connection.maxWrite

theorem Fits.frame (h : j.Fits) (seq : UInt32) :
    Frame.Fits j.config.connection.maxWrite ⟨seq, j.payload⟩ ∧
      Admits j.config.connection.maxRead ⟨seq, j.payload⟩ := by
  have hreads := h.reads
  have hwrites := h.writes
  obtain ⟨hread, hwrite⟩ := Config.checkBuffer_of_problems h.valid
  obtain ⟨-, hlarge⟩ := Config.bounds_of_checkBuffer hwrite
  replace hlarge : j.config.connection.maxWrite ≤ Config.maxBufferSize := hlarge
  constructor
  · refine (fits_iff ?_).mpr (Nat.le_sub_of_add_le hwrites)
    simp only [Config.maxBufferSize, Frame.tagLength, Frame.prefixLength, UInt32.size] at hlarge ⊢
    omega
  · refine Frame.checkCiphertext_eq_ok_iff.mpr ?_
    rw [Frame.length_encode]
    simp only [Frame.seqLength, Frame.tagLength] at hreads ⊢
    omega

theorem eq_of_mem_plan {r : Role} {f : Frame} (hf : f ∈ (j.plan secret secret' r).frames) :
    ∃ seq, f = ⟨seq, j.payload⟩ := by
  cases r with
  | client =>
    rw [List.mem_singleton.mp hf, frame_query]
    exact ⟨_, rfl⟩
  | server =>
    have hf : f ∈ (j.query 0).back := hf
    rw [back_query] at hf
    split at hf
    · cases hf
    · exact ⟨1, List.mem_singleton.mp hf⟩

theorem suits_plan (h : j.Fits) (secret secret' : Bytes) (due : Nat) :
    Talk.Suits (j.plan secret secret') j.config.connection (j.query due) where
  asks := by rw [plan, frame_query, frame_query]
  back := by rw [plan, back_query, back_query]
  answered := by
    have hcheck := (h.frame 1).1.payload
    rw [frame_query, back_query, Engine.answers]
    cases j.notify with
    | true => rfl
    | false =>
      have hrequest : Frame.isMessage ⟨1, j.payload⟩ = false := rfl
      have hanswer : Engine.answer? some j.config.connection.settings.maxWrite ⟨1, j.payload⟩ =
          some ⟨1, j.payload⟩ := by
        rw [Engine.answer?, hrequest, if_neg Bool.false_ne_true]
        exact if_pos hcheck
      exact List.filterMap_cons_some hanswer
  fits := by
    rw [frame_query]
    exact (h.frame _).1
  admits r f hf := by
    obtain ⟨seq, rfl⟩ := eq_of_mem_plan hf
    exact ⟨(h.frame seq).1.spellable, (h.frame seq).2⟩
  taken := by
    unfold query
    split
    · trivial
    · exact Nat.le_of_add_right_le h.reads

theorem fair_plan (h : j.Fits) (hshared : Crypto.X25519.multiply secret
      (Crypto.X25519.publicKey secret') = Crypto.X25519.multiply secret'
      (Crypto.X25519.publicKey secret))
    (hcontributory : Crypto.X25519.contributory
      (Crypto.X25519.multiply secret (Crypto.X25519.publicKey secret')) = true) :
    Fair (j.plan secret secret') where
  commutes := hshared
  contributory := hcontributory
  fits r f hf := by
    obtain ⟨seq, rfl⟩ := eq_of_mem_plan hf
    cases r <;> exact (h.frame seq).1
  admits r f hf := by
    obtain ⟨seq, rfl⟩ := eq_of_mem_plan hf
    cases r <;> exact (h.frame seq).2
  count r := by
    have hle : (j.plan secret secret' r).frames.length ≤ 1 := by
      cases r with
      | client => exact Nat.le_refl 1
      | server => exact (j.query 0).length_back_le
    exact Nat.le_trans hle (by decide)

/-! ### Before there is a stream -/

/-- The client while its only call has no stream yet. -/
def dialing (j : Errand) (stage : Client.Stage) (tracker : Tracker) (admission : Admission) :
    Client :=
  { Client.create j.config.client j.config.connection with
    tracker, admission
    dials := [{ id := j.own, address := j.config.client.address, stage }] }

/-- Where the call is, so many steps from dialing. -/
inductive Begun (j : Errand) : Nat → Client.Stage → Tracker → Admission → Prop where
  | starting : Begun j 3 .starting {} (.create j.config.client.slots j.config.client.maxWait)
  | tracked : Begun j 2 .tracked ⟨1, 1⟩ (.create j.config.client.slots j.config.client.maxWait)
  | cleared : Begun j 1 .cleared ⟨1, 1⟩ (.create j.config.client.slots j.config.client.maxWait)
  | dialing (due : Option Nat) (admission : Admission) : Begun j 0 (.dialing due) ⟨1, 1⟩ admission

/-- The call has no stream yet. -/
structure Dials (j : Errand) (li : CallId) (m : Nat) (u : Watch) : Prop where
  reaches : Reaches j.own li j.config.connection j.config.client.address u.network
  running : ∃ stage tracker admission, j.Begun m stage tracker admission ∧
    u.network.running? j.own = some (j.running .connecting (j.dialing stage tracker admission))
  reports : u.reports = []
  printed : u.printed = []
  sent : u.sent = fun _ => []
  taken : u.taken = fun _ => []

variable {li : CallId} {m : Nat} {stage stage' : Client.Stage} {tracker : Tracker}
  {admission : Admission} {u v w : Watch} {t : Task} {n n' : Network} {due : Option Nat}

theorem setDial_dialing (j : Errand) (stage stage' : Client.Stage) (tracker : Tracker)
    (admission : Admission) : (j.dialing stage tracker admission).setDial
      { id := j.own, address := j.config.client.address, stage := stage' } =
        j.dialing stage' tracker admission := by
  simp [Client.setDial, dialing]

theorem find_dialing : (j.dialing stage tracker admission).dials.find? (·.id == j.own) =
    some { id := j.own, address := j.config.client.address, stage } := by
  simp [dialing]

theorem slots_pos (c : Config.Client) : 0 < c.slots := by
  unfold Config.Client.slots Config.positiveOr
  split <;> omega

/-- The call comes a step closer to dialing. -/
theorem stepDial_begun (h : j.Begun (m + 1) stage tracker admission) (now : Nat) :
    ∃ stage' tracker' admission', j.Begun m stage' tracker' admission' ∧
      (j.dialing stage tracker admission).dialing j.own = none ∧
      (j.dialing stage tracker admission).stepDial now j.own =
        some (j.dialing stage' tracker' admission', []) := by
  have hslots := slots_pos j.config.client
  cases h with
  | starting =>
    refine ⟨_, _, _, .tracked, by rw [Client.dialing, find_dialing], ?_⟩
    rw [Client.stepDial, find_dialing]
    exact congrArg (fun c => some (c, [])) (setDial_dialing j .starting .tracked ⟨1, 1⟩ _)
  | tracked =>
    refine ⟨_, _, _, .cleared, by rw [Client.dialing, find_dialing], ?_⟩
    rw [Client.stepDial, find_dialing]
    exact congrArg (fun c => some (c, [])) (setDial_dialing j .tracked .cleared ⟨1, 1⟩ _)
  | cleared =>
    refine ⟨.dialing (dueAfter j.config.client.handshakeTimeout now), ⟨1, 1⟩,
      { Admission.create j.config.client.slots j.config.client.maxWait with
        free := j.config.client.slots - 1 }, .dialing _ _, by rw [Client.dialing, find_dialing], ?_⟩
    rw [Client.stepDial, find_dialing]
    dsimp only
    rw [show (j.dialing .cleared ⟨1, 1⟩ _).admission.acquire j.own now = _ from
      Server.acquire_of_free hslots j.own now]
    exact congrArg (fun c => some (c, [])) (setDial_dialing j .cleared _ ⟨1, 1⟩ _)

/-- **Before it has a stream the call's client can only look after its dial.** -/
theorem dial_of_step
    (hrunning : n.running? j.own = some (j.running .connecting (j.dialing stage tracker admission)))
    (hstage : stage.stream? = none) (ht : Watch.mine j.own t) (hstep : Network.step t n = some n') :
    t = .dial (.script j.own) j.own := by
  cases clientStepped_of_step (clientAt_running hrunning) ht hstep with
  | @waits id _ _ _ hs =>
    by_cases hid : j.own = id
    · rw [hid]
    · simp [Client.stepDial, dialing, hid] at hs
  | @refused id _ hdialing | @dials id _ _ hdialing =>
    by_cases hid : j.own = id
    · rw [hid]
    · simp [Client.dialing, dialing, hid] at hdialing
  | handshake hx hstage' =>
    obtain rfl := List.mem_singleton.mp hx
    rw [show stage = _ from hstage'] at hstage
    cases hstage
  | engine hk => cases hk
  | relay hs | ends hs | idle hs => cases hs

theorem Begun.stream (h : j.Begun m stage tracker admission) : stage.stream? = none := by
  cases h <;> rfl

theorem Dials.pending (h : j.Dials li m u) : j.Pending u := ⟨h.reports, .inl h.printed⟩

theorem Dials.others (h : j.Dials li m u)
    (hothers : Watch.Others j.own (Calm j.config.client.address) (Watch.mine j.own) u v) :
    j.Dials li m v := by
  obtain ⟨hrunning, hprinted, hreports, hsent, htaken⟩ := Watch.others_running hothers
  obtain ⟨stage, tracker, admission, hbegun, hrunning'⟩ := h.running
  exact ⟨h.reaches.others hothers, ⟨stage, tracker, admission, hbegun, hrunning.trans hrunning'⟩,
    hreports.trans h.reports, hprinted.trans h.printed, hsent.trans h.sent, htaken.trans h.taken⟩

/-- The call comes closer to dialing. -/
theorem Dials.begins (h : j.Dials li (m + 1) u) (ht : Watch.mine j.own t)
    (hn : Network.step t u.network = some n) : j.Dials li m (u.after j.own t n) := by
  obtain ⟨stage, tracker, admission, hbegun, hrunning⟩ := h.running
  obtain rfl := dial_of_step hrunning hbegun.stream ht hn
  have hclient := clientAt_running hrunning
  obtain ⟨stage', tracker', admission', hbegun', hdialing, hstep⟩ :=
    stepDial_begun hbegun u.network.now
  have hn' : u.network.stepDial (.script j.own) j.own = some n := hn
  simp only [stepDial, hclient, hdialing, hstep, Option.map_some, Option.some.injEq] at hn'
  subst hn'
  have hmoved := moved_clientDid hrunning (j.dialing stage' tracker' admission')
    fun _ hx => absurd hx List.not_mem_nil
  refine of_moved ht hmoved ⟨h.reaches.moved hn hmoved,
    ⟨stage', tracker', admission', hbegun', hmoved.running⟩, ?_, ?_, h.sent, h.taken⟩
  · rw [h.reports]
    rfl
  · rw [h.printed]
    rfl

/-- The network when the call has dialed. -/
def rung (j : Errand) (n : Network) (due : Option Nat) (admission : Admission) : Network :=
  { n.dialed j.config.client.address with
    entropy := (n.entropy.draw Exchange.keyLength).2 }.setClient (.script j.own)
    (j.shaking n.links.length (.start (n.entropy.draw Exchange.keyLength).1 due) ⟨1, 1⟩ admission)

theorem moved_rung (hrunning : n.running? j.own =
      some (j.running .connecting (j.dialing (.dialing due) ⟨1, 1⟩ admission))) :
    Moved j.own
      { n.dialed j.config.client.address with entropy := (n.entropy.draw Exchange.keyLength).2 }
      (j.rung n due admission)
      (j.running .connecting (j.shaking n.links.length
        (.start (n.entropy.draw Exchange.keyLength).1 due) ⟨1, 1⟩ admission)) [] [] := by
  have hdialed : Network.running? { n.dialed j.config.client.address with
      entropy := (n.entropy.draw Exchange.keyLength).2 } j.own = _ := hrunning
  exact moved_setClient hdialed _

/-- A new stream holds nothing. -/
theorem view_rung (x : StreamId) :
    ((j.rung n due admission).view x true).outgoing.held = (n.view x true).outgoing.held ∧
      ((j.rung n due admission).view x true).incoming.held = (n.view x true).incoming.held := by
  have hlinks : (j.rung n due admission).links = n.links ++ [.ofCapacity n.capacity] := rfl
  rw [view, view, if_pos rfl, if_pos rfl, hlinks, List.getD_eq_getElem?_getD,
    List.getD_eq_getElem?_getD]
  rcases Nat.lt_trichotomy x n.links.length with hlt | heq | hgt
  · rw [List.getElem?_append_left hlt]
    exact ⟨rfl, rfl⟩
  · rw [heq, List.getElem?_concat_length, List.getElem?_eq_none (Nat.le_refl _)]
    exact ⟨rfl, rfl⟩
  · rw [List.getElem?_eq_none (by rw [List.length_append]; exact hgt),
      List.getElem?_eq_none (Nat.le_of_lt hgt)]
    exact ⟨rfl, rfl⟩

theorem held_rung (x : StreamId) : ((j.rung n due admission).view x true).outgoing.held =
    (n.view x true).outgoing.held ++ [] :=
  (view_rung x).1.trans (List.append_nil _).symm

theorem taken_rung (x : StreamId) : (n.view x true).incoming.held =
    [] ++ ((j.rung n due admission).view x true).incoming.held :=
  (view_rung x).2.symm

/-- The dial succeeds at once. -/
theorem step_dial (h : Reaches j.own li j.config.connection j.config.client.address n)
    (hrunning : n.running? j.own =
      some (j.running .connecting (j.dialing (.dialing due) ⟨1, 1⟩ admission))) :
    Network.step (.dial (.script j.own) j.own) n = some (j.rung n due admission) := by
  have hdialing : (j.dialing (.dialing due) ⟨1, 1⟩ admission).dialing j.own =
      some j.config.client.address := by
    rw [Client.dialing, find_dialing]
  have hdirect : n.blackHoles.contains j.config.client.address = false := by
    simpa using h.direct
  have hdialed : ∀ s secret, (j.dialing (.dialing due) ⟨1, 1⟩ admission).dialed j.own s secret =
      j.shaking s (.start secret due) ⟨1, 1⟩ admission := by
    intro s secret
    rw [Client.dialed, find_dialing]
    exact setDial_dialing j (.dialing due) (.shaking s (.start secret due)) ⟨1, 1⟩ admission
  show n.stepDial (.script j.own) j.own = _
  unfold stepDial
  rw [clientAt_running hrunning]
  dsimp only
  rw [hdialing]
  dsimp only
  rw [hdirect, if_neg Bool.false_ne_true, h.dial]
  dsimp only
  rw [hdialed]
  rfl

theorem Dials.ready (h : j.Dials li m u) :
    Network.step (.dial (.script j.own) j.own) u.network ≠ none := by
  obtain ⟨stage, tracker, admission, hbegun, hrunning⟩ := h.running
  cases m with
  | zero =>
    cases hbegun
    rw [step_dial h.reaches hrunning]
    exact Option.some_ne_none _
  | succ m =>
    have hclient := clientAt_running hrunning
    obtain ⟨stage', tracker', admission', -, hdialing, hstep⟩ := stepDial_begun hbegun u.network.now
    simp [Network.step, stepDial, hclient, hdialing, hstep]

/-- Of a fresh stream nothing is sent. -/
theorem unsent_opening (capacity : Nat) (secret secret' : Bytes) (r : Role) :
    (opening (.start secret) secret' (.ofCapacity capacity)).unsent (j.plan secret secret') r =
      greeting (j.plan secret secret') r ++ speech (j.plan secret secret') r := by
  cases r <;> rfl

/-- The two ends of a fresh stream are where they are to be. -/
theorem sound_opening {capacity : Nat} (hcapacity : Exchange.keyLength ≤ capacity)
    (secret secret' : Bytes) :
    (opening (.start secret) secret' (.ofCapacity capacity)).Sound (j.plan secret secret')
      (Talk.Speaks (j.plan secret secret') j.config.connection (j.query 0) .waiting) where
  opened r := by cases r <;> rfl
  roomy r := by cases r <;> exact hcapacity
  holds r := by
    have hcoming : (opening (.start secret) secret' (.ofCapacity capacity)).coming
        (j.plan secret secret') r = greeting (j.plan secret secret') r.opposite ++
          speech (j.plan secret secret') r.opposite := by
      have hempty : ((opening (.start secret) secret' (.ofCapacity capacity)).pipes
          r.opposite).held = [] := by
        cases r <;> rfl
      rw [Talk.coming, hempty, unsent_opening, List.nil_append]
    cases r with
    | client => exact ⟨.sending List.suffix_rfl, .sending rfl hcoming⟩
    | server => exact ⟨.sending List.suffix_rfl, .sending rfl hcoming⟩

/-- **When the call has dialed its stream is in the line of a loop.** -/
theorem Dials.dials (hfits : j.Fits) (h : j.Dials li 0 u) (ht : Watch.mine j.own t)
    (hn : Network.step t u.network = some n) :
    ∃ secret m s x d, j.Lined secret li m s x d (u.after j.own t n) := by
  obtain ⟨_, _, admission, hbegun, hrunning⟩ := h.running
  obtain rfl := dial_of_step hrunning hbegun.stream ht hn
  cases hbegun with | dialing due => ?_
  have heq := step_dial h.reaches hrunning
  rw [hn] at heq
  obtain rfl := Option.some.inj heq
  obtain ⟨hapart, l, hl, hserves, hcount⟩ := h.reaches.dialed
  have hsteady := h.reaches.steady
  have hmoved := moved_rung hrunning
  have hlink : (j.rung u.network due admission).links[u.network.links.length]? =
      some (.ofCapacity u.network.capacity) := by
    rw [hmoved.links]
    exact List.getElem?_concat_length
  refine ⟨(u.network.entropy.draw Exchange.keyLength).1, ahead u.network.links.length l,
    u.network.links.length, .start (u.network.entropy.draw Exchange.keyLength).1,
    .ofCapacity u.network.capacity, ?_⟩
  rw [Watch.after_of_mine ht hmoved.printed hmoved.reports held_rung taken_rung]
  refine ⟨⟨⟨⟨1, 1⟩, admission, due, rfl, ⟨hsteady.lasts (lasts_step hn), hmoved.apart
    ⟨hapart.client, hapart.scripts, hapart.plains, hapart.server⟩, hmoved.running, hlink⟩⟩,
    ?_, ?_, ?_, [], ?_, fun secret' hsecret => ⟨?_, sound_opening hsteady.capacity _ _,
      (List.nil_append _).trans (unsent_opening ..)⟩⟩, l, ?_, hserves, hcount, rfl⟩
  · rw [h.reports]
    rfl
  · rw [h.printed]
    rfl
  · rw [h.taken]
    rfl
  · funext x
    rw [h.sent, ite_self]
    rfl
  · obtain ⟨hshared, hcontributory⟩ := hsteady.fair _ secret' u.network.entropy.yields_draw
      (hsecret.of_drop (lasts_step hn).entropy)
    exact fair_plan hfits hshared hcontributory
  · exact hl

/-- The call dials, or comes closer to it. -/
theorem Dials.until (hfits : j.Fits) (h : j.Dials li m u) :
    Watch.Until j.own (Calm j.config.client.address) j.Pending j.Over u := by
  refine Watch.until_of_measure Nat.lt_wfRel.wf (fun m u => j.Dials li m u)
    (fun _ => Watch.mine j.own) (fun m u v h hv => h.others hv) (fun m u h => h.pending)
    (fun m u h _ => ⟨.dial (.script j.own) j.own, rfl, fun v hv _ => hv.ready⟩)
    (fun m u v t h _ ht hstep => ?_) h
  cases hstep with | @task _ n hn => ?_
  cases m with
  | zero =>
    obtain ⟨secret, m, s, x, d, hlined⟩ := h.dials hfits ht hn
    exact .inr (hlined.until fun secret' due => suits_plan hfits secret secret' due)
  | succ m => exact .inl ⟨m, Nat.lt_succ_self m, h.begins ht hn⟩

end Errand
end Parley
