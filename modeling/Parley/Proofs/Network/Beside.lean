import Parley.Proofs.Network.Holding
import Parley.Proofs.Network.Rules

/-! What the other tasks of a network leave alone.

A command-line call has tasks of its own, those of its client, and at times one of the server's
loops or connections works for it (`Task.Ours`). Where nobody else holds its stream
(`Network.Apart`), no other task touches that stream, the call's client, or what is at that place of
the server; and nobody else comes to hold the stream (`Beside.step`). -/
namespace Parley.Sim.Network
open Channel

/-- The client that a task belongs to, if any. -/
def Task.client? : Task → Option ClientRef
  | .dial ref _ | .clientHandshake ref _ | .clientEngine ref _ _ | .relay ref _
  | .connectionEnd ref _ | .clientIdle ref _ => some ref
  | _ => none

/-- The place of the server that a task belongs to, if any. -/
def Task.spot : Task → Server.Spot
  | .loop id => .loop id
  | .serverHandshake guard | .serverEngine guard _ => .connection guard
  | _ => .nowhere

/-- The tasks of a command-line call's client, and those at a place of the server. -/
def Task.Ours (own : CallId) (spot : Server.Spot) (t : Task) : Prop :=
  t.client? = some (.script own) ∨ t.spot = spot ∧ spot ≠ .nowhere

theorem ClientStepped.client? {n n' : Network} {ref : ClientRef} {c : Client} {t : Task}
    (h : ClientStepped n ref c t n') : t.client? = some ref := by
  cases h <;> rfl

/-- A client's task makes no step but that client's. -/
theorem clientStepped_of_step {n n' : Network} {ref : ClientRef} {c : Client} {t : Task}
    (hc : n.clientAt ref = some c) (ht : t.client? = some ref) (h : Network.step t n = some n') :
    ClientStepped n ref c t n' := by
  cases stepped_of_step h with
  | server hs => cases hs <;> cases ht
  | client hc' hs =>
    obtain rfl := Option.some.inj (hs.client?.symm.trans ht)
    obtain rfl := Option.some.inj (hc'.symm.trans hc)
    exact hs
  | send | hear => cases ht

/-- At a place of the server only the server makes a step. -/
theorem serverStepped_of_step {n n' : Network} {t : Task} (ht : t.spot ≠ .nowhere)
    (h : Network.step t n = some n') : ServerStepped n t n' := by
  cases stepped_of_step h with
  | server hs => exact hs
  | client _ hs => cases hs <;> exact absurd rfl ht
  | send | hear => exact absurd rfl ht

/-- The command-line call of a name. -/
def running? (n : Network) (own : CallId) : Option Running :=
  n.scripts.find? (·.script.id == own)

/-- Apart from a command-line call and one place of the server, nobody holds a stream. -/
structure Apart (own : CallId) (spot : Server.Spot) (i : StreamId) (n : Network) : Prop where
  client : n.client.Lacks i
  scripts : ∀ r ∈ n.scripts, r.script.id ≠ own → r.script.client.Lacks i
  plains : ∀ p ∈ n.plains, p.stream ≠ i
  server : n.server.Lacks spot i

/-- What is left alone of a network. -/
structure Beside (own : CallId) (spot : Server.Spot) (i : StreamId) (n n' : Network) : Prop where
  apart : n'.Apart own spot i
  link : i < n.links.length → n'.links[i]? = n.links[i]?
  length : n.links.length ≤ n'.links.length
  running : n'.running? own = n.running? own
  server : Server.Spares spot i n.server n'.server
  now : n'.now = n.now

variable {own : CallId} {spot : Server.Spot} {i stream : StreamId} {n n' n'' : Network}
  {ref : ClientRef} {r : Running} {c : Client} {t : Task}

theorem Beside.same (h : n.Apart own spot i) (hclient : n'.client = n.client)
    (hscripts : n'.scripts = n.scripts) (hplains : n'.plains = n.plains)
    (hserver : n'.server = n.server) (hlinks : n'.links = n.links) (hnow : n'.now = n.now) :
    Beside own spot i n n' where
  apart := ⟨hclient ▸ h.client, hscripts ▸ h.scripts, hplains ▸ h.plains, hserver ▸ h.server⟩
  link _ := by rw [hlinks]
  length := Nat.le_of_eq (congrArg List.length hlinks.symm)
  running := by rw [running?, hscripts]; rfl
  server := hserver ▸ .refl _ _ _
  now := hnow

theorem Beside.refl (h : n.Apart own spot i) : Beside own spot i n n :=
  .same h rfl rfl rfl rfl rfl rfl

theorem Beside.trans (h : Beside own spot i n n') (h' : Beside own spot i n' n'') :
    Beside own spot i n n'' where
  apart := h'.apart
  link hi := (h'.link (Nat.lt_of_lt_of_le hi h.length)).trans (h.link hi)
  length := Nat.le_trans h.length h'.length
  running := h'.running.trans h.running
  server := h.server.trans h'.server
  now := h'.now.trans h.now

theorem Beside.foldl {α : Type} {f : Network → α → Network} {as : List α}
    (h : ∀ n, n.Apart own spot i → ∀ a ∈ as, Beside own spot i n (f n a))
    (hn : n.Apart own spot i) : Beside own spot i n (as.foldl f n) := by
  induction as generalizing n with
  | nil => exact .refl hn
  | cons a as ih =>
    have hstep := h n hn a List.mem_cons_self
    exact hstep.trans (ih (fun n hn b hb => h n hn b (List.mem_cons_of_mem a hb)) hstep.apart)

/-! ### Streams and scripts -/

theorem Beside.setView (h : n.Apart own spot i) (hne : stream ≠ i) (dialer : Bool) (d : Duplex) :
    Beside own spot i n (n.setView stream dialer d) where
  apart := ⟨h.client, h.scripts, h.plains, h.server⟩
  link _ := List.getElem?_set_ne hne
  length := by simp [Network.setView]
  running := rfl
  server := .refl _ _ _
  now := rfl

theorem Beside.setScript (h : n.Apart own spot i) (hne : r.script.id ≠ own)
    (hr : r.script.client.Lacks i) : Beside own spot i n (n.setScript r) where
  apart := by
    refine ⟨h.client, fun x hx hx' => ?_, h.plains, h.server⟩
    obtain rfl | hx := Keyed.mem_set (k := fun r : Running => r.script.id) hx
    · exact hr
    · exact h.scripts x hx hx'
  link _ := rfl
  length := Nat.le_refl _
  running := Keyed.find?_set_of_ne (k := fun r : Running => r.script.id) hne
  server := .refl _ _ _
  now := rfl

/-! ### Reports -/

theorem Beside.noteClientPlain (h : n.Apart own spot i) (ref : ClientRef) {ev : Event}
    (hev : ev ≠ .dropped i) : Beside own spot i n (n.noteClientPlain ref ev) := by
  have hcount : Beside own spot i n { n with metrics := ev.count n.metrics } :=
    .same h rfl rfl rfl rfl rfl rfl
  unfold Network.noteClientPlain
  split
  · exact .same h rfl rfl rfl rfl rfl rfl
  · exact hcount.trans (.setView hcount.apart (fun heq => hev (by rw [heq])) _ _)
  · exact hcount

theorem id_next (s : Client.Script) (now : Nat) (o : Engine.Outcome) :
    (s.next now o).1.id = s.id := by
  have hfails : ∀ e, (s.fails e).1.id = s.id := fun _ => rfl
  unfold Client.Script.next
  split
  · exact hfails _
  · rfl
  · split
    · split
      · exact hfails _
      · rename_i s' hs
        unfold Client.Script.send at hs
        split at hs
        · cases hs
        · dsimp only [Except.map] at hs
          split at hs <;> cases hs
          rfl
    · rfl
    · rfl
    · rfl

theorem Beside.moveScript (h : n.Apart own spot i) (hne : r.script.id ≠ own)
    (hr : r.script.client.Lacks i) (o : Engine.Outcome) :
    Beside own spot i n (n.moveScript r o) := by
  obtain ⟨hlacks, hspares⟩ := hr.next n.now o
  have hid := id_next r.script n.now o
  unfold Network.moveScript
  generalize r.script.next n.now o = moved at hlacks hspares hid
  obtain ⟨script, events, out⟩ := moved
  have hne' : script.id ≠ own := hid ▸ hne
  have hnotes : Beside own spot i n
      (events.foldl (Network.noteClientPlain · (.script script.id) ·) n) :=
    .foldl (fun n hn ev hev => .noteClientPlain hn _ (fun heq => hspares (heq ▸ hev))) h
  dsimp only
  generalize hm : events.foldl (Network.noteClientPlain · (.script script.id) ·) n = m at hnotes
  have hprints : Beside own spot i m { m with printed := m.printed ++ out.printed.toList } :=
    .same hnotes.apart rfl rfl rfl rfl rfl rfl
  split
  · exact (hnotes.trans hprints).trans (.setScript hprints.apart hne' hlacks)
  · have hset := Beside.setScript (r := { script, ended := true }) hprints.apart hne' hlacks
    exact ((hnotes.trans hprints).trans hset).trans (.same hset.apart rfl rfl rfl rfl rfl rfl)

theorem Beside.callReturns (h : n.Apart own spot i) (hne : ref ≠ .script own) (id : CallId)
    (o : Engine.Outcome) : Beside own spot i n (n.callReturns ref id o) := by
  unfold Network.callReturns
  split
  · exact .same h rfl rfl rfl rfl rfl rfl
  · split
    · rename_i r hr
      obtain ⟨hmem, hid⟩ := Keyed.mem_of_find? (k := fun r : Running => r.script.id) hr
      have hne' : r.script.id ≠ own := fun heq => hne (by rw [← heq, ← hid])
      split
      · exact .refl h
      · exact .moveScript h hne' (h.scripts r hmem hne') o
    · exact .refl h

theorem Beside.noteClient (h : n.Apart own spot i) (hne : ref ≠ .script own) {ev : Event}
    (hev : ev ≠ .dropped i) : Beside own spot i n (n.noteClient ref ev) := by
  have hplain := Beside.noteClientPlain h ref hev
  unfold Network.noteClient
  split
  · exact hplain.trans (.callReturns hplain.apart hne _ _)
  · exact hplain.trans (.callReturns hplain.apart hne _ _)
  · exact hplain

theorem Beside.setClient (h : n.Apart own spot i) (hne : ref ≠ .script own) (hc : c.Lacks i) :
    Beside own spot i n (n.setClient ref c) := by
  cases ref with
  | main =>
    exact ⟨⟨hc, h.scripts, h.plains, h.server⟩, fun _ => rfl, Nat.le_refl _, rfl, .refl _ _ _, rfl⟩
  | script id =>
    have hid : id ≠ own := fun heq => hne (by rw [heq])
    refine ⟨⟨h.client, fun x hx hx' => ?_, h.plains, h.server⟩, fun _ => rfl, Nat.le_refl _, ?_,
      .refl _ _ _, rfl⟩
    · obtain ⟨r, hr, rfl⟩ := List.mem_map.mp hx
      by_cases hrid : r.script.id = id
      · rw [if_pos hrid]
        exact hc
      · rw [if_neg hrid] at hx' ⊢
        exact h.scripts r hr hx'
    · refine (Keyed.find?_map (k := fun r : Running => r.script.id) fun r => ?_).trans ?_
      · split <;> rfl
      · cases hr : n.scripts.find? (·.script.id == own) with
        | none => rw [running?, hr]; rfl
        | some r =>
          have hr' := (Keyed.mem_of_find? (k := fun r : Running => r.script.id) hr).2
          rw [running?, hr, Option.map_some, if_neg (fun heq => hid (heq.symm.trans hr'))]

theorem Beside.clientDid (h : n.Apart own spot i) (hne : ref ≠ .script own) {events : List Event}
    (hdid : c.Lacks i ∧ Client.Spares i events) :
    Beside own spot i n (n.clientDid ref (c, events)) := by
  have hset := Beside.setClient h hne hdid.1
  exact hset.trans (.foldl
    (fun n hn ev hev => .noteClient hn hne (fun heq => hdid.2 (heq ▸ hev))) hset.apart)

theorem Beside.serverDid (h : n.Apart own spot i) {s : Server} {events : List Event}
    (hs : s.Lacks spot i) (hspares : Server.Spares spot i n.server s)
    (hevents : .dropped i ∉ events) : Beside own spot i n (n.serverDid (s, events)) := by
  have hset : Beside own spot i n { n with server := s } :=
    ⟨⟨h.client, h.scripts, h.plains, hs⟩, fun _ => rfl, Nat.le_refl _, rfl, hspares, rfl⟩
  refine hset.trans (.foldl (fun n hn ev hev => ?_) hset.apart)
  have hcount : Beside own spot i n { n with metrics := ev.count n.metrics } :=
    .same hn rfl rfl rfl rfl rfl rfl
  unfold Network.noteServer
  split
  · exact .same hn rfl rfl rfl rfl rfl rfl
  · exact hcount.trans (.setView hcount.apart (fun heq => hevents (heq ▸ hev)) _ _)
  · exact .same hn rfl rfl rfl rfl rfl rfl
  · exact hcount

/-! ### Steps -/

theorem Apart.clientAt (h : n.Apart own spot i) (hne : ref ≠ .script own)
    (hc : n.clientAt ref = some c) : c.Lacks i := by
  cases ref with
  | main =>
    cases hc
    exact h.client
  | script id =>
    obtain ⟨r, hr, rfl⟩ := Option.map_eq_some_iff.mp hc
    obtain ⟨hmem, hid⟩ := Keyed.mem_of_find? (k := fun r : Running => r.script.id) hr
    exact h.scripts r hmem fun heq => hne (by rw [← heq, ← hid])

theorem Beside.deliver (h : n.Apart own spot i) (address : String) (hne : stream ≠ i) :
    Beside own spot i n (n.deliver address stream) := by
  unfold Network.deliver
  split
  · refine ⟨⟨h.client, h.scripts, fun p hp => ?_, h.server⟩, fun _ => rfl, Nat.le_refl _, rfl,
      .refl _ _ _, rfl⟩
    obtain hp | hp := List.mem_append.mp hp
    · exact h.plains p hp
    · obtain rfl := List.mem_singleton.mp hp
      exact hne
  · exact ⟨⟨h.client, h.scripts, h.plains, h.server.offer address hne⟩, fun _ => rfl, Nat.le_refl _,
      rfl, Server.spares_offer _ address hne, rfl⟩

theorem Beside.linked (h : n.Apart own spot i) : Beside own spot i n n.link.2 where
  apart := ⟨h.client, h.scripts, h.plains, h.server⟩
  link hi := List.getElem?_append_left hi
  length := by simp [Network.link]
  running := rfl
  server := .refl _ _ _
  now := rfl

theorem links_deliver (n : Network) (address : String) (stream : StreamId) :
    (n.deliver address stream).links = n.links := by
  unfold Network.deliver
  split <;> rfl

theorem links_setClient (n : Network) (ref : ClientRef) (c : Client) :
    (n.setClient ref c).links = n.links := by
  cases ref <;> rfl

theorem length_links_deliver (n : Network) (address : String) (stream : StreamId) :
    (n.link.2.deliver address stream).links.length = n.links.length + 1 := by
  rw [links_deliver]
  exact List.length_append

/-- The new stream is not the one that nobody else holds. -/
theorem Beside.dialed (h : n.Apart own spot i) (hne : ref ≠ .script own) (hlacks : c.Lacks i)
    {address : String} {m : Network} (hm : m = n.link.2.deliver address n.links.length)
    (hi : i < n.links.length ∨ m.links.length ≤ i) (id : CallId) (e : Entropy) (secret : Bytes) :
    Beside own spot i n
      ({ m with entropy := e }.setClient ref (c.dialed id n.links.length secret)) := by
  subst hm
  have hfresh : n.links.length ≠ i := by
    rw [length_links_deliver] at hi
    rcases hi with hi | hi
    · exact Nat.ne_of_gt hi
    · exact Nat.ne_of_lt hi
  have hlink := Beside.linked h
  have hdeliver := hlink.trans (.deliver hlink.apart address hfresh)
  have hentropy : Beside own spot i n
      { n.link.2.deliver address n.links.length with entropy := e } :=
    hdeliver.trans (.same hdeliver.apart rfl rfl rfl rfl rfl rfl)
  exact hentropy.trans (.setClient hentropy.apart hne (hlacks.dialed id hfresh _))

theorem Beside.onStream (h : n.Apart own spot i) (hne : ref ≠ .script own) (hstream : stream ≠ i)
    (d : Duplex) {events : List Event} (hdid : c.Lacks i ∧ Client.Spares i events) :
    Beside own spot i n ((n.setView stream true d).clientDid ref (c, events)) := by
  have hset := Beside.setView h hstream true d
  exact hset.trans (.clientDid hset.apart hne hdid)

theorem Beside.clientStepped (h : n.Apart own spot i) (hne : ref ≠ .script own)
    (hlacks : c.Lacks i) (hi : i < n.links.length ∨ n'.links.length ≤ i)
    (hstep : ClientStepped n ref c t n') : Beside own spot i n n' := by
  cases hstep with
  | waits _ hs => exact .clientDid h hne (hlacks.stepDial hs)
  | refused => exact .clientDid h hne (hlacks.refused _ _)
  | dials _ _ _ hm =>
    rw [links_setClient] at hi
    exact .dialed h hne hlacks hm hi _ _ _
  | handshake hx hstage hs =>
    have hstream := hlacks.dials _ hx
    rw [hstage] at hstream
    exact .onStream h hne (fun heq => hstream (congrArg some heq)) _ (hlacks.stepHandshake hs)
  | engine hk hs => exact .onStream h hne (hlacks.of_find? hk) _ (hlacks.stepEngine hs)
  | relay hs => exact .clientDid h hne (hlacks.stepRelay hs)
  | ends hs => exact .clientDid h hne (hlacks.stepEnd hs)
  | idle hs => exact .clientDid h hne (hlacks.stepIdle hs)

theorem Beside.connectionStepped (h : n.Apart own spot i) {guard : Nat}
    (hspot : Server.Spot.connection guard ≠ spot) {k : Server.Connection}
    (hk : n.server.connections.find? (·.guard == guard) = some k) (d : Duplex) {s : Server}
    {events : List Event}
    (hstep : ∃ k ∈ n.server.connections, k.guard = guard ∧
      Server.ConnectionStepped n.server k s events) :
    Beside own spot i n ((n.setView k.stream false d).serverDid (s, events)) := by
  obtain ⟨hmem, hguard⟩ := Keyed.mem_of_find? (k := Server.Connection.guard) hk
  have hne : k.stream ≠ i := h.server.connections k hmem fun heq => hspot (by rw [heq, hguard])
  have hset := Beside.setView h hne false d
  obtain ⟨k', hk', hguard', hstepped⟩ := hstep
  obtain ⟨hlacks, hevents⟩ := hstepped.lacks hk' hset.apart.server
  exact hset.trans (.serverDid hset.apart hlacks
    (hstepped.spares fun heq => hspot (by rw [heq, hguard'])) hevents)

theorem Beside.serverStepped (h : n.Apart own spot i) (hspot : t.spot ≠ .nowhere → t.spot ≠ spot)
    (hstep : ServerStepped n t n') : Beside own spot i n n' := by
  cases hstep with
  | loop hs =>
    obtain ⟨l, hl, hid, hloops⟩ := Server.loops_of_stepLoop hs
    obtain ⟨hlacks, hevents, hspares⟩ := hloops.lacks hl h.server
      fun heq => hspot (by simp [Task.spot]) (by rw [heq, hid]; rfl)
    exact .serverDid h hlacks hspares hevents
  | begins =>
    exact ⟨⟨h.client, h.scripts, h.plains, h.server.beginHandshake _ _ _⟩, fun _ => rfl,
      Nat.le_refl _, rfl,
      Server.spares_beginHandshake (hspot (by simp [Task.spot])).symm _ _, rfl⟩
  | handshake _ hk hs =>
    exact .connectionStepped h (hspot (by simp [Task.spot])) hk _
      (Server.connectionStepped_of_stepHandshake hs)
  | engine hk hs =>
    exact .connectionStepped h (hspot (by simp [Task.spot])) hk _
      (Server.connectionStepped_of_stepEngine hs)
  | idle hs =>
    obtain ⟨-, -, rfl, rfl⟩ := Server.stepIdle_eq_some hs
    exact .serverDid h ⟨h.server.loops, h.server.connections⟩
      ⟨fun _ _ _ hl => ⟨[], List.not_mem_nil, by rw [List.append_nil]; exact hl⟩,
        fun _ _ _ hc => hc⟩ (by simp)

theorem Beside.setPlain (h : n.Apart own spot i) {j : Nat} {p : Plain}
    (hp : n.plains[j]? = some p) (peer : Peer) (d : Duplex) :
    Beside own spot i n
      { n.setView p.stream p.dialed d with plains := n.plains.set j { p with peer } } := by
  have hne : p.stream ≠ i := h.plains p (List.mem_of_getElem? hp)
  have hset := Beside.setView h hne p.dialed d
  refine hset.trans ⟨⟨hset.apart.client, hset.apart.scripts, fun x hx => ?_, hset.apart.server⟩,
    fun _ => rfl, Nat.le_refl _, rfl, .refl _ _ _, rfl⟩
  obtain hx | rfl := List.mem_or_eq_of_mem_set hx
  · exact h.plains x hx
  · exact hne

/-- **Another task's step leaves the call and its stream alone.** -/
theorem Beside.step (h : n.Apart own spot i) (ht : ¬ t.Ours own spot)
    (hi : i < n.links.length ∨ n'.links.length ≤ i) (hstep : Network.step t n = some n') :
    Beside own spot i n n' := by
  cases stepped_of_step hstep with
  | server hs => exact .serverStepped h (fun hsome heq => ht (.inr ⟨heq, heq ▸ hsome⟩)) hs
  | @client ref c _ _ hc hs =>
    have hne : ref ≠ .script own := fun heq => ht (.inl (hs.client?.trans (congrArg some heq)))
    exact .clientStepped h hne (h.clientAt hne hc) hi hs
  | send hp => exact .setPlain h hp _ _
  | hear hp => exact .setPlain h hp _ _

end Parley.Sim.Network
