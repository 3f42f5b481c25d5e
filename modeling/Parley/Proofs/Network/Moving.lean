import Parley.Proofs.Network.Watching

/-! A command-line call's own steps.

A step of the call's client changes nothing of the others (`Moved`). A report that a call of the
client has returned moves the script on; all other reports are only counted. -/
namespace Parley

/-- Whether a client's report moves its script on, or gives up a stream. -/
def Event.isPlain : Event → Bool
  | .dropped _ | .returned .. | .engine (.returned ..) => false
  | _ => true

namespace Sim.Network
open Channel

variable {own : CallId} {spot : Server.Spot} {i : StreamId} {n n' n'' : Network} {r r' : Running}
  {c : Client} {d : Duplex} {events : List Event} {ev : Event} {printed printed' : List String}
  {reports reports' : List (CallId × Report)}

/-- The call's own script is at a new place, and has printed and reported; all else is as it was. -/
structure Moved (own : CallId) (n n' : Network) (r : Running) (printed : List String)
    (reports : List (CallId × Report)) : Prop where
  running : n'.running? own = some r
  links : n'.links = n.links
  printed : n'.printed = n.printed ++ printed
  reports : n'.reports = n.reports ++ reports
  client : n'.client = n.client
  scripts : ∀ x ∈ n'.scripts, x.script.id ≠ own → x ∈ n.scripts
  surroundings : n'.surroundings = n.surroundings

theorem Moved.trans (h : Moved own n n' r printed reports)
    (h' : Moved own n' n'' r' printed' reports') :
    Moved own n n'' r' (printed ++ printed') (reports ++ reports') where
  running := h'.running
  links := h'.links.trans h.links
  printed := by rw [h'.printed, h.printed, List.append_assoc]
  reports := by rw [h'.reports, h.reports, List.append_assoc]
  client := h'.client.trans h.client
  scripts x hx hne := h.scripts x (h'.scripts x hx hne) hne
  surroundings := h'.surroundings.trans h.surroundings

theorem Moved.apart (h : Moved own n n' r printed reports) (ha : n.Apart own spot i) :
    n'.Apart own spot i where
  client := h.client ▸ ha.client
  scripts x hx hne := ha.scripts x (h.scripts x hx hne) hne
  plains := by
    rw [show n'.plains = n.plains from congrArg Surroundings.plains h.surroundings]
    exact ha.plains
  server := by
    rw [show n'.server = n.server from congrArg Surroundings.server h.surroundings]
    exact ha.server

theorem id_running (h : n.running? own = some r) : r.script.id = own :=
  (Keyed.mem_of_find? (k := fun r : Running => r.script.id) h).2

theorem moved_setClient (h : n.running? own = some r) (c : Client) :
    Moved own n (n.setClient (.script own) c)
      { r with script := { r.script with client := c } } [] [] where
  running := by
    have hid := id_running h
    have hfind : (n.setClient (.script own) c).running? own = (n.running? own).map fun r =>
        if r.script.id = own then { r with script := { r.script with client := c } } else r :=
      Keyed.find?_map (k := fun r : Running => r.script.id) fun r => by split <;> rfl
    rw [hfind, h, Option.map_some, if_pos hid]
  links := rfl
  printed := (List.append_nil _).symm
  reports := (List.append_nil _).symm
  client := rfl
  scripts x hx hne := by
    obtain ⟨y, hy, rfl⟩ := List.mem_map.mp hx
    by_cases hid : y.script.id = own
    · rw [if_pos hid] at hne
      exact absurd hid hne
    · rw [if_neg hid]
      exact hy
  surroundings := rfl

theorem moved_setScript (h : n.running? own = some r) (r' : Running) (hid : r'.script.id = own) :
    Moved own n (n.setScript r') r' [] [] where
  running := Keyed.find?_set (k := fun r : Running => r.script.id) h hid
  links := rfl
  printed := (List.append_nil _).symm
  reports := (List.append_nil _).symm
  client := rfl
  scripts x hx hne := by
    obtain rfl | hx := Keyed.mem_set (k := fun r : Running => r.script.id) hx
    · exact absurd hid hne
    · exact hx
  surroundings := rfl

/-- Only what is counted has changed. -/
theorem moved_same (h : n.running? own = some r) (hscripts : n'.scripts = n.scripts)
    (hclient : n'.client = n.client) (hlinks : n'.links = n.links)
    (hsame : n'.surroundings = n.surroundings) (hprinted : n'.printed = n.printed ++ printed)
    (hreports : n'.reports = n.reports ++ reports) : Moved own n n' r printed reports where
  running := by
    rw [running?, hscripts]
    exact h
  links := hlinks
  printed := hprinted
  reports := hreports
  client := hclient
  scripts x hx _ := hscripts ▸ hx
  surroundings := hsame

theorem moved_noteClientPlain (h : n.running? own = some r) {ev : Event}
    (hev : ∀ i, ev ≠ .dropped i) :
    Moved own n (n.noteClientPlain (.script own) ev) r [] [] := by
  unfold noteClientPlain
  split
  · rename_i heq
    cases heq
  · exact absurd rfl (hev _)
  · exact moved_same h rfl rfl rfl rfl (List.append_nil _).symm (List.append_nil _).symm

theorem moved_noteClient (h : n.running? own = some r) (hev : ev.isPlain = true) :
    Moved own n (n.noteClient (.script own) ev) r [] [] := by
  have hdropped : ∀ i, ev ≠ .dropped i := by
    rintro i rfl
    cases hev
  have hplain := moved_noteClientPlain h hdropped
  unfold noteClient
  split
  · cases hev
  · cases hev
  · exact hplain

/-- Plain reports only set the client. -/
theorem moved_clientDid (h : n.running? own = some r) (c : Client)
    (hev : ∀ ev ∈ events, ev.isPlain = true) :
    Moved own n (n.clientDid (.script own) (c, events))
      { r with script := { r.script with client := c } } [] [] := by
  have hset := moved_setClient h c
  suffices hnotes : ∀ m, m.running? own = some { r with script := { r.script with client := c } } →
      Moved own m (events.foldl (noteClient · (.script own) ·) m)
        { r with script := { r.script with client := c } } [] [] from
    hset.trans (hnotes _ hset.running)
  induction events with
  | nil =>
    exact fun m hm =>
      moved_same hm rfl rfl rfl rfl (List.append_nil _).symm (List.append_nil _).symm
  | cons ev events ih =>
    intro m hm
    have hnote := moved_noteClient hm (hev ev List.mem_cons_self)
    exact hnote.trans (ih (fun ev hmem => hev ev (List.mem_cons_of_mem _ hmem)) _ hnote.running)

/-! ### The script goes on -/

/-- What becomes of a call whose script goes on like this. -/
def Running.moved (script : Client.Script) (out : Client.Script.Output) : Running :=
  { script, ended := out.result.isSome }

/-- **A call that has returned moves the script on.** -/
theorem moved_callReturns (h : n.running? own = some r) (hended : r.ended = false)
    {o : Engine.Outcome} {script : Client.Script} {out : Client.Script.Output}
    (hnext : r.script.next n.now o = (script, [], out)) (id : CallId) :
    Moved own n (n.callReturns (.script own) id o) (Running.moved script out) out.printed.toList
      (out.result.toList.map fun result => (own, .outcome (.ofResult result))) := by
  have hid : script.id = own := by
    have := id_next r.script n.now o
    rw [hnext] at this
    exact this.trans (id_running h)
  have hreturns : n.callReturns (.script own) id o = n.moveScript r o := by
    have hfind : n.scripts.find? (·.script.id == own) = some r := h
    simp [callReturns, hfind, hended]
  rw [hreturns]
  unfold moveScript
  rw [hnext]
  dsimp only [List.foldl_nil]
  have hprints : Moved own n { n with printed := n.printed ++ out.printed.toList } r
      out.printed.toList [] := moved_same h rfl rfl rfl rfl rfl (List.append_nil _).symm
  cases hresult : out.result with
  | none =>
    have hmoved : ({ r with script } : Running) = Running.moved script out := by
      rw [Running.moved, hresult]
      cases r
      cases hended
      rfl
    have hall := hprints.trans (moved_setScript hprints.running { r with script } hid)
    rw [List.append_nil] at hall
    rw [← hmoved]
    exact hall
  | some result =>
    have hmoved : ({ script, ended := true } : Running) = Running.moved script out := by
      rw [Running.moved, hresult]
      rfl
    rw [← hmoved]
    let m : Network := Network.setScript { n with printed := n.printed ++ out.printed.toList }
      { script, ended := true }
    have hset : Moved own { n with printed := n.printed ++ out.printed.toList } m
        { script, ended := true } [] [] := moved_setScript hprints.running _ hid
    have hreport : Moved own m (m.returns script.id (.ofResult result)) { script, ended := true } []
        [(own, .outcome (.ofResult result))] :=
      moved_same hset.running rfl rfl rfl rfl (List.append_nil _).symm (by rw [← hid]; rfl)
    have hall := (hprints.trans hset).trans hreport
    simp only [List.append_nil, List.nil_append] at hall
    exact hall

/-- The outcome of a call that a report tells of, if any. -/
def outcome? : Event → Option Engine.Outcome
  | .returned _ o | .engine (.returned _ o) => some o
  | _ => none

theorem moved_noteClient_returned (h : n.running? own = some r) (hended : r.ended = false)
    {o : Engine.Outcome} (hev : outcome? ev = some o) {script : Client.Script}
    {out : Client.Script.Output} (hnext : r.script.next n.now o = (script, [], out)) :
    Moved own n (n.noteClient (.script own) ev) (Running.moved script out) out.printed.toList
      (out.result.toList.map fun result => (own, .outcome (.ofResult result))) := by
  have hdropped : ∀ i, ev ≠ .dropped i := by
    rintro i rfl
    cases hev
  have hplain := moved_noteClientPlain h hdropped
  have hnow : (n.noteClientPlain (.script own) ev).now = n.now :=
    congrArg Surroundings.now hplain.surroundings
  unfold noteClient
  split
  · cases hev
    exact hplain.trans (moved_callReturns hplain.running hended (by rw [hnow]; exact hnext) _)
  · cases hev
    exact hplain.trans (moved_callReturns hplain.running hended (by rw [hnow]; exact hnext) _)
  · rename_i hne hne'
    unfold outcome? at hev
    split at hev
    · exact absurd rfl (hne _ _)
    · exact absurd rfl (hne' _ _)
    · cases hev

/-- **A client's step of which the last report is that a call has returned.** -/
theorem moved_clientDid_returned (h : n.running? own = some r) (hended : r.ended = false)
    {c : Client} (hevents : ∀ x ∈ events, x.isPlain = true) {o : Engine.Outcome}
    (hev : outcome? ev = some o) {script : Client.Script} {out : Client.Script.Output}
    (hnext : Client.Script.next { r.script with client := c } n.now o = (script, [], out)) :
    Moved own n (n.clientDid (.script own) (c, events ++ [ev])) (Running.moved script out)
      out.printed.toList
      (out.result.toList.map fun result => (own, .outcome (.ofResult result))) := by
  have hdid := moved_clientDid h c hevents
  have hnow : (n.clientDid (.script own) (c, events)).now = n.now :=
    congrArg Surroundings.now hdid.surroundings
  have hnote := moved_noteClient_returned hdid.running hended hev (by rw [hnow]; exact hnext)
  have hall := hdid.trans hnote
  rw [show n.clientDid (.script own) (c, events ++ [ev]) =
    (n.clientDid (.script own) (c, events)).noteClient (.script own) ev from List.foldl_append ..]
  exact hall

end Sim.Network
end Parley
