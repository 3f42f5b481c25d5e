import Mathlib.Logic.Relation
import Parley.Config.Schema
import Parley.Proofs.Engine.Rules

/-! One end of a stream and all that happens at it.

A `Log` says what has happened so far: which calls were made, which frames were accepted
into the queue, handed to the stream, read off it and handed to the application, and what
calls came to. A `Site` is an engine, its stream and its log, and a `Move` is anything that
can be done to it: a call is made or given up, the stream is attached or given up, or a task
takes a step, in whatever surroundings.

A `World` is a site and the far end of its stream, of which only the bytes it has read are
known. It changes by a move of the site or as the far end likes (`World.Step`), so whatever
holds in all worlds reached from a fresh one holds for every peer, every interleaving and
every capacity of the stream. -/
namespace Parley.Engine
open Channel

/-! ### What has happened -/

/-- A request that was accepted: the call that made it and the frame that carries it. -/
structure Issued where
  call : CallId
  frame : Frame
  deriving Repr, DecidableEq

structure Log where
  /-- Every call ever made. -/
  calls : List CallId := []
  /-- The calls that were given up. -/
  dropped : List CallId := []
  /-- What calls returned. -/
  returned : List (CallId × Outcome) := []
  issued : List Issued := []
  /-- The frames accepted into the queue, in order. -/
  accepted : List Outgoing := []
  /-- The frames handed to the stream, in order. -/
  written : List Outgoing := []
  /-- The bytes taken from the stream. -/
  taken : Bytes := []
  /-- The frames read, in order. -/
  received : List Frame := []
  /-- The frames the application was handed, in order. -/
  delivered : List Frame := []
  /-- What went wrong in writing, flushing and closing. -/
  troubles : List Error := []
  /-- What driving the stream came to. -/
  ended : List (Except Error Unit) := []

/-- Takes an event into the log. -/
def Log.note (l : Log) : Event → Log
  | .delivered f => { l with delivered := l.delivered ++ [f] }
  | .received f => { l with received := l.received ++ [f] }
  | .written o => { l with written := l.written ++ [o] }
  | .writeFailed e | .closeFailed e => { l with troubles := l.troubles ++ [e] }
  | .returned id o => { l with returned := l.returned ++ [(id, o)] }
  | .ended result => { l with ended := l.ended ++ [result] }
  | .sent _ | .requestTimedOut => l

/-- An engine, its stream, and what has happened. -/
structure Site where
  engine : Engine
  stream : Duplex
  log : Log := {}

namespace Site

/-- The bytes that are gone from the front of the incoming pipe. -/
def gone (s : Site) (d : Duplex) : Bytes :=
  s.stream.incoming.held.take (s.stream.incoming.held.length - d.incoming.held.length)

theorem gone_eq {s : Site} {d : Duplex} {bs : Bytes}
    (h : bs ++ d.incoming.held = s.stream.incoming.held) : s.gone d = bs := by
  rw [gone, ← h, List.length_append, Nat.add_sub_cancel, List.take_left]

@[simp] theorem gone_self (s : Site) : s.gone s.stream = [] := gone_eq rfl

/-- What a step does to the log: frames that are new in the queue were accepted, and bytes
that are gone from the stream were taken. -/
def logged (s : Site) (e : Engine) (d : Duplex) (events : List Event) : Log :=
  events.foldl Log.note { s.log with
    accepted := s.log.accepted ++ e.queue.drop s.engine.queue.length
    taken := s.log.taken ++ s.gone d }

def after (s : Site) (e : Engine) (d : Duplex) (events : List Event) : Site :=
  { engine := e, stream := d, log := s.logged e d events }

end Site

/-- The number that the next request gets. -/
def nextSeq (e : Engine) : UInt32 := (e.sequence.nextFree (e.table.map (·.seq))).1

/-! ### Calls that are taken -/

section
variable {e e' : Engine} {id : CallId} {payload : Bytes}

theorem post_eq_ok (h : e.post payload = .ok e') :
    e.stopped = false ∧ e' = e.enqueue { frame := ⟨Frame.noResponse, payload⟩ } := by
  unfold post at h
  split at h
  · cases h
  · rename_i htaken
    cases h
    exact ⟨(refusal_eq_none htaken).2, rfl⟩

theorem write_eq_ok (h : e.write id payload = .ok e') :
    e.stopped = false ∧
      e' = { e.enqueue { frame := ⟨Frame.noResponse, payload⟩, waiter := some id } with
        calls := e.calls ++ [{ id, wait := .written }] } := by
  unfold write at h
  split at h
  · cases h
  · rename_i htaken
    cases h
    exact ⟨(refusal_eq_none htaken).2, rfl⟩

theorem request_eq_ok {capacity due : Nat} (h : e.request id payload capacity due = .ok e') :
    e.stopped = false ∧
      e' = { e.enqueue { frame := ⟨e.nextSeq, payload⟩ } with
        sequence := (e.sequence.nextFree (e.table.map (·.seq))).2
        table := e.table ++ [{ seq := e.nextSeq, call := id, capacity }]
        calls := e.calls ++ [{ id, wait := .response e.nextSeq due }] } := by
  unfold request at h
  split at h
  · cases h
  · rename_i htaken
    cases h
    exact ⟨(refusal_eq_none htaken).2, rfl⟩

theorem start_eq_ok {now : Nat} {s : Sealer} {o : Opener} (h : e.start now s o = .ok e') :
    e.phase = .idle ∧ e' = { e.driving
        { sealer := s, opener := o, reading := .reading [] (e.readDue now) } with
      phase := .running } := by
  unfold start at h
  split at h
  · rename_i hidle
    cases h
    exact ⟨hidle, rfl⟩
  · cases h

end

/-! ### What can be done -/

/-- One thing that happens at a site. Calls have names of their own. A request is made
only while some number is free: with every number waiting, the search for one does not end. -/
inductive Move (key : SessionKey) (role : Role) (env : Env) (s : Site) : Site → Prop where
  | post {payload e} (h : s.engine.post payload = .ok e) :
      Move key role env s (s.after e s.stream [])
  | write {id payload e} (hnew : id ∉ s.log.calls) (h : s.engine.write id payload = .ok e) :
      Move key role env s
        { s.after e s.stream [] with
          log := { s.logged e s.stream [] with calls := s.log.calls ++ [id] } }
  | request {id payload capacity due e} (hnew : id ∉ s.log.calls)
      (hfree : s.engine.table.length < UInt32.size - 1)
      (h : s.engine.request id payload capacity due = .ok e) :
      Move key role env s
        { s.after e s.stream [] with
          log := { s.logged e s.stream [] with
            calls := s.log.calls ++ [id]
            issued := s.log.issued ++ [⟨id, ⟨s.engine.nextSeq, payload⟩⟩] } }
  | refuse {id err} (hnew : id ∉ s.log.calls)
      (h : (∃ payload, s.engine.write id payload = .error err) ∨
        ∃ payload capacity due, s.engine.request id payload capacity due = .error err) :
      Move key role env s
        { s with log := { s.log with
            calls := s.log.calls ++ [id]
            returned := s.log.returned ++ [(id, .failed err)] } }
  | giveUp {id c} (hc : s.engine.calls.find? (·.id == id) = some c) :
      Move key role env s
        { s with
          engine := s.engine.giveUp id
          log := { s.log with dropped := s.log.dropped ++ [id] } }
  | start {e}
      (h : s.engine.start env.now (Sealer.create key role s.engine.settings.maxWrite)
        (Opener.create key role s.engine.settings.maxRead) = .ok e) :
      Move key role env s (s.after e s.stream [])
  | abandon : Move key role env s
      (s.after (s.engine.abandon s.stream).1 (s.engine.abandon s.stream).2 [])
  | step {t e d events} (h : s.engine.step env t s.stream = some (e, d, events)) :
      Move key role env s (s.after e d events)

/-- Nothing that has happened is undone. -/
structure Log.Grows (l l' : Log) : Prop where
  calls : l.calls <+: l'.calls
  dropped : l.dropped <+: l'.dropped
  returned : l.returned <+: l'.returned
  issued : l.issued <+: l'.issued
  accepted : l.accepted <+: l'.accepted
  written : l.written <+: l'.written
  taken : l.taken <+: l'.taken
  received : l.received <+: l'.received
  delivered : l.delivered <+: l'.delivered
  troubles : l.troubles <+: l'.troubles
  ended : l.ended <+: l'.ended

theorem Log.Grows.refl (l : Log) : l.Grows l := by
  constructor <;> exact List.prefix_rfl

theorem Log.Grows.trans {l l' l'' : Log} (h : l.Grows l') (h' : l'.Grows l'') : l.Grows l'' where
  calls := h.calls.trans h'.calls
  dropped := h.dropped.trans h'.dropped
  returned := h.returned.trans h'.returned
  issued := h.issued.trans h'.issued
  accepted := h.accepted.trans h'.accepted
  written := h.written.trans h'.written
  taken := h.taken.trans h'.taken
  received := h.received.trans h'.received
  delivered := h.delivered.trans h'.delivered
  troubles := h.troubles.trans h'.troubles
  ended := h.ended.trans h'.ended

theorem Log.grows_note (l : Log) (ev : Event) : l.Grows (l.note ev) := by
  cases ev <;> constructor <;> first | exact List.prefix_rfl | exact List.prefix_append _ _

theorem Log.grows_notes (l : Log) (events : List Event) : l.Grows (events.foldl Log.note l) := by
  induction events generalizing l with
  | nil => exact .refl l
  | cons ev events ih => exact (l.grows_note ev).trans (ih (l.note ev))

/-- No event is about the frames accepted or the bytes taken: these are seen on the queue and
on the stream. -/
theorem Log.notes_kept (l : Log) (events : List Event) :
    (events.foldl Log.note l).accepted = l.accepted ∧
      (events.foldl Log.note l).taken = l.taken := by
  induction events generalizing l with
  | nil => exact ⟨rfl, rfl⟩
  | cons ev events ih =>
    have hnote : (l.note ev).accepted = l.accepted ∧ (l.note ev).taken = l.taken := by
      cases ev <;> exact ⟨rfl, rfl⟩
    obtain ⟨haccepted, htaken⟩ := ih (l.note ev)
    exact ⟨haccepted.trans hnote.1, htaken.trans hnote.2⟩

theorem Site.accepted_logged (s : Site) (e : Engine) (d : Duplex) (events : List Event) :
    (s.logged e d events).accepted =
      s.log.accepted ++ e.queue.drop s.engine.queue.length :=
  (Log.notes_kept _ events).1

theorem Site.taken_logged (s : Site) (e : Engine) (d : Duplex) (events : List Event) :
    (s.logged e d events).taken = s.log.taken ++ s.gone d :=
  (Log.notes_kept _ events).2

theorem Site.grows_logged (s : Site) (e : Engine) (d : Duplex) (events : List Event) :
    s.log.Grows (s.logged e d events) := by
  have hfirst : s.log.Grows { s.log with
      accepted := s.log.accepted ++ e.queue.drop s.engine.queue.length
      taken := s.log.taken ++ s.gone d } := by
    constructor <;> first | exact List.prefix_rfl | exact List.prefix_append _ _
  exact hfirst.trans (Log.grows_notes _ events)

theorem Move.grows {key : SessionKey} {role : Role} {env : Env} {s s' : Site}
    (h : Move key role env s s') : s.log.Grows s'.log := by
  cases h with
  | post => exact s.grows_logged _ _ _
  | write =>
    have hlogged := s.grows_logged
    exact { hlogged _ _ _ with calls := List.prefix_append _ _ }
  | request =>
    have hlogged := s.grows_logged
    exact { hlogged _ _ _ with
      calls := List.prefix_append _ _, issued := List.prefix_append _ _ }
  | refuse => constructor <;> first | exact List.prefix_rfl | exact List.prefix_append _ _
  | giveUp => constructor <;> first | exact List.prefix_rfl | exact List.prefix_append _ _
  | start => exact s.grows_logged _ _ _
  | abandon => exact s.grows_logged _ _ _
  | step => exact s.grows_logged _ _ _

/-- A site whose far end has read these bytes. -/
structure World extends Site where
  heard : Bytes := []

namespace World

/-- Before anything has happened: an engine with a connection's settings, at an empty stream. -/
def fresh (c : Config.Connection) (out inc : Nat) : World where
  engine := { settings := c.settings }
  stream := ⟨{ capacity := out }, { capacity := inc }⟩

/-- Either a move of the site, or the far end reads some of what is in the outgoing pipe
and does whatever it likes to the rest of the stream. -/
inductive Step (key : SessionKey) (role : Role) (w : World) : World → Prop where
  | near {env s} (h : Move key role env w.toSite s) : Step key role w { w with toSite := s }
  | far {d bytes} (h : bytes ++ d.outgoing.held = w.stream.outgoing.held) :
      Step key role w { w with stream := d, heard := w.heard ++ bytes }

/-- One world comes to be another. -/
abbrev Leads (key : SessionKey) (role : Role) : World → World → Prop :=
  Relation.ReflTransGen (Step key role)

/-- A world that a fresh one comes to be. -/
def Reachable (key : SessionKey) (role : Role) (w : World) : Prop :=
  ∃ c out inc, Leads key role (fresh c out inc) w

theorem Reachable.leads {key : SessionKey} {role : Role} {w w' : World}
    (h : Reachable key role w) (hlater : Leads key role w w') : Reachable key role w' := by
  obtain ⟨c, out, inc, hleads⟩ := h
  exact ⟨c, out, inc, hleads.trans hlater⟩

/-- What holds of a fresh world and is kept by every step holds of every world. -/
theorem Reachable.induct {key : SessionKey} {role : Role} {motive : World → Prop}
    (hfresh : ∀ c out inc, motive (fresh c out inc))
    (hstep : ∀ w w', Reachable key role w → motive w → Step key role w w' → motive w') {w : World}
    (h : Reachable key role w) : motive w := by
  obtain ⟨c, out, inc, hleads⟩ := h
  induction hleads with
  | refl => exact hfresh c out inc
  | tail hleads h ih => exact hstep _ _ ⟨c, out, inc, hleads⟩ ih h

theorem grows_leads {key : SessionKey} {role : Role} {w w' : World} (h : Leads key role w w') :
    w.log.Grows w'.log := by
  induction h with
  | refl => exact .refl _
  | tail _ hstep ih =>
    cases hstep with
    | near h => exact ih.trans h.grows
    | far => exact ih

end World
end Parley.Engine
