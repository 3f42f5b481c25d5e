import Parley.Sim.Network.Basic

/-! The tasks of a network and their steps. -/
namespace Parley.Sim.Network
open Channel

inductive Task where
  | loop (id : CallId)
  | serverHandshake (guard : Nat)
  | serverEngine (guard : Nat) (t : Engine.Task)
  | serverIdle (id : CallId)
  | dial (ref : ClientRef) (id : CallId)
  | clientHandshake (ref : ClientRef) (id : CallId)
  | clientEngine (ref : ClientRef) (id : CallId) (t : Engine.Task)
  | relay (ref : ClientRef) (id : CallId)
  | connectionEnd (ref : ClientRef) (id : CallId)
  | clientIdle (ref : ClientRef) (id : CallId)
  /-- The plain peer at a place in the list sends. -/
  | send (i : Nat)
  | hear (i : Nat)
  deriving Repr, DecidableEq

/-! ### The server's steps -/

/-- The server as a step left it, and what it reports. -/
def serverDid (n : Network) : Server × List Event → Network
  | (server, events) => events.foldl noteServer { n with server }

def stepLoop (n : Network) (id : CallId) : Option Network :=
  (n.server.stepLoop n.now id).map n.serverDid

def stepServerIdle (n : Network) (id : CallId) : Option Network :=
  (n.server.stepIdle id).map n.serverDid

/-- A step of a server's connection on its stream. -/
def onServerStream (n : Network) (guard : Nat)
    (f : Duplex → Option (Server × Duplex × List Event)) : Option Network :=
  match n.server.connections.find? (·.guard == guard) with
  | none => none
  | some c =>
    (f (n.view c.stream false)).map fun (server, d, events) =>
      (n.setView c.stream false d).serverDid (server, events)

/-- The handshake of a connection that has arrived starts with a fresh secret. -/
def stepServerHandshake (n : Network) (guard : Nat) : Option Network :=
  if n.server.wantsSecret guard then
    let (secret, entropy) := n.entropy.draw Exchange.keyLength
    some { n with entropy, server := n.server.beginHandshake n.now guard secret }
  else n.onServerStream guard (n.server.stepHandshake n.serverEnv guard)

def stepServerEngine (n : Network) (guard : Nat) (t : Engine.Task) : Option Network :=
  n.onServerStream guard (n.server.stepEngine n.serverEnv guard t)

/-! ### The clients' steps -/

/-- A client as a step left it, and what it reports. -/
def clientDid (n : Network) (ref : ClientRef) : Client × List Event → Network
  | (c, events) => events.foldl (noteClient · ref ·) (n.setClient ref c)

/-- A step of a client that needs no stream. -/
def onClient (n : Network) (ref : ClientRef) (f : Client → Option (Client × List Event)) :
    Option Network :=
  match n.clientAt ref with
  | none => none
  | some c => (f c).map (n.clientDid ref)

/-- A step of a client on a stream. -/
def onClientStream (n : Network) (ref : ClientRef) (stream : Client → Option StreamId)
    (f : Client → Duplex → Option (Client × Duplex × List Event)) : Option Network :=
  match n.clientAt ref with
  | none => none
  | some c =>
    match stream c with
    | none => none
    | some stream =>
      (f c (n.view stream true)).map fun (c, d, events) =>
        (n.setView stream true d).clientDid ref (c, events)

/-- A connect call dials as soon as it may. A successful dial starts the handshake with a
fresh secret. -/
def stepDial (n : Network) (ref : ClientRef) (id : CallId) : Option Network :=
  match n.clientAt ref with
  | none => none
  | some c =>
    match c.dialing id with
    | none => (c.stepDial n.now id).map (n.clientDid ref)
    | some address =>
      if n.blackHoles.contains address then (c.stepDial n.now id).map (n.clientDid ref)
      else
        match n.dial address with
        | none => some (n.clientDid ref (c.refused id connectionRefused))
        | some (stream, n) =>
          let (secret, entropy) := n.entropy.draw Exchange.keyLength
          some ({ n with entropy }.setClient ref (c.dialed id stream secret))

def stepClientHandshake (n : Network) (ref : ClientRef) (id : CallId) : Option Network :=
  n.onClientStream ref
    (fun c => c.dials.findSome? fun d =>
      match d.stage with
      | .shaking stream _ => if d.id = id then some stream else none
      | _ => none)
    (fun c d => c.stepHandshake n.now id d)

def stepClientEngine (n : Network) (ref : ClientRef) (id : CallId) (t : Engine.Task) :
    Option Network :=
  n.onClientStream ref (fun c => (c.connections.find? (·.id == id)).map (·.stream))
    (fun c d => c.stepEngine (n.clientEnv ref) id t d)

/-! ### The plain peers' steps -/

def stepPlain (n : Network) (f : Peer → Duplex → Option (Peer × Duplex)) (i : Nat) :
    Option Network :=
  match n.plains[i]? with
  | none => none
  | some p =>
    (f p.peer (n.view p.stream p.dialed)).map fun (peer, d) =>
      { n.setView p.stream p.dialed d with plains := n.plains.set i { p with peer } }

/-! ### The system -/

def serverTasks (s : Server) : List Task :=
  s.loops.map (fun l => .loop l.id)
    ++ s.connections.flatMap (fun c =>
      match c.progress with
      | .engaged e => e.tasks.map (.serverEngine c.guard)
      | _ => [.serverHandshake c.guard])
    ++ s.idling.map .serverIdle

def clientTasks (ref : ClientRef) (c : Client) : List Task :=
  c.dials.flatMap (fun d => [.dial ref d.id, .clientHandshake ref d.id])
    ++ c.connections.flatMap (fun k =>
      .relay ref k.id :: k.engine.tasks.map (.clientEngine ref k.id)
        ++ [.connectionEnd ref k.id])
    ++ c.idling.map (.clientIdle ref)

def tasks (n : Network) : List Task :=
  clientTasks .main n.client
    ++ n.scripts.flatMap (fun r => clientTasks (.script r.script.id) r.script.client)
    ++ serverTasks n.server
    ++ (List.range n.plains.length).flatMap fun i => [.send i, .hear i]

def step : Task → Network → Option Network
  | .loop id, n => n.stepLoop id
  | .serverHandshake guard, n => n.stepServerHandshake guard
  | .serverEngine guard t, n => n.stepServerEngine guard t
  | .serverIdle id, n => n.stepServerIdle id
  | .dial ref id, n => n.stepDial ref id
  | .clientHandshake ref id, n => n.stepClientHandshake ref id
  | .clientEngine ref id t, n => n.stepClientEngine ref id t
  | .relay ref id, n => n.onClient ref (·.stepRelay id)
  | .connectionEnd ref id, n => n.onClient ref (·.stepEnd id)
  | .clientIdle ref id, n => n.onClient ref (·.stepIdle id)
  | .send i, n => n.stepPlain Peer.stepSend i
  | .hear i, n => n.stepPlain Peer.stepRead i

def dues (n : Network) : List Nat :=
  n.server.dues ++ n.client.dues ++ n.scripts.flatMap (·.script.client.dues)

def system : Timed Network Task where
  tasks
  step
  now := Network.now
  setNow now n := { n with now }
  dues

end Parley.Sim.Network
