import Parley.Address
import Parley.Sim.Network.Step

/-! What is done to a network from outside. -/
namespace Parley.Sim.Network
open Channel

def settle (n : Network) : Network := system.settle patience n

def advance (n : Network) (ms : Nat) : Network :=
  system.advance patience n.now (n.now + ms) n.settle

/-! ### The server -/

/-- Why an address cannot be listened on, if it cannot. -/
def bindError (n : Network) (address : String) : Option IoError :=
  if !Address.isSocketAddress address then
    some { kind := .invalidInput, text := "invalid socket address" }
  else if n.isListening address then some { kind := .addrInUse, text := "address in use" }
  else none

/-- Binds the configured address and serves it. -/
def serve (n : Network) (id : CallId) : Network :=
  match n.bindError n.server.config.bindAddress with
  | some e => n.report id (.bindFailed e)
  | none => { n with server := n.server.serve id n.server.config.bindAddress }

def shutServer (n : Network) (id : CallId) : Network :=
  { n with server := n.server.beginShutdown id }

def acceptFails (n : Network) (address : String) (e : IoError) : Network :=
  { n with server := n.server.fault address e }

/-! ### Plain peers -/

/-- A plain peer dials. -/
def plainDial (n : Network) (id : CallId) (name address : String) (reads : Bool) : Network :=
  match n.dial address with
  | none => n.returns id (.failed (.io connectionRefused))
  | some (stream, n) =>
    let peer : Peer := { appetite := if reads then none else some 0 }
    let plain : Plain := { name, stream, dialed := true, peer }
    { n with plains := n.plains ++ [plain] }

/-- A plain listener on an address. -/
def plainListen (n : Network) (id : CallId) (name address : String) : Network :=
  match n.bindError address with
  | some e => n.returns id (.failed (.io e))
  | none =>
    let l : PlainListener := { name, address }
    { n with listeners := n.listeners ++ [l] }

def blackHole (n : Network) (address : String) : Network :=
  { n with blackHoles := address :: n.blackHoles }

/-- Changes the plain peer of a name. -/
def onPlain (n : Network) (name : String) (f : Peer → Peer) : Network :=
  { n with plains := n.plains.map fun p =>
      if p.name = name then { p with peer := f p.peer } else p }

/-- The plain peers of a name give their ends up. -/
def plainDrop (n : Network) (name : String) : Network :=
  (List.range n.plains.length).foldl (fun n i =>
    match n.plains[i]? with
    | some p =>
      if p.name = name then
        let (peer, d) := p.peer.drop (n.view p.stream p.dialed)
        { n.setView p.stream p.dialed d with plains := n.plains.set i { p with peer } }
      else n
    | none => n) n

/-! ### The client -/

def connect (n : Network) (id : CallId) (address : String) : Network :=
  { n with client := n.client.connect id address }

def shutClient (n : Network) (id : CallId) : Network :=
  { n with client := n.client.beginShutdown id }

/-- Calls into the engine of a connection; `waits` tells a call that returns later from one
that returns at once. -/
def callEngine (n : Network) (conn id : CallId) (waits : Bool)
    (f : Engine → Except Error Engine) : Network :=
  match n.client.engine? conn with
  | none => n.report id .gone
  | some e =>
    match f e with
    | .error err => n.returns id (.failed err)
    | .ok e =>
      let n := { n with client := n.client.setEngine conn e }
      if waits then n else n.returns id .done

def write (n : Network) (conn id : CallId) (payload : Bytes) : Network :=
  n.callEngine conn id true (·.write id payload)

def post (n : Network) (conn id : CallId) (payload : Bytes) : Network :=
  n.callEngine conn id false (·.post payload)

def request (n : Network) (conn id : CallId) (payload : Bytes) (capacity timeout : Nat) : Network :=
  n.callEngine conn id true (·.request id payload capacity (n.now + timeout))

def close (n : Network) (conn id : CallId) : Network :=
  match n.client.close conn id with
  | (true, client) => { n with client }
  | (false, _) => n.report id .gone

def join (n : Network) (conn id : CallId) : Network :=
  match n.client.join conn id with
  | (true, client) => { n with client }
  | (false, _) => n.report id .gone

def letGo (n : Network) (conn : CallId) : Network :=
  { n with client := n.client.letGo conn }

/-- Runs the command line's call. -/
def call (n : Network) (id : CallId) (config : Config) (notify : Bool) (message : String) :
    Network :=
  let r : Running := { script := .start id config notify message }
  { n with scripts := n.scripts ++ [r] }

/-! ### Dropping a call -/

/-- Drops the call of a number, whatever it is. -/
def giveUp (n : Network) (id : CallId) : Network :=
  let n := n.serverDid (n.server.dropLoop id)
  let n := { n with server := n.server.dropIdle id }
  let n := n.clientDid .main (n.client.dropDial id)
  let n := { n with client := ((n.client.dropCall id).dropEnd id).dropIdle id }
  match n.scripts.find? (·.script.id == id) with
  | none => n
  | some r =>
    if r.ended then n
    else
      let (script, events) := r.script.abandon
      events.foldl (noteClientPlain · (.script id) ·) (n.setScript { script, ended := true })

end Parley.Sim.Network
