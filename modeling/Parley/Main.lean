import Parley.CommandLine
import Parley.Config.Loading
import Parley.Sim.Network.Actions
import Std.Async
import Std.Sync.Channel

/-! The program: an echo server, or a call to one, over TCP.

A network in memory does the work, and time there is the time outside. Every socket is a
plain peer of the network: what the socket receives the peer sends, and what the peer
hears the socket sends, at its own pace. -/
namespace Parley.Program
open Sim Std.Async

abbrev Socket := TCP.Socket.Client

/-- What the world outside tells the program. -/
inductive News where
  /-- Time has passed. -/
  | tick
  /-- A stop was asked for. -/
  | interrupted
  /-- A dialed socket is connected, or is not. -/
  | connected (socket : Socket)
  | refused
  | accepted (socket : Socket)
  | received (name : String) (bs : Bytes)
  | ended (name : String)
  /-- So many bytes were sent. -/
  | sent (name : String) (n : Nat)

instance : Inhabited News := ⟨.tick⟩

abbrev Mailbox := Std.Channel News

/-- A peer's socket: pieces to be sent, then the end, and the task that sends them. -/
structure Line where
  name : String
  pieces : Std.Channel (Option Bytes)
  sender : AsyncTask Unit

/-- How many bytes a socket may be behind with sending. -/
def window : Nat := 65536

/-! ### Background tasks -/

def tell (box : Mailbox) (news : News) : Async Unit := discard (box.send news)

partial def receive (box : Mailbox) (name : String) (socket : Socket) : Async Unit := do
  match ← try socket.recv? 65536 catch _ => pure none with
  | none => tell box (.ended name)
  | some bs =>
    tell box (.received name bs.toList)
    receive box name socket

/-- Sends pieces as they come. At the end the socket is shut down. -/
partial def sendPieces (box : Mailbox) (name : String) (socket : Socket)
    (pieces : Std.Channel (Option Bytes)) : Async Unit := do
  match ← await (← pieces.recv) with
  | none => try socket.shutdown catch _ => pure ()
  | some bs =>
    try socket.send ⟨bs.toArray⟩ catch _ => pure ()
    tell box (.sent name bs.length)
    sendPieces box name socket pieces

partial def accept (box : Mailbox) (server : TCP.Socket.Server) : Async Unit := do
  tell box (.accepted (← server.accept))
  accept box server

/-- Tells the time for as long as it is wanted. -/
partial def tick (box : Mailbox) (wanted : IO.Ref Bool) : Async Unit := do
  sleep 10
  tell box .tick
  if ← wanted.get then tick box wanted

def openLine (box : Mailbox) (name : String) (socket : Socket) : IO Line := do
  socket.noDelay
  let pieces ← Std.Channel.new
  discard (receive box name socket).toIO
  let sender ← (sendPieces box name socket pieces).toIO
  return { name, pieces, sender }

/-! ### Addresses -/

/-- The IP addresses of an address, with its number. -/
def resolve (address : String) : Async (List Std.Net.SocketAddress) := do
  let reversed := address.toList.reverse
  let digits := (reversed.takeWhile (· ≠ ':')).reverse.filter Char.isDigit
  let number := UInt16.ofNat (Address.value 10 digits)
  let host := ((reversed.dropWhile (· ≠ ':')).drop 1).reverse
  let bare := (host.filter fun c => c != '[' && c != ']').takeWhile (· ≠ '%')
  let found ← DNS.getAddrInfo (String.ofList bare) ""
  return found.toList.map fun
    | .v4 ip => .v4 ⟨ip, number⟩
    | .v6 ip => .v6 ⟨ip, number⟩

/-- Connects to the first address that answers. -/
def dial (box : Mailbox) (address : String) : Async Unit := do
  for a in (← try resolve address catch _ => pure []) do
    let socket ← TCP.Socket.Client.mk
    let answered ← try do socket.connect a; pure true catch _ => pure false
    if answered then
      tell box (.connected socket)
      return
  tell box .refused

def listenOn (address : String) : IO TCP.Socket.Server := do
  match ← (resolve address).block with
  | [] => throw (IO.userError "address not available")
  | a :: _ =>
    let server ← TCP.Socket.Server.mk
    server.bind a
    server.listen 1024
    return server

/-! ### The loop -/

structure World where
  network : Network
  lines : List Line := []
  /-- When the network's clock was zero. -/
  epoch : Nat

/-- Takes news in. -/
def World.hear (w : World) (box : Mailbox) (address : String) (news : News) : IO World := do
  let n := w.network
  match news with
  | .tick => return w
  | .interrupted => return { w with network := n.shutServer 1 }
  | .refused => return { w with network := { n with blackHoles := [] } }
  | .connected socket =>
    let l : PlainListener := { name := "far", address }
    let line ← openLine box "far0" socket
    let network := { n with blackHoles := [], listeners := [l] }
    return { w with network, lines := line :: w.lines }
  | .accepted socket =>
    let name := s!"peer-{n.links.length}"
    let line ← openLine box name socket
    let network := (n.plainDial 2 name address false).onPlain name (·.feed (some window))
    return { w with network, lines := line :: w.lines }
  | .received name bs => return { w with network := n.onPlain name (·.send bs) }
  | .ended name => return { w with network := n.onPlain name (·.finish) }
  | .sent name k => return { w with network := n.onPlain name (·.feed (some k)) }

/-- Hands what the peers have heard to their sockets, and is done with those that have
heard everything. -/
def World.flush (w : World) : IO World := do
  let mut lines := []
  for l in w.lines do
    match w.network.plains.find? (·.name == l.name) with
    | none => discard (l.pieces.send none)
    | some p =>
      if p.peer.heard ≠ [] then discard (l.pieces.send (some p.peer.heard))
      if p.peer.sawEnd then discard (l.pieces.send none) else lines := l :: lines
  let going := w.network.plains.filter (!·.peer.sawEnd)
  let plains := going.map fun p => { p with peer := p.peer.report.2 }
  return { w with network := { w.network with plains }, lines := lines.reverse }

/-- Fresh secrets for whatever handshakes start next. -/
def World.refresh (w : World) : IO World := do
  let bs ← IO.getRandomBytes (USize.ofNat (32 * (w.network.links.length + 2)))
  return { w with network := { w.network with entropy := ⟨bs.toList⟩ } }

/-- Goes on until a report says how things ended. -/
partial def proceed (box : Mailbox) (address : String) (finished : Network → Option Report)
    (w : World) : IO Report := do
  let news ← IO.wait (← box.recv)
  let w ← (← w.refresh).hear box address news
  let now := (← IO.monoMsNow) - w.epoch
  let network := w.network.advance (now - w.network.now)
  for text in network.printed do IO.println text
  let w ← { w with network := { network with printed := [] } }.flush
  match finished w.network with
  | none => proceed box address finished w
  | some r =>
    for l in w.lines do
      discard (l.pieces.send none)
      l.sender.block
    return r

/-- Runs a network whose clock starts now, while the time is told. -/
def run (box : Mailbox) (address : String) (finished : Network → Option Report)
    (network : Network) : IO Report := do
  let wanted ← IO.mkRef true
  let ticks ← (tick box wanted).toIO
  let r ← proceed box address finished { network, epoch := ← IO.monoMsNow }
  wanted.set false
  ticks.block
  return r

/-! ### Commands -/

/-- A network with an echo server and a client that nobody has used yet. -/
def network (config : Config) : Network where
  entropy := ⟨[]⟩
  capacity := window
  server := .create config.server config.connection
  serverApplication := .echo
  client := .create config.client config.connection

def fail (message : String) : IO UInt32 := do
  IO.eprintln s!"Error: {message}"
  return 1

def conclude : Report → IO UInt32
  | .outcome (.failed e) => fail e.message
  | .bindFailed e => fail e.text
  | _ => return 0

/-- Serves until a fatal error, or until it is interrupted and all connections are done. -/
def serve (config : Config) : IO UInt32 := do
  let address := config.server.bindAddress
  let box ← Std.Channel.new
  let server ← listenOn address
  let interrupt ← (← Signal.Waiter.mk .sigint false).wait
  discard (accept box server).toIO
  discard (do discard (await interrupt); tell box .interrupted : Async Unit).toIO
  let finished (n : Network) := n.reports.lookup (if n.server.shutdown.fired then 1 else 0)
  conclude (← run box address finished ((network config).serve 0))

/-- Sends one message and prints the response. -/
def call (config : Config) (notify : Bool) (message : String) : IO UInt32 := do
  let address := config.client.address
  let box ← Std.Channel.new
  discard (dial box address).toIO
  let n := ((network config).blackHole address).call 0 config notify message
  conclude (← run box address (·.reports.lookup 0) n)

/-- The configuration in a file, or the defaults. -/
def loadConfig : Option String → IO (Except Config.LoadError Config)
  | none => return .ok {}
  | some path => do
    let data ← try some <$> IO.FS.readBinFile path catch _ => pure none
    return Config.load (data.map (·.toList))

def perform (request : CommandLine.Request) : IO UInt32 := do
  match ← loadConfig request.config with
  | .error e => fail e.message
  | .ok config =>
    match request.command with
    | .serve bind =>
      let server := { config.server with bindAddress := bind.getD config.server.bindAddress }
      match { config with server }.validated with
      | .error e => fail e.message
      | .ok config => serve config
    | .call address notify message =>
      let client := { config.client with address := address.getD config.client.address }
      match { config with client }.validated with
      | .error e => fail e.message
      | .ok config => call config notify message

end Parley.Program

open Parley in
def main (args : List String) : IO UInt32 := do
  match CommandLine.parse args with
  | .ok request =>
    try Program.perform request catch e => Program.fail (toString e)
  | .error .help =>
    IO.println CommandLine.UsageError.help.message
    return 0
  | .error e =>
    IO.eprintln s!"error: {e.message}"
    return 2
