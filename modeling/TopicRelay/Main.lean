import Std.Async.DNS
import Std.Async.Signal
import Std.Async.TCP
import TopicRelay.CommandLine.Program

/-!
# The command line

The thin layer between the program and the system. It hands a relay what happens outside (input,
signals, time, connections that come about, bytes and ends of responses) and carries out what the
relay asks for (connections, requests, output). It decides nothing.
-/

namespace TopicRelay

open Std.Async

/-- A connection of the relay as the system knows it. -/
structure Socket where
  /-- The place of the connection in the network of the relay. -/
  place : Nat
  /-- The attempt to connect. -/
  attempt : AsyncTask TCP.Socket.Client
  /-- The read that is under way. -/
  reading : Option (AsyncTask (Option ByteArray)) := none
  /-- The number of bytes of the request that were handed to the system. -/
  sent : Nat := 0

namespace Socket

/-- Connects to a backend, trying every address of its host. -/
def connect (host : String) (port : Port) : Async TCP.Socket.Client := do
  let mut error := IO.userError ("no address for " ++ host)
  for address in ← DNS.getAddrInfo host "" do
    let target := match address with
      | .v4 addr => .v4 { addr, port }
      | .v6 addr => .v6 { addr, port }
    try
      let client ← TCP.Socket.Client.mk
      client.connect target
      return client
    catch e => error := e
  throw error

/-- The most bytes that one read takes. -/
def readSize : UInt64 := 65536

/-- Brings the network up to date with the socket, and the socket with the network; there is no
socket any more once the relay has given up the connection. -/
def exchange (s : Socket) (n : Network) : IO (Option Socket × Network) := do
  let c := n.connection s.place
  unless ← IO.hasFinished s.attempt do
    return (if c.held then some s else none, n)
  match ← EIO.toBaseIO s.attempt.block with
  | .error e => return (none, n.refuse s.place (toString e))
  | .ok client =>
    unless c.held do
      client.native.cancelRecv
      return (none, n)
    let n := n.accept s.place
    let fresh := (n.connection s.place).request.drop s.sent
    unless fresh.isEmpty do
      discard <| Async.toIO (client.send ⟨fresh.toArray⟩)
    let s := { s with sent := s.sent + fresh.length }
    match s.reading with
    | none => return (some { s with reading := some (← Async.toIO (client.recv? readSize)) }, n)
    | some task =>
      unless ← IO.hasFinished task do return (some s, n)
      match ← EIO.toBaseIO task.block with
      | .ok (some bytes) =>
        let next ← Async.toIO (client.recv? readSize)
        return (some { s with reading := some next }, n.write s.place bytes.data.toList)
      | .ok none => return (none, n.finish s.place .closed)
      | .error _ => return (none, n.finish s.place .reset)

end Socket

/-- A relay between the standard streams, and what of the system it uses. -/
structure Session where
  relay : Relay StreamBus
  host : String
  input : IO.FS.Stream
  output : IO.FS.Stream
  /-- The read of the input that is under way. -/
  reading : Option (Task (Except IO.Error ByteArray))
  /-- The signals that are waited for. -/
  signals : List (AsyncTask Int)
  sockets : List Socket := []
  /-- The moment up to which time has passed for the relay, in milliseconds. -/
  clock : Nat

namespace Session

/-- Starts to read the input. -/
def readInput (input : IO.FS.Stream) : IO (Task (Except IO.Error ByteArray)) :=
  IO.asTask (input.read 65536) .dedicated

/-- Hands the relay the input that has arrived. -/
def takeInput (s : Session) : IO Session := do
  let some task := s.reading | return s
  unless ← IO.hasFinished task do return s
  match task.get with
  | .error _ => return { s with reading := none, relay := s.relay.failInput }
  | .ok bytes =>
    if bytes.isEmpty then return { s with reading := none, relay := s.relay.endInput }
    else
      let next ← readInput s.input
      return { s with reading := some next, relay := s.relay.deliver bytes.data.toList }

/-- Hands the relay the signals that have arrived. -/
def takeSignals (s : Session) : IO Session := do
  let mut relay := s.relay
  let mut waiting := []
  for task in s.signals do
    if ← IO.hasFinished task then relay := relay.trigger.2
    else waiting := task :: waiting
  return { s with relay, signals := waiting }

/-- Opens a socket for every connection that the relay has asked for since `before`. -/
def openSockets (s : Session) (before : Nat) : IO Session := do
  let asked := s.relay.dispatcher.surroundings.network.connections.drop before
  let fresh ← asked.zipIdx.mapM fun (c, i) => do
    return { place := before + i, attempt := ← Async.toIO (Socket.connect s.host c.port) : Socket }
  return { s with sockets := s.sockets ++ fresh }

/-- Brings all sockets and the network up to date with each other. -/
def exchangeAll (s : Session) : IO Session := do
  let mut network := s.relay.dispatcher.surroundings.network
  let mut kept := []
  for socket in s.sockets do
    let (left, after) ← socket.exchange network
    network := after
    kept := kept ++ left.toList
  return { s with sockets := kept, relay := s.relay.onDispatcher (·.onNetwork fun _ => network) }

/-- Writes what the relay has published. -/
def flush (s : Session) : IO Session := do
  let written := s.relay.dispatcher.surroundings.bus.writer.written
  if written.isEmpty then return s
  s.output.write ⟨written.toArray⟩
  s.output.flush
  return { s with relay := s.relay.onDispatcher (·.onBus fun _ => {}) }

/-- One round: everything that has happened outside, then whatever the relay makes of it. -/
def round (s : Session) : IO Session := do
  let now ← IO.monoMsNow
  let before := s.relay.dispatcher.surroundings.network.connections.length
  let s ← (← (← s.takeInput).takeSignals).exchangeAll
  let relay := (s.relay.pass (now - s.clock)).settle .message
  (← { s with relay, clock := now }.openSockets before).flush

/-- Goes on until the relay returns. -/
partial def run (s : Session) : IO Unit := do
  let s ← s.round
  unless s.relay.hasReturned do
    IO.sleep 1
    s.run

end Session

/-- The configuration file that the arguments name. -/
def readConfig (arguments : List String) : IO Config.File := do
  match CommandLine.configPath? arguments with
  | none => return .error "no file"
  | some path =>
    try return .ok (← IO.FS.readBinFile path).data.toList
    catch e => return .error (toString e)

/-- Runs a relay on the standard streams. -/
def serve (c : Config) : IO UInt32 := do
  match CommandLine.ready { elsewhere := .hang } c with
  | .error f => fail f
  | .ok relay =>
    let input ← IO.getStdin
    let wait (signal : Signal) : IO (AsyncTask Int) := do
      (← Signal.Waiter.mk signal false).wait
    Session.run {
      relay, host := c.backend.host, input, output := ← IO.getStdout
      reading := some (← Session.readInput input)
      signals := [← wait .sigint, ← wait .sigterm]
      clock := ← IO.monoMsNow }
    return 0
where
  /-- Reports a failure. -/
  fail (f : CommandLine.Failure) : IO UInt32 := do
    IO.eprintln ("Error: " ++ f.message)
    return f.exitCode.toUInt32

end TopicRelay

open TopicRelay in
/-- Runs the program. -/
def main (arguments : List String) : IO UInt32 := do
  let file ← readConfig arguments
  match CommandLine.plan (fun _ => file) arguments with
  | .error f => serve.fail f
  | .ok (.print lines) =>
    lines.forM fun line => IO.println line
    return 0
  | .ok (.serve c) => serve c
