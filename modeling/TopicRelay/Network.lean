import TopicRelay.PortMap

/-!
# The network between the relay and its backends

Backends are known by their ports. A connection starts out pending; it is established when the
backend accepts it or fails with a reason, at once or later. On an established connection the bytes
of both directions arrive in order and at once; but a backend that does not read makes room for so
many bytes only, and the relay cannot send more until there is room again.

Every connection that was ever asked for stays in the list, so that its place in the list names it.
The operations come in two groups: what the relay does at its end (`connect`, `send`, `take`,
`disconnect`), and what happens at the other end (`accept`, `refuse`, `allow`, `write`, `finish`).
-/

namespace TopicRelay

/-- What a backend does with a request for a connection. -/
inductive Behaviour where
  /-- It accepts at once. -/
  | listen
  /-- It accepts at once, but has room for so many bytes only. -/
  | stall (room : Nat)
  /-- It refuses at once. -/
  | refuse
  /-- It does not answer by itself. -/
  | hang
deriving DecidableEq, Repr

/-- How far a connection has come. -/
inductive Link where
  | pending
  /-- Accepted, as the connection of this number of its backend. -/
  | established (number : Nat)
  | failed (reason : String)
deriving DecidableEq, Repr

/-- How a backend ends a connection. -/
inductive Ending where
  /-- After everything it has written. -/
  | closed
  /-- Abruptly. -/
  | reset
deriving DecidableEq, Repr

/-- A connection to a backend. -/
structure Connection where
  port : Port
  link : Link
  /-- The bytes that have arrived at the backend. -/
  request : Bytes := []
  /-- How many more bytes can arrive at the backend for now, if it has ever set a limit. -/
  room : Option Nat := none
  /-- The bytes that the backend has written and the relay has not read. -/
  unread : Bytes := []
  /-- How the backend has ended the connection. -/
  ending : Option Ending := none
  /-- Whether the relay still holds its end. -/
  held : Bool := true
deriving DecidableEq, Repr

namespace Connection

/-- Whether the connection was accepted. -/
def isEstablished (c : Connection) : Bool :=
  match c.link with
  | .established _ => true
  | _ => false

/-- Whether the connection is established and neither end has given it up. -/
def isOpen (c : Connection) : Bool := c.isEstablished && c.held && c.ending.isNone

/-- Whether the relay would find bytes or the end when it reads. -/
def isReadable (c : Connection) : Bool := !c.unread.isEmpty || c.ending.isSome

/-- Whether the relay could send bytes. -/
def isWritable (c : Connection) : Bool := c.room ≠ some 0

/-- The number of bytes that can be sent of so many. -/
def capacity (c : Connection) (offered : Nat) : Nat :=
  match c.room with
  | none => offered
  | some room => min room offered

/-- The connection after as many of the bytes have been sent as there is room for. -/
def offer (c : Connection) (b : Bytes) : Connection :=
  let sent := c.capacity b.length
  { c with request := c.request ++ b.take sent, room := c.room.map (· - sent) }

/-- A connection that has never come about. -/
def absent : Connection := { port := 0, link := .failed "no such connection", held := false }

end Connection

/-- The backends and the connections to them. -/
structure Network where
  /-- Whether any backend can be reached. -/
  reachable : Bool := true
  backends : List (Port × Behaviour) := []
  /-- What happens at the ports that are not listed. -/
  elsewhere : Behaviour := .refuse
  /-- The connections in the order in which they were asked for. -/
  connections : List Connection := []
deriving DecidableEq, Repr

namespace Network

/-- A network with these backends. A backend can be kept from answering only by filling up the queue
of the connections that wait for it, so without reachable backends there is no such network. -/
def create? (reachable : Bool) (backends : List (Port × Behaviour)) : Option Network :=
  if !reachable && backends.any (·.2 = .hang) then none else some { reachable, backends }

/-- The connection at a place of the list. -/
def connection (n : Network) (i : Nat) : Connection := n.connections.getD i .absent

/-- Changes the connection at a place of the list. -/
def modify (n : Network) (i : Nat) (f : Connection → Connection) : Network :=
  { n with connections := n.connections.modify i f }

/-- The number of connections that the backend at a port has accepted. -/
def accepted (n : Network) (port : Port) : Nat :=
  n.connections.countP fun c => c.port = port && c.isEstablished

/-- What the backend at a port does. -/
def behaviour (n : Network) (port : Port) : Behaviour := (n.backends.lookup port).getD n.elsewhere

/-- How a new connection to a port starts out. -/
def answer (n : Network) (port : Port) : Link :=
  if !n.reachable then .failed "network unreachable"
  else match n.behaviour port with
    | .listen | .stall _ => .established (n.accepted port)
    | .refuse => .failed "connection refused"
    | .hang => .pending

/-- The room for bytes on a new connection to a port, if it is limited. -/
def room (n : Network) (port : Port) : Option Nat :=
  match n.behaviour port with
  | .stall room => some room
  | _ => none

/-! ### At the end of the relay -/

/-- Asks for a connection: its place in the list, and the network with it. -/
def connect (n : Network) (port : Port) : Nat × Network :=
  let link := n.answer port
  let held := match link with
    | .failed _ => false
    | _ => true
  (n.connections.length,
    { n with connections := n.connections ++ [{ port, link, room := n.room port, held }] })

/-- Sends as many of the bytes as there is room for: their number, and the network with them. -/
def send (n : Network) (i : Nat) (b : Bytes) : Nat × Network :=
  ((n.connection i).capacity b.length, n.modify i (·.offer b))

/-- Takes all bytes that can be read. -/
def take (n : Network) (i : Nat) : Bytes × Network :=
  ((n.connection i).unread, n.modify i fun c => { c with unread := [] })

/-- Gives up the connection. -/
def disconnect (n : Network) (i : Nat) : Network := n.modify i fun c => { c with held := false }

/-! ### At the other end -/

/-- Accepts a connection that is pending. -/
def accept (n : Network) (i : Nat) : Network :=
  n.modify i fun c =>
    if c.link = .pending && c.held then { c with link := .established (n.accepted c.port) } else c

/-- Refuses a connection that is pending. -/
def refuse (n : Network) (i : Nat) (reason : String) : Network :=
  n.modify i fun c =>
    if c.link = .pending && c.held then { c with link := .failed reason, held := false } else c

/-- The place of the connection that a backend has accepted under a number. -/
def find? (n : Network) (port : Port) (number : Nat) : Option Nat :=
  n.connections.findIdx? fun c => c.port = port && c.link = .established number

/-- Changes a connection, if it is open. -/
def modifyOpen (n : Network) (i : Nat) (f : Connection → Connection) : Network :=
  n.modify i fun c => if c.isOpen then f c else c

/-- The backend has room for so many bytes, and no more. -/
def allow (n : Network) (i : Nat) (room : Nat) : Network :=
  n.modifyOpen i fun c => { c with room := some room }

/-- The backend writes bytes. -/
def write (n : Network) (i : Nat) (b : Bytes) : Network :=
  n.modifyOpen i fun c => { c with unread := c.unread ++ b }

/-- The backend ends the connection. -/
def finish (n : Network) (i : Nat) (ending : Ending) : Network :=
  n.modifyOpen i fun c => { c with ending := some ending }

/-- The numbers of the connections to a port that are open at the end of the relay. -/
def openNumbers (n : Network) (port : Port) : List Nat :=
  n.connections.filterMap fun c =>
    match c.link with
    | .established number => if c.port = port && c.held then some number else none
    | _ => none

end Network

end TopicRelay
