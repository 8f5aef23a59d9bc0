import Conspire.Server.Peer

/-! The browser's generation-safe WebSocket owner (`front/chat/transport.js`).
Callbacks are not run here: a method returns the next state, and the caller runs
what the callback does. -/
namespace Conspire.Browser

inductive TransportState where
  | idle | connecting | handshaking | online | backoff | stopped
  deriving DecidableEq, Repr

/-- `timer` is the delay of the pending retry. -/
structure ReconnectingTransport where
  state : TransportState := .idle
  generation : Nat := 0
  attempts : Nat := 0
  socket : Option Socket := none
  timer : Option Nat := none
  stopped : Bool := false
  deriving DecidableEq, Repr

/-- `Math.min(30_000, 500 * (2 ** this.attempts))` -/
def backoffCap (attempts : Nat) : Nat := min 30000 (500 * 2 ^ attempts)

namespace ReconnectingTransport
variable (transport : ReconnectingTransport)

def clearRetry : ReconnectingTransport := { transport with timer := none }

/-- `delay` is `Math.floor(this.random() * cap)`. -/
def retry (generation delay : Nat) : ReconnectingTransport :=
  if transport.stopped || generation ≠ transport.generation || transport.timer.isSome then transport
  else { transport with attempts := transport.attempts + 1, state := .backoff, timer := some delay }

/-- `created` is the socket `createSocket` returns, `none` when it throws. -/
def connect (created : Option Socket) (delay : Nat) : ReconnectingTransport :=
  if transport.stopped || transport.state = .connecting || transport.state = .handshaking then
    transport
  else
    let next := { transport.clearRetry with
      state := .connecting, generation := transport.generation + 1 }
    match created with
    | none => next.retry next.generation delay
    | some socket => { next with socket := some socket }

def start (created : Option Socket) (delay : Nat) : ReconnectingTransport :=
  { transport with stopped := false }.connect created delay

def stop : ReconnectingTransport :=
  { transport with stopped := true, timer := none, socket := none, state := .stopped }

/-- Is an event of a socket of this generation handled at all? -/
def admits (generation : Nat) : Bool := generation = transport.generation && !transport.stopped

def opened (generation : Nat) : ReconnectingTransport :=
  if transport.admits generation then { transport with state := .handshaking } else transport

def closed (generation delay : Nat) : ReconnectingTransport :=
  if transport.admits generation then transport.retry generation delay else transport

def timerFired (created : Option Socket) (delay : Nat) : ReconnectingTransport :=
  { transport with timer := none }.connect created delay

def ready : ReconnectingTransport :=
  if transport.stopped then transport
  else { transport.clearRetry with attempts := 0, state := .online }

def reconnectNow (created : Option Socket) (delay : Nat) : ReconnectingTransport :=
  if transport.stopped then transport
  else
    { transport.clearRetry with
      generation := transport.generation + 1, socket := none, state := .idle }.connect created delay

/-- Does `send` transmit? `isOpen` is `this.socket.readyState === 1`. -/
def sends (isOpen : Bool) : Bool :=
  transport.state = .online && transport.socket.isSome && isOpen

def sendsHello (isOpen : Bool) : Bool :=
  transport.state = .handshaking && transport.socket.isSome && isOpen

/-- What the methods and the handlers make of a transport. -/
inductive Moves : ReconnectingTransport → Prop where
  | stays : Moves transport
  | start : Moves (transport.start created delay)
  | stop : Moves transport.stop
  | connect : Moves (transport.connect created delay)
  | ready : Moves transport.ready
  | reconnectNow : Moves (transport.reconnectNow created delay)
  | retry : Moves (transport.retry transport.generation delay)
  | opened (generation : Nat) : Moves (transport.opened generation)
  | closed (generation delay : Nat) : Moves (transport.closed generation delay)
  | timer : Moves (transport.timerFired created delay)

end ReconnectingTransport
end Conspire.Browser
