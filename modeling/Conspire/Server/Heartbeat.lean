import Conspire.Server.SessionReliability

/-! Transport liveness (`rooms/Heartbeat.hpp`): callers supply the clock. -/
namespace Conspire
open Session

inductive Tick where
  | none | queuePing | expired
  deriving DecidableEq, Repr

structure Heartbeat where
  lastInbound : TimePoint
  lastProbe : TimePoint
  generation : Nat := 1
  pingQueued : Bool := false
  pingOutstanding : Bool := false
  deriving DecidableEq, Repr

namespace Heartbeat

def probeInterval : Nat := seconds 30
def deadline : Nat := seconds 120

def create (now : TimePoint) : Heartbeat := { lastInbound := now, lastProbe := now }

def activate (_ : Heartbeat) (now : TimePoint) (generation : Nat) : Heartbeat :=
  { lastInbound := now, lastProbe := now, generation }

def tick (heartbeat : Heartbeat) (now : TimePoint) : Heartbeat × Tick :=
  if deadline ≤ now - heartbeat.lastInbound then (heartbeat, .expired)
  else if heartbeat.pingQueued || heartbeat.pingOutstanding ||
      now - heartbeat.lastProbe < probeInterval then (heartbeat, .none)
  else ({ heartbeat with pingQueued := true, lastProbe := now }, .queuePing)

def writeCompleted (heartbeat : Heartbeat) (generation : Nat) (success : Bool) : Heartbeat × Bool :=
  if generation ≠ heartbeat.generation || !heartbeat.pingQueued then (heartbeat, false)
  else ({ heartbeat with pingQueued := false, pingOutstanding := success }, true)

def inbound (heartbeat : Heartbeat) (now : TimePoint) (generation : Nat) : Heartbeat × Bool :=
  if generation ≠ heartbeat.generation then (heartbeat, false)
  else ({ heartbeat with lastInbound := now, pingQueued := false, pingOutstanding := false }, true)

end Heartbeat

/-- The first terminal cause owns the one cumulative transport-close event. -/
structure TerminalCloseAccounting where
  accounted : Bool := false
  deriving DecidableEq, Repr

def TerminalCloseAccounting.accountOnce (accounting : TerminalCloseAccounting) :
    TerminalCloseAccounting × Bool :=
  if accounting.accounted then (accounting, false) else ({ accounted := true }, true)

end Conspire
