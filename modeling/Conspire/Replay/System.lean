import Conspire.Replay.Page

/-! One browser and its room. The page dials sockets, says hello on them and
takes the frames of its socket in the order they were written; the server may
serve any other browser in between. A socket may be closed at any time, and what
the page has not taken by then is lost. -/
namespace Conspire.Replay
open Session Transition Browser

/-- `link` is the page's open socket with the generation its callbacks carry,
`taken` the number of its frames handled, `hellos` what the page has sent on each socket. -/
structure System where
  server : Server
  page : Page := {}
  link : Option (Socket × Nat) := none
  hellos : Socket → Option MessageDto := fun _ => none
  taken : Nat := 0

/-- The ways a new socket is created; `created` is none when that fails. -/
inductive Dials (transport : ReconnectingTransport) (created : Option Socket) (delay : Nat) :
    ReconnectingTransport → Prop where
  | start : transport.state = .idle → Dials transport created delay (transport.start created delay)
  | retry : Dials transport created delay (transport.connect created delay)
  | timer : transport.timer.isSome → Dials transport created delay (transport.timerFired created delay)
  | online : Dials transport created delay (transport.reconnectNow created delay)

inductive Event where
  | serve (label : Label)
  | dial | opened | closed | submit | reload
  | deliver (message : MessageDto)

namespace System
variable (s : System)

def owns (socket : Socket) : Prop :=
  s.hellos socket ≠ none ∨ ∃ generation, s.link = some (socket, generation)

/-- What the page's sockets allow the server to do: a hello is admitted once it
was sent, as it was sent, and an API error answers a command, so the page is online. -/
def admits : Label → Prop
  | .fresh socket _ cursor => s.owns socket → ∃ hello, s.hellos socket = some hello ∧
      hello.resumeToken = none ∧ hello.lastServerSeq = some cursor
  | .resume socket token cursor => s.owns socket → ∃ hello, s.hellos socket = some hello ∧
      hello.resumeToken = some token ∧ hello.lastServerSeq = some cursor
  | .refuse socket => s.owns socket → s.hellos socket ≠ none
  | .apiError socket _ => (∃ generation, s.link = some (socket, generation)) →
      s.page.transport.state = .online
  | _ => True

/-- A socket nobody has used. -/
def unused (socket : Socket) : Prop :=
  s.server.handler socket = .pending ∧ s.hellos socket = none ∧
    ∀ generation, s.link ≠ some (socket, generation)

/-- A dial leaves the link alone unless it begins a new generation. -/
def dialed (next : ReconnectingTransport) (created : Option Socket) : System :=
  if next.generation = s.page.transport.generation then
    { s with page := { s.page with transport := next } }
  else
    { s with page := { s.page with transport := next }
             link := created.map (·, next.generation)
             taken := 0 }

end System

variable (config : ConfigDto) (written : MessageDto → Nat)

inductive SystemStep : System → Event → System → Prop where
  | serve : Step config written s.server l after → s.admits l →
      SystemStep s (.serve l) { s with server := after }
  | dial : Dials s.page.transport created delay next → (∀ T, created = some T → s.unused T) →
      SystemStep s .dial (s.dialed next created)
  | opened : s.link = some (T, generation) → s.hellos T = none →
      s.page.onOpen generation = (page, hello) →
      SystemStep s .opened { s with page, hellos := Function.update s.hellos T hello }
  | closed : s.link = some (T, generation) →
      SystemStep s .closed
        { s with page := { s.page with transport := s.page.transport.closed generation delay }
                 link := none }
  | deliver : s.link = some (T, generation) → s.page.transport.admits generation = true →
      (s.server.wire T)[s.taken]? = some message →
      SystemStep s (.deliver message)
        { s with page := (s.page.onMessage delay message).1, taken := s.taken + 1 }
  | submit : SystemStep s .submit
      { s with page := { s.page with reliability := (s.page.reliability.enqueue command).1 } }
  | reload : SystemStep s .reload { s with page := s.page.reloaded capability, link := none }

/-- No queue overflow invalidates a transport, and no inbox overflow the session. -/
def smooth (s : System) : Event → Prop
  | .serve (.post member frame) => s.server.overflows written member frame = false
  | .deliver _ => s.page.transport.state = .handshaking →
      s.page.handshakeInbox.length < maxHandshakeInbox
  | _ => True

def replication : Machine System Event :=
  Machine.restrict
    { init := fun s => ∃ name capability,
        s = { server := { room := { name } }, page := { fileCapabilityId := capability } }
      step := SystemStep config written }
    (smooth written)

end Conspire.Replay
