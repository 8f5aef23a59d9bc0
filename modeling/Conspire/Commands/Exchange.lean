import Conspire.Commands.State
import Conspire.Replay.System

/-! One browser and its room, from the outbox to the published event. The page sends its
commands on the sockets it dials, the server reads them in order until a transport is cut, and
what either side has not taken by then is lost. What the server writes other than
SESSION_READY is left open, so an acknowledgement may also never come. -/
namespace Conspire.Commands
open Session Transition Browser

/-- Between its sections `acceptSessionHello` has added the peer or resumed its lease; then the
socket is the peer's transport. -/
inductive Phase where
  | joined | resuming | bound | answered
  deriving DecidableEq, Repr

inductive Handler where
  | pending
  | refused
  | serving (peer : PeerId) (token : Bytes) (phase : Phase)
  deriving DecidableEq, Repr

/-- `registry` is `m_sessions` by the token that the digest stands for, `issued` every token
ever made. `sent` is what the page has written to each socket after its hello, `received` how
many of these frames the server has read, and `used` the ids of all its commands. -/
structure Exchange where
  server : State
  registry : Bytes → Option PeerId := fun _ => none
  issued : Bytes → Option PeerId := fun _ => none
  handler : Socket → Handler := fun _ => .pending
  wire : Socket → List MessageDto := fun _ => []
  page : Page := {}
  link : Option (Socket × Nat) := none
  hellos : Socket → Option MessageDto := fun _ => none
  taken : Nat := 0
  sent : Socket → List Command := fun _ => []
  received : Socket → Nat := fun _ => 0
  used : List Bytes := []

/-- `serve` is a section of the server's command handling, `read` one that takes a command off
a socket of the page. -/
inductive Event where
  | serve (l : Label)
  | read (command : Command) (l : Label)
  | session
  | skip
  | dial | opened | closed | ignore | submit | reload
  | deliver (message : MessageDto)

namespace Exchange
variable (s : Exchange)

def owns (T : Socket) : Prop := s.hellos T ≠ none ∨ ∃ generation, s.link = some (T, generation)

/-- A hello that the page's sockets allow the server to admit; other browsers' are arbitrary. -/
def greets (T : Socket) (token : Option Bytes) : Prop :=
  s.owns T → ∃ hello, s.hellos T = some hello ∧ hello.resumeToken = token

/-- A socket nobody has used. -/
def unused (T : Socket) : Prop :=
  s.handler T = .pending ∧ s.hellos T = none ∧ s.wire T = [] ∧ s.sent T = [] ∧
    ∀ generation, s.link ≠ some (T, generation)

def setHandler (T : Socket) (handler : Handler) : Exchange :=
  { s with handler := Function.update s.handler T handler }

def write (T : Socket) (message : MessageDto) : Exchange :=
  { s with wire := Function.update s.wire T (s.wire T ++ [message]) }

def setPage (page : Page) : Exchange := { s with page }

/-- `transport.send` on a socket, for each command. -/
def transmit (socket : Option Socket) (commands : List Command) : Exchange :=
  match socket with
  | none => s
  | some T => { s with sent := Function.update s.sent T (s.sent T ++ commands) }

def receive (T : Socket) : Exchange :=
  { s with received := Function.update s.received T (s.received T + 1) }

/-- A dial leaves the link alone unless it begins a new generation. -/
def dialed (next : ReconnectingTransport) (created : Option Socket) : Exchange :=
  if next.generation = s.page.transport.generation then s.setPage { s.page with transport := next }
  else
    { s with page := { s.page with transport := next }
             link := created.map (·, next.generation)
             taken := 0 }

/-- A transmission changes nothing but what is on its socket. -/
theorem transmit_eq (socket : Option Socket) (commands : List Command) :
    s.transmit socket commands = { s with sent := (s.transmit socket commands).sent } := by
  cases socket with
  | none => rfl
  | some T => rfl

theorem dialed_server (next : ReconnectingTransport) (created : Option Socket) :
    (s.dialed next created).server = s.server := by
  unfold dialed
  split
  · rfl
  · rfl

/-- The peer whose transport a socket is, or was. -/
def identity (T : Socket) : Option PeerId :=
  match s.handler T with
  | .serving peer _ _ => some peer
  | _ => none

def transmitted (id : Bytes) (T : Socket) : Prop := ∃ command ∈ s.sent T, command.clientMessageId = id

def waiting (id : Bytes) : Prop := ∃ command ∈ s.page.reliability.outbox, command.clientMessageId = id

end Exchange

/-- The SESSION_READY of a session; its snapshot is left open. -/
structure IsReady (message : MessageDto) (member : PeerId) (token : Bytes) : Prop where
  code : message.code = some .sessionReady
  version : message.protocolVersion = some 2
  peer : message.peerId = some (member : Int)
  token : message.resumeToken = some token

/-- Labels of transports, and of commands on a socket of the page, have steps of their own. -/
def Exchange.admits (s : Exchange) : Label → Prop
  | .bind _ _ => False
  | .receive _ _ T _ => ¬ s.owns T
  | _ => True

variable (config : ConfigDto)

inductive ExchangeStep : Exchange → Event → Exchange → Prop where
  -- acceptSessionHello; a token is 32 random bytes, so none is made twice
  | fresh : s.handler T = .pending → s.greets T none → validBase64UrlId token 32 = true →
      s.issued token = none → 0 < member → s.server.peers member = none →
      Step config s.server (.bind member T) after →
      ExchangeStep s (.serve (.bind member T))
        ({ s with server := after, issued := Function.update s.issued token (some member) }.setHandler T
          (.serving member token .joined))
  | register : s.handler T = .serving member token .joined →
      ExchangeStep s .session
        ({ s with registry := Function.update s.registry token (some member) }.setHandler T
          (.serving member token .bound))
  | resume : s.handler T = .pending → s.greets T (some token) → s.registry token = some member →
      ExchangeStep s .session (s.setHandler T (.serving member token .resuming))
  | bind : s.handler T = .serving member token .resuming → s.server.peers member ≠ none →
      Step config s.server (.bind member T) after →
      ExchangeStep s (.serve (.bind member T))
        ({ s with server := after }.setHandler T (.serving member token .bound))
  | refuse : s.handler T = .pending → (s.owns T → s.hellos T ≠ none) →
      ExchangeStep s .session ((s.setHandler T .refused).write T Replay.sessionUnavailable)
  -- the frame goes to the transport that the peer has by then
  | answer : s.handler T = .serving member token .bound → s.server.peers member = some peer →
      peer.socket = some S → IsReady message member token →
      ExchangeStep s .session ((s.setHandler T (.serving member token .answered)).write S message)
  | write : message.code ≠ some .sessionReady → ExchangeStep s .session (s.write T message)
  | expire : ExchangeStep s .session { s with registry := Function.update s.registry token none }
  | serve : Step config s.server l after → s.admits l → ExchangeStep s (.serve l) { s with server := after }
  | read : (s.sent T)[s.received T]? = some command →
      message.clientMessageId = some command.clientMessageId → message.code = some command.code →
      Step config s.server (.receive k member T message) after →
      ExchangeStep s (.read command (.receive k member T message)) ({ s with server := after }.receive T)
  -- a frame of a transport that was replaced, or one that is refused unread
  | skip : (s.sent T)[s.received T]? = some command → ExchangeStep s .skip (s.receive T)
  | dial : Replay.Dials s.page.transport created delay next → (∀ T, created = some T → s.unused T) →
      ExchangeStep s .dial (s.dialed next created)
  | opened {T : Socket} : s.link = some (T, generation) → s.hellos T = none →
      s.page.onOpen generation = (page, hello) →
      ExchangeStep s .opened { s with page, hellos := Function.update s.hellos T hello }
  | closed : s.link = some (T, generation) →
      ExchangeStep s .closed
        { s with page := { s.page with transport := s.page.transport.closed generation delay }
                 link := none }
  | deliver : s.link = some (T, generation) → s.page.transport.admits generation = true →
      (s.wire T)[s.taken]? = some message → s.page.onMessage delay message = (page, retried) →
      ExchangeStep s (.deliver message)
        ({ s with page, taken := s.taken + 1 }.transmit page.transport.socket retried)
  -- parseProtocolMessage makes nothing of the frame
  | ignore : s.link = some (T, generation) → (s.wire T)[s.taken]? = some message →
      ExchangeStep s .ignore { s with taken := s.taken + 1 }
  -- a random id, and a send that fails on a socket that is not open
  | submit : command.clientMessageId ∉ s.used → s.page.reliability.enqueue command = (reliability, true) →
      (isOpen = true → s.link.isSome = true) →
      ExchangeStep s .submit
        ({ s with page := { s.page with reliability }, used := command.clientMessageId :: s.used }.transmit
          s.page.transport.socket (if s.page.transport.sends isOpen then [command] else []))
  | reload : ExchangeStep s .reload { s with page := s.page.reloaded capability, link := none }

def exchange : Machine Exchange Event where
  init s := ∃ name capability, s = { server := { room := { name } }, page := { fileCapabilityId := capability } }
  step := ExchangeStep config

/-- What the server's command handlers see of an event. -/
def Event.label : Event → Option Label
  | .serve l | .read _ l => some l
  | _ => none

/-- The commands as the server counts them that were read off the page's sockets with an id. -/
def readings (id : Bytes) (events : List Event) : List Nat :=
  events.filterMap fun
    | .read command (.receive k _ _ _) => if command.clientMessageId = id then some k else none
    | _ => none

/-- The durable events that a command of the page has caused. -/
def effects (id : Bytes) (events : List Event) : List MessageDto :=
  (events.filterMap Event.label).filterMap fun
    | .sequence k _ _ event => if k ∈ readings id events then some event else none
    | _ => none

/-- Any steps of a run. -/
def Later (s t : Exchange) : Prop := Relation.ReflTransGen (fun s t => ∃ e, ExchangeStep config s e t) s t

end Conspire.Commands
