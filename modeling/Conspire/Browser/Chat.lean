import Conspire.Browser.Reliability
import Conspire.Browser.Transport
import Conspire.Server.Room

/-! The chat page (`front/chat/chat.js`): what it keeps of a session and what it
does with every message it receives. Two ghosts stand for what it has shown. -/
namespace Conspire.Browser

/-- The `sessionStorage` record. -/
structure StoredSession where
  resumeToken : Bytes
  lastServerSeq : Int
  deriving DecidableEq, Repr

/-- `rendered` and `snapshot` are ghosts: the durable events that this document and the ones
before it have posted since the history was last replaced, and the events it was replaced by. -/
structure Page where
  peerId : Option Int := none
  peerName : Option Bytes := none
  peersMap : List PeerDto := []
  reliability : ReliabilityState := {}
  handshakeInbox : List MessageDto := []
  stored : Option StoredSession := none
  transport : ReconnectingTransport := {}
  fileCapabilityId : Bytes := []
  rendered : List MessageDto := []
  snapshot : List MessageDto := []

/-- `Map.set` on the participants. -/
def setPeer (peers : List PeerDto) (peer : PeerDto) : List PeerDto :=
  if peers.any (·.peerId = peer.peerId) then
    peers.map fun old => if old.peerId = peer.peerId then peer else old
  else peers ++ [peer]

namespace Page
variable (page : Page)

/-- The sequence below the first event of the last replaced history. -/
def base : Nat :=
  match page.snapshot.head?.bind (·.serverSeq) with
  | none => 0
  | some first => first - 1

/-- A new document in the same tab. -/
def reloaded (capability : Bytes) : Page :=
  { stored := page.stored, fileCapabilityId := capability
    rendered := page.rendered, snapshot := page.snapshot }

def saveSession (token : Bytes) : Page :=
  if token.isEmpty then page
  else { page with stored := some ⟨token, page.reliability.highestServerSeq⟩ }

def clearSession : Page := { page with stored := none }

/-- `sendHello` clears the inbox and restores the cursor; the frame it sends: -/
def helloMessage : MessageDto :=
  { code := some .sessionHello, protocolVersion := some 2
    resumeToken := page.stored.map (·.resumeToken)
    lastServerSeq := some ((page.stored.map (·.lastServerSeq.toNat)).getD 0)
    fileCapabilityId := some page.fileCapabilityId }

def sendHello : Page :=
  { page with
    handshakeInbox := []
    reliability := page.reliability.restoreCursor (page.stored.map (·.lastServerSeq)) }

/-- `socket.onopen`: the transport's handler, then `sendHello`; the second part
is the frame sent. -/
def onOpen (generation : Nat) : Page × Option MessageDto :=
  if page.transport.admits generation then
    let next := { page with transport := page.transport.opened generation }.sendHello
    (next, if next.transport.sendsHello true then some next.helloMessage else none)
  else (page, none)

/-- `transport.invalidSession()` with the page's `onInvalidSession`. -/
def invalidSession (delay : Nat) : Page :=
  { page.clearSession with
    handshakeInbox := []
    reliability := page.reliability.abandon.resetSequence
    transport := page.transport.retry page.transport.generation delay }

def acceptDurable (message : MessageDto) : Page × Bool :=
  match message.serverSeq with
  | none | some 0 => (page, true)
  | some sequence =>
    let (reliability, accepted) := page.reliability.acceptSequence (jsNumber (some sequence))
    let next := { page with reliability }
    if accepted then
      match page.stored with
      | none => (next, true)
      | some prior => (next.saveSession prior.resumeToken, true)
    else (next, false)

/-- The effect of a durable message on the participants. -/
def updatePeers (peers : List PeerDto) (message : MessageDto) : List PeerDto :=
  match message.code with
  | some .peerJoined => setPeer peers { peerId := message.peerId, peerName := message.peerName }
  | some .peerLeft => peers.filter (·.peerId ≠ message.peerId)
  | _ => peers

/-- The four durable cases of `onMessage`: admission, then posting. -/
def postDurable (message : MessageDto) : Page :=
  let (next, accepted) := page.acceptDurable message
  if accepted then
    { next with rendered := next.rendered ++ [message], peersMap := updatePeers next.peersMap message }
  else next

/-- `onMessage` while history is hydrated: a room's history holds durable events
only, and of the other messages none is of interest here. -/
def hydrate (message : MessageDto) : Page :=
  if durableCode message.code then page.postDurable message else page

/-- `state.replaceHistory` and the page's `replace` callback. -/
def replace (events : List MessageDto) (latestServerSeq : JsNumber) : Page :=
  { page with
    reliability := page.reliability.replaceHistory events latestServerSeq
    rendered := [], snapshot := events }

/-- `reconcileReplay` with the arguments the page gives it. -/
def reconcileReplay (events : List MessageDto) (resyncRequired : Bool)
    (latestServerSeq : JsNumber) : Page :=
  let start := if resyncRequired then page.replace events latestServerSeq else page
  events.foldl hydrate start

/-- Commands that `retryPendingCommands` hands to an open socket. -/
def retryPending (isOpen : Bool) (commands : List Command) : List Command :=
  if page.transport.sends isOpen then commands else []

/-- The cases of `onMessage` other than SESSION_READY that touch the session. -/
def onOtherMessage (delay : Nat) (message : MessageDto) : Page :=
  match message.code with
  | some .messageAck =>
    match message.clientMessageId with
    | none => page
    | some id => { page with reliability := (page.reliability.acknowledge id).1 }
  | some .apiError =>
    if page.transport.state = .handshaking then page.invalidSession delay
    else match message.clientMessageId with
      | none => page
      | some id => { page with reliability := (page.reliability.reject id).1 }
  | some .peerJoined | some .peerLeft | some .peerMessage | some .peerMessageFile =>
    page.postDurable message
  | some .info =>
    let peersMap := ((message.peers.getD []).reduceOption).foldl setPeer page.peersMap
    let known := { page with peerId := message.peerId, peerName := message.peerName, peersMap }
    let joined : MessageDto :=
      { code := some .peerJoined, peerId := message.peerId, peerName := message.peerName
        message := some (message.peerName.getD (ascii "undefined") ++ joinedText) }
    match (message.history.getD []).reduceOption with
    | [] => known.postDurable joined
    | events => events.foldl hydrate known
  | _ => page

/-- The SESSION_READY case: replace or continue the history, save the session,
go online, drain the inbox. The commands retried then are the second part. -/
def onSessionReady (delay : Nat) (message : MessageDto) : Page × List Command :=
  if message.protocolVersion ≠ some 2 || message.peerId.getD 0 = 0 ||
      (message.resumeToken.getD []).isEmpty then (page.invalidSession delay, [])
  else
    let events := (message.history.getD []).reduceOption
    let peers := ((message.peers.getD []).reduceOption).foldl setPeer []
    let known :=
      { page with peerId := message.peerId, peerName := message.peerName, peersMap := peers }
    let replayed := known.reconcileReplay events
      (message.resyncRequired.getD false || !message.resumed.getD false)
      (jsNumber message.latestServerSeq)
    let saved := replayed.saveSession (message.resumeToken.getD [])
    let online := { saved with transport := saved.transport.ready, handshakeInbox := [] }
    let drained := saved.handshakeInbox.foldl (fun page message => page.onOtherMessage delay message) online
    (drained, drained.retryPending true drained.reliability.pending)

/-- `onMessage` of the page, for a message of the current socket. -/
def onMessage (delay : Nat) (message : MessageDto) : Page × List Command :=
  if page.transport.state = .handshaking && message.code ≠ some .sessionReady &&
      message.code ≠ some .apiError then
    match pushHandshake page.handshakeInbox message with
    | none => (page.invalidSession delay, [])
    | some inbox => ({ page with handshakeInbox := inbox }, [])
  else if message.code = some .sessionReady then page.onSessionReady delay message
  else (page.onOtherMessage delay message, [])

end Page
end Conspire.Browser
