import Conspire.Library.Triple
import Conspire.Tor.Reply
import Mathlib.Data.Nat.Bitwise

/-! The onion service of a room server (`OnionService` of `utils/TorControl.cpp`): the connection to
a control endpoint, its authentication, the service and its key. What the system and the endpoint
do is part of the state: results of `connect`, `send`, `recv` and of the calls on files. -/
namespace Conspire.Tor
open Triples

inductive Transport where
  | unix | tcp
  deriving DecidableEq

/-- What `send` returns: how much was taken, of which nothing once the connection is closed, or an
error with its text. -/
inductive Send where
  | sent (bytes : Nat)
  | interrupted
  | failed (reason : Bytes)

/-- What is to come of a connection. -/
structure Connection where
  arrivals : List Recv
  sends : List Send

structure Socket extends Connection where
  transport : Transport

structure OnionService where
  descriptor : Option Socket
  serviceId : Bytes
  hostname : Bytes
  controlEndpoint : Bytes
  readBuffer : Bytes

structure Options where
  controlSocket : Bytes
  controlHost : Bytes
  controlPort : UInt16
  keyPath : Bytes
  targetHost : Bytes
  targetPort : UInt16
  virtualPort : UInt16

/-- A file that is opened: `sound` when neither `fstat` nor `read` fails. -/
structure StoredKey where
  sound : Bool
  regular : Bool
  mode : Nat
  content : Bytes

/-- What `open` finds at the path of the key. -/
inductive KeyFile where
  | missing
  | unopenable
  | file (stored : StoredKey)

/-- Which of the calls that save a key succeed. -/
structure Saving where
  directories : Bool
  mkstemp : Bool
  fchmod : Bool
  write : Bool
  fsync : Bool
  close : Bool
  rename : Bool

structure Host where
  unix : Except Bytes Connection
  tcp : Except Bytes Connection
  files : Bytes → Option Bytes
  nonce : Option Bytes
  keyFile : KeyFile
  saving : Saving

inductive Event where
  | sent (transport : Transport) (command : Bytes)
  | replied (reply : Reply)

/-- `trace` is what went over the control connections. -/
structure Control where
  service : OnionService
  host : Host
  trace : List Event

inductive KeyLoadResult where
  | missing
  | valid (privateKey : Bytes)
  | invalid

/-- `while (!privateKey.empty() && ...) privateKey.pop_back();` -/
def trimEnd (privateKey : Bytes) : Bytes :=
  (privateKey.reverse.dropWhile fun character => character = 0x0a || character = 0x0d).reverse

def loadPrivateKey : KeyFile → KeyLoadResult
  | .missing => .missing
  | .unopenable => .invalid
  | .file stored =>
    if !stored.sound || !stored.regular || stored.mode &&& 0o077 ≠ 0 || stored.content.length = 0 ||
        1024 < stored.content.length then .invalid
    else
      let privateKey := trimEnd stored.content
      if validPrivateKey privateKey then .valid privateKey else .invalid

/-- The file that replaces what is at the path, when all calls succeed. -/
def savePrivateKey (host : Host) (path privateKey : Bytes) : Bool × Host :=
  let saving := host.saving
  if path = [] || !validPrivateKey privateKey then (false, host)
  else if !saving.directories || !saving.mkstemp then (false, host)
  else if saving.fchmod && saving.write && saving.fsync && saving.close && saving.rename then
    let stored : StoredKey := { sound := true, regular := true, mode := 0o600, content := privateKey ++ [0x0a] }
    (true, { host with keyFile := .file stored })
  else (false, host)

def readCookie (host : Host) (path : Bytes) : Option Bytes :=
  (host.files path).filter fun content => content.length = cookieBytes

/-- The loop of `writeCommand` over what is left of the framed command. -/
def sendAll : List Send → (left : Nat) → Except Bytes Unit × List Send
  | sends, 0 => (.ok (), sends)
  | [], _ + 1 => (.error (ascii "Tor control connection closed while writing"), [])
  | .interrupted :: sends, left + 1 => sendAll sends (left + 1)
  | .failed reason :: sends, _ + 1 => (.error (socketError (ascii "writing Tor control command") reason), sends)
  | .sent 0 :: sends, _ + 1 => (.error (ascii "Tor control connection closed while writing"), sends)
  | .sent (taken + 1) :: sends, left + 1 => sendAll sends (left - taken)

namespace Control

def setSocket (control : Control) (socket : Socket) : Control :=
  { control with service := { control.service with descriptor := some socket } }

def log (control : Control) (event : Event) : Control := { control with trace := control.trace ++ [event] }

end Control

def badDescriptor : Bytes := ascii "Bad file descriptor"

/-- `command.find('\r') == npos && command.find('\n') == npos`, and its size. -/
def framed (command : Bytes) : Bool :=
  command ≠ [] && command.length ≤ maxLineBytes && 0x0d ∉ command && 0x0a ∉ command

def writeCommand (command : Bytes) : Program Control Bytes Unit := comesTo fun control =>
  if !framed command then (.error (ascii "refusing invalid Tor control command"), control)
  else
    match control.service.descriptor with
    | none => (.error (socketError (ascii "writing Tor control command") badDescriptor), control)
    | some socket =>
      let (result, sends) := sendAll socket.sends (command ++ crlf).length
      (result, (control.setSocket { socket with sends }).log (.sent socket.transport command))

def readReply : Program Control Bytes Reply := comesTo fun control =>
  match control.service.descriptor with
  | none => (.error (socketError (ascii "reading Tor control reply") badDescriptor), control)
  | some socket =>
    let (result, incoming) := (Incoming.mk control.service.readBuffer socket.arrivals).readReply
    let control := control.setSocket { socket with arrivals := incoming.arrivals }
    let control := { control with service := { control.service with readBuffer := incoming.buffer } }
    match result with
    | .error e => (.error e, control)
    | .ok reply => (.ok reply, control.log (.replied reply))

def rejected (command : Bytes) (reply : Reply) : Bytes :=
  ascii "Tor rejected " ++ command.takeWhile (· ≠ ' '.toUInt8) ++ ascii " with status " ++
    ascii (toString reply.status) ++
    match reply.lines.getLast? with
    | none => []
    | some line => ascii ": " ++ line

def sendCommand (command : Bytes) : Program Control Bytes Reply := do
  writeCommand command
  let reply ← readReply
  if reply.status ≠ 250 then throw (rejected command reply) else return reply

def connectUnix (host : Host) (path : Bytes) : Except Bytes Socket :=
  if path = [] || 108 ≤ path.length then .error (ascii "Tor control socket path is empty or too long")
  else host.unix.map fun connection => { connection with transport := .unix }

def connectTcp (host : Host) : Except Bytes Socket :=
  host.tcp.map fun connection => { connection with transport := .tcp }

def unavailable (unixError tcpError : Bytes) : Bytes :=
  ascii "Tor control unavailable" ++
    (if unixError = [] then [] else ascii " (Unix: " ++ unixError ++ ascii ")") ++
    (if tcpError = [] then [] else ascii " (TCP: " ++ tcpError ++ ascii ")")

/-- The descriptor and the name of the endpoint. -/
def connected (control : Control) (socket : Socket) (controlEndpoint : Bytes) : Control :=
  { control with service := { control.service with descriptor := some socket, controlEndpoint } }

def connectControl (options : Options) : Program Control Bytes Unit := comesTo fun control =>
  let tcp (unixError : Bytes) : Except Bytes Unit × Control :=
    match connectTcp control.host with
    | .ok socket =>
      (.ok (), connected control socket (ascii "tcp:" ++ options.controlHost ++ ascii ":" ++
        ascii (toString options.controlPort.toNat)))
    | .error tcpError => (.error (unavailable unixError tcpError), control)
  if options.controlSocket = [] then tcp []
  else
    match connectUnix control.host options.controlSocket with
    | .ok socket => (.ok (), connected control socket (ascii "unix:" ++ options.controlSocket))
    | .error unixError => tcp unixError

def serverHashKey : Bytes := ascii "Tor safe cookie authentication server-to-controller hash"
def clientHashKey : Bytes := ascii "Tor safe cookie authentication controller-to-server hash"

section
variable (hmacSha256 : (key message : Bytes) → Bytes)

/-- The branch of `authenticate` for SAFECOOKIE, with the line that offers it. -/
def safeCookie (authLine : Bytes) : Program Control Bytes Unit := do
  let host := (← get).host
  let some cookiePath := quotedValue authLine (ascii "COOKIEFILE=")
    | throw (ascii "Tor SAFECOOKIE did not provide a valid cookie path")
  let some cookie := readCookie host cookiePath
    | throw (ascii "Tor SAFECOOKIE file is unreadable or not 32 bytes")
  let some clientNonce := host.nonce
    | throw (ascii "failed to generate Tor SAFECOOKIE nonce")
  let challenge ← sendCommand (ascii "AUTHCHALLENGE SAFECOOKIE " ++ hexEncode clientNonce)
  let some line := challenge.lines.head?
    | throw (ascii "Tor SAFECOOKIE challenge reply is empty")
  let some serverHash := hexDecode (fieldValue line (ascii "SERVERHASH="))
    | throw (ascii "Tor SAFECOOKIE challenge reply is malformed")
  let some serverNonce := hexDecode (fieldValue line (ascii "SERVERNONCE="))
    | throw (ascii "Tor SAFECOOKIE challenge reply is malformed")
  if serverHash.length ≠ 32 || serverNonce.length ≠ nonceBytes then
    throw (ascii "Tor SAFECOOKIE challenge reply is malformed")
  let message := cookie ++ clientNonce ++ serverNonce
  if hmacSha256 serverHashKey message ≠ serverHash then
    throw (ascii "Tor SAFECOOKIE server authentication failed")
  discard (sendCommand (ascii "AUTHENTICATE " ++ hexEncode (hmacSha256 clientHashKey message)))

def authenticate : Program Control Bytes Unit := do
  let protocolInfo ← sendCommand (ascii "PROTOCOLINFO 1")
  let authLine := (protocolInfo.lines.find? ((ascii "AUTH ").isPrefixOf ·)).getD []
  let some (_, rest) := authLine.dropInfix? (ascii "METHODS=")
    | throw (ascii "Tor PROTOCOLINFO omitted authentication methods")
  let methods := rest.takeWhile (· ≠ ' '.toUInt8)
  if containsMethod methods (ascii "SAFECOOKIE") then safeCookie hmacSha256 authLine
  else if containsMethod methods (ascii "NULL") &&
      (ascii "unix:").isPrefixOf (← get).service.controlEndpoint then
    discard (sendCommand (ascii "AUTHENTICATE"))
  else throw (ascii "Tor control endpoint offers neither SAFECOOKIE nor permission-protected Unix NULL authentication")

def addCommand (options : Options) (key : Bytes) : Bytes :=
  ascii "ADD_ONION " ++ key ++ ascii " Port=" ++ ascii (toString options.virtualPort.toNat) ++ ascii "," ++
    options.targetHost ++ ascii ":" ++ ascii (toString options.targetPort.toNat)

/-- `savePrivateKey` on the files of the host. -/
def persist (path privateKey : Bytes) : Program Control Bytes Bool := comesTo fun control =>
  let (saved, host) := savePrivateKey control.host path privateKey
  (.ok saved, { control with host })

def named (serviceId : Bytes) : Program Control Bytes Unit :=
  modify fun control =>
    { control with service := { control.service with serviceId, hostname := serviceId ++ ascii ".onion" } }

/-- The rest of `add` when the key was generated. -/
def keep (options : Options) (added : Reply) (serviceId : Bytes) : Program Control Bytes Unit := do
  let returnedKey := replyValue added (ascii "PrivateKey=")
  if !validPrivateKey returnedKey then
    throw (ascii "Tor did not return a valid persistent ED25519-V3 key")
  if !(← persist options.keyPath returnedKey) then
    ignored (sendCommand (ascii "DEL_ONION " ++ serviceId))
    throw (ascii "failed to persist Tor onion key at " ++ options.keyPath)

def addKey (options : Options) (key : Bytes) (generating : Bool) : Program Control Bytes Unit := do
  let added ← sendCommand (addCommand options key)
  let serviceId := replyValue added (ascii "ServiceID=")
  if !validServiceId serviceId then
    throw (ascii "Tor returned an invalid v3 onion service ID")
  if generating then keep options added serviceId
  named serviceId

def add (options : Options) : Program Control Bytes Unit := do
  match loadPrivateKey (← get).host.keyFile with
  | .invalid => throw (ascii "Tor onion key is invalid or unreadable: " ++ options.keyPath)
  | .missing => addKey options (ascii "NEW:ED25519-V3") true
  | .valid privateKey => addKey options privateKey false

def closeConnection : Program Control Bytes Unit :=
  modify fun control =>
    { control with service := { control.service with descriptor := none, readBuffer := [], controlEndpoint := [] } }

def stop : Program Control Bytes Unit := do
  let service := (← get).service
  if service.descriptor.isSome && service.serviceId ≠ [] then
    ignored (sendCommand (ascii "DEL_ONION " ++ service.serviceId))
    ignored (writeCommand (ascii "QUIT"))
  closeConnection
  modify fun control => { control with service := { control.service with serviceId := [], hostname := [] } }

/-- It returns false when it throws here, with the error that it leaves. -/
def start (options : Options) : Program Control Bytes Unit := do
  stop
  tryCatch (do
    connectControl options
    authenticate hmacSha256
    add options) fun error => do
      closeConnection
      throw error

end

end Conspire.Tor
