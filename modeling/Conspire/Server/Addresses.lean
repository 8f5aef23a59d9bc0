import Conspire.Tor.Text
import Mathlib.Data.List.TakeWhile

/-! The addresses of the server (`dto/Config.hpp`, `utils/ConfigValidation.hpp`): which `Host` and
`Origin` it answers, what it redirects and which websocket it names, compared as URLs. -/
namespace Conspire
namespace Boundaries

def isHostCharacter (character : UInt8) : Bool :=
  ('a'.toUInt8 ≤ character && character ≤ 'z'.toUInt8) || ('A'.toUInt8 ≤ character && character ≤ 'Z'.toUInt8) ||
    ('0'.toUInt8 ≤ character && character ≤ '9'.toUInt8) || character = '.'.toUInt8 || character = '-'.toUInt8 ||
    character = ':'.toUInt8 || character = '['.toUInt8 || character = ']'.toUInt8

def validHost (value : Bytes) : Bool :=
  !(value.isEmpty || 255 < value.length || containsControl value) && value.all isHostCharacter

def validRequestPath (value : Bytes) : Bool :=
  !value.isEmpty && value.head? = some '/'.toUInt8 && !(ascii "//").isPrefixOf value &&
    (value.dropInfix? (ascii "..")).isNone && !containsControl value

def allowedOrigin (origin canonicalOrigin : Bytes) (allowLocalDevelopmentOrigin : Bool) : Bool :=
  if origin = canonicalOrigin then true
  else if !allowLocalDevelopmentOrigin then false
  else origin = ascii "http://localhost" || origin = ascii "http://127.0.0.1" || origin = ascii "http://[::1]"

end Boundaries

open Boundaries

/-- `std::to_string` of a port. -/
def portText (port : UInt16) : Bytes := ascii (toString port.toNat)

def canonicalBaseUrl (host : Bytes) (port : UInt16) (useTls : Bool) : Bytes :=
  let defaultPort := if useTls then 443 else 80
  let url := (if useTls then ascii "https://" else ascii "http://") ++ host
  if port ≠ defaultPort then url ++ ascii ":" ++ portText port else url

def websocketBaseUrl (host : Bytes) (port : UInt16) (useTls : Bool) : Bytes :=
  (if useTls then ascii "wss://" else ascii "ws://") ++ host ++ ascii ":" ++ portText port

/-- The fields of `ConfigDto` that say where the server is, as `fromCommandLine` leaves them; the
onion host is the one that `OnionService` registered. -/
structure Addresses where
  host : Bytes
  port : UInt16
  useTLS : Bool := false
  torVirtualPort : Option UInt16 := none
  onionHost : Option Bytes := none
  validHost : Boundaries.validHost host = true
  validOnion : ∀ onion ∈ onionHost, ∃ serviceId, Tor.validServiceId serviceId = true ∧
      onion = serviceId ++ ascii ".onion"

inductive Response where
  | badRequest
  | movedPermanently (location : Bytes)
  deriving DecidableEq, Repr

namespace Addresses
variable (config : Addresses)

def getHostString : Bytes :=
  let defPort := if config.useTLS then 443 else 80
  if defPort ≠ config.port then config.host ++ ascii ":" ++ portText config.port else config.host

def getCanonicalBaseUrl : Bytes := canonicalBaseUrl config.host config.port config.useTLS

def getWebsocketBaseUrl : Bytes := websocketBaseUrl config.host config.port config.useTLS

def getOnionHostString : Option Bytes :=
  config.onionHost.map fun value =>
    match config.torVirtualPort with
    | some port => if port ≠ 80 then value ++ ascii ":" ++ portText port else value
    | none => value

def getOnionBaseUrl : Option Bytes :=
  config.onionHost.map fun onion => canonicalBaseUrl onion (config.torVirtualPort.getD 80) false

def isOnionRequestHost (requestHost : Bytes) : Bool := config.getOnionHostString = some requestHost

def isAllowedRequestHost (requestHost : Bytes) : Bool :=
  if requestHost = config.getHostString then true else config.getOnionHostString = some requestHost

def getWebsocketBaseUrlForHost (requestHost : Bytes) : Bytes :=
  if config.isOnionRequestHost requestHost then
    websocketBaseUrl (config.onionHost.getD []) (config.torVirtualPort.getD 80) false
  else config.getWebsocketBaseUrl

def isAllowedOrigin (origin : Bytes) (developmentOverride : Bool) : Bool :=
  if allowedOrigin origin config.getCanonicalBaseUrl developmentOverride then true
  else config.getOnionBaseUrl = some origin

/-- `RedirectInterceptor::intercept`: the response it gives itself, if any. -/
def intercept (host : Option Bytes) (path : Bytes) : Option Response :=
  match host with
  | none => some .badRequest
  | some host =>
    if !Boundaries.validHost host || !validRequestPath path then some .badRequest
    else if !config.isAllowedRequestHost host then some (.movedPermanently (config.getCanonicalBaseUrl ++ path))
    else none

end Addresses

/-- A URL taken apart: the authority ends at a slash, a question mark or a number sign. -/
structure Url where
  scheme : Bytes
  authority : Bytes
  rest : Bytes

namespace Url

def endsAuthority (character : UInt8) : Bool :=
  character = '/'.toUInt8 || character = '?'.toUInt8 || character = '#'.toUInt8

def read (url : Bytes) : Option Url :=
  (url.dropInfix? (ascii "://")).map fun (scheme, rest) =>
    { scheme, authority := rest.takeWhile (!endsAuthority ·), rest := rest.dropWhile (!endsAuthority ·) }

/-- The path and the query of a request for the URL; a fragment is not sent. -/
def target (url : Url) : Bytes := url.rest.takeWhile (· ≠ '#'.toUInt8)

def defaultPort (url : Url) : UInt16 := if url.scheme = ascii "https" ∨ url.scheme = ascii "wss" then 443 else 80

/-- The authority without the port that the scheme stands for. -/
def host (url : Url) : Bytes :=
  let printed := ascii ":" ++ portText url.defaultPort
  if printed <:+ url.authority then url.authority.take (url.authority.length - printed.length) else url.authority

variable {scheme host rest a b d e : Bytes} {c : UInt8}

theorem read_eq (named : ':'.toUInt8 ∉ scheme) (plain : ∀ c ∈ host, endsAuthority c = false)
    (ended : ∀ c, rest.head? = some c → endsAuthority c = true) :
    read (scheme ++ ascii "://" ++ host ++ rest) = some ⟨scheme, host, rest⟩ := by
  have separator : ascii "://" = ':'.toUInt8 :: ascii "//" := by decide
  have split := Infix.split_of_not_mem named (ascii "//") (host ++ rest)
  rw [← separator, ← List.append_assoc] at split
  have all : ∀ c ∈ host, (!endsAuthority c) = true := fun c member => by rw [plain c member]; rfl
  have stops : rest.takeWhile (!endsAuthority ·) = [] ∧ rest.dropWhile (!endsAuthority ·) = rest := by
    cases rest with
    | nil => exact ⟨rfl, rfl⟩
    | cons first rest =>
      have stop := ended first rfl
      simp [stop]
  simp only [read, split, Option.map_some, List.takeWhile_append_of_pos all, List.dropWhile_append_of_pos all, stops,
    List.append_nil]

/-- Two texts are parted in the same way at their last separator. -/
theorem last_unique (first : c ∉ d) (second : c ∉ e) (same : a ++ c :: d = b ++ c :: e) : a = b ∧ d = e := by
  rcases List.append_eq_append_iff.mp same with ⟨middle, rfl, rest⟩ | ⟨middle, rfl, rest⟩
  · cases middle with
    | nil => exact ⟨(List.append_nil a).symm, (List.cons.inj rest).2⟩
    | cons head middle =>
      have inside : c ∈ d := by
        rw [(List.cons.inj rest).2]
        simp
      exact absurd inside first
  · cases middle with
    | nil => exact ⟨List.append_nil b, (List.cons.inj rest).2.symm⟩
    | cons head middle =>
      have inside : c ∈ e := by
        rw [(List.cons.inj rest).2]
        simp
      exact absurd inside second

theorem portText_eq (port : UInt16) :
    portText port = (Nat.toDigits 10 port.toNat).map fun c => UInt8.ofNat c.toNat := by
  rw [portText, ascii, Nat.toString_eq_repr, Nat.toList_repr]

theorem digit_range {c : Char} (digit : c ∈ Nat.toDigits 10 n) : 48 ≤ c.toNat ∧ c.toNat ≤ 57 := by
  have is := Nat.isDigit_of_mem_toDigits (by decide) (by decide) digit
  simp only [Char.isDigit, ge_iff_le, Bool.and_eq_true, decide_eq_true_eq, UInt32.le_iff_toNat_le] at is
  exact is

theorem digit_byte {c : Char} (digit : c ∈ Nat.toDigits 10 n) : (UInt8.ofNat c.toNat).toNat = c.toNat := by
  have range := digit_range digit
  rw [UInt8.toNat_ofNat', Nat.mod_eq_of_lt (by omega)]

/-- A port is digits, and its digits say which. -/
theorem portText_digits (port : UInt16) : ∀ c ∈ portText port, c ≠ ':'.toUInt8 ∧ endsAuthority c = false := by
  intro c member
  rw [portText_eq] at member
  obtain ⟨digit, inside, rfl⟩ := List.mem_map.mp member
  have range := digit_range inside
  have byte := digit_byte inside
  have other : ∀ k : UInt8, (k.toNat < 48 ∨ 57 < k.toNat) → UInt8.ofNat digit.toNat ≠ k := by
    rintro k outside rfl
    omega
  refine ⟨other _ (by decide), ?_⟩
  simp [endsAuthority, other '/'.toUInt8 (by decide), other '?'.toUInt8 (by decide), other '#'.toUInt8 (by decide)]

theorem portText_injective : Function.Injective portText := by
  intro port other same
  have back : ∀ port, (portText port).map (fun byte => Char.ofNat byte.toNat) = Nat.toDigits 10 port.toNat := by
    intro port
    rw [portText_eq, List.map_map]
    refine (List.map_congr_left fun c digit => ?_).trans (List.map_id _)
    simp only [Function.comp_apply, digit_byte digit, Char.ofNat_toNat, id_eq]
  have digits := (back port).symm.trans ((congrArg _ same).trans (back other))
  have numbers := congrArg (fun digits => Nat.ofDigitChars 10 digits 0) digits
  simp only [Nat.ofDigitChars_ten_toDigits] at numbers
  exact UInt16.toNat_inj.mp numbers

/-- The host is left when the port is the one of the scheme. -/
theorem host_eq (url : Url) (host : Bytes) (port : UInt16) (is : url.authority = host ++ ascii ":" ++ portText port) :
    url.host = if port ≠ url.defaultPort then url.authority else host := by
  have colon : ascii ":" = [':'.toUInt8] := by decide
  have digits : ∀ port, ':'.toUInt8 ∉ portText port := fun port member => (portText_digits port _ member).1 rfl
  rw [Url.host]
  by_cases same : port = url.defaultPort
  · subst same
    rw [if_neg (not_not_intro rfl), is, List.append_assoc]
    rw [if_pos (List.suffix_append _ _), List.length_append, Nat.add_sub_cancel, List.take_left]
  · rw [if_pos same]
    refine if_neg fun ⟨front, printed⟩ => same (portText_injective ?_)
    rw [is, colon, List.append_assoc] at printed
    exact (last_unique (digits _) (digits _) printed.symm).2

end Url

/-- A host with its port, which the scheme's own port goes without. -/
def printedHost (host : Bytes) (port : UInt16) (useTls : Bool) : Bytes :=
  if port ≠ (if useTls then 443 else 80) then host ++ ascii ":" ++ portText port else host

def httpScheme (useTls : Bool) : Bytes := if useTls then ascii "https" else ascii "http"

def websocketScheme (useTls : Bool) : Bytes := if useTls then ascii "wss" else ascii "ws"

/-- No byte of a host ends the authority of a URL. -/
def Plain (host : Bytes) : Prop := ∀ c ∈ host, Url.endsAuthority c = false

section
variable {host : Bytes} {port : UInt16} {useTls : Bool}

theorem canonicalBaseUrl_eq (host : Bytes) (port : UInt16) (useTls : Bool) :
    canonicalBaseUrl host port useTls = httpScheme useTls ++ ascii "://" ++ printedHost host port useTls := by
  have secure : ascii "https://" = ascii "https" ++ ascii "://" := by decide
  have insecure : ascii "http://" = ascii "http" ++ ascii "://" := by decide
  rw [canonicalBaseUrl, printedHost]
  by_cases other : port ≠ (if useTls then 443 else 80)
  · rw [if_pos other, if_pos other]
    cases useTls <;> simp [httpScheme, secure, insecure]
  · rw [if_neg other, if_neg other]
    cases useTls <;> simp [httpScheme, secure, insecure]

theorem websocketBaseUrl_eq (host : Bytes) (port : UInt16) (useTls : Bool) :
    websocketBaseUrl host port useTls =
      websocketScheme useTls ++ ascii "://" ++ (host ++ ascii ":" ++ portText port) := by
  have secure : ascii "wss://" = ascii "wss" ++ ascii "://" := by decide
  have insecure : ascii "ws://" = ascii "ws" ++ ascii "://" := by decide
  simp only [websocketBaseUrl, websocketScheme]
  cases useTls <;> simp [secure, insecure]

theorem Plain.colon (plain : Plain host) (port : UInt16) : Plain (host ++ ascii ":" ++ portText port) := by
  intro c member
  simp only [List.mem_append, or_assoc] at member
  rcases member with inside | colon | digit
  · exact plain c inside
  · obtain rfl : c = ':'.toUInt8 := List.mem_singleton.mp colon
    decide
  · exact (Url.portText_digits port c digit).2

theorem Plain.printed (plain : Plain host) (port : UInt16) (useTls : Bool) :
    Plain (printedHost host port useTls) := by
  rw [printedHost]
  by_cases other : port ≠ (if useTls then 443 else 80)
  · rw [if_pos other]
    exact plain.colon port
  · rw [if_neg other]
    exact plain

theorem plain_of_valid (valid : validHost host = true) : Plain host := by
  intro c member
  simp only [validHost, Bool.and_eq_true, List.all_eq_true] at valid
  have letter := valid.2 c member
  cases ends : Url.endsAuthority c with
  | false => rfl
  | true =>
    simp only [Url.endsAuthority, Bool.or_eq_true, decide_eq_true_eq] at ends
    rcases ends with (rfl | rfl) | rfl <;> exact absurd letter (by decide)

theorem plain_of_service (valid : Tor.validServiceId serviceId = true) : Plain (serviceId ++ ascii ".onion") := by
  intro c member
  simp only [Tor.validServiceId, Bool.and_eq_true, List.all_eq_true] at valid
  cases ends : Url.endsAuthority c with
  | false => rfl
  | true =>
    simp only [Url.endsAuthority, Bool.or_eq_true, decide_eq_true_eq] at ends
    rcases List.mem_append.mp member with inside | inside
    · have letter := valid.2 c inside
      rcases ends with (rfl | rfl) | rfl <;> exact absurd letter (by decide)
    · rcases ends with (rfl | rfl) | rfl <;> exact absurd inside (by decide)

/-- Nothing is dropped from a printed host that has no colon of its own. -/
theorem host_printed (bare : ':'.toUInt8 ∉ host) :
    Url.host ⟨httpScheme useTls, printedHost host port useTls, rest⟩ = printedHost host port useTls := by
  by_cases other : port ≠ (if useTls then 443 else 80)
  · have apart : port ≠ Url.defaultPort ⟨httpScheme useTls, printedHost host port useTls, rest⟩ := by
      cases useTls <;> exact other
    have printed : printedHost host port useTls = host ++ ascii ":" ++ portText port := if_pos other
    rw [Url.host_eq _ host port printed, if_pos apart]
  · have printed : printedHost host port useTls = host := if_neg other
    rw [Url.host, printed]
    refine if_neg fun ⟨front, whole⟩ => bare ?_
    change _ = host at whole
    rw [← whole]
    exact List.mem_append_right _ (List.mem_append_left _ (by decide))

/-- The authority of a base URL, with or without a path behind it. -/
theorem read_canonical (plain : Plain host) (port : UInt16) (useTls : Bool)
    (ended : ∀ c, rest.head? = some c → Url.endsAuthority c = true) :
    Url.read (canonicalBaseUrl host port useTls ++ rest) =
      some ⟨httpScheme useTls, printedHost host port useTls, rest⟩ := by
  rw [canonicalBaseUrl_eq]
  exact Url.read_eq (by cases useTls <;> decide) (plain.printed port useTls) ended

theorem read_websocket (plain : Plain host) (port : UInt16) (useTls : Bool) :
    ∃ url, Url.read (websocketBaseUrl host port useTls) = some url ∧ url.host = printedHost host port useTls := by
  have named : ':'.toUInt8 ∉ websocketScheme useTls := by cases useTls <;> decide
  have read := @Url.read_eq _ _ [] named (plain.colon port) (by simp)
  rw [List.append_nil, ← websocketBaseUrl_eq] at read
  refine ⟨_, read, ?_⟩
  rw [Url.host_eq _ host port rfl, printedHost]
  cases useTls <;> rfl

end

namespace Addresses
variable (config : Addresses)

theorem getHostString_eq : config.getHostString = printedHost config.host config.port config.useTLS := by
  rw [getHostString, printedHost]
  simp only [ne_comm]

theorem getOnionHostString_eq : config.getOnionHostString =
    config.onionHost.map fun onion => printedHost onion (config.torVirtualPort.getD 80) false := by
  rw [getOnionHostString]
  congr 1
  funext onion
  cases config.torVirtualPort <;> rfl

theorem plain_host : Plain config.host := plain_of_valid config.validHost

theorem plain_onion (onion : Bytes) (is : config.onionHost = some onion) : Plain onion := by
  obtain ⟨serviceId, valid, rfl⟩ := config.validOnion onion is
  exact plain_of_service valid

/-- The hosts that are answered are the two printed ones. -/
theorem allowed_iff (requestHost : Bytes) : config.isAllowedRequestHost requestHost = true ↔
    requestHost = printedHost config.host config.port config.useTLS ∨
      ∃ onion, config.onionHost = some onion ∧
        requestHost = printedHost onion (config.torVirtualPort.getD 80) false := by
  rw [isAllowedRequestHost, getHostString_eq, getOnionHostString_eq]
  split
  · rename_i same
    exact iff_of_true rfl (.inl same)
  · rename_i other
    rw [decide_eq_true_eq, Option.map_eq_some_iff, or_iff_right other]
    simp only [eq_comm]

theorem origin_iff (origin : Bytes) : config.isAllowedOrigin origin false = true ↔
    origin = config.getCanonicalBaseUrl ∨ config.getOnionBaseUrl = some origin := by
  simp only [isAllowedOrigin, allowedOrigin]
  split <;> simp_all

/-- The websocket that is named for a host that is answered. -/
theorem websocket_host (requestHost : Bytes) (allowed : config.isAllowedRequestHost requestHost = true) :
    ∃ url, Url.read (config.getWebsocketBaseUrlForHost requestHost) = some url ∧ url.host = requestHost := by
  rw [getWebsocketBaseUrlForHost]
  split
  · rename_i onionHost
    rw [isOnionRequestHost, decide_eq_true_eq, getOnionHostString_eq, Option.map_eq_some_iff] at onionHost
    obtain ⟨onion, is, rfl⟩ := onionHost
    rw [is]
    exact read_websocket (config.plain_onion onion is) _ false
  · rename_i other
    rcases (config.allowed_iff requestHost).mp allowed with rfl | ⟨onion, is, rfl⟩
    · exact read_websocket config.plain_host config.port config.useTLS
    · rw [isOnionRequestHost, decide_eq_true_eq, getOnionHostString_eq, is] at other
      exact absurd rfl other

theorem intercept_allowed {requestHost path : Bytes} (allowed : config.isAllowedRequestHost requestHost = true)
    (again : Bytes) : config.intercept (some requestHost) path ≠ some (.movedPermanently again) := by
  rw [intercept, allowed]
  split <;> nofun

/-- The redirect of a request and the request that follows it. -/
theorem intercept_redirect (requestHost path : Bytes) (validHost : Boundaries.validHost requestHost = true)
    (other : config.isAllowedRequestHost requestHost = false) (validPath : validRequestPath path = true) :
    ∃ location url, config.intercept (some requestHost) path = some (.movedPermanently location) ∧
      Url.read location = some url ∧ config.isAllowedRequestHost url.authority = true ∧
      (':'.toUInt8 ∉ config.host → url.host = url.authority) := by
  have begins : path.head? = some '/'.toUInt8 := by
    simp only [validRequestPath, Bool.and_eq_true, decide_eq_true_eq] at validPath
    exact validPath.1.1.1.2
  refine ⟨config.getCanonicalBaseUrl ++ path, _, ?_, read_canonical config.plain_host _ _ ?_, ?_, host_printed⟩
  · rw [intercept, validHost, validPath, other]
    rfl
  · intro c first
    rw [begins] at first
    cases first
    decide
  · exact (config.allowed_iff _).mpr (.inl rfl)

/-- The host that is answered, the origin that is accepted, the websocket that is named and the
redirect to another host agree. A client that follows the redirect is taken to name in its `Host`
the authority of the location as it stands; for a host without a colon of its own it may also
have dropped the port that the scheme stands for. -/
theorem derivations_agree :
    (∀ host, config.isAllowedRequestHost host = true →
      (∃ base url, (base = config.getCanonicalBaseUrl ∨ config.getOnionBaseUrl = some base) ∧
        Url.read base = some url ∧ url.authority = host ∧ config.isAllowedOrigin base false = true) ∧
      ∃ url, Url.read (config.getWebsocketBaseUrlForHost host) = some url ∧ url.host = host) ∧
    (∀ origin, config.isAllowedOrigin origin false = true →
      (origin = config.getCanonicalBaseUrl ∨ config.getOnionBaseUrl = some origin) ∧
      ∃ url, Url.read origin = some url ∧ config.isAllowedRequestHost url.authority = true) ∧
    ∀ host path, Boundaries.validHost host = true → config.isAllowedRequestHost host = false →
      validRequestPath path = true →
      ∃ location url, config.intercept (some host) path = some (.movedPermanently location) ∧
        Url.read location = some url ∧
        (∀ again, config.intercept (some url.authority) url.target ≠ some (.movedPermanently again)) ∧
        (':'.toUInt8 ∉ config.host →
          ∀ again, config.intercept (some url.host) url.target ≠ some (.movedPermanently again)) := by
  have canonical : Url.read config.getCanonicalBaseUrl =
      some ⟨httpScheme config.useTLS, printedHost config.host config.port config.useTLS, []⟩ := by
    have read := @read_canonical _ [] config.plain_host config.port config.useTLS (by simp)
    rwa [List.append_nil] at read
  have onion : ∀ onion, config.onionHost = some onion →
      Url.read (canonicalBaseUrl onion (config.torVirtualPort.getD 80) false) =
        some ⟨httpScheme false, printedHost onion (config.torVirtualPort.getD 80) false, []⟩ := by
    intro onion is
    have read := @read_canonical _ [] (config.plain_onion onion is) (config.torVirtualPort.getD 80) false (by simp)
    rwa [List.append_nil] at read
  refine ⟨fun host allowed => ⟨?_, config.websocket_host host allowed⟩, fun origin accepted => ?_, ?_⟩
  · rcases (config.allowed_iff host).mp allowed with rfl | ⟨onionHost, is, rfl⟩
    · exact ⟨_, _, .inl rfl, canonical, rfl, (config.origin_iff _).mpr (.inl rfl)⟩
    · have base : config.getOnionBaseUrl = some (canonicalBaseUrl onionHost
          (config.torVirtualPort.getD 80) false) := by
        rw [getOnionBaseUrl, is, Option.map_some]
      exact ⟨_, _, .inr base, onion onionHost is, rfl, (config.origin_iff _).mpr (.inr base)⟩
  · have bases := (config.origin_iff origin).mp accepted
    refine ⟨bases, ?_⟩
    rcases bases with rfl | base
    · exact ⟨_, canonical, (config.allowed_iff _).mpr (.inl rfl)⟩
    · obtain ⟨onionHost, is, rfl⟩ := Option.map_eq_some_iff.mp base
      exact ⟨_, onion onionHost is, (config.allowed_iff _).mpr (.inr ⟨onionHost, is, rfl⟩)⟩
  · intro host path valid other validPath
    obtain ⟨location, url, redirected, read, allowed, same⟩ :=
      config.intercept_redirect host path valid other validPath
    refine ⟨location, url, redirected, read, config.intercept_allowed allowed, fun bare => ?_⟩
    rw [same bare]
    exact config.intercept_allowed allowed

example : ({ host := ascii "localhost", port := 8080, validHost := by decide, validOnion := by simp } :
    Addresses).isAllowedRequestHost (ascii "localhost:8080") = true := by decide

end Addresses
end Conspire
