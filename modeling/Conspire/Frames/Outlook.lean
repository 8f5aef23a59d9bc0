import Conspire.Frames.Snapshot

/-! What the SESSION_READY of a hello will show, told from the lobby that the hello finds: the
participant, the members, and the events that are retained when its own announcement, or that of
the files its page has lost, has been added to them. -/
namespace Conspire.Frames
open Session Browser Sessions Boundaries

/-- A participant as the other browsers are told of it. -/
abbrev Badge := PeerId × Bytes

def badge (peer : Peer) : Badge := (peer.peerId, peer.nickname)

/-- The participants of a lobby. -/
def badges (lobby : Lobby) (who : PeerId) : Option Badge := (lobby.peer who).map badge

/-- The participant, the members of its room, and the room's retained events with the last sequence. -/
structure Outlook where
  host : Badge
  members : List Badge
  history : List MessageDto
  latest : Nat

namespace Outlook
variable (outlook : Outlook)

/-- One more event. -/
def announce (config : ConfigDto) (message : MessageDto) : Outlook :=
  { outlook with
    latest := outlook.latest + 1
    history := if historyLimit config = 0 then outlook.history
      else retainLast (outlook.history ++ [{ message with serverSeq := some (outlook.latest + 1) }])
        (historyLimit config) }

/-- The sequence that the oldest retained event has. -/
def earliest : Option Nat := outlook.history.head?.bind (·.serverSeq)

def resyncs (cursor : Nat) : Bool := requiresReplayResync cursor outlook.latest outlook.earliest

/-- The events after the cursor, or all that are retained. -/
def replayed (cursor : Nat) : List MessageDto :=
  outlook.history.filter fun event => outlook.resyncs cursor || Room.isAfter cursor event

def badgeWidth (badge : Badge) : Nat :=
  1 + (fieldWidth "peerId" (Json.decimal badge.1).length + fieldWidth "peerName" (stringWidth badge.2))

/-- The characters of the SESSION_READY. -/
def width (resumed : Bool) (token : Bytes) (cursor : Nat) : Nat :=
  1 + (fieldWidth "peerId" (Json.decimal outlook.host.1).length +
    fieldWidth "peerName" (stringWidth outlook.host.2) + fieldWidth "code" 2 +
    fieldWidth "latestServerSeq" (Json.decimal outlook.latest).length + fieldWidth "protocolVersion" 1 +
    fieldWidth "resumeToken" (stringWidth token) + fieldWidth "resumed" (truthWidth resumed) +
    fieldWidth "resyncRequired" (truthWidth (outlook.resyncs cursor)) +
    fieldWidth "peers" (listWidth (outlook.members.map badgeWidth)) +
    fieldWidth "history" (listWidth ((outlook.replayed cursor).map fun event => (messageTree event).width)))

/-- All of it can be spelled, and it takes no more characters than the browser admits. -/
def Fits (resumed : Bool) (token : Bytes) (cursor : Nat) : Prop :=
  (legible outlook.host.2 = true ∧ legible token = true ∧
    (∀ member ∈ outlook.members, legible member.2 = true) ∧
    ∀ event ∈ outlook.replayed cursor, (messageTree event).legible = true) ∧
  outlook.width resumed token cursor ≤ 8192

end Outlook

/-- What there is to show to a participant. -/
def outlook (lobby : Lobby) (host : Peer) : Outlook :=
  let room := lobby.room host.room
  { host := badge host, members := room.peerById.filterMap (badges lobby), history := room.history
    latest := room.latestServerSeq }

/-- What a newcomer is shown: the room as it is, or a new one, with the newcomer and its announcement. -/
def joining (config : ConfigDto) (lobby : Lobby) (roomName nickname : Bytes) : Outlook :=
  let room := ((lobby.rooms.lookup roomName).map lobby.room).getD { name := roomName }
  let who := lobby.peerIdCounter
  let ids := if who ∈ room.peerById then room.peerById else room.peerById ++ [who]
  Outlook.announce
    { host := (who, nickname), members := ids.filterMap (Function.update (badges lobby) who (some (who, nickname)))
      history := room.history, latest := room.latestServerSeq } config (joinedMessage who nickname)

/-- What a participant is shown who comes back: when its page is another, its files are gone. -/
def resuming (config : ConfigDto) (lobby : Lobby) (peer : Peer) (capability : Bytes) : Outlook :=
  if (peer.setFileCapability (some capability)).2 && !peer.files.isEmpty then
    (outlook lobby peer).announce config (unavailableMessage peer peer.files)
  else outlook lobby peer

section Lobbies
variable {config : ConfigDto} {digest : Bytes → Bytes} {lobby after next : Lobby} {peer host : Peer} {who : PeerId}
  {token : Bytes} {fields : HelloFields} {accepted : Accepted}

theorem snapshotFits_iff (lobby : Lobby) (host : Peer) (resumed : Bool) (token : Bytes) (cursor : Nat) :
    SnapshotFits lobby host resumed token cursor ↔ (outlook lobby host).Fits resumed token cursor := by
  have listed : (outlook lobby host).members = (members lobby host.room).map badge := by
    rw [members, List.map_filterMap]
    rfl
  have earliest : (lobby.room host.room).earliestRetained = (outlook lobby host).earliest := by
    rw [Room.earliestRetained, Outlook.earliest]
    simp only [outlook]
    cases (lobby.room host.room).history <;> rfl
  have replayed : (lobby.room host.room).getHistoryAfter cursor =
      ((outlook lobby host).replayed cursor, (outlook lobby host).resyncs cursor) := by
    rw [Room.getHistoryAfter, earliest]
    rfl
  have widths : ((members lobby host.room).map badge).map Outlook.badgeWidth =
      (members lobby host.room).map memberWidth := by
    rw [List.map_map]
    rfl
  rw [SnapshotFits, Outlook.Fits, snapshotWidth, Outlook.width, replayed, listed, List.forall_mem_map, widths]
  rfl

/-- An outlook depends on the badges and on the participant's room. -/
theorem outlook_congr (badged : badge host = badge peer) (named : badges after = badges lobby)
    (members : (after.room host.room).peerById = (lobby.room peer.room).peerById)
    (history : (after.room host.room).history = (lobby.room peer.room).history)
    (sequencer : (after.room host.room).sequencer = (lobby.room peer.room).sequencer) :
    outlook after host = outlook lobby peer := by
  simp only [outlook, badged, named, members, history, Room.latestServerSeq, sequencer]

/-- A participant keeps its badge. -/
theorem badges_setPeer (known : lobby.peer who = some peer) (same : badge host = badge peer) :
    badges (lobby.setPeer who host) = badges lobby := by
  funext other
  by_cases here : other = who
  · simp [badges, Lobby.setPeer, here, known, same]
  · simp [badges, Lobby.setPeer, here]

theorem outlook_publish {message : MessageDto} (published : lobby.publish config host.room message = some after) :
    outlook after host = (outlook lobby host).announce config message := by
  obtain ⟨⟨room, event⟩, added, rfl⟩ := Option.map_eq_some_iff.mp published
  obtain ⟨rfl, rfl⟩ := Room.addHistoryMessage_eq_some added
  simp only [outlook, Outlook.announce, Lobby.setRoom, Function.update_self, Room.latestServerSeq]
  rfl

theorem outlook_takeFiles (known : lobby.peer who = some peer) :
    ∃ left, (lobby.takeFiles who).1.peer who = some left ∧ left.room = peer.room ∧ badge left = badge peer ∧
      outlook (lobby.takeFiles who).1 left = outlook lobby peer := by
  have taken : (lobby.takeFiles who).1 = (lobby.setPeer who peer.takeFilesSnapshot.1).setRoom peer.room
      { lobby.room peer.room with
        fileById := (lobby.room peer.room).fileById.filter fun entry =>
          entry.1 ∉ peer.takeFilesSnapshot.2.map (·.serverFileId) } := by
    simp only [Lobby.takeFiles, known]
  rw [taken]
  refine ⟨peer.takeFilesSnapshot.1, by simp [Lobby.setPeer, Lobby.setRoom], rfl, rfl, ?_⟩
  refine outlook_congr rfl (badges_setPeer known rfl) ?_ ?_ ?_
  · simp [Lobby.setRoom, Peer.takeFilesSnapshot]
  · simp [Lobby.setRoom, Peer.takeFilesSnapshot]
  · simp [Lobby.setRoom, Peer.takeFilesSnapshot]

/-- The last part of a hello shows what its participant is to be shown. -/
theorem greet_outlook {resumed : Bool} (known : lobby.peer who = some peer)
    (greeted : lobby.greet config who resumed token fields = (after, some accepted)) :
    accepted.resumed = resumed ∧ ∃ host, after.peer accepted.peer = some host ∧
      outlook after host = resuming config lobby peer fields.fileCapabilityId := by
  obtain ⟨bound, is⟩ : ∃ bound, bound = (peer.setFileCapability (some fields.fileCapabilityId)).1 := ⟨_, rfl⟩
  have set : lobby.setFileCapability who (some fields.fileCapabilityId) =
      (lobby.setPeer who bound, (peer.setFileCapability (some fields.fileCapabilityId)).2) := by
    simp only [Lobby.setFileCapability, known, is]
  have here : (lobby.setPeer who bound).peer who = some bound := by simp [Lobby.setPeer]
  have same : outlook (lobby.setPeer who bound) bound = outlook lobby peer :=
    outlook_congr (by rw [is]; rfl) (badges_setPeer known (by rw [is]; rfl)) (by rw [is]; rfl) (by rw [is]; rfl)
      (by rw [is]; rfl)
  have files : ((lobby.setPeer who bound).takeFiles who).2 = peer.files := by
    have kept : bound.files = peer.files := by rw [is]; rfl
    simp only [Lobby.takeFiles, here, Peer.takeFilesSnapshot, kept]
  simp only [Lobby.greet, set] at greeted
  rw [resuming]
  cases changed : (peer.setFileCapability (some fields.fileCapabilityId)).2 with
  | false =>
    simp only [changed, Bool.false_eq_true, if_false, here, List.isEmpty_nil, if_true] at greeted
    cases greeted
    rw [Bool.false_and, if_neg Bool.false_ne_true]
    exact ⟨rfl, bound, here, same⟩
  | true =>
    obtain ⟨left, owner, home, badged, shown⟩ := outlook_takeFiles here
    simp only [changed, if_true, files, owner] at greeted
    cases empty : peer.files.isEmpty with
    | true =>
      simp only [empty, if_true] at greeted
      cases greeted
      exact ⟨rfl, left, owner, shown.trans same⟩
    | false =>
      simp only [empty, Bool.false_eq_true, if_false] at greeted
      split at greeted
      · cases greeted
      · rename_i announced
        cases greeted
        have message : unavailableMessage left peer.files = unavailableMessage peer peer.files := by
          obtain ⟨id, name⟩ := Prod.mk.inj (badged.trans (show badge bound = badge peer by rw [is]; rfl))
          rw [unavailableMessage, id, name, unavailableMessage]
        refine ⟨rfl, left, by rw [(publish_keeps announced).1]; exact owner, ?_⟩
        rw [outlook_publish announced, shown, same, message]
        rfl

/-- A newcomer has no files to lose. -/
theorem resuming_new (config : ConfigDto) (lobby : Lobby) (unused : peer.fileCapabilityId = []) (capability : Bytes) :
    resuming config lobby peer capability = outlook lobby peer := by
  rw [resuming, Peer.setFileCapability, unused]
  rfl

/-- What there is to show to a newcomer who has entered a room. -/
theorem outlook_newcomer {room : Room} (peers : after.peer = Function.update lobby.peer who (some peer))
    (badged : badge peer = (who, nickname)) (entered : room.addPeer who = some (after.room peer.room)) :
    outlook after peer =
      { host := (who, nickname)
        members := (if who ∈ room.peerById then room.peerById else room.peerById ++ [who]).filterMap
          (Function.update (badges lobby) who (some (who, nickname)))
        history := room.history, latest := room.latestServerSeq } := by
  have named : badges after = Function.update (badges lobby) who (some (who, nickname)) := by
    funext other
    rw [badges, peers]
    by_cases same : other = who
    · rw [same, Function.update_self, Function.update_self, Option.map_some, badged]
    · rw [Function.update_of_ne same, Function.update_of_ne same, badges]
  unfold Room.addPeer at entered
  split at entered
  · cases entered
  · rw [outlook, ← Option.some.inj entered, named, badged]
    rfl

theorem acceptFresh_outlook {made : Option Bytes}
    (result : lobby.acceptFresh config digest socket roomName nickname fields made now = (after, some accepted)) :
    accepted.resumed = false ∧ ∃ host, after.peer accepted.peer = some host ∧
      outlook after host = joining config lobby roomName nickname := by
  unfold Lobby.acceptFresh at result
  split at result
  · cases result
  rename_i token
  rcases @getOrCreateRoom_spec lobby roomName with found | ⟨next, room, before, found, obtains,
    rooms, -, peers, counter, -⟩
  · rw [found] at result
    cases result
  have named : before = ((lobby.rooms.lookup roomName).map lobby.room).getD { name := roomName } := by
    rcases obtains with ⟨is, rfl⟩ | ⟨is, -, rfl⟩
    · rw [is]
      rfl
    · rw [is]
      rfl
  obtain ⟨created, made, owner, kept, -⟩ := @createPeer_spec next socket room nickname now
  rw [counter] at made owner
  simp only [found, made] at result
  split at result
  · cases result
  split at result
  · cases result
  rename_i joined added
  obtain ⟨registered, is⟩ : ∃ registered, registered = joined.insertSession
      { room, peer := lobby.peerIdCounter, digest := digest token } := ⟨_, rfl⟩
  rw [← is] at result
  split at result
  · cases result
  rename_i announced published
  obtain ⟨newcomer, new⟩ : ∃ newcomer, newcomer = Peer.create socket room nickname lobby.peerIdCounter now := ⟨_, rfl⟩
  have home : newcomer.room = room := by rw [new]; rfl
  have members : registered.peer = Function.update lobby.peer lobby.peerIdCounter (some newcomer) := by
    rw [is, (insertSession_keeps _).1, addPeer_peer added, owner, peers, new]
  have known : announced.peer lobby.peerIdCounter = some newcomer := by
    rw [(publish_keeps published).1, members, Function.update_self]
  obtain ⟨resumed, host, bound, shown⟩ := greet_outlook known result
  refine ⟨resumed, host, bound, ?_⟩
  have entered : before.addPeer lobby.peerIdCounter = some (registered.room newcomer.room) := by
    obtain ⟨full, entered, is'⟩ := Option.map_eq_some_iff.mp added
    rw [kept, rooms, Function.update_self] at entered
    have here : (created.setRoom room full).room room = full := by simp [Lobby.setRoom]
    rw [entered, is, (insertSession_keeps _).2, ← is', home, here]
  rw [shown, resuming_new config announced (by rw [new]; rfl), outlook_publish (home ▸ published),
    outlook_newcomer members (by rw [new]; rfl) entered, named]
  rfl

/-- The registry finds a session and leaves the participants and rooms as they are. -/
theorem resumeLease_outlook (resumed : lobby.resumeLease key roomName now = some (next, who)) :
    ∃ record, lobby.sessions.lookup key = some record ∧ record.peer = who ∧ next.peer = lobby.peer ∧
      next.room = lobby.room := by
  unfold Lobby.resumeLease at resumed
  split at resumed
  · cases resumed
  · rename_i record found
    split at resumed
    · cases resumed
    · obtain ⟨lease, -, is⟩ := Option.map_eq_some_iff.mp resumed
      cases is
      exact ⟨record, found, rfl, rfl, rfl⟩

theorem acceptResume_outlook
    (result : lobby.acceptResume config digest socket roomName fields token now = (after, some accepted)) :
    accepted.resumed = true ∧ ∃ record peer host, lobby.sessions.lookup (digest token) = some record ∧
      lobby.peer record.peer = some peer ∧ after.peer accepted.peer = some host ∧
      outlook after host = resuming config lobby peer fields.fileCapabilityId := by
  unfold Lobby.acceptResume at result
  split at result
  · cases result
  split at result
  · cases result
  rename_i next who resumed
  obtain ⟨record, found, rfl, peers, rooms⟩ := resumeLease_outlook resumed
  cases known : lobby.peer record.peer with
  | none =>
    have unknown : (next.replaceSocket record.peer socket now).peer record.peer = none := by
      simp only [Lobby.replaceSocket, peers, known]
    have rejects : ((next.replaceSocket record.peer socket now).greet config record.peer true token fields).2 = none := by
      simp [Lobby.greet, Lobby.setFileCapability, unknown]
    rw [result] at rejects
    cases rejects
  | some peer =>
    obtain ⟨bound, is⟩ : ∃ bound, bound = (peer.replaceSocket socket now).1 := ⟨_, rfl⟩
    have same : badge bound = badge peer ∧ bound.room = peer.room ∧ bound.files = peer.files ∧
        bound.fileCapabilityId = peer.fileCapabilityId := by
      rw [is]
      exact ⟨rfl, rfl, rfl, rfl⟩
    obtain ⟨badged, home, files, capability⟩ := same
    have replaces : (next.replaceSocket record.peer socket now).peer = (next.setPeer record.peer bound).peer ∧
        (next.replaceSocket record.peer socket now).room = next.room := by
      simp [Lobby.replaceSocket, peers, known, Lobby.setPeer, is]
    have owner : (next.replaceSocket record.peer socket now).peer record.peer = some bound := by
      rw [replaces.1]
      simp [Lobby.setPeer]
    obtain ⟨resumes, host, served, shown⟩ := greet_outlook owner result
    have named : badges (next.replaceSocket record.peer socket now) = badges lobby := by
      have still : badges (next.setPeer record.peer bound) = badges next := badges_setPeer (peers ▸ known) badged
      funext other
      rw [badges, replaces.1, ← badges, still, badges, peers, badges]
    have kept : outlook (next.replaceSocket record.peer socket now) bound = outlook lobby peer :=
      outlook_congr badged named (by rw [replaces.2, rooms, home]) (by rw [replaces.2, rooms, home])
        (by rw [replaces.2, rooms, home])
    refine ⟨resumes, record, peer, host, found, known, served, shown.trans ?_⟩
    have message : unavailableMessage bound bound.files = unavailableMessage peer peer.files := by
      obtain ⟨id, name⟩ := Prod.mk.inj badged
      rw [unavailableMessage, id, name, files, unavailableMessage]
    rw [resuming, resuming, message, kept, files, Peer.setFileCapability, Peer.setFileCapability, capability]

end Lobbies

section Runs
variable {config : ConfigDto} {digest : Bytes → Bytes} {cast : Json.Numeral → Int} {lobby : Lobby}
  {greetings : List Greeting} {greeting : Greeting}

/-- In the lobby that its hello finds, the SESSION_READY of the greeting can be told to fit. -/
def Greeting.Foreseen (config : ConfigDto) (digest : Bytes → Bytes) (greeting : Greeting) : Prop :=
  match greeting.fields.resumeToken with
  | none =>
    (joining config greeting.before greeting.roomName greeting.nickname).Fits false (greeting.made.getD [])
      greeting.fields.lastServerSeq
  | some token => ∃ record peer, greeting.before.sessions.lookup (digest token) = some record ∧
      greeting.before.peer record.peer = some peer ∧
      (resuming config greeting.before peer greeting.fields.fileCapabilityId).Fits true token
        greeting.fields.lastServerSeq

theorem Greeting.fits_iff {host : Peer} (known : greeting.lobby.peer greeting.accepted.peer = some host) :
    greeting.Fits ↔ (outlook greeting.lobby host).Fits greeting.accepted.resumed
      ((greeting.fields.resumeToken.or greeting.made).getD []) greeting.fields.lastServerSeq := by
  rw [← snapshotFits_iff]
  constructor
  · rintro ⟨other, here, fits⟩
    rw [known] at here
    cases here
    exact fits
  · exact fun fits => ⟨host, known, fits⟩

/-- The lobby that a hello finds tells whether the one it leaves fits into the frame. -/
theorem acceptSessionHello_foreseen {after : Lobby} {accepted : Accepted} {fields : HelloFields}
    (checked : checkHello hello = some fields)
    (result : lobby.acceptSessionHello config digest socket roomName nickname hello made now = (after, some accepted)) :
    Greeting.Fits ⟨lobby, after, roomName, nickname, fields, made, accepted⟩ ↔
      Greeting.Foreseen config digest ⟨lobby, after, roomName, nickname, fields, made, accepted⟩ := by
  unfold Lobby.acceptSessionHello at result
  rw [checked] at result
  dsimp only at result
  split at result
  · cases result
  rename_i left taken
  obtain rfl := takePending_eq taken
  cases carried : fields.resumeToken with
  | none =>
    rw [carried] at result
    obtain ⟨fresh, host, known, shown⟩ := acceptFresh_outlook result
    rw [Greeting.fits_iff known]
    simp only [Greeting.Foreseen, carried, fresh, shown, Option.none_or]
    rfl
  | some token =>
    rw [carried] at result
    obtain ⟨resumed, record, peer, host, found, owner, known, shown⟩ := acceptResume_outlook result
    rw [Greeting.fits_iff known]
    simp only [Greeting.Foreseen, carried, resumed, shown, Option.some_or, Option.getD_some]
    constructor
    · exact fun fits => ⟨record, peer, found, owner, fits⟩
    · rintro ⟨other, again, found', owner', fits⟩
      obtain rfl := Option.some.inj (found.symm.trans found')
      obtain rfl := Option.some.inj (owner.symm.trans owner')
      exact fits

theorem Visited.foreseen (visited : Visited config digest cast lobby greetings) (member : greeting ∈ greetings) :
    greeting.Fits ↔ greeting.Foreseen config digest := by
  induction visited with
  | start => exact absurd member List.not_mem_nil
  | create _ ih => exact ih member
  | reject _ _ ih => exact ih member
  | accept _ checked result ih =>
    rcases List.mem_append.mp member with before | last
    · exact ih before
    · cases List.mem_singleton.mp last
      exact acceptSessionHello_foreseen checked result
  | message _ _ _ ih => exact ih member
  | lose _ _ _ ih => exact ih member

/-- In every run the browser reads the snapshot of a hello if and only if what the hello finds, with its own
announcement or that of the files its page has lost, can be spelled and is not too long. -/
theorem snapshot_readable (visited : Visited config digest cast lobby greetings) (member : greeting ∈ greetings) :
    (receive (writeToString greeting.accepted.ready)).isSome = true ↔ greeting.Foreseen config digest := by
  obtain ⟨host, known, is⟩ := visited.ready member
  rw [← visited.foreseen member, Greeting.fits_iff known, ← snapshotFits_iff, is, ready_received]

end Runs

section Examples

/-- What the first hello of a run will show. -/
def eventFirst : MessageDto := { joinedMessage 1 [0x41] with serverSeq := some 1 }

def outlookFirst : Outlook :=
  { host := (1, [0x41]), members := [(1, [0x41])], history := [eventFirst], latest := 1 }

theorem listWidth_singleton (width : Nat) : listWidth [width] = width + 2 := by
  simp only [listWidth, List.map_cons, List.map_nil, List.sum_cons, List.sum_nil]
  omega

theorem plainFirst : Plain [0x41] ∧ Plain tokenFirst ∧ Plain ([0x41] ++ joinedText) := by
  decide

theorem eventFirst_legible : (messageTree eventFirst).legible = true := by
  obtain ⟨name, -, text⟩ := plainFirst
  have named : ∀ (field : String × Option Tree), field.1 ∈ messageNames → Plain (ascii field.1) :=
    fun field => messageNames_named.2 field.1
  rw [eventFirst, joinedMessage, messageTree, object_legible]
  · simp only [historyTree, List.all_cons, List.all_nil, Option.map_some, Option.map_none, Option.all_some,
      Option.all_none, Tree.legible, natural, name.legible, text.legible, Bool.and_true]
  · exact fun field member => named field (List.mem_map_of_mem (f := Prod.fst) member)

/-- The names of the fields as variables: they would be compared letter by letter. -/
theorem nameWidths : ∃ nameWidth : String → Nat, ∀ name, stringWidth (ascii name) = nameWidth name :=
  ⟨_, fun _ => rfl⟩

theorem eventFirst_width : (messageTree eventFirst).width ≤ 250 := by
  obtain ⟨name, -, text⟩ := plainFirst
  obtain ⟨nameWidth, is⟩ := nameWidths
  have names := messageNames_width
  simp only [messageNames, List.forall_mem_cons, is] at names
  have code : (Json.decimal (MessageCodes.peerJoined.value : Int)).length = 1 := by decide
  have one : (Json.decimal 1).length = 1 := by decide
  have short : stringWidth [0x41] = 3 := name.width
  have said : stringWidth ([0x41] ++ joinedText) = 17 := text.width
  simp only [eventFirst, joinedMessage, historyTree, messageTree, object_width, List.map_cons, List.map_nil,
    List.sum_cons, List.sum_nil, Option.map_some, Option.map_none, Option.elim_some, Option.elim_none, natural,
    Tree.width, short, said, fieldWidth, code, Nat.cast_one, one, is]
  omega

theorem replayedFirst (cursor : Nat) :
    outlookFirst.replayed cursor = [] ∨ outlookFirst.replayed cursor = [eventFirst] := by
  have kept : (outlookFirst.replayed cursor).Sublist [eventFirst] := List.filter_sublist
  exact List.sublist_singleton.mp kept

theorem outlookFirst_width (resumed : Bool) {cursor : Nat} (complete : outlookFirst.resyncs cursor = false) :
    outlookFirst.width resumed tokenFirst cursor ≤ 8192 := by
  obtain ⟨name, token, -⟩ := plainFirst
  obtain ⟨nameWidth, is⟩ := nameWidths
  have names := messageNames_width
  simp only [messageNames, List.forall_mem_cons, is] at names
  have one : (Json.decimal 1).length = 1 := by decide
  have short : stringWidth [0x41] = 3 := name.width
  have bearer : stringWidth tokenFirst = 45 := token.width
  have history : listWidth ((outlookFirst.replayed cursor).map fun event => (messageTree event).width) ≤ 252 := by
    rcases replayedFirst cursor with none | all
    · rw [none]
      exact (by decide : listWidth [] ≤ 252)
    · rw [all, List.map_singleton, listWidth_singleton]
      exact Nat.add_le_add_right eventFirst_width 2
  have truth : truthWidth resumed ≤ 5 ∧ truthWidth false ≤ 5 := by cases resumed <;> decide
  rw [Outlook.width, complete]
  generalize listWidth ((outlookFirst.replayed cursor).map fun event =>
    (messageTree event).width) = width at history
  simp only [outlookFirst, listWidth_singleton, List.map_cons, List.map_nil, Outlook.badgeWidth, fieldWidth, short,
    bearer, Nat.cast_one, one, is]
  omega

theorem outlookFirst_fits (resumed : Bool) {cursor : Nat} (complete : outlookFirst.resyncs cursor = false) :
    outlookFirst.Fits resumed tokenFirst cursor := by
  obtain ⟨name, token, -⟩ := plainFirst
  refine ⟨⟨name.legible, token.legible, ?_, ?_⟩, outlookFirst_width resumed complete⟩
  · intro member listed
    rw [List.mem_singleton.mp listed]
    exact name.legible
  · intro event listed
    have only : event = eventFirst := List.mem_singleton.mp (List.filter_sublist.subset listed)
    exact only ▸ eventFirst_legible

/-- A hello, and one of the same page on a new transport. -/
theorem first_joins : ∃ lobby greeting again, Visited {} digestFirst (fun _ => 0) lobby [greeting, again] ∧
    greeting.Foreseen {} digestFirst ∧ again.accepted.resumed = true ∧ again.Foreseen {} digestFirst := by
  have checked : checkHello (some helloFirst) = some greetingFirst := rfl
  have waiting : Visited {} digestFirst (fun _ => 0) (Lobby.await {} 0 0) [] := .create .start
  have first := waiting.accept checked
    (show Lobby.acceptSessionHello {} digestFirst _ 0 [0x78] [0x41] _ (some tokenFirst) 0 = (_, some _) from rfl)
  have lost := @Visited.lose _ _ _ _ 1 _ 0 _ 0 _ first rfl rfl
  have waits : Visited {} digestFirst (fun _ => 0) (Lobby.await _ 1 0) _ := lost.create
  have carries : checkHello (some { helloFirst with lastServerSeq := some 1, resumeToken := some tokenFirst }) =
      some { greetingFirst with lastServerSeq := 1, resumeToken := some tokenFirst } := rfl
  have second := waits.accept carries
    (show Lobby.acceptSessionHello {} digestFirst _ 1 [0x78] [0x41] _ none 0 = (_, some _) from rfl)
  exact ⟨_, _, _, second, outlookFirst_fits false rfl, rfl, _, _, rfl, rfl, outlookFirst_fits true rfl⟩

/-- Both of its snapshots are read; one that is foreseen not to fit is not. -/
theorem snapshot_readable_first :
    (∃ lobby greeting again, Visited {} digestFirst (fun _ => 0) lobby [greeting, again] ∧
      again.accepted.resumed = true ∧ (receive (writeToString greeting.accepted.ready)).isSome = true ∧
      (receive (writeToString again.accepted.ready)).isSome = true) ∧
    ∃ lobby greetings greeting, Visited {} digestFirst (fun _ => 0) lobby greetings ∧ greeting ∈ greetings ∧
      (receive (writeToString greeting.accepted.ready)).isSome = false := by
  constructor
  · obtain ⟨lobby, greeting, again, visited, fits, resumed, fitsAgain⟩ := first_joins
    exact ⟨lobby, greeting, again, visited, resumed, (snapshot_readable visited List.mem_cons_self).mpr fits,
      (snapshot_readable visited (List.mem_cons_of_mem _ List.mem_cons_self)).mpr fitsAgain⟩
  · obtain ⟨lobby, greetings, greeting, visited, member, overfull⟩ := room_overfull
    refine ⟨lobby, greetings, greeting, visited, member, Bool.eq_false_iff.mpr fun read => overfull ?_⟩
    exact (visited.foreseen member).mpr ((snapshot_readable visited member).mp read)

/-- Two members post a text of 4096 letters each, and a third is sent a snapshot that its browser drops. -/
theorem snapshot_unreadable : ¬ ∀ lobby greetings, Visited {} digestFirst (fun _ => 0) lobby greetings →
    ∀ greeting ∈ greetings, (receive (writeToString greeting.accepted.ready)).isSome = true := by
  intro readable
  obtain ⟨lobby, greetings, greeting, visited, member, overfull⟩ := room_overfull
  obtain ⟨host, known, is⟩ := visited.ready member
  have read := readable lobby greetings visited greeting member
  rw [is, ready_received] at read
  exact overfull ⟨host, known, read⟩

end Examples

end Conspire.Frames
