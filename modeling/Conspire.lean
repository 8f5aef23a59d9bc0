import Conspire.Browser.Compose
import Conspire.Browser.Cursor
import Conspire.Browser.Ownership
import Conspire.Commands.AtMostOnce
import Conspire.Commands.Idempotence
import Conspire.Files.Integrity
import Conspire.Files.Reissue
import Conspire.Files.Replies
import Conspire.Files.Waiting
import Conspire.Files.Wire
import Conspire.Files.Withdrawal
import Conspire.Frames.Acknowledged
import Conspire.Frames.Arrival
import Conspire.Frames.Delivery
import Conspire.Frames.Dispatch
import Conspire.Frames.Outlook
import Conspire.Frames.Poison
import Conspire.Frames.Protocol
import Conspire.Frames.Reader
import Conspire.Frames.Reading
import Conspire.Frames.Settled
import Conspire.Frames.Snapshot
import Conspire.Frames.Spelled
import Conspire.Frames.Stringify
import Conspire.Frames.Writer
import Conspire.Images.Accounting
import Conspire.Images.Budget
import Conspire.Images.Corruption
import Conspire.Images.Superseded
import Conspire.Library.Json
import Conspire.Library.Regrouping
import Conspire.Lobby.Accounting
import Conspire.Lobby.Capacity
import Conspire.Lobby.Orphans
import Conspire.Lobby.Pending
import Conspire.Replay.Participants
import Conspire.Server.Addresses
import Conspire.Server.Authorship
import Conspire.Server.ChunkReplies
import Conspire.Server.CloseDetail
import Conspire.Server.Closing
import Conspire.Server.Fencing
import Conspire.Server.PeriodicRunner
import Conspire.Server.Pinging
import Conspire.Server.Retention
import Conspire.Server.Scripts
import Conspire.Server.SessionCredentials
import Conspire.Server.Templates
import Conspire.Statistics.Dashboard
import Conspire.Statistics.Restarts
import Conspire.Tor.Identity
import Conspire.Tor.Quoted
import Conspire.Tor.Segments
import Conspire.Tor.Start
import Conspire.Transport.Inbound
import Conspire.Transport.Outbound
