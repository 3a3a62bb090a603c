import Raftz.AutoLeave
import Raftz.Backlog
import Raftz.Campaign
import Raftz.ConfChangeCodec
import Raftz.Durability
import Raftz.FastRead
import Raftz.HandOut
import Raftz.HandedSnapshots
import Raftz.Interchange
import Raftz.Merge
import Raftz.MessageCodec
import Raftz.MigrationIntents
import Raftz.OneLog
import Raftz.PreVote
import Raftz.Probing
import Raftz.Promises
import Raftz.QuorumExact
import Raftz.Requests
import Raftz.Restart
import Raftz.RestoredConf
import Raftz.WalRecords
import Raftz.DiskFormats
import Raftz.Derivation
import Raftz.Window
import Raftz.ReadRuns
import Raftz.Streaming
import Raftz.TransportPeers
import Raftz.RequestContexts
import Raftz.Recovery
import Raftz.AppendRetry
import Raftz.Retries
import Raftz.Applied
import Raftz.Scheduler
import Raftz.GroupInbox
