import FullnodeClient.Cache.Approval
import FullnodeClient.Cache.Chain
import FullnodeClient.Cache.Cores
import FullnodeClient.Cache.Frame
import FullnodeClient.Cache.Holes
import FullnodeClient.Cache.Limits
import FullnodeClient.Cache.Lookup
import FullnodeClient.Cache.Reads
import FullnodeClient.Cache.Requests
import FullnodeClient.Cache.Responses
import FullnodeClient.Cache.Soundness
import FullnodeClient.Cache.Sync
import FullnodeClient.Cache.Versions
import FullnodeClient.Handlers.Serving
import FullnodeClient.History.Completeness
import FullnodeClient.History.Search
import FullnodeClient.Net.Address
import FullnodeClient.Net.Callback
import FullnodeClient.Net.Clocked
import FullnodeClient.Net.Lookup
import FullnodeClient.Net.Reuse
import FullnodeClient.Net.Sockets
import FullnodeClient.Net.Termination
import FullnodeClient.Net.Tls
import FullnodeClient.Rpc.Access
import FullnodeClient.Rpc.Connection
import FullnodeClient.Rpc.Session
import FullnodeClient.Security.Manager
import FullnodeClient.Text.Codecs
import FullnodeClient.Tx.Amounts
import FullnodeClient.Tx.Creating
