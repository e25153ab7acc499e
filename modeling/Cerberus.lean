import Cerberus.Frames
import Cerberus.Message
import Cerberus.Tokens
import Cerberus.Lex
import Cerberus.Progress
import Cerberus.Stream
import Cerberus.Messages
import Cerberus.SlotCalc
import Cerberus.Crc
import Cerberus.KeySlots
import Cerberus.Strings
import Cerberus.Command
import Cerberus.Response
import Cerberus.Splitters
import Cerberus.Resp
import Cerberus.Reads
import Cerberus.Classify
import Cerberus.Dispatch
import Cerberus.Requests
import Cerberus.Forward
import Cerberus.KeyRequests
import Cerberus.Buffers
import Cerberus.Server
import Cerberus.Matching
import Cerberus.Reuse
import Cerberus.Client
import Cerberus.Groups
import Cerberus.Replies
import Cerberus.Runs
import Cerberus.Registry
import Cerberus.Routing
import Cerberus.Updaters
import Cerberus.Pipeline
import Cerberus.Conversion
import Cerberus.Handover
import Cerberus.Proxy
import Cerberus.Ledger
import Cerberus.Connects
import Cerberus.Queues
import Cerberus.Deliveries
import Cerberus.Histories
import Cerberus.Origins
import Cerberus.Chronicles
import Cerberus.ClusterNodes
import Cerberus.Installs
import Cerberus.Pieces
import Cerberus.Retries
import Cerberus.Lifetimes
import Cerberus.Halves
import Cerberus.Waking
import Cerberus.Interest
import Cerberus.Watch
import Cerberus.WriteInterest
import Cerberus.Literals
import Cerberus.Selection
import Cerberus.NodeRecords
import Cerberus.Encodings
import Cerberus.Draining
import Cerberus.Fetching
import Cerberus.Rounds
import Cerberus.Pops
import Cerberus.Accepting
import Cerberus.Stores
import Cerberus.Backends
import Cerberus.Meanings
import Cerberus.Renames
import Cerberus.Names
import Cerberus.Framing
import Cerberus.Lanes
import Cerberus.Wires
