import Mumble.Lib.Exec
import Mumble.Lib.Bytes
import Mumble.Lib.Aes
import Mumble.Lib.Window
import Mumble.Lib.HashIndex
import Mumble.Lib.Run
import Mumble.Lib.Pool
import Mumble.Lib.Tickets
import Mumble.Lib.Grammar
import Mumble.Lib.Calendar
import Mumble.Lib.Checked
import Mumble.Varint
import Mumble.Varint.Theorems
import Mumble.Voice
import Mumble.Voice.Theorems
import Mumble.Voice.Grammar
import Mumble.Proto
import Mumble.Crypt
import Mumble.Crypt.Ocb
import Mumble.Crypt.Theorems
import Mumble.Crypt.Nonce
import Mumble.Crypt.Replay
import Mumble.Crypt.Session
import Mumble.Crypt.Accounting
import Mumble.Anticheat
import Mumble.Client
import Mumble.Channel
import Mumble.State
import Mumble.Handler
import Mumble.Server
import Mumble.Registry
import Mumble.Registry.Refinement
import Mumble.Registry.Events
import Mumble.Registry.Invariants
import Mumble.Registry.Membership
import Mumble.Reachable
import Mumble.Sampler
import Mumble.Sampler.Reciprocity
import Mumble.Deeds
import Mumble.Deeds.Steps
import Mumble.Sends
import Mumble.Timeouts
import Mumble.Mute
import Mumble.Panics
import Mumble.Channels
import Mumble.Views
import Mumble.Views.Theorems
import Mumble.Views.Connect
import Mumble.Views.Runs
import Mumble.Tasks
import Mumble.Tasks.Steps
import Mumble.Tasks.Stranded
import Mumble.Tasks.Alone
import Mumble.Tasks.Counting
import Mumble.Tasks.Capacity
import Mumble.Tasks.Cleaning
import Mumble.BanFile
import Mumble.Udp
import Mumble.Voice.Relay
import Mumble.Registry.Sockets
import Mumble.Registry.Entries
import Mumble.Speech
import Mumble.Heard
import Mumble.Heard.Eviction
import Mumble.Heard.Snapshot
import Mumble.Heard.Identity
import Mumble.Framing
import Mumble.Bans
import Mumble.Sampler.Reach
import Mumble.Acts
import Mumble.Tree
import Mumble.Sampler.Cycles
import Mumble.Sampler.Strikes
import Mumble.Lib.Seen
import Mumble.Sampler.Chunking
import Mumble.Sampler.Counting
import Mumble.Http
import Mumble.Http.Redaction
import Mumble.Tasks.Naming
import Mumble.Tasks.Fresh
import Mumble.Lib.Walk
import Mumble.Tasks.Retarget
import Mumble.Handshake
import Mumble.Whisper
import Mumble.Reuse
import Mumble.Timestamp
import Mumble.Deeds.Runs
import Mumble.Voice.Provenance
import Mumble.Loops
import Mumble.Udp.Binding
import Mumble.Sampler.Positions
import Mumble.Sampler.Sanctions
import Mumble.Lib.Ring
import Mumble.Panel
import Mumble.Proto.Streams
import Mumble.Proto.Replies
import Mumble.Proto.Connection
