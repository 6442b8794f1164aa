import Mumble.Voice

namespace Mumble

-- The protobuf messages, with the fields that the server reads or sets. A getter
-- of the source is `getD` with the field's default.

structure PingMessage where
  timestamp : Option UInt64
  good : Option UInt32
  late : Option UInt32
  lost : Option UInt32
  resync : Option UInt32
  udpPackets : Option UInt32
  tcpPackets : Option UInt32
  udpPingAvg : Option Float32
  udpPingVar : Option Float32
  tcpPingAvg : Option Float32
  tcpPingVar : Option Float32

structure ChannelState where
  channelId : Option UInt32
  parent : Option UInt32
  name : Option String
  description : Option String
  temporary : Option Bool
  position : Option Int32
  deriving DecidableEq, Repr

structure UserState where
  session : Option UInt32
  userId : Option UInt32
  channelId : Option UInt32
  name : Option String
  mute : Option Bool
  deaf : Option Bool
  listeningChannelAdd : List UInt32
  listeningChannelRemove : List UInt32
  deriving DecidableEq, Repr

structure UserRemove where
  session : UInt32
  reason : Option String
  deriving DecidableEq, Repr

structure CryptSetup where
  key : Option (List UInt8)
  clientNonce : Option (List UInt8)
  serverNonce : Option (List UInt8)
  deriving DecidableEq, Repr

structure TargetItem where
  session : List UInt32
  channelId : Option UInt32
  deriving DecidableEq, Repr

structure VoiceTargetMessage where
  id : Option UInt32
  targets : List TargetItem
  deriving DecidableEq, Repr

structure PermissionQuery where
  channelId : Option UInt32
  permissions : Option UInt32
  deriving DecidableEq, Repr

structure CodecVersion where
  alpha : Int32
  beta : Int32
  preferAlpha : Bool
  opus : Bool
  deriving DecidableEq, Repr

structure CryptStats where
  good : UInt32
  late : UInt32
  lost : UInt32
  resync : UInt32
  deriving DecidableEq, Repr

structure UserStats where
  session : Option UInt32
  statsOnly : Option Bool
  fromClient : Option CryptStats
  fromServer : Option CryptStats
  udpPackets : Option UInt32
  tcpPackets : Option UInt32
  udpPingAvg : Option Float32
  tcpPingAvg : Option Float32
  tcpPingVar : Option Float32

structure ServerSync where
  session : UInt32
  maxBandwidth : UInt32
  welcomeText : String
  deriving DecidableEq, Repr

structure ServerConfig where
  allowHtml : Bool
  messageLength : UInt32
  imageMessageLength : UInt32
  deriving DecidableEq, Repr

-- What the server writes to a client: the kind and the message in its payload.
inductive ServerMessage where
  | UDPTunnel (packet : List UInt8)
  | Ping (message : PingMessage)
  | ServerSync (message : ServerSync)
  | ChannelRemove (channelId : UInt32)
  | ChannelState (message : ChannelState)
  | UserRemove (message : UserRemove)
  | UserState (message : UserState)
  | CryptSetup (message : CryptSetup)
  | PermissionQuery (message : PermissionQuery)
  | CodecVersion (message : CodecVersion)
  | UserStats (message : UserStats)
  | ServerConfig (message : ServerConfig)

-- The messages in the queue of a client.
inductive ClientMessage where
  | RouteVoicePacket (packet : VoicePacket .ClientBound)
  | SendVoicePacket (packet : VoicePacket .ClientBound)
  | SendMessage (message : ServerMessage)

inductive MumbleError where
  | UnexpectedMessageKind (kind : UInt16)
  | UnsupportedMessageKind (kind : UInt16)
  | Io
  | Parse
  | Decrypt (error : DecryptError)
  | InvalidVoiceTarget
  | ChannelDoesntExist
  | WritterShutDown
  | PacketDiscarded
  | UnknownError (message : String)
  -- Not an error of the source: the call has not returned, it waits for a peer that
  -- takes no bytes.
  | Waiting
  deriving DecidableEq, Repr

inductive DisconnectReason where
  | Disconnected
  | ClientTimedOutTcp
  | LostReceivingChannel
  | ClientMSPCFull
  | Anticheat
  deriving DecidableEq, Repr

end Mumble
