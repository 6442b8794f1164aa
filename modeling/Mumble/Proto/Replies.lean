import Mumble.Handshake

/-!
The messages of the server as the bytes that are written to a client (`message_to_bytes`),
for any protobuf library that reads back what it writes.
-/

namespace Mumble

open Mumble.Lib

-- The protobuf library for one kind of message: what is read of one, and how one is written
-- in which that is set. One that lacks a required field is not written, and the sizes in a
-- message are numbers of 32 bits.
structure Codec (M : Type) where
  parseFromBytes : List UInt8 → Option M
  writeToBytes : M → Option (List UInt8)
  parse_write : ∀ {message bytes}, writeToBytes message = some bytes → bytes.length < 2 ^ 32 →
    parseFromBytes bytes = some message

namespace Codec

variable {M : Type}

-- Where there is one message.
def single [DecidableEq M] (message : M) (bytes : List UInt8) : Codec M where
  parseFromBytes buf := if buf = bytes then some message else none
  writeToBytes m := if m = message then some bytes else none
  parse_write := by
    intro m buf h _
    split_ifs at h with hm
    rw [if_pos (Option.some.inj h).symm, hm]

end Codec

-- What the server says of itself, and reads of a client.
structure Version where
  version : Option UInt32
  release : Option String
  os : Option String
  osVersion : Option String
  deriving DecidableEq

structure Authenticate where
  username : Option String

-- The library for all that goes over a connection.
structure Library where
  version : Codec Version
  authenticate : List UInt8 → Option Authenticate
  ping : Codec PingMessage
  serverSync : Codec ServerSync
  channelRemove : Codec UInt32
  channelState : Codec ChannelState
  userRemove : Codec UserRemove
  userState : Codec UserState
  cryptSetup : Codec CryptSetup
  voiceTarget : List UInt8 → Option VoiceTargetMessage
  permissionQuery : Codec PermissionQuery
  codecVersion : Codec CodecVersion
  userStats : Codec UserStats
  serverConfig : Codec ServerConfig

-- Its parsers, for the loop of a client.
def Library.protobuf (lib : Library) : Protobuf where
  version buf := (lib.version.parseFromBytes buf).map fun _ => ()
  authenticate buf := (lib.authenticate buf).map fun _ => ()
  ping := lib.ping.parseFromBytes
  channelState := lib.channelState.parseFromBytes
  cryptSetup := lib.cryptSetup.parseFromBytes
  permissionQuery := lib.permissionQuery.parseFromBytes
  userState := lib.userState.parseFromBytes
  voiceTarget := lib.voiceTarget
  userStats := lib.userStats.parseFromBytes

def messageToBytes {M : Type} (kind : MessageKind) (codec : Codec M) (message : M) :
    Except MumbleError (List UInt8) :=
  match codec.writeToBytes message with
  | some bytes => .ok (getMumbleBuffer kind bytes)
  | none => .error .Parse

namespace ServerMessage

def kind : ServerMessage → MessageKind
  | .UDPTunnel _ => .UDPTunnel
  | .Ping _ => .Ping
  | .ServerSync _ => .ServerSync
  | .ChannelRemove _ => .ChannelRemove
  | .ChannelState _ => .ChannelState
  | .UserRemove _ => .UserRemove
  | .UserState _ => .UserState
  | .CryptSetup _ => .CryptSetup
  | .PermissionQuery _ => .PermissionQuery
  | .CodecVersion _ => .CodecVersion
  | .UserStats _ => .UserStats
  | .ServerConfig _ => .ServerConfig

-- What comes after the kind and the size.
def payload (lib : Library) : ServerMessage → Option (List UInt8)
  | .UDPTunnel packet => some packet
  | .Ping m => lib.ping.writeToBytes m
  | .ServerSync m => lib.serverSync.writeToBytes m
  | .ChannelRemove channelId => lib.channelRemove.writeToBytes channelId
  | .ChannelState m => lib.channelState.writeToBytes m
  | .UserRemove m => lib.userRemove.writeToBytes m
  | .UserState m => lib.userState.writeToBytes m
  | .CryptSetup m => lib.cryptSetup.writeToBytes m
  | .PermissionQuery m => lib.permissionQuery.writeToBytes m
  | .CodecVersion m => lib.codecVersion.writeToBytes m
  | .UserStats m => lib.userStats.writeToBytes m
  | .ServerConfig m => lib.serverConfig.writeToBytes m

variable {lib : Library} {m m' : ServerMessage} {bytes : List UInt8}

end ServerMessage

-- A message that the library writes, and whose size can be put in front of it.
structure Reply (lib : Library) where
  message : ServerMessage
  payload : List UInt8
  writes : message.payload lib = some payload
  fits : payload.length < 2 ^ 32

namespace Reply

variable {lib : Library}

def frame (m : Reply lib) : Frame := ⟨m.message.kind.toU16, m.payload, m.fits⟩

-- What is written to the stream of the client.
def written (m : Reply lib) : List UInt8 := m.frame.bytes

end Reply

end Mumble
