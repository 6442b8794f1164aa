import Mumble.Channel

namespace Mumble

open Mumble.Lib

def MAX_CLIENTS : Nat := 4096

-- Stands where no client has been allocated yet.
instance : Inhabited Client where
  default :=
    let key := Vector.replicate KEY_SIZE 0
    .new "" 0 0 (.default key (.new key) 0) "" .Taken 0

structure ServerState where
  removePositionalData : Bool
  -- every client ever allocated; the maps below hold references into it
  heap : ClientRef → Client
  next : ClientRef
  clients : HashIndex UInt32 ClientRef
  clientsWithoutUdp : HashIndex UInt32 ClientRef
  clientsBySocket : HashIndex SocketAddr ClientRef
  channels : ChannelMap
  disconnectQueue : HashIndex UInt32 DisconnectReason
  sessionCount : UInt32
  channelCount : UInt32
  activeClients : UInt32
  anticheat : AnticheatConfig
  bans : BanList

-- `CodecState::default().get_codec_version()`; the state is never written.
def codecVersion : CodecVersion := ⟨0, 0, false, true⟩

-- Takes ids from a wrapping counter until one is free, and leaves the counter
-- behind it. With all 2^32 ids in use the source never comes out of its loop; the
-- fuel ends there.
def freeId (used : UInt32 → Bool) : Nat → UInt32 → UInt32 × UInt32
  | 0, count => (count, count + 1)
  | fuel + 1, count => if used count then freeId used fuel (count + 1) else (count, count + 1)

namespace ServerState

def new (removePositionalData : Bool) (anticheat : AnticheatConfig) (bans : BanList) :
    ServerState where
  removePositionalData := removePositionalData
  heap := fun _ => default
  next := 0
  clients := ∅
  clientsWithoutUdp := ∅
  clientsBySocket := ∅
  channels := ChannelMap.empty.insert (.new 0 (some 0) "Root" "Root channel" false)
  disconnectQueue := ∅
  sessionCount := 1
  channelCount := 1
  activeClients := 0
  anticheat := anticheat
  bans := bans

def get (s : ServerState) (r : ClientRef) : Client := s.heap r

def set (s : ServerState) (r : ClientRef) (c : Client) : ServerState :=
  { s with heap := Function.update s.heap r c }

def modify (s : ServerState) (r : ClientRef) (f : Client → Client) : ServerState :=
  s.set r (f (s.get r))

-- Runs a method of a client that reports success or failure.
def call {ε : Type} (s : ServerState) (r : ClientRef) (f : Client → Client × ε) :
    ServerState × ε :=
  let (c, result) := f (s.get r)
  (s.set r c, result)

def getFreeSessionId (s : ServerState) : ServerState × UInt32 :=
  let (id, count) := freeId (fun id => id ∈ s.clients) (2 ^ 32) s.sessionCount
  ({ s with sessionCount := count }, id)

def getFreeChannelId (s : ServerState) : ServerState × UInt32 :=
  let (id, count) := freeId s.channels.contains (2 ^ 32) s.channelCount
  ({ s with channelCount := count }, id)

def addClient (s : ServerState) (username : String) (crypt : CryptState) (write : Writer)
    (peerIp : String) (now : Instant) : ServerState × ClientRef :=
  let (s, sessionId) := s.getFreeSessionId
  let r := s.next
  let s := { s.set r (.new username sessionId 0 crypt peerIp write now) with next := r + 1 }
  ({ s with
      activeClients := s.activeClients + 1
      clients := HashIndex.insertNew sessionId r s.clients
      clientsWithoutUdp := HashIndex.insertNew sessionId r s.clientsWithoutUdp }, r)

def addChannel (s : ServerState) (state : ChannelState) : ServerState × Channel :=
  let (s, channelId) := s.getFreeChannelId
  let channel := Channel.new channelId (some (state.parent.getD 0)) (state.name.getD "")
    (state.description.getD "") (state.temporary.getD false)
  ({ s with channels := s.channels.insert channel }, channel)

def getClientByName (s : ServerState) (name : String) : Option ClientRef :=
  s.clients.values.find? fun r => (s.get r).name = name

def getChannelByChannelId (s : ServerState) (channelId : UInt32) : Option Channel :=
  s.channels.find fun channel => channel.id = channelId

def getChannelByName (s : ServerState) (name : String) : Option Channel :=
  s.channels.find fun channel => channel.name = name

-- The maps hold weak references. They can be upgraded as long as the client is
-- connected.
def getClientBySocket (s : ServerState) (addr : SocketAddr) : Option ClientRef :=
  s.clientsBySocket.lookup addr

def removeClientBySocket (s : ServerState) (addr : SocketAddr) : ServerState :=
  { s with clientsBySocket := s.clientsBySocket.erase addr }

-- Frees an address that was taken from a client.
def releaseSocket (s : ServerState) : Option SocketAddr → ServerState
  | some addr => s.removeClientBySocket addr
  | none => s

def setClientSocket (s : ServerState) (r : ClientRef) (addr : SocketAddr) : ServerState :=
  let existing := (s.get r).udpSocketAddr
  let s := s.modify r fun c => { c with udpSocketAddr := some addr }
  let s := s.releaseSocket existing
  { s with clientsBySocket := HashIndex.insertNew addr r s.clientsBySocket }

def addClientToDisconnectQueue (s : ServerState) (sessionId : UInt32) (reason : DisconnectReason) :
    ServerState :=
  { s with disconnectQueue := HashIndex.insertNew sessionId reason s.disconnectQueue }

-- `publisher.try_send`. Whoever finds the queue of a client full has it
-- disconnected.
def trySend (s : ServerState) (r : ClientRef) (message : ClientMessage) : ServerState :=
  let (s, accepted) := s.call r fun c => c.trySend message
  if accepted then s else s.addClientToDisconnectQueue (s.get r).sessionId .ClientMSPCFull

def broadcastMessage (s : ServerState) (message : ServerMessage) : ServerState :=
  s.clients.values.foldl (fun s r => s.trySend r (.SendMessage message)) s

def deleteChannel (s : ServerState) (channelId : UInt32) : ServerState :=
  let s := { s with channels := s.channels.erase channelId }
  s.broadcastMessage (.ChannelRemove channelId)

-- Returns the channel that was deleted. A channel that does not exist is
-- announced as deleted too.
def handleClientLeftChannel (s : ServerState) (clientSession leaveChannelId : UInt32) :
    ServerState × Option UInt32 :=
  match s.channels.lookup leaveChannelId with
  | some c =>
      let clients := c.clients.erase clientSession
      let s :=
        { s with channels := s.channels.alterClients leaveChannelId fun m => m.erase clientSession }
      if !c.temporary || !clients.entries.isEmpty then (s, none)
      else (s.deleteChannel leaveChannelId, some leaveChannelId)
  | none => (s.deleteChannel leaveChannelId, some leaveChannelId)

-- The new channel is recorded at the client before it is looked up.
def setClientChannel (s : ServerState) (r : ClientRef) (channelId : UInt32) :
    ServerState × Except MumbleError Unit :=
  let (s, leaveChannelId) := s.call r fun c => c.joinChannel channelId
  let sessionId := (s.get r).sessionId
  match s.getChannelByChannelId channelId with
  | none => (s, .error .ChannelDoesntExist)
  | some c =>
      let s := { s with channels := s.channels.alterClients c.id (HashIndex.insertNew sessionId r) }
      let s := s.broadcastMessage (.UserState (s.get r).getUserState)
      match leaveChannelId with
      | none => (s, .ok ())
      | some leaveChannelId =>
          if leaveChannelId = channelId then (s, .ok ())
          else ((s.handleClientLeftChannel sessionId leaveChannelId).1, .ok ())

-- Tries the datagram on one candidate after the other. A candidate that cannot
-- decrypt it may still have its counters changed.
def findClientWithDecrypt (s : ServerState) (now : Instant) (bytes : List UInt8)
    (addr : SocketAddr) :
    List ClientRef → Exec (ServerState × Option (ClientRef × VoicePacket .ServerBound))
  | [] => .ok (s, none)
  | r :: candidates => do
      let (crypt, result) ← (s.get r).crypt.decrypt .ServerBound now bytes
      let s := s.modify r fun c => { c with crypt }
      match result with
      | .ok packet =>
          let s := s.setClientSocket r addr
          let s := { s with clientsWithoutUdp := s.clientsWithoutUdp.erase (s.get r).sessionId }
          return (s, some (r, packet))
      | .error _ => findClientWithDecrypt s now bytes addr candidates

def resetClientCrypt (s : ServerState) (r : ClientRef) (now : Instant) :
    ServerState × Except MumbleError Unit :=
  let sessionId := (s.get r).sessionId
  let s := { s with clientsWithoutUdp := HashIndex.insertNew sessionId r s.clientsWithoutUdp }
  let (s, address) := s.call r Client.removeUdpSocket
  let s := s.releaseSocket address
  s.call r fun c => c.sendCryptSetup now true

def broadcastClientDelete (s : ServerState) (clientId channelId : UInt32) : ServerState :=
  let s := s.broadcastMessage (.UserRemove ⟨clientId, some "Disconnected"⟩)
  (s.handleClientLeftChannel clientId channelId).1

-- Takes a client out of the maps and stops its tasks.
def detachClient (s : ServerState) (r : ClientRef) (clientSession : UInt32) : ServerState :=
  let s :=
    { s with
      clients := s.clients.erase clientSession
      clientsWithoutUdp := s.clientsWithoutUdp.erase clientSession
      activeClients := s.activeClients - 1 }
  let s := s.modify r fun c => { c with cancelled := true, write := .Taken }
  let (s, socket) := s.call r Client.removeUdpSocket
  s.releaseSocket socket

-- The reason is only logged.
def disconnect (s : ServerState) (clientSession : UInt32) : ServerState :=
  match s.clients.lookup clientSession with
  | none => s
  | some r =>
      let channelId := (s.get r).channelId
      let s := s.detachClient r clientSession
      let s := s.broadcastClientDelete clientSession channelId
      match s.getChannelByChannelId channelId with
      | some c => { s with channels := s.channels.alterClients c.id fun m => m.erase clientSession }
      | none => s

end ServerState

end Mumble
