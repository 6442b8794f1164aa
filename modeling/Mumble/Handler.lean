import Mumble.State

namespace Mumble

open Mumble.Lib

-- What a frame of a client's stream holds once it is read. Parsing a payload is
-- the protobuf library's work; a voice packet in a tunnel is decoded here.
inductive TcpFrame where
  | Version
  | UDPTunnel (payload : List UInt8)
  | Authenticate
  | Ping (message : PingMessage)
  | ChannelState (message : ChannelState)
  | CryptSetup (message : CryptSetup)
  | PermissionQuery (message : PermissionQuery)
  | UserState (message : UserState)
  | VoiceTarget (message : VoiceTargetMessage)
  | UserStats (message : UserStats)
  -- the payload of a supported kind does not parse
  | Malformed
  -- a kind that no client may send
  | Unsupported (kind : UInt16)
  -- not a kind at all
  | Unexpected (kind : UInt16)
  -- nothing can be read, the stream is at its end or broken
  | Lost

abbrev MumbleResult := Except MumbleError Unit

namespace ServerState

def handlePing (s : ServerState) (r : ClientRef) (now : Instant) (message : PingMessage) :
    ServerState × MumbleResult :=
  let s := s.modify r fun c =>
    { c with
      lastTcpPing := now
      netStats :=
        { udpPackets := message.udpPackets.getD 0
          tcpPackets := message.tcpPackets.getD 0
          udpPingAvg := message.udpPingAvg.getD 0
          udpPingVar := message.udpPingVar.getD 0
          tcpPingAvg := message.tcpPingAvg.getD 0
          tcpPingVar := message.tcpPingVar.getD 0 }
      crypt :=
        { c.crypt with
          remoteGood := message.good.getD 0
          remoteLate := message.late.getD 0
          remoteLost := message.lost.getD 0
          remoteResync := message.resync.getD 0 } }
  let crypt := (s.get r).crypt
  s.call r fun c => c.sendMessage (.Ping
    { timestamp := some (message.timestamp.getD 0)
      good := some crypt.good
      late := some crypt.late
      lost := some crypt.lost
      resync := some crypt.resync
      udpPackets := none
      tcpPackets := none
      udpPingAvg := none
      udpPingVar := none
      tcpPingAvg := none
      tcpPingVar := none })

def handleChannelState (s : ServerState) (r : ClientRef) (message : ChannelState) :
    ServerState × MumbleResult :=
  if message.channelId.isSome then (s, .ok ())
  else if message.parent.isNone then (s, .ok ())
  else if message.name.isNone then (s, .ok ())
  else if !message.temporary.getD false then (s, .ok ())
  else
    let name := message.name.getD ""
    if name.utf8ByteSize > 512 then (s, .ok ())
    else if !s.channels.contains (message.parent.getD 0) then (s, .ok ())
    else if (s.getChannelByName name).isSome then (s, .ok ())
    else
      let (s, channel) := s.addChannel message
      let s := s.broadcastMessage (.ChannelState channel.getChannelState)
      s.setClientChannel r channel.id

def handleCryptSetup (s : ServerState) (r : ClientRef) (now : Instant) (message : CryptSetup) :
    Exec (ServerState × MumbleResult) :=
  match message.clientNonce with
  | some clientNonce => do
      let crypt ← (s.get r).crypt.setDecryptNonce clientNonce
      return (s.modify r fun c => { c with crypt }, .ok ())
  | none => .ok (s.call r fun c => c.sendCryptSetup now false)

def PERM_DEFAULT : UInt32 := 0x2 ||| 0x4 ||| 0x8 ||| 0x100 ||| 0x200 ||| 0x400 ||| 0x800
def PERM_ADMIN : UInt32 := PERM_DEFAULT ||| 0x10 ||| 0x20 ||| 0x10000 ||| 0x20000

def handlePermissionQuery (s : ServerState) (r : ClientRef) (message : PermissionQuery) :
    ServerState × MumbleResult :=
  s.call r fun c =>
    c.sendMessage (.PermissionQuery ⟨some (message.channelId.getD 0), some PERM_ADMIN⟩)

def addListener (s : ServerState) (r : ClientRef) (channelId : UInt32) : ServerState :=
  let sessionId := (s.get r).sessionId
  { s with channels := s.channels.alterListeners channelId (HashIndex.insertNew sessionId r) }

def removeListener (s : ServerState) (r : ClientRef) (channelId : UInt32) : ServerState :=
  let sessionId := (s.get r).sessionId
  { s with channels := s.channels.alterListeners channelId fun m => m.erase sessionId }

def handleUserState (s : ServerState) (r : ClientRef) (message : UserState) :
    ServerState × MumbleResult :=
  if message.session.getD 0 ≠ (s.get r).sessionId then (s, .ok ())
  else
    let s := s.modify r fun c => c.update message
    let (s, joined) :=
      match message.channelId with
      | some channelId => s.setClientChannel r channelId
      | none => (s, .ok ())
    match joined with
    | .error e => (s, .error e)
    | .ok () =>
        let s := message.listeningChannelAdd.foldl (fun s k => s.addListener r k) s
        let s := message.listeningChannelRemove.foldl (fun s k => s.removeListener r k) s
        (s, .ok ())

-- The client's own figures stand in both directions, as in the source.
def handleUserStats (s : ServerState) (r : ClientRef) : ServerState × MumbleResult :=
  let crypt := (s.get r).crypt
  let stats := (s.get r).netStats
  let cryptStats : CryptStats :=
    ⟨crypt.remoteGood, crypt.remoteLate, crypt.remoteLost, crypt.remoteResync⟩
  s.call r fun c => c.sendMessage (.UserStats
    { session := some c.sessionId
      statsOnly := none
      fromClient := some cryptStats
      fromServer := some cryptStats
      udpPackets := some stats.udpPackets
      tcpPackets := some stats.tcpPackets
      udpPingAvg := some stats.udpPingAvg
      tcpPingAvg := some stats.tcpPingAvg
      tcpPingVar := some stats.tcpPingVar })

-- The slot's new content, and the keys its items add to the anticheat window.
def fillTarget (targets : List TargetItem) : VoiceTarget × List UInt64 :=
  targets.foldl (fun acc item =>
    let acc := item.session.foldl (fun (target, keys) session =>
      ({ target with sessions := HashIndex.insertNew session () target.sessions },
        keys ++ [keySession session])) acc
    match item.channelId with
    | some channelId =>
        ({ acc.1 with channels := HashIndex.insertNew channelId () acc.1.channels },
          acc.2 ++ [keyChannel channelId])
    | none => acc) (⟨∅, ∅⟩, [])

def handleVoiceTarget (s : ServerState) (r : ClientRef) (now : Instant)
    (message : VoiceTargetMessage) : ServerState × MumbleResult :=
  let id := message.id.getD 0
  if id < 1 ∨ id ≥ 31 then (s, .error .InvalidVoiceTarget)
  else
    match (s.get r).getTarget id.toUInt8 with
    | none => (s, .ok ())
    | some _ =>
        let (target, keys) := fillTarget message.targets
        let s := s.modify r fun c => c.setTarget id.toUInt8 target
        (s.modify r fun c => { c with ac := s.anticheat.recordTargets now keys c.ac }, .ok ())

-- `f32::from_le_bytes` of four bytes of the position.
def f32At (position : List UInt8) (i : Nat) : Exec Float32 := do
  let b0 ← index position i
  let b1 ← index position (i + 1)
  let b2 ← index position (i + 2)
  let b3 ← index position (i + 3)
  return Float32.ofBits (b0.toUInt32 ||| b1.toUInt32 <<< 8 ||| b2.toUInt32 <<< 16 |||
    b3.toUInt32 <<< 24)

-- The position is taken from a muted client's packets too.
def notePosition (s : ServerState) (r : ClientRef) (now : Instant) :
    VoicePacket .ClientBound → Exec ServerState
  | .Audio _ _ _ _ (some position) =>
      if 12 ≤ position.length then do
        let x ← f32At position 0
        let y ← f32At position 4
        let z ← f32At position 8
        return s.modify r fun c => { c with ac := s.anticheat.notePosition now x y z c.ac }
      else .ok s
  | _ => .ok s

-- Adds every entry of a map that is not there yet.
def addAll (m listening : HashIndex UInt32 ClientRef) : HashIndex UInt32 ClientRef :=
  m.entries.foldl (fun l e => HashIndex.insertNew e.1 e.2 l) listening

def sessionListeners (s : ServerState) (target : VoiceTarget) : HashIndex UInt32 ClientRef :=
  target.sessions.keys.foldl (fun l session =>
    match s.clients.lookup session with
    | some r => HashIndex.insertNew session r l
    | none => l) ∅

def channelListeners (s : ServerState) (target : VoiceTarget)
    (listening : HashIndex UInt32 ClientRef) : HashIndex UInt32 ClientRef :=
  target.channels.keys.foldl (fun l channelId =>
    match s.channels.lookup channelId with
    | some channel => addAll channel.clients (addAll channel.listeners l)
    | none => l) listening

-- Whom a packet to a target other than the loopback is for.
def listeningClients (s : ServerState) (r : ClientRef) (target : UInt8) :
    HashIndex UInt32 ClientRef :=
  if target = 0 then
    match s.getChannelByChannelId (s.get r).channelId with
    | some channel => addAll channel.clients ∅
    | none => ∅
  else if 1 ≤ target ∧ target ≤ 30 then
    match (s.get r).getTarget target with
    | some voiceTarget => s.channelListeners voiceTarget (s.sessionListeners voiceTarget)
    | none => ∅
  else ∅

-- At most once a second for each speaker.
def recordsHeard (s : ServerState) (r : ClientRef) (now : Instant) : Bool :=
  s.anticheat.enabled &&
    match (s.get r).ac.lastHeardRec with
    | some last => decide (now - last ≥ NANOS)
    | none => true

def noteHeard (s : ServerState) (speaker listener : ClientRef) (now : Instant) : ServerState :=
  let c := s.get speaker
  s.modify listener fun l =>
    { l with ac := s.anticheat.noteHeard now c.name c.sessionId c.peerIp l.ac }

-- Hands the packet to everyone on the list who is not deaf, and counts them.
def sendToAll (s : ServerState) (r : ClientRef) (now : Instant) (recordHeard : Bool)
    (packet : VoicePacket .ClientBound) (recipients : UInt32) :
    List ClientRef → ServerState × UInt32
  | [] => (s, recipients)
  | listener :: rest =>
      if (s.get listener).deaf then sendToAll s r now recordHeard packet recipients rest
      else
        let s := if recordHeard then s.noteHeard r listener now else s
        let s := s.trySend listener (.SendVoicePacket packet)
        sendToAll s r now recordHeard packet (recipients + 1) rest

def handleVoicePacket (s : ServerState) (r : ClientRef) (now : Instant)
    (packet : VoicePacket .ClientBound) : Exec (ServerState × MumbleResult) := do
  let s ← s.notePosition r now packet
  if (s.get r).mute then return (s, .ok ())
  match packet with
  | .Ping _ => return (s, .ok ())
  | .Audio target sessionId _ _ _ =>
      if target = 31 then
        let (c, result) ← (s.get r).sendVoicePacket packet
        return (s.set r c, result)
      let listening := (s.listeningClients r target).erase sessionId
      let recordHeard := s.recordsHeard r now
      let s :=
        if recordHeard then
          s.modify r fun c => { c with ac := { c.ac with lastHeardRec := some now } }
        else s
      let (s, recipients) := s.sendToAll r now recordHeard packet 0 (HashIndex.values listening)
      return (s.modify r fun c => { c with ac := s.anticheat.noteEmission recipients c.ac }, .ok ())

-- `handle_stream_read`, from the point where the frame is in the buffer or could not be
-- read.
def handleFrame (s : ServerState) (r : ClientRef) (now : Instant) :
    TcpFrame → Exec (ServerState × MumbleResult)
  | .Version => .ok (s, .ok ())
  | .UDPTunnel payload => do
      match ← decodeVoicePacket .ServerBound payload with
      | .error e => return (s, .error (.Decrypt e))
      | .ok packet =>
          s.handleVoicePacket r now
            (packet.intoClientBound (s.get r).sessionId s.removePositionalData)
  | .Authenticate => .ok (s, .ok ())
  | .Ping message => .ok (s.handlePing r now message)
  | .ChannelState message => .ok (s.handleChannelState r message)
  | .CryptSetup message => s.handleCryptSetup r now message
  | .PermissionQuery message => .ok (s.handlePermissionQuery r message)
  | .UserState message => .ok (s.handleUserState r message)
  | .VoiceTarget message => .ok (s.handleVoiceTarget r now message)
  | .UserStats _ => .ok (s.handleUserStats r)
  | .Malformed => .ok (s, .error .Parse)
  | .Unsupported kind => .ok (s, .error (.UnsupportedMessageKind kind))
  | .Unexpected kind => .ok (s, .error (.UnexpectedMessageKind kind))
  | .Lost => .ok (s, .error .Io)

-- What the task that empties the queue of a client does with one message.
def handleQueued (s : ServerState) (r : ClientRef) (now : Instant) :
    ClientMessage → Exec (ServerState × MumbleResult)
  | .RouteVoicePacket packet => s.handleVoicePacket r now packet
  | .SendVoicePacket packet => do
      let (c, result) ← (s.get r).sendVoicePacket packet
      return (s.set r c, result)
  | .SendMessage _ => .ok (s, (s.get r).send)

end ServerState

end Mumble
