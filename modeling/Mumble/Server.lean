import Mumble.Handler

namespace Mumble

open Mumble.Lib

namespace ServerState

-- The `?` operator.
def andThen (x : ServerState × MumbleResult) (f : ServerState → ServerState × MumbleResult) :
    ServerState × MumbleResult :=
  match x with
  | (s, .ok ()) => f s
  | (s, .error e) => (s, .error e)

-- Writes messages to a client one after the other, up to the first failure.
def sendAll (s : ServerState) (r : ClientRef) : List ServerMessage → ServerState × MumbleResult
  | [] => (s, .ok ())
  | message :: rest => andThen (s.call r fun c => c.sendMessage message) fun s => sendAll s r rest

def syncClientAndChannels (s : ServerState) (r : ClientRef) : ServerState × MumbleResult :=
  let channels := s.channels.index.values.map fun c => ServerMessage.ChannelState c.getChannelState
  let clients := s.clients.values.map fun c => ServerMessage.UserState (s.get c).getUserState
  andThen (s.sendAll r channels) fun s => s.sendAll r clients

-- `client_run` up to the point where it waits for the client's two tasks.
def clientRun (s : ServerState) (r : ClientRef) : ServerState × MumbleResult :=
  andThen (s.call r fun c => c.sendMessage (.CodecVersion codecVersion)) fun s =>
  andThen (s.syncClientAndChannels r) fun s =>
  andThen (s.call r Client.sendMyUserState) fun s =>
  andThen (s.call r Client.sendServerSync) fun s =>
  andThen (s.call r Client.sendServerConfig) fun s =>
    (s.broadcastMessage (.UserState (s.get r).getUserState), .ok ())

-- `client_run` returns: its two tasks are stopped, with which the receiver of the queue
-- is gone, and the connection is closed.
def endLoop (s : ServerState) (r : ClientRef) : ServerState :=
  let s := s.modify r fun c => { c with stopped := true, closed := true, finished := true }
  s.disconnect (s.get r).sessionId

-- A connection from the moment it is accepted. One that is refused leaves the
-- state alone, so the handshake before it is no part of a run.
def handleNewClient (s : ServerState) (username peerIp : String) (key : Vector UInt8 KEY_SIZE)
    (write : Writer) (now : Instant) : ServerState × MumbleResult :=
  if MAX_CLIENTS ≤ s.activeClients.toNat then (s, .ok ())
  else if (s.bans.isBanned peerIp (namePart username)).isSome then
    (s, .error (.UnknownError ("banned: " ++ username)))
  else
    let (s, r) := s.addClient username (.default key (.new key) now) write peerIp now
    let s := if s.bans.isMuted peerIp (namePart username) then s.modify r (·.setMute true) else s
    match s.clientRun r with
    | (s, .ok ()) => (s, .ok ())
    | (s, .error .Waiting) => (s, .error .Waiting)
    -- the error is dropped
    | (s, .error _) => (s.endLoop r, .ok ())

-- The two tasks of a client: one reads its stream, the other empties its queue.
inductive Loop where
  | Tcp
  | Queue
  deriving DecidableEq, Repr

-- Neither of them looks at whether the client is connected. The `select!` in their loops
-- may take a frame or a message when the token is cancelled already.
def loops (s : ServerState) (r : ClientRef) : Loop → Bool
  | .Tcp => decide (r < s.next) && !(s.get r).stopped
  | .Queue => decide (r < s.next) && !(s.get r).closed

def stop (s : ServerState) (r : ClientRef) : Loop → ServerState
  | .Tcp => s.modify r fun c => { c with stopped := true }
  | .Queue => s.modify r fun c => { c with closed := true }

-- The two loops of a client have one counter. The loop whose failure finds it above
-- twenty ends. A turn that waits is not over.
def countFailure (s : ServerState) (r : ClientRef) (loop : Loop) : MumbleResult → ServerState
  | .ok () | .error .Waiting => s
  | .error _ =>
      let badCount := (s.get r).badNetCount
      let s := s.modify r fun c => { c with badNetCount := badCount + 1 }
      if badCount > 20 then s.stop r loop else s

-- The client is there and its token is not cancelled.
def running (s : ServerState) (r : ClientRef) : Bool :=
  decide (r < s.next) && !(s.get r).cancelled

-- One turn of the loop that reads a client's stream.
def readFrame (s : ServerState) (r : ClientRef) (now : Instant) (frame : TcpFrame) :
    Exec (ServerState × MumbleResult) :=
  if s.loops r .Tcp then do
    let (s, result) ← s.handleFrame r now frame
    return (s.countFailure r .Tcp result, result)
  else .ok (s, .ok ())

-- One turn of the loop that empties a client's queue.
def consume (s : ServerState) (r : ClientRef) (now : Instant) :
    Exec (ServerState × MumbleResult) :=
  if s.loops r .Queue then
    match (s.get r).queue with
    | [] => .ok (s, .ok ())
    | message :: rest => do
        let s := s.modify r fun c => { c with queue := rest }
        let (s, result) ← s.handleQueued r now message
        return (s.countFailure r .Queue result, result)
  else .ok (s, .ok ())

-- The answer to a server list ping.
def pingAnonymous (s : ServerState) (protocolVersion : UInt32) (timestamp : UInt64) :
    List UInt8 :=
  toBeBytes (n := 4) protocolVersion.toBitVec ++ toLeBytes (n := 8) timestamp.toBitVec ++
    toBeBytes (n := 4) s.activeClients.toBitVec ++
    toBeBytes (n := 4) (BitVec.ofNat 32 MAX_CLIENTS) ++
    toBeBytes (n := 4) Client.MAX_BANDWIDTH_IN_BITS.toBitVec

-- The datagram that is sent back, if any.
abbrev UdpResult := Except MumbleError (Option (List UInt8))

-- What follows once a datagram is decrypted.
def routePacket (s : ServerState) (r : ClientRef) (now : Instant)
    (packet : VoicePacket .ServerBound) : Exec (ServerState × UdpResult) :=
  match packet.intoClientBound (s.get r).sessionId s.removePositionalData with
  | .Ping timestamp => do
      let (crypt, dest) ← (s.get r).crypt.encrypt (.Ping timestamp : VoicePacket .ClientBound) []
      return (s.modify r fun c => { c with crypt, lastUdpPing := now }, .ok (some dest))
  | clientPacket => .ok (s.trySend r (.RouteVoicePacket clientPacket), .ok none)

-- Whether a datagram that cannot be decrypted makes the server start over with
-- the client's crypt state.
def restartsCrypt (crypt : CryptState) (now : Instant) (error : DecryptError) : Bool :=
  (match error with
    | .Late => decide (crypt.late > 100)
    | .Repeat => false
    | _ => true) || decide ((now - crypt.lastGood) / NANOS > 5)

-- An error of the call is logged and no more.
def logged : ServerState × MumbleResult → ServerState × MumbleResult
  | (s, .error .Waiting) => (s, .error .Waiting)
  | (s, _) => (s, .ok ())

-- A datagram from an address that is bound to a client.
def handleKnown (s : ServerState) (r : ClientRef) (now : Instant) (buffer : List UInt8) :
    Exec (ServerState × UdpResult) := do
  let (crypt, result) ← (s.get r).crypt.decrypt .ServerBound now buffer
  let s := s.modify r fun c => { c with crypt }
  match result with
  | .ok packet => s.routePacket r now packet
  | .error e =>
      let (s, done) :=
        if restartsCrypt crypt now e then logged (s.resetClientCrypt r now) else (s, .ok ())
      return (s, done.map fun _ => none)

-- The order in which the map of clients without an address yields its entries is
-- the environment's choice.
def candidates (s : ServerState) (order : List ClientRef) : List ClientRef :=
  if order.Perm s.clientsWithoutUdp.values then order else s.clientsWithoutUdp.values

-- A datagram from an address that is bound to no client.
def handleUnknown (s : ServerState) (now : Instant) (addr : SocketAddr) (buffer : List UInt8)
    (order : List ClientRef) : Exec (ServerState × UdpResult) := do
  match ← s.findClientWithDecrypt now buffer addr (s.candidates order) with
  | (s, some (r, packet)) => s.routePacket r now packet
  | (s, none) => return (s, .ok none)

def UDP_BUFFER_SIZE : Nat := 1024

-- `handle_packet`, on what the socket put into its buffer.
def handlePacket (s : ServerState) (protocolVersion : UInt32) (now : Instant) (addr : SocketAddr)
    (datagram : List UInt8) (order : List ClientRef) : Exec (ServerState × UdpResult) := do
  let buffer := datagram.take UDP_BUFFER_SIZE
  if buffer.length ≤ 1 then return (s, .error (.UnknownError "Invalid packet"))
  match (Cursor.new buffer).readU8 with
  | .error _ => return (s, .error .Io)
  | .ok (header, cursor) =>
      if (header >>> 5) &&& 0x7 = 0 ∧ buffer.length = 12 then
        match cursor.readVarint with
        | .error _ => return (s, .error .Io)
        | .ok (timestamp, _) => return (s, .ok (some (s.pingAnonymous protocolVersion timestamp)))
      match s.getClientBySocket addr with
      | some r => s.handleKnown r now buffer
      | none => s.handleUnknown now addr buffer order

-- What one pass over the clients decides.
structure CleanPlan where
  clientsToRemove : HashIndex UInt32 DisconnectReason
  clientsToResetCrypt : List ClientRef

def inspectClient (s : ServerState) (now : Instant) (plan : CleanPlan) (r : ClientRef) :
    CleanPlan :=
  let c := s.get r
  let remove (reason : DisconnectReason) :=
    { plan with clientsToRemove := HashIndex.insertNew c.sessionId reason plan.clientsToRemove }
  let resetCrypt := { plan with clientsToResetCrypt := plan.clientsToResetCrypt ++ [r] }
  if c.closed then remove .LostReceivingChannel
  else if (now - c.lastUdpPing) / NANOS > 30 then resetCrypt
  else if (now - c.lastTcpPing) / NANOS > 10 then remove .ClientTimedOutTcp
  else if (now - c.crypt.lastGood) / 1000000 > 8000 then resetCrypt
  else plan

def cleanPlan (s : ServerState) (now : Instant) : CleanPlan :=
  s.clients.values.foldl (fun plan r => s.inspectClient now plan r)
    ⟨s.disconnectQueue.entries.foldl (fun m e => HashIndex.insertNew e.1 e.2 m) ∅, []⟩

-- One reset after the other. One that waits holds up the rest.
def resetAll (s : ServerState) (now : Instant) : List ClientRef → ServerState × MumbleResult
  | [] => (s, .ok ())
  | r :: rest => andThen (logged (s.resetClientCrypt r now)) fun s => resetAll s now rest

-- The clients are removed once all the resets are done.
def cleanRun (s : ServerState) (now : Instant) : ServerState × MumbleResult :=
  let plan := s.cleanPlan now
  let s := { s with disconnectQueue := ∅ }
  andThen (s.resetAll now plan.clientsToResetCrypt) fun s =>
    (plan.clientsToRemove.keys.foldl (fun s sessionId => s.disconnect sessionId) s, .ok ())

inductive UserAction where
  | Block
  | Unblock
  | Kick
  | Reset
  | Ban
  deriving DecidableEq, Repr

-- The calls of the HTTP interface that change the state.
inductive AdminRequest where
  | PostMute (user : String) (mute : Bool)
  | PostDeaf (user : String) (deaf : Bool)
  | PostAnticheatUser (user : String) (action : UserAction)
  | PostAnticheatUnban (id : UInt64)
  | PostAnticheatConfig (config : AnticheatConfig)
  | PostAnticheatClear
  | PostHeardClear (sessionId : UInt32)

def applyAction (s : ServerState) (r : ClientRef) : UserAction → ServerState
  | .Block =>
      let c := s.get r
      let bans := s.bans.add .Mute (some c.peerIp) (some (namePart c.name)) c.name "mute manuel"
      { s with bans }.modify r fun c => { c with ac := { c.ac with exempt := false }, mute := true }
  | .Unblock =>
      let c := s.get r
      let bans := s.bans.removeMatching c.peerIp (namePart c.name) .Mute
      { s with bans }.modify r fun c => { c with ac := { c.ac with exempt := true }, mute := false }
  | .Kick => s.addClientToDisconnectQueue (s.get r).sessionId .Anticheat
  | .Reset => s.modify r fun c => { c with ac := c.ac.resetCounters }
  | .Ban =>
      let c := s.get r
      let bans := s.bans.add .Ban (some c.peerIp) (some (namePart c.name)) c.name "banni via panel"
      { s with bans }.addClientToDisconnectQueue c.sessionId .Anticheat

def onNamed (s : ServerState) (user : String) (f : ServerState → ClientRef → ServerState) :
    ServerState :=
  match s.getClientByName user with
  | some r => f s r
  | none => s

def handleAdmin (s : ServerState) : AdminRequest → ServerState
  | .PostMute user mute => s.onNamed user fun s r => s.modify r (·.setMute mute)
  | .PostDeaf user deaf => s.onNamed user fun s r => s.modify r (·.setDeaf deaf)
  | .PostAnticheatUser user action => s.onNamed user fun s r => s.applyAction r action
  | .PostAnticheatUnban id => { s with bans := s.bans.remove id }
  | .PostAnticheatConfig config => { s with anticheat := config }
  | .PostAnticheatClear =>
      s.clients.values.foldl (fun s r => s.modify r fun c => { c with ac := c.ac.resetCounters }) s
  | .PostHeardClear sessionId =>
      match s.clients.lookup sessionId with
      | some r => s.modify r fun c => { c with ac := { c.ac with heard := ∅ } }
      | none => s

-- What `flag` does to the state when the sampler finds a client suspicious.
def flag (s : ServerState) (r : ClientRef) (now : Instant) (reason : String) : ServerState :=
  let c := s.get r
  if now - c.ac.lastFlag < FLAG_COOLDOWN then s
  else
    let s := s.modify r fun c =>
      { c with ac := { c.ac with lastFlag := now, flags := c.ac.flags + 1 } }
    if c.ac.exempt then s
    else
      match s.anticheat.action with
      | .Log => s
      | .Mute => s.modify r (·.setMute true)
      | .Kick => s.addClientToDisconnectQueue c.sessionId .Anticheat
      | .Ban =>
          let bans := s.bans.add .Ban (some c.peerIp) (some (namePart c.name)) c.name
            ("ban auto anticheat : " ++ reason)
          { s with bans }.addClientToDisconnectQueue c.sessionId .Anticheat

end ServerState

-- What can happen to the server. Each is an operation of the source from its start to its
-- end, or to the write it waits for.
inductive Event where
  | Connect (username peerIp : String) (key : Vector UInt8 KEY_SIZE) (write : Writer)
  | Tcp (client : ClientRef) (frame : TcpFrame)
  | Consume (client : ClientRef)
  | Udp (addr : SocketAddr) (datagram : List UInt8) (order : List ClientRef)
  | CleanRun
  -- a task of the client sees that the token is cancelled
  | Quit (client : ClientRef) (loop : ServerState.Loop)
  -- one of its tasks has ended
  | EndLoop (client : ClientRef)
  -- what the network makes of the client's stream and of datagrams to it
  | Network (client : ClientRef) (write : Writer) (link : Link)
  | Admin (request : ServerState.AdminRequest)
  | Flag (client : ClientRef) (reason : String)

-- `version` of `main`, handed to the UDP server.
def PROTOCOL_VERSION : UInt32 := (1 : UInt32) <<< 16 ||| (4 : UInt32) <<< 8 ||| 0

namespace ServerState

def step (s : ServerState) (now : Instant) : Event → Exec (ServerState × MumbleResult)
  | .Connect username peerIp key write => .ok (s.handleNewClient username peerIp key write now)
  | .Tcp r frame => s.readFrame r now frame
  | .Consume r => s.consume r now
  | .Udp addr datagram order => do
      let (s, result) ← s.handlePacket PROTOCOL_VERSION now addr datagram order
      return (s, result.map fun _ => ())
  | .CleanRun => .ok (s.cleanRun now)
  | .Quit r loop =>
      .ok (if s.loops r loop ∧ (s.get r).cancelled then s.stop r loop else s, .ok ())
  | .EndLoop r =>
      let c := s.get r
      .ok (if r < s.next ∧ (c.stopped ∨ c.closed) ∧ ¬c.finished then s.endLoop r else s, .ok ())
  | .Network r write link =>
      .ok (s.modify r fun c => { c with write := c.write.become write, link }, .ok ())
  | .Admin request => .ok (s.handleAdmin request, .ok ())
  | .Flag r reason => .ok (if s.running r then s.flag r now reason else s, .ok ())

end ServerState

end Mumble
