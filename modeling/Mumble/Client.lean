import Mumble.Anticheat
import Mumble.Proto

namespace Mumble

open Mumble.Lib

-- A socket address, as the operating system reports it.
structure SocketAddr where
  ip : String
  port : UInt16
  deriving DecidableEq, Repr

structure VoiceTarget where
  sessions : HashIndex UInt32 Unit
  channels : HashIndex UInt32 Unit

structure NetStats where
  udpPackets : UInt32
  tcpPackets : UInt32
  udpPingAvg : Float32
  udpPingVar : Float32
  tcpPingAvg : Float32
  tcpPingVar : Float32

def QUEUE_CAPACITY : Nat := 4096

-- The write half of a client's stream.
inductive Writer where
  | Open
  -- the peer takes no bytes at the moment, a write waits
  | Blocked
  -- the peer is gone, a write fails
  | Broken
  -- dropped by a disconnect
  | Taken
  deriving DecidableEq, Repr

-- What the peer makes of it. A stream that is broken stays so, and only a disconnect
-- takes it away.
def Writer.become : Writer → Writer → Writer
  | .Broken, _ => .Broken
  | .Taken, _ => .Taken
  | write, .Taken => write
  | _, write => write

-- What becomes of a datagram that is sent to a client.
inductive Link where
  | Up
  | Failing
  -- the socket does not take it within ten milliseconds
  | Slow
  deriving DecidableEq, Repr

def Link.sendTo : Link → Except MumbleError Unit
  | .Up => .ok ()
  | .Failing => .error .Io
  | .Slow => .error .PacketDiscarded

structure Client where
  name : String
  netStats : NetStats
  sessionId : UInt32
  channelId : UInt32
  mute : Bool
  deaf : Bool
  write : Writer
  link : Link
  crypt : CryptState
  udpSocketAddr : Option SocketAddr
  cancelled : Bool
  -- whether the task that reads the stream has ended, and whether `client_run` has returned
  stopped : Bool
  finished : Bool
  -- the queue behind `publisher`, and whether its receiver is gone, with the task that has it
  queue : List ClientMessage
  closed : Bool
  targets : Vector VoiceTarget 30
  lastTcpPing : Instant
  lastUdpPing : Instant
  badNetCount : UInt32
  peerIp : String
  ac : AcStats
  -- Not in the source: everything sent to the client or put in its queue, in
  -- order, and whether a message was lost because the queue was full.
  sent : List ClientMessage
  dropped : Bool

namespace Client

def new (name : String) (sessionId channelId : UInt32) (crypt : CryptState) (peerIp : String)
    (write : Writer) (now : Instant) : Client where
  name := name
  netStats := ⟨0, 0, 0, 0, 0, 0⟩
  sessionId := sessionId
  channelId := channelId
  mute := false
  deaf := false
  write := write
  link := .Up
  crypt := crypt
  udpSocketAddr := none
  cancelled := false
  stopped := false
  finished := false
  queue := []
  closed := false
  targets := Vector.replicate 30 ⟨∅, ∅⟩
  lastTcpPing := now
  lastUdpPing := now
  badNetCount := 0
  peerIp := peerIp
  ac := .new now
  sent := []
  dropped := false

-- Voice targets 0 and 31 are never stored, so the index is one less. The
-- subtraction wraps in a release build.
def getTarget (c : Client) (id : UInt8) : Option VoiceTarget := c.targets[(id - 1).toNat]?

def setTarget (c : Client) (id : UInt8) (target : VoiceTarget) : Client :=
  { c with targets := c.targets.setIfInBounds (id - 1).toNat target }

def setMute (c : Client) (mute : Bool) : Client := { c with mute }

def setDeaf (c : Client) (deaf : Bool) : Client := { c with deaf }

-- Whether a write gets its bytes out. Nothing but the cancelled token, which takes the
-- stream away, ends a write that waits.
def send (c : Client) : Except MumbleError Unit :=
  if c.cancelled then .error .WritterShutDown
  else
    match c.write with
    | .Open => .ok ()
    | .Blocked => .error .Waiting
    | .Broken => .error .Io
    | .Taken => .error .WritterShutDown

def sendMessage (c : Client) (message : ServerMessage) : Client × Except MumbleError Unit :=
  match c.send with
  | .ok () => ({ c with sent := c.sent ++ [.SendMessage message] }, .ok ())
  | .error e => (c, .error e)

-- `publisher.try_send`.
def trySend (c : Client) (message : ClientMessage) : Client × Bool :=
  if c.closed then (c, false)
  else if QUEUE_CAPACITY ≤ c.queue.length then ({ c with dropped := true }, false)
  else ({ c with queue := c.queue ++ [message], sent := c.sent ++ [message] }, true)

def removeUdpSocket (c : Client) : Client × Option SocketAddr :=
  ({ c with udpSocketAddr := none }, c.udpSocketAddr)

def sendCryptSetup (c : Client) (now : Instant) (reset : Bool) :
    Client × Except MumbleError Unit :=
  let c := if reset then { c with crypt := c.crypt.reset now } else c
  c.sendMessage (.CryptSetup c.crypt.getCryptSetup)

def getUserState (c : Client) : UserState where
  session := some c.sessionId
  userId := some c.sessionId
  channelId := some c.channelId
  name := some c.name
  mute := none
  deaf := none
  listeningChannelAdd := []
  listeningChannelRemove := []

def sendMyUserState (c : Client) : Client × Except MumbleError Unit :=
  c.sendMessage (.UserState c.getUserState)

def MAX_BANDWIDTH_IN_BITS : UInt32 := 144000

def sendServerSync (c : Client) : Client × Except MumbleError Unit :=
  c.sendMessage (.ServerSync ⟨c.sessionId, MAX_BANDWIDTH_IN_BITS, "SoZ Mumble Server"⟩)

def sendServerConfig (c : Client) : Client × Except MumbleError Unit :=
  c.sendMessage (.ServerConfig ⟨false, 0, 0⟩)

-- Over UDP if the client is bound to an address, through the stream if not.
def sendVoicePacket (c : Client) (packet : VoicePacket .ClientBound) :
    Exec (Client × Except MumbleError Unit) :=
  match c.udpSocketAddr with
  | some _ => do
      let (crypt, _) ← c.crypt.encrypt packet []
      return ({ c with crypt }, c.link.sendTo)
  | none => .ok (c.sendMessage (.UDPTunnel (encodeVoicePacket packet [])))

def update (c : Client) (state : UserState) : Client :=
  let c :=
    match state.mute with
    | some mute => c.setMute mute
    | none => c
  match state.deaf with
  | some deaf => c.setDeaf deaf
  | none => c

def joinChannel (c : Client) (channelId : UInt32) : Client × Option UInt32 :=
  if channelId = c.channelId then (c, none) else ({ c with channelId }, some c.channelId)

end Client

end Mumble
