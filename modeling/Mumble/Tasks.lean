import Mumble.Lib.Pool
import Mumble.State

/-!
The tasks of the server, one access to a map or an atomic at a time. `State` has
the same functions as whole operations.
-/

namespace Mumble

open Mumble.Lib

-- What the tasks share: the state, and the entries of its map of channels that a
-- task holds locked.
structure Shared where
  state : ServerState
  held : UInt32 → Bool

namespace Shared

def update (s : Shared) (state : ServerState) : Shared := { s with state }

def hold (s : Shared) (k : UInt32) : Shared := { s with held := Function.update s.held k true }

def release (s : Shared) (k : UInt32) : Shared := { s with held := Function.update s.held k false }

end Shared

-- What a step leaves to the environment. Most steps do not look at it.
inductive Choice where
  | Go
  -- a walk over the clients comes to this entry
  | Visit (client : ClientRef)
  -- a walk is over, a weak reference is dead, a handshake fails
  | Stop
  -- a client's loop reads the wish to go to this channel
  | Join (channelId : UInt32)
  -- the cleaner comes to this entry of the queue, or to this client at this time
  | Entry (sessionId : UInt32)
  | Look (client : ClientRef) (now : Instant)
  | Reset (now : Instant)
  deriving DecidableEq

-- Where a `broadcast_message` is.
inductive Telling where
  | Walk
  | Send (client : ClientRef)
  | Queue (sessionId : UInt32)

-- No stage is left once the walk is over.
def Telling.next (message : ServerMessage) (s : ServerState) (choice : Choice) :
    Telling → Option (ServerState × Option Telling)
  | .Walk =>
      match choice with
      | .Visit r => if r ∈ s.clients.values then some (s, some (.Send r)) else none
      | .Stop => some (s, none)
      | _ => none
  | .Send r =>
      let (s, accepted) := s.call r fun c => c.trySend (.SendMessage message)
      some (s, some (if accepted then .Walk else .Queue (s.get r).sessionId))
  | .Queue sessionId =>
      some (s.addClientToDisconnectQueue sessionId .ClientMSPCFull, some .Walk)

-- Where a `handle_client_left_channel` is. The entry of the channel is held at
-- `Remove` and `Check`.
inductive Leaving where
  | Enter
  | Remove
  | Check
  | Delete
  | Tell (stage : Telling)

def Leaving.next (clientSession leaveChannelId : UInt32) (s : Shared) (choice : Choice) :
    Leaving → Option (Shared × Option Leaving)
  | .Enter =>
      match s.state.channels.lookup leaveChannelId with
      | some _ =>
          if s.held leaveChannelId then none else some (s.hold leaveChannelId, some .Remove)
      | none => some (s, some .Delete)
  | .Remove =>
      let channels :=
        s.state.channels.alterClients leaveChannelId fun m => m.erase clientSession
      some (s.update { s.state with channels }, some .Check)
  | .Check =>
      match s.state.channels.lookup leaveChannelId with
      | some c =>
          if !c.temporary || !c.clients.entries.isEmpty then some (s.release leaveChannelId, none)
          else some (s.release leaveChannelId, some .Delete)
      | none => none
  | .Delete =>
      if (s.state.channels.contains leaveChannelId && s.held leaveChannelId) = true then none
      else
        let channels := s.state.channels.erase leaveChannelId
        some (s.update { s.state with channels }, some (.Tell .Walk))
  | .Tell stage =>
      (stage.next (.ChannelRemove leaveChannelId) s.state choice).map fun next =>
        (s.update next.1, next.2.map .Tell)

-- Where a `set_client_channel` is. `leave` is the channel the client comes from.
inductive Joining where
  | Load
  | Store (current : UInt32)
  | Find (leave : Option UInt32)
  -- the entry of the new channel is held
  | Insert (leave : Option UInt32)
  | Read (leave : Option UInt32)
  | Tell (leave : Option UInt32) (userState : UserState) (stage : Telling)
  | Leave (leaveChannelId : UInt32) (stage : Leaving)
  | Done (result : Except MumbleError Unit)

-- What follows once everybody has been told.
def Joining.afterTell (channelId : UInt32) : Option UInt32 → Joining
  | none => .Done (.ok ())
  | some leaveChannelId =>
      if leaveChannelId = channelId then .Done (.ok ()) else .Leave leaveChannelId .Enter

-- The walk over the channels at `Find` waits at the entry it looks for; it passes
-- by the others.
def Joining.next (r : ClientRef) (channelId : UInt32) (s : Shared) (choice : Choice) :
    Joining → Option (Shared × Joining)
  | .Load =>
      let current := (s.state.get r).channelId
      some (s, if channelId = current then .Find none else .Store current)
  | .Store current =>
      some (s.update (s.state.modify r fun c => { c with channelId }), .Find (some current))
  | .Find leave =>
      match s.state.channels.lookup channelId with
      | some _ => if s.held channelId then none else some (s.hold channelId, .Insert leave)
      | none => some (s, .Done (.error .ChannelDoesntExist))
  | .Insert leave =>
      let sessionId := (s.state.get r).sessionId
      let channels := s.state.channels.alterClients channelId (HashIndex.insertNew sessionId r)
      some ((s.update { s.state with channels }).release channelId, .Read leave)
  | .Read leave => some (s, .Tell leave (s.state.get r).getUserState .Walk)
  | .Tell leave userState stage =>
      (stage.next (.UserState userState) s.state choice).map fun next =>
        (s.update next.1,
          match next.2 with
          | some stage => .Tell leave userState stage
          | none => afterTell channelId leave)
  | .Leave leaveChannelId stage =>
      (stage.next (s.state.get r).sessionId leaveChannelId s choice).map fun next =>
        (next.1,
          match next.2 with
          | some stage => .Leave leaveChannelId stage
          | none => .Done (.ok ()))
  | .Done _ => none

-- Where a `disconnect` is.
inductive Disconnecting where
  | Lookup
  | Upgrade (client : ClientRef)
  | Remove (client : Option ClientRef)
  | Load (client : ClientRef)
  | RemoveUdp (client : ClientRef) (channelId : UInt32)
  | Count (client : ClientRef) (channelId : UInt32)
  | Cancel (client : ClientRef) (channelId : UInt32)
  | Swap (client : ClientRef) (channelId : UInt32)
  | Free (addr : SocketAddr) (channelId : UInt32)
  | Tell (channelId : UInt32) (stage : Telling)
  | Leave (channelId : UInt32) (stage : Leaving)
  | Find (channelId : UInt32)
  | Retain (channelId : UInt32)
  | Done

-- A weak reference is alive at least as long as the map of clients holds the
-- client. The writer is taken by a task of its own, here together with the token.
def Disconnecting.next (clientSession : UInt32) (s : Shared) (choice : Choice) :
    Disconnecting → Option (Shared × Disconnecting)
  | .Lookup =>
      match s.state.clients.lookup clientSession with
      | some r => some (s, .Upgrade r)
      | none => some (s, .Remove none)
  | .Upgrade r =>
      if choice = .Stop then
        if r ∈ s.state.clients.values then none else some (s, .Remove none)
      else some (s, .Remove (some r))
  | .Remove client =>
      if clientSession ∈ s.state.clients then
        let clients := s.state.clients.erase clientSession
        some (s.update { s.state with clients },
          match client with
          | some r => .Load r
          | none => .Done)
      else some (s, .Done)
  | .Load r => some (s, .RemoveUdp r (s.state.get r).channelId)
  | .RemoveUdp r channelId =>
      let clientsWithoutUdp := s.state.clientsWithoutUdp.erase clientSession
      some (s.update { s.state with clientsWithoutUdp }, .Count r channelId)
  | .Count r channelId =>
      some (s.update { s.state with activeClients := s.state.activeClients - 1 },
        .Cancel r channelId)
  | .Cancel r channelId =>
      some (s.update (s.state.modify r fun c => { c with cancelled := true, write := .Taken }),
        .Swap r channelId)
  | .Swap r channelId =>
      let (state, socket) := s.state.call r Client.removeUdpSocket
      some (s.update state,
        match socket with
        | some addr => .Free addr channelId
        | none => .Tell channelId .Walk)
  | .Free addr channelId =>
      some (s.update (s.state.removeClientBySocket addr), .Tell channelId .Walk)
  | .Tell channelId stage =>
      (stage.next (.UserRemove ⟨clientSession, some "Disconnected"⟩) s.state choice).map fun next =>
        (s.update next.1,
          match next.2 with
          | some stage => .Tell channelId stage
          | none => .Leave channelId .Enter)
  | .Leave channelId stage =>
      (stage.next clientSession channelId s choice).map fun next =>
        (next.1,
          match next.2 with
          | some stage => .Leave channelId stage
          | none => .Find channelId)
  | .Find channelId =>
      match s.state.channels.lookup channelId with
      | some _ => if s.held channelId then none else some (s, .Retain channelId)
      | none => some (s, .Done)
  | .Retain channelId =>
      let channels := s.state.channels.alterClients channelId fun m => m.erase clientSession
      some (s.update { s.state with channels }, .Done)
  | .Done => none

-- What an accepted connection brings along.
structure Newcomer where
  username : String
  crypt : CryptState
  write : Writer
  peerIp : String
  now : Instant

-- Where a connection is, from the moment it is accepted to the end of `add_client`.
inductive Connecting where
  | Handshake
  | Refused
  | Fetch
  | Check (sessionId : UInt32)
  | New (sessionId : UInt32)
  | Count (client : ClientRef) (sessionId : UInt32)
  | Insert (client : ClientRef) (sessionId : UInt32)
  | InsertUdp (client : ClientRef) (sessionId : UInt32)
  | Done (client : ClientRef) (sessionId : UInt32)

-- Whether the handshake, the version check and the ban check let a connection
-- through is the environment's choice.
def Connecting.next (newcomer : Newcomer) (s : Shared) (choice : Choice) :
    Connecting → Option (Shared × Connecting)
  | .Handshake => some (s, if choice = .Stop then .Refused else .Fetch)
  | .Refused => none
  | .Fetch =>
      some (s.update { s.state with sessionCount := s.state.sessionCount + 1 },
        .Check s.state.sessionCount)
  | .Check sessionId => some (s, if sessionId ∈ s.state.clients then .Fetch else .New sessionId)
  | .New sessionId =>
      let r := s.state.next
      let client := Client.new newcomer.username sessionId 0 newcomer.crypt newcomer.peerIp
        newcomer.write newcomer.now
      some (s.update { s.state.set r client with next := r + 1 }, .Count r sessionId)
  | .Count r sessionId =>
      some (s.update { s.state with activeClients := s.state.activeClients + 1 },
        .Insert r sessionId)
  | .Insert r sessionId =>
      let clients := HashIndex.insertNew sessionId r s.state.clients
      some (s.update { s.state with clients }, .InsertUdp r sessionId)
  | .InsertUdp r sessionId =>
      let clientsWithoutUdp := HashIndex.insertNew sessionId r s.state.clientsWithoutUdp
      some (s.update { s.state with clientsWithoutUdp }, .Done r sessionId)
  | .Done _ _ => none

inductive Task where
  -- the loop that reads a client's stream, at its latest `set_client_channel`
  | Client (client : ClientRef) (channelId : UInt32) (stage : Joining)
  | Disconnect (clientSession : UInt32) (stage : Disconnecting)
  | Connect (newcomer : Newcomer) (stage : Connecting)

namespace Task

def next (s : Shared) (choice : Choice) : Task → Option (Shared × Task)
  | .Client r _ (.Done _) =>
      match choice with
      | .Join channelId => some (s, .Client r channelId .Load)
      | _ => none
  | .Client r channelId stage =>
      (stage.next r channelId s choice).map fun next => (next.1, .Client r channelId next.2)
  | .Disconnect clientSession stage =>
      (stage.next clientSession s choice).map fun next => (next.1, .Disconnect clientSession next.2)
  | .Connect newcomer stage =>
      (stage.next newcomer s choice).map fun next => (next.1, .Connect newcomer next.2)

-- The call the task was made for has returned.
def finished : Task → Bool
  | .Client _ _ (.Done _) => true
  | .Disconnect _ .Done => true
  | .Connect _ (.Done _ _) => true
  | .Connect _ .Refused => true
  | _ => false

end Task

-- The server with no task under way.
def ServerState.idle (s : ServerState) : Pool Shared Task := ⟨⟨s, fun _ => false⟩, []⟩

-- The choices of the task at a place, one after the other.
def turnsOf {τ : Type} (place : Nat) (choices : List Choice) : List (Turn Choice τ) :=
  choices.map fun choice => .Next place choice

end Mumble
