import Mumble.Reachable

/-!
A client's stream: the frames that stand in it, and the loop that reads them and hands
them to their handlers (`handle_stream_read`).
-/

namespace Mumble

open Mumble.Lib

inductive MessageKind where
  | Version
  | UDPTunnel
  | Authenticate
  | Ping
  | Reject
  | ServerSync
  | ChannelRemove
  | ChannelState
  | UserRemove
  | UserState
  | BanList
  | TextMessage
  | PermissionDenied
  | Acl
  | QueryUsers
  | CryptSetup
  | ContextActionModify
  | ContextAction
  | UserList
  | VoiceTarget
  | PermissionQuery
  | CodecVersion
  | UserStats
  | RequestBlob
  | ServerConfig
  | SuggestConfig
  deriving DecidableEq, Repr

namespace MessageKind

-- In the order of their numbers, from 0 on.
def all : List MessageKind :=
  [.Version, .UDPTunnel, .Authenticate, .Ping, .Reject, .ServerSync, .ChannelRemove,
    .ChannelState, .UserRemove, .UserState, .BanList, .TextMessage, .PermissionDenied, .Acl,
    .QueryUsers, .CryptSetup, .ContextActionModify, .ContextAction, .UserList, .VoiceTarget,
    .PermissionQuery, .CodecVersion, .UserStats, .RequestBlob, .ServerConfig, .SuggestConfig]

def toU16 (kind : MessageKind) : UInt16 := UInt16.ofNat (all.idxOf kind)

def tryFrom (value : UInt16) : Except MumbleError MessageKind :=
  match all[value.toNat]? with
  | some kind => .ok kind
  | none => .error (.UnexpectedMessageKind value)

end MessageKind

-- The protobuf library, for the kinds that a client may send.
structure Protobuf where
  version : List UInt8 → Option Unit
  authenticate : List UInt8 → Option Unit
  ping : List UInt8 → Option PingMessage
  channelState : List UInt8 → Option ChannelState
  cryptSetup : List UInt8 → Option CryptSetup
  permissionQuery : List UInt8 → Option PermissionQuery
  userState : List UInt8 → Option UserState
  voiceTarget : List UInt8 → Option VoiceTargetMessage
  userStats : List UInt8 → Option UserStats

-- What the buffer of a frame holds.
def Protobuf.frame (pb : Protobuf) (kind : UInt16) (buf : List UInt8) : TcpFrame :=
  let parsed {α : Type} (message : Option α) (f : α → TcpFrame) := (message.map f).getD .Malformed
  match MessageKind.tryFrom kind with
  | .error _ => .Unexpected kind
  | .ok .Version => parsed (pb.version buf) fun _ => .Version
  | .ok .UDPTunnel => .UDPTunnel buf
  | .ok .Authenticate => parsed (pb.authenticate buf) fun _ => .Authenticate
  | .ok .Ping => parsed (pb.ping buf) .Ping
  | .ok .ChannelState => parsed (pb.channelState buf) .ChannelState
  | .ok .CryptSetup => parsed (pb.cryptSetup buf) .CryptSetup
  | .ok .PermissionQuery => parsed (pb.permissionQuery buf) .PermissionQuery
  | .ok .UserState => parsed (pb.userState buf) .UserState
  | .ok .VoiceTarget => parsed (pb.voiceTarget buf) .VoiceTarget
  | .ok .UserStats => parsed (pb.userStats buf) .UserStats
  | .ok _ => .Unsupported kind

-- The bytes of a frame of any kind.
def frameBytes (kind : UInt16) (bytes : List UInt8) : List UInt8 :=
  toBeBytes (n := 2) kind.toBitVec ++ toBeBytes (n := 4) (BitVec.ofNat 32 bytes.length) ++ bytes

def getMumbleBuffer (kind : MessageKind) (bytes : List UInt8) : List UInt8 :=
  frameBytes kind.toU16 bytes

-- A stream is what the peer sends before it closes. A read that asks for more than is
-- left takes what there is and fails.

def readExact (size : Nat) (stream : List UInt8) : Except MumbleError (List UInt8) × List UInt8 :=
  if size ≤ stream.length then (.ok (stream.take size), stream.drop size) else (.error .Io, [])

def readU16 (stream : List UInt8) : Except MumbleError UInt16 × List UInt8 :=
  let (bytes, stream) := readExact 2 stream
  (bytes.map fun bytes => UInt16.ofBitVec (fromBeBytes 2 bytes), stream)

def readU32 (stream : List UInt8) : Except MumbleError UInt32 × List UInt8 :=
  let (bytes, stream) := readExact 4 stream
  (bytes.map fun bytes => UInt32.ofBitVec (fromBeBytes 4 bytes), stream)

-- The loop of a client between two turns.
structure Reading where
  state : ServerState
  stream : List UInt8
  -- Not in the source: kind and payload of the frames that were handled, in order.
  handled : List (UInt16 × List UInt8)

namespace Reading

def handleStreamRead (pb : Protobuf) (r : ClientRef) (now : Instant) (p : Reading)
    (kind : Except MumbleError UInt16) : Exec (Reading × MumbleResult) :=
  match kind with
  | .error e => .ok (p, .error e)
  | .ok kind =>
      match readU32 p.stream with
      | (.error e, stream) => .ok ({ p with stream }, .error e)
      | (.ok size, stream) =>
          match readExact size.toNat stream with
          | (.error e, stream) => .ok ({ p with stream }, .error e)
          | (.ok buf, stream) => do
              let (state, result) ← p.state.handleFrame r now (pb.frame kind buf)
              return (⟨state, stream, p.handled ++ [(kind, buf)]⟩, result)

-- One turn of the loop.
def readNext (pb : Protobuf) (r : ClientRef) (now : Instant) (p : Reading) :
    Exec (Reading × MumbleResult) := do
  let (kind, stream) := readU16 p.stream
  let (p, result) ← handleStreamRead pb r now { p with stream } kind
  return ({ p with state := p.state.countFailure r .Tcp result }, result)

end Reading

-- A frame that can be written: its size has to fit into 32 bits.
structure Frame where
  kind : UInt16
  payload : List UInt8
  fits : payload.length < 2 ^ 32

namespace Frame

def bytes (f : Frame) : List UInt8 := frameBytes f.kind f.payload

-- Frames one after the other.
def wire (frames : List Frame) : List UInt8 := frames.flatMap bytes

def content (f : Frame) : UInt16 × List UInt8 := (f.kind, f.payload)

end Frame

theorem readExact_append {size : Nat} (bytes rest : List UInt8) (h : bytes.length = size) :
    readExact size (bytes ++ rest) = (.ok bytes, rest) := by
  subst h
  rw [readExact, if_pos (by simp)]
  simp

theorem readU16_append (kind : UInt16) (rest : List UInt8) :
    readU16 (toBeBytes (n := 2) kind.toBitVec ++ rest) = (.ok kind, rest) := by
  rw [readU16, readExact_append _ _ (length_toBeBytes _)]
  simp only [Except.map, fromBeBytes_toBeBytes]

theorem readU32_append (size : BitVec 32) (rest : List UInt8) :
    readU32 (toBeBytes (n := 4) size ++ rest) = (.ok (UInt32.ofBitVec size), rest) := by
  rw [readU32, readExact_append _ _ (length_toBeBytes _)]
  simp only [Except.map, fromBeBytes_toBeBytes]

namespace Reading

variable {pb : Protobuf} {r : ClientRef} {p p' : Reading}

-- Whatever becomes of a frame, the call takes it from the stream as a whole.
theorem readNext_frame (now : Instant) (f : Frame) (rest : List UInt8)
    (hstream : p.stream = f.bytes ++ rest) :
    p.readNext pb r now = (p.state.handleFrame r now (pb.frame f.kind f.payload)).map fun x =>
      (⟨x.1.countFailure r .Tcp x.2, rest, p.handled ++ [f.content]⟩, x.2) := by
  have hsize : (UInt32.ofBitVec (BitVec.ofNat 32 f.payload.length)).toNat = f.payload.length := by
    have hfits := f.fits
    change f.payload.length % 2 ^ 32 = f.payload.length
    omega
  unfold readNext
  rw [hstream, Frame.bytes, frameBytes, List.append_assoc, List.append_assoc, readU16_append]
  dsimp only
  unfold handleStreamRead
  dsimp only
  rw [readU32_append]
  dsimp only
  rw [hsize, readExact_append _ _ rfl]
  dsimp only
  cases p.state.handleFrame r now (pb.frame f.kind f.payload) with
  | error e => rfl
  | ok x => rfl

-- At the end of the stream every call fails.
theorem readNext_end (now : Instant) (hstream : p.stream = []) :
    p.readNext pb r now =
      .ok ({ p with state := p.state.countFailure r .Tcp (.error .Io) }, .error .Io) := by
  obtain ⟨state, stream, handled⟩ := p
  subst hstream
  rfl

end Reading

-- What happens in the life of a read loop: a turn of its own, or anything that changes
-- the server from outside.
inductive ReadLabel where
  | Call (now : Instant) (result : MumbleResult)
  | Other (state : ServerState)

def ReadLabel.isCall : ReadLabel → Bool
  | .Call _ _ => true
  | .Other _ => false

namespace Reading

-- A loop that has ended makes no calls, and one whose call waits makes no other.
def Step (pb : Protobuf) (r : ClientRef) (p : Reading) (l : ReadLabel) (p' : Reading) : Prop :=
  match l with
  | .Call now result => p.state.loops r .Tcp = true ∧ p.readNext pb r now = .ok (p', result) ∧
      result ≠ .error .Waiting
  | .Other state => p' = { p with state }

theorem step_frame {pb : Protobuf} {r : ClientRef} {p : Reading} {s : ServerState}
    {result : MumbleResult} (now : Instant) (f : Frame) (rest : List UInt8)
    (hstream : p.stream = f.bytes ++ rest) (hloops : p.state.loops r .Tcp = true)
    (hhandled : p.state.handleFrame r now (pb.frame f.kind f.payload) = .ok (s, result))
    (hended : result ≠ .error .Waiting) :
    p.Step pb r (.Call now result) ⟨s.countFailure r .Tcp result, rest, p.handled ++ [f.content]⟩ := by
  refine ⟨hloops, ?_, hended⟩
  rw [readNext_frame now f rest hstream, hhandled]
  rfl

-- How far the loop is in a list of frames.
structure InStep (frames : List Frame) (calls : Nat) (p : Reading) : Prop where
  handled : p.handled = (frames.take calls).map Frame.content
  stream : p.stream = Frame.wire (frames.drop calls)

variable {pb : Protobuf} {r : ClientRef} {p p' : Reading} {frames : List Frame} {calls : Nat}

theorem InStep.call {now : Instant} {result : MumbleResult} (h : InStep frames calls p)
    (hcall : p.readNext pb r now = .ok (p', result)) : InStep frames (calls + 1) p' := by
  by_cases hlast : calls < frames.length
  · have hdrop : frames.drop calls = frames[calls] :: frames.drop (calls + 1) :=
      List.drop_eq_getElem_cons hlast
    have hstream : p.stream = frames[calls].bytes ++ Frame.wire (frames.drop (calls + 1)) := by
      rw [h.stream, hdrop]
      rfl
    rw [readNext_frame now _ _ hstream] at hcall
    cases hhandled : p.state.handleFrame r now
        (pb.frame frames[calls].kind frames[calls].payload) with
    | error panic =>
        rw [hhandled] at hcall
        cases hcall
    | ok x =>
        rw [hhandled] at hcall
        cases hcall
        refine ⟨?_, rfl⟩
        rw [h.handled, List.take_succ_eq_append_getElem hlast, List.map_append]
        rfl
  · have hlen : frames.length ≤ calls := Nat.le_of_not_lt hlast
    have hstream : p.stream = [] := by
      rw [h.stream, List.drop_eq_nil_of_le hlen]
      rfl
    rw [readNext_end now hstream] at hcall
    cases hcall
    refine ⟨?_, ?_⟩
    · rw [h.handled, List.take_of_length_le hlen, List.take_of_length_le (by omega)]
    · rw [h.stream, List.drop_eq_nil_of_le hlen, List.drop_eq_nil_of_le (by omega)]

theorem InStep.run {labels : List ReadLabel} (hrun : Run (Step pb r) p labels p')
    (h : InStep frames calls p) : InStep frames (calls + labels.countP ReadLabel.isCall) p' := by
  induction hrun generalizing calls with
  | Done p => exact h
  | @Step p q p' l labels hstep _ ih =>
      cases l with
      | Call now result =>
          have hrest := ih (h.call hstep.2.1)
          rwa [List.countP_cons_of_pos rfl, ← Nat.add_assoc, Nat.add_right_comm]
      | Other state =>
          have hsame : InStep frames calls q := by
            rw [show q = { p with state } from hstep]
            exact ⟨h.handled, h.stream⟩
          have hrest := ih hsame
          rwa [List.countP_cons_of_neg (by simp [ReadLabel.isCall])]

-- However the calls end and whatever happens to the server between them, the calls
-- that the loop has made have handled the first frames, one each and in their order,
-- and the next call hands the next frame to the server.
theorem frames_in_step {s : ServerState} {labels : List ReadLabel}
    (hrun : Run (Step pb r) ⟨s, Frame.wire frames, []⟩ labels p) :
    p.handled = (frames.take (labels.countP ReadLabel.isCall)).map Frame.content ∧
      p.stream = Frame.wire (frames.drop (labels.countP ReadLabel.isCall)) ∧
      ∀ now f rest, frames.drop (labels.countP ReadLabel.isCall) = f :: rest →
        p.readNext pb r now = (p.state.handleFrame r now (pb.frame f.kind f.payload)).map fun x =>
          (⟨x.1.countFailure r .Tcp x.2, Frame.wire rest, p.handled ++ [f.content]⟩, x.2) := by
  have hstart : InStep frames 0 ⟨s, Frame.wire frames, []⟩ := ⟨rfl, rfl⟩
  have hend := InStep.run hrun hstart
  rw [Nat.zero_add] at hend
  refine ⟨hend.handled, hend.stream, fun now f rest hnext => ?_⟩
  refine readNext_frame now f (Frame.wire rest) ?_
  rw [hend.stream, hnext]
  rfl

-- Three frames: a kind that does not exist, a payload that does not parse, and a ping.

def sampleProtobuf : Protobuf where
  version := fun _ => none
  authenticate := fun _ => none
  ping := fun buf =>
    if buf = [] then
      some ⟨none, none, none, none, none, none, none, none, none, none, none⟩
    else none
  channelState := fun _ => none
  cryptSetup := fun _ => none
  permissionQuery := fun _ => none
  userState := fun _ => none
  voiceTarget := fun _ => none
  userStats := fun _ => none

def sampleFrames : List Frame :=
  [⟨99, [1, 2, 3], by decide⟩, ⟨9, [255], by decide⟩, ⟨3, [], by decide⟩]

-- Two calls fail, and the client is still there.
theorem run_sampleFrames {s : ServerState} (hloops : s.loops 0 .Tcp = true)
    (hstill : (s.countFailure 0 .Tcp (.error (.UnexpectedMessageKind 99))).loops 0 .Tcp = true) :
    ∃ p labels, Run (Step sampleProtobuf 0) ⟨s, Frame.wire sampleFrames, []⟩ labels p ∧
      labels.countP ReadLabel.isCall = 2 := by
  let first : Reading := ⟨s.countFailure 0 .Tcp (.error (.UnexpectedMessageKind 99)),
    Frame.wire (sampleFrames.drop 1), [(99, [1, 2, 3])]⟩
  have hfirst : Step sampleProtobuf 0 ⟨s, Frame.wire sampleFrames, []⟩
      (.Call 0 (.error (.UnexpectedMessageKind 99))) first :=
    step_frame 0 ⟨99, [1, 2, 3], by decide⟩ (Frame.wire (sampleFrames.drop 1)) rfl hloops rfl nofun
  have hsecond : ∃ q, Step sampleProtobuf 0 first (.Call 0 (.error .Parse)) q :=
    ⟨_, step_frame 0 ⟨9, [255], by decide⟩ (Frame.wire (sampleFrames.drop 2)) rfl hstill rfl nofun⟩
  obtain ⟨q, hsecond⟩ := hsecond
  exact ⟨q, _, .Step hfirst (.single hsecond), rfl⟩

theorem frames_in_step_sample :
    ∃ p labels, Run (Step sampleProtobuf 0)
        ⟨ServerState.sampleServer.afterAll ServerState.sampleClients, Frame.wire sampleFrames, []⟩
        labels p ∧
      p.handled = [(99, [1, 2, 3]), (9, [255])] ∧ p.stream = Frame.wire (sampleFrames.drop 2) := by
  obtain ⟨p, labels, hrun, hcalls⟩ := run_sampleFrames
    (s := ServerState.sampleServer.afterAll ServerState.sampleClients) (by decide +kernel)
    (by decide +kernel)
  obtain ⟨hhandled, hstream, -⟩ := frames_in_step hrun
  rw [hcalls] at hhandled hstream
  exact ⟨p, labels, hrun, hhandled, hstream⟩

end Reading

end Mumble
