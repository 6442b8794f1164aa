import Mumble.Lib.Exec
import Mumble.Varint

namespace Mumble

open Mumble.Lib

inductive DecryptError where
  | Io (error : IoError)
  | Eof
  | Repeat
  | Late
  | Mac
  deriving DecidableEq, Repr

-- The sealed trait `VoicePacketDst` has these two implementations only.
inductive VoicePacketDst where
  | ServerBound
  | ClientBound
  deriving DecidableEq, Repr

namespace VoicePacketDst

@[reducible] def SessionId : VoicePacketDst → Type
  | .ServerBound => Unit
  | .ClientBound => UInt32

instance : (dst : VoicePacketDst) → DecidableEq dst.SessionId
  | .ServerBound => inferInstanceAs (DecidableEq Unit)
  | .ClientBound => inferInstanceAs (DecidableEq UInt32)

def readSessionId : (dst : VoicePacketDst) → Cursor → Except IoError (dst.SessionId × Cursor)
  | .ServerBound, buf => .ok ((), buf)
  | .ClientBound, buf => do
      let (varInt, buf) ← buf.readVarint
      return (varInt.toUInt32, buf)

def writeSessionId : (dst : VoicePacketDst) → List UInt8 → dst.SessionId → List UInt8
  | .ServerBound, buf, _ => buf
  | .ClientBound, buf, sessionId => putVarint buf sessionId.toUInt64

end VoicePacketDst

inductive VoicePacketPayload where
  | CeltAlpha (frames : List (List UInt8))
  | CeltBeta (frames : List (List UInt8))
  | Speex (frames : List (List UInt8))
  | Opus (frame : List UInt8) (terminationBit : Bool)
  deriving DecidableEq, Repr

inductive VoicePacket (dst : VoicePacketDst) where
  | Ping (timestamp : UInt64)
  | Audio (target : UInt8) (sessionId : dst.SessionId) (seqNum : UInt64)
      (payload : VoicePacketPayload) (positionInfo : Option (List UInt8))
  deriving DecidableEq

def VoicePacket.intoClientBound (sessionId : UInt32) (removePositionalData : Bool) :
    VoicePacket .ServerBound → VoicePacket .ClientBound
  | .Ping timestamp => .Ping timestamp
  | .Audio target _ seqNum payload positionInfo =>
      .Audio target sessionId seqNum payload (if removePositionalData then none else positionInfo)

-- One turn of the frame loop: the frame's header byte, its bytes, what is left.
def readFrame (buf : List UInt8) :
    Exec (Except DecryptError (UInt8 × List UInt8 × List UInt8)) :=
  if buf.isEmpty then .ok (.error .Eof)
  else do
    let header ← index buf 0
    let buf ← advance buf 1
    let len := (header &&& ~~~0x80).toNat
    if buf.length < len then return .error .Eof
    let (frame, buf) ← splitTo buf len
    return .ok (header, frame, buf)

theorem readFrame_nil : readFrame [] = .ok (.error .Eof) := rfl

theorem readFrame_cons (header : UInt8) (buf : List UInt8) :
    readFrame (header :: buf) =
      if buf.length < (header &&& ~~~0x80).toNat then .ok (.error .Eof)
      else .ok (.ok (header, buf.take (header &&& ~~~0x80).toNat,
        buf.drop (header &&& ~~~0x80).toNat)) := by
  unfold readFrame
  simp only [List.isEmpty_cons, index, advance, List.length_cons, List.getElem?_cons_zero,
    Exec.ok_bind, List.drop_one, List.tail_cons, Bool.false_eq_true, if_false,
    Nat.le_add_left, if_true]
  split_ifs with h
  · rfl
  · rw [splitTo_eq (by omega)]
    rfl

theorem readFrame_length_lt {buf rest frame : List UInt8} {header : UInt8}
    (h : readFrame buf = .ok (.ok (header, frame, rest))) : rest.length < buf.length := by
  cases buf with
  | nil => cases h
  | cons first buf =>
      rw [readFrame_cons] at h
      split_ifs at h with hlen
      · cases h
      · simp only [Except.ok.injEq, Prod.mk.injEq] at h
        obtain ⟨-, -, rfl⟩ := h
        simp only [List.length_drop, List.length_cons]
        omega

-- The frame loop of `decode_voice_packet`: a header byte without the
-- continuation bit ends it.
def readFrames (frames : List (List UInt8)) (buf : List UInt8) :
    Exec (Except DecryptError (List (List UInt8) × List UInt8)) :=
  match _h : readFrame buf with
  | .error p => .error p
  | .ok (.error e) => .ok (.error e)
  | .ok (.ok (header, frame, rest)) =>
      if header &&& 0x80 ≠ 0x80 then .ok (.ok (frames ++ [frame], rest))
      else readFrames (frames ++ [frame]) rest
termination_by buf.length
decreasing_by exact readFrame_length_lt (by assumption)

-- `position_info` and the packet, once the payload is read and `buf` is left.
def finishAudio {dst : VoicePacketDst} (target : UInt8) (sessionId : dst.SessionId)
    (seqNum : UInt64) (payload : VoicePacketPayload) (buf : List UInt8) : VoicePacket dst :=
  .Audio target sessionId seqNum payload (if buf.isEmpty then none else some buf)

-- The payload branches of `decode_voice_packet` after the sequence number; the
-- cursor `cur` reads the same bytes that `bufMut` owns.
def decodePayload {dst : VoicePacketDst} (kind target : UInt8) (sessionId : dst.SessionId)
    (seqNum : UInt64) (cur : Cursor) (bufMut : List UInt8) :
    Exec (Except DecryptError (VoicePacket dst)) :=
  if kind = 0 ∨ kind = 2 ∨ kind = 3 then do
    let bufMut ← advance bufMut cur.position
    match ← readFrames [] bufMut with
    | .error e => return .error e
    | .ok (frames, bufMut) =>
        if kind = 0 then return .ok (finishAudio target sessionId seqNum (.CeltAlpha frames) bufMut)
        else if kind = 2 then return .ok (finishAudio target sessionId seqNum (.Speex frames) bufMut)
        else if kind = 3 then
          return .ok (finishAudio target sessionId seqNum (.CeltBeta frames) bufMut)
        else .error .Unreachable
  else if kind = 4 then
    match cur.readVarint with
    | .error e => .ok (.error (.Io e))
    | .ok (header, cur) => do
        let bufMut ← advance bufMut cur.position
        let terminationBit := decide (header &&& 0x2000 = 0x2000)
        let len := (header &&& ~~~0x2000).toNat
        if bufMut.length < len then return .error .Eof
        let (frame, bufMut) ← splitTo bufMut len
        return .ok (finishAudio target sessionId seqNum (.Opus frame terminationBit) bufMut)
  else .ok (.error (.Io (.InvalidData "unknown voice packet type")))

def decodeVoicePacket (dst : VoicePacketDst) (bufMut : List UInt8) :
    Exec (Except DecryptError (VoicePacket dst)) :=
  match (Cursor.new bufMut).readU8 with
  | .error e => .ok (.error (.Io e))
  | .ok (header, cur) =>
      let kind := header >>> 5
      let target := header &&& 0b11111
      if kind = 1 then
        match cur.readVarint with
        | .error e => .ok (.error (.Io e))
        | .ok (timestamp, _) => do
            let _ ← advance bufMut bufMut.length
            return .ok (.Ping timestamp)
      else
        match dst.readSessionId cur with
        | .error e => .ok (.error (.Io e))
        | .ok (sessionId, cur) =>
            match cur.readVarint with
            | .error e => .ok (.error (.Io e))
            | .ok (seqNum, cur) => decodePayload kind target sessionId seqNum cur bufMut

def VoicePacketPayload.kind : VoicePacketPayload → UInt8
  | .CeltAlpha _ => 0
  | .Speex _ => 2
  | .CeltBeta _ => 3
  | .Opus _ _ => 4

-- The frames of a CELT or Speex payload: the continuation bit is set while the
-- iterator has a next frame.
def putFrames (dst : List UInt8) : List (List UInt8) → List UInt8
  | [] => dst
  | frame :: rest =>
      let continuation : UInt8 := if rest.isEmpty then 0 else 0x80
      putFrames (dst ++ [continuation ||| UInt8.ofNat frame.length] ++ frame) rest

def putPayload (dst : List UInt8) : VoicePacketPayload → List UInt8
  | .CeltAlpha frames => putFrames dst frames
  | .Speex frames => putFrames dst frames
  | .CeltBeta frames => putFrames dst frames
  | .Opus frame terminationBit =>
      let termBit : UInt64 := if terminationBit then 0x2000 else 0
      putVarint dst (termBit ||| UInt64.ofNat frame.length) ++ frame

def encodeVoicePacket {dir : VoicePacketDst} (item : VoicePacket dir) (dst : List UInt8) :
    List UInt8 :=
  match item with
  | .Ping timestamp => putVarint (dst ++ [0x20]) timestamp
  | .Audio target sessionId seqNum payload positionInfo =>
      let dst := dst ++ [payload.kind <<< 5 ||| target &&& 0b11111]
      let dst := dir.writeSessionId dst sessionId
      let dst := putVarint dst seqNum
      let dst := putPayload dst payload
      match positionInfo with
      | some bytes => dst ++ bytes
      | none => dst

end Mumble
