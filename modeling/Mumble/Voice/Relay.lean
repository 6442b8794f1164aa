import Mumble.Voice.Grammar

namespace Mumble

open Mumble.Lib

-- What the decoder accepts is well formed, whatever the bytes are.

theorem Frames.wellFormed {word : List UInt8} {frames : List (List UInt8)} (h : Frames word frames) :
    frames ≠ [] ∧ ∀ frame ∈ frames, frame.length < 128 := by
  induction h with
  | Last hlength => exact ⟨by simp, by simpa using hlength⟩
  | More hlength hrest ih =>
      refine ⟨by simp, fun frame hframe => ?_⟩
      rcases List.mem_cons.mp hframe with rfl | hframe
      · exact hlength
      · exact ih.2 frame hframe

-- The length of an Opus frame comes from its header without the termination bit.
theorem opus_length (header : UInt64) :
    (header &&& ~~~0x2000).toNat &&& 0x2000 = 0 ∧ (header &&& ~~~0x2000).toNat < 2 ^ 64 := by
  refine ⟨?_, UInt64.toNat_lt _⟩
  have hmask : header &&& ~~~0x2000 &&& 0x2000 = 0 := by
    rw [UInt64.and_assoc]
    simp
  have hnat := congrArg UInt64.toNat hmask
  rwa [UInt64.toNat_and] at hnat

theorem Payload.wellFormed {kind : UInt8} {word : List UInt8} {payload : VoicePacketPayload}
    (h : Payload kind word payload) : payload.WellFormed := by
  cases h with
  | CeltAlpha hframes | Speex hframes | CeltBeta hframes => exact hframes.wellFormed
  | @Opus bytes frame header hheader hlength =>
      rw [VoicePacketPayload.WellFormed, hlength]
      exact opus_length header

theorem target_lt (header : UInt8) : header &&& 0b11111 < 32 := by
  revert header
  decide +kernel

theorem decodeVoicePacket_wellFormed {dst : VoicePacketDst} {buf : List UInt8}
    {packet : VoicePacket dst} (h : decodeVoicePacket dst buf = .ok (.ok packet)) :
    packet.WellFormed := by
  cases decodeVoicePacket_iff.mp h with
  | Ping hkind htimestamp => trivial
  | @Audio header session seq body tail sessionId seqNum payload positionInfo hsession hseq hbody
      hposition =>
      refine ⟨target_lt header, hbody.wellFormed, ?_⟩
      rw [hposition]
      split_ifs with htail
      · simp
      · simpa using htail

-- The well-formed packets are exactly those that are decoded from their own encoding.
theorem decode_encode_iff {dst : VoicePacketDst} (packet : VoicePacket dst) :
    decodeVoicePacket dst (encodeVoicePacket packet []) = .ok (.ok packet) ↔
      packet.WellFormed :=
  ⟨decodeVoicePacket_wellFormed, decodeVoicePacket_encodeVoicePacket packet⟩

theorem VoicePacket.WellFormed.intoClientBound {packet : VoicePacket .ServerBound}
    (h : packet.WellFormed) (sessionId : UInt32) (removePositionalData : Bool) :
    (packet.intoClientBound sessionId removePositionalData).WellFormed := by
  cases packet with
  | Ping timestamp => trivial
  | Audio target session seqNum payload positionInfo =>
      obtain ⟨htarget, hpayload, hposition⟩ := h
      refine ⟨htarget, hpayload, ?_⟩
      cases removePositionalData with
      | true => simp
      | false => exact hposition

-- What a client sends is what the others get: the packet that the server makes of
-- it is decoded from its encoding.
theorem relay_round_trip {buf : List UInt8} {packet : VoicePacket .ServerBound}
    (hdecode : decodeVoicePacket .ServerBound buf = .ok (.ok packet)) (sessionId : UInt32)
    (removePositionalData : Bool) :
    decodeVoicePacket .ClientBound
        (encodeVoicePacket (packet.intoClientBound sessionId removePositionalData) []) =
      .ok (.ok (packet.intoClientBound sessionId removePositionalData)) := by
  apply decodeVoicePacket_encodeVoicePacket
  exact (decodeVoicePacket_wellFormed hdecode).intoClientBound sessionId removePositionalData

-- A sequence number in more bytes than it needs, an empty frame and a position.
theorem relay_round_trip_speex :
    decodeVoicePacket .ServerBound [0x5f, 0xf0, 0, 0, 0, 9, 0x80, 0x01, 0xff, 1, 2, 3] =
      .ok (.ok (.Audio 31 () 9 (.Speex [[], [0xff]]) (some [1, 2, 3]))) ∧
    decodeVoicePacket .ClientBound (encodeVoicePacket
        (.Audio 31 77 9 (.Speex [[], [0xff]]) (some [1, 2, 3]) : VoicePacket .ClientBound) []) =
      .ok (.ok (.Audio 31 77 9 (.Speex [[], [0xff]]) (some [1, 2, 3]))) := by
  have hdecode : decodeVoicePacket .ServerBound
      [0x5f, 0xf0, 0, 0, 0, 9, 0x80, 0x01, 0xff, 1, 2, 3] =
      .ok (.ok (.Audio 31 () 9 (.Speex [[], [0xff]]) (some [1, 2, 3]))) := by decide +kernel
  exact ⟨hdecode, relay_round_trip hdecode 77 false⟩

end Mumble
