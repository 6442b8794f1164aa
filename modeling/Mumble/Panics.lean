import Mumble.Crypt.Theorems
import Mumble.Reachable

namespace Mumble

open Mumble.Lib

-- The only length that `set_decrypt_nonce` can take.
theorem CryptState.setDecryptNonce_returns_iff (c : CryptState) (nonce : List UInt8) :
    (c.setDecryptNonce nonce).Returns ↔ nonce.length = 16 := by
  unfold setDecryptNonce tryInto
  by_cases hlen : nonce.length = 16
  · simp [hlen]
  · simp [hlen]

theorem Client.sendVoicePacket_returns (c : Client) (packet : VoicePacket .ClientBound) :
    (c.sendVoicePacket packet).Returns := by
  unfold sendVoicePacket
  split
  · obtain ⟨datagram, hdatagram⟩ := c.crypt.encrypt_returns packet
    rw [hdatagram]
    exact ⟨_, rfl⟩
  · exact ⟨_, rfl⟩

namespace ServerState

variable {s : ServerState} {r : ClientRef} {now : Instant}

theorem f32At_returns {position : List UInt8} {i : Nat} (h : i + 4 ≤ position.length) :
    (f32At position i).Returns := by
  have hindex {j : Nat} (hj : j < position.length) : (index position j).Returns := by
    unfold index
    rw [List.getElem?_eq_getElem hj]
    exact ⟨_, rfl⟩
  unfold f32At
  refine (hindex (by omega)).bind fun b0 => (hindex (by omega)).bind fun b1 =>
    (hindex (by omega)).bind fun b2 => (hindex (by omega)).bind fun b3 => ⟨_, rfl⟩

-- The position is read only when there are twelve bytes of it.
theorem notePosition_returns (s : ServerState) (r : ClientRef) (now : Instant)
    (packet : VoicePacket .ClientBound) : (s.notePosition r now packet).Returns := by
  unfold notePosition
  split
  · split_ifs with hlen
    · exact (f32At_returns (by omega)).bind fun x => (f32At_returns (by omega)).bind fun y =>
        (f32At_returns (by omega)).bind fun z => ⟨_, rfl⟩
    · exact ⟨s, rfl⟩
  · exact ⟨s, rfl⟩

theorem handleVoicePacket_returns (s : ServerState) (r : ClientRef) (now : Instant)
    (packet : VoicePacket .ClientBound) : (s.handleVoicePacket r now packet).Returns := by
  unfold handleVoicePacket
  refine (s.notePosition_returns r now packet).bind fun s₁ => ?_
  split_ifs
  · exact ⟨_, rfl⟩
  · cases packet with
    | Ping timestamp => exact ⟨_, rfl⟩
    | Audio target sessionId seqNum payload positionInfo =>
        dsimp only
        split_ifs
        · exact ((s₁.get r).sendVoicePacket_returns _).bind fun sent => ⟨_, rfl⟩
        · exact ⟨_, rfl⟩
        · exact ⟨_, rfl⟩

theorem handleQueued_returns (s : ServerState) (r : ClientRef) (now : Instant)
    (message : ClientMessage) : (s.handleQueued r now message).Returns := by
  cases message with
  | RouteVoicePacket packet => exact s.handleVoicePacket_returns r now packet
  | SendVoicePacket packet =>
      exact ((s.get r).sendVoicePacket_returns packet).bind fun sent => ⟨_, rfl⟩
  | SendMessage message => exact ⟨_, rfl⟩

theorem consume_returns (s : ServerState) (r : ClientRef) (now : Instant) :
    (s.consume r now).Returns := by
  unfold consume
  split_ifs
  · split
    · exact ⟨_, rfl⟩
    · exact (handleQueued_returns _ r now _).bind fun handled => ⟨_, rfl⟩
  · exact ⟨_, rfl⟩

theorem routePacket_returns (s : ServerState) (r : ClientRef) (now : Instant)
    (packet : VoicePacket .ServerBound) : (s.routePacket r now packet).Returns := by
  unfold routePacket
  split
  · rename_i timestamp _
    obtain ⟨datagram, hdatagram⟩ :=
      (s.get r).crypt.encrypt_returns (.Ping timestamp : VoicePacket .ClientBound)
    rw [hdatagram]
    exact ⟨_, rfl⟩
  · exact ⟨_, rfl⟩

theorem handleKnown_returns (s : ServerState) (r : ClientRef) (now : Instant)
    (buffer : List UInt8) : (s.handleKnown r now buffer).Returns := by
  unfold handleKnown
  refine (CryptState.decrypt_returns .ServerBound _ now buffer).bind fun decrypted => ?_
  obtain ⟨crypt, result⟩ := decrypted
  cases result with
  | ok packet => exact routePacket_returns _ r now packet
  | error e => exact ⟨_, rfl⟩

theorem findClientWithDecrypt_returns (s : ServerState) (now : Instant) (bytes : List UInt8)
    (addr : SocketAddr) (candidates : List ClientRef) :
    (s.findClientWithDecrypt now bytes addr candidates).Returns := by
  induction candidates generalizing s with
  | nil => exact ⟨_, rfl⟩
  | cons r candidates ih =>
      unfold findClientWithDecrypt
      refine (CryptState.decrypt_returns .ServerBound _ now bytes).bind fun decrypted => ?_
      obtain ⟨crypt, result⟩ := decrypted
      cases result with
      | ok packet => exact ⟨_, rfl⟩
      | error e => exact ih _

theorem handlePacket_returns (s : ServerState) (protocolVersion : UInt32) (now : Instant)
    (addr : SocketAddr) (datagram : List UInt8) (order : List ClientRef) :
    (s.handlePacket protocolVersion now addr datagram order).Returns := by
  unfold handlePacket
  dsimp only
  split_ifs
  · exact ⟨_, rfl⟩
  · split
    · exact ⟨_, rfl⟩
    · split_ifs
      · split <;> exact ⟨_, rfl⟩
      · split
        · exact handleKnown_returns s _ now _
        · unfold handleUnknown
          refine (findClientWithDecrypt_returns s now _ addr _).bind fun found => ?_
          split
          · exact routePacket_returns _ _ now _
          · exact ⟨_, rfl⟩

-- A client of the server sends a nonce that is not sixteen bytes long.
def SendsBadNonce (s : ServerState) : Event → Prop
  | .Tcp r (.CryptSetup message) =>
      s.loops r .Tcp = true ∧ ∃ nonce, message.clientNonce = some nonce ∧ nonce.length ≠ 16
  | _ => False

theorem handleCryptSetup_returns_iff (s : ServerState) (r : ClientRef) (now : Instant)
    (message : CryptSetup) : (s.handleCryptSetup r now message).Returns ↔
      ∀ nonce, message.clientNonce = some nonce → nonce.length = 16 := by
  unfold handleCryptSetup
  cases message.clientNonce with
  | none => simp
  | some nonce =>
      have hset := CryptState.setDecryptNonce_returns_iff (s.get r).crypt nonce
      constructor
      · rintro ⟨handled, h⟩ other hother
        cases hother
        obtain ⟨crypt, hcrypt, -⟩ := Exec.bind_eq_ok.mp h
        exact hset.mp ⟨crypt, hcrypt⟩
      · intro hlen
        exact (hset.mpr (hlen nonce rfl)).bind fun crypt => ⟨_, rfl⟩

theorem handleFrame_returns (s : ServerState) (r : ClientRef) (now : Instant) (frame : TcpFrame)
    (h : ∀ message, frame ≠ .CryptSetup message) : (s.handleFrame r now frame).Returns := by
  cases frame with
  | UDPTunnel payload =>
      unfold handleFrame
      refine (decodeVoicePacket_returns .ServerBound payload).bind fun decoded => ?_
      cases decoded with
      | error e => exact ⟨_, rfl⟩
      | ok packet => exact s.handleVoicePacket_returns r now _
  | CryptSetup message => exact absurd rfl (h message)
  | Version | Authenticate | Ping _ | ChannelState _ | PermissionQuery _ | UserState _
  | VoiceTarget _ | UserStats _ | Malformed | Unsupported _ | Unexpected _ | Lost => exact ⟨_, rfl⟩

theorem readFrame_returns_iff (s : ServerState) (r : ClientRef) (now : Instant) (frame : TcpFrame) :
    (s.readFrame r now frame).Returns ↔
      (s.loops r .Tcp = true → (s.handleFrame r now frame).Returns) := by
  unfold readFrame
  split_ifs with hloops
  · constructor
    · rintro ⟨handled, h⟩ _
      obtain ⟨first, hfirst, -⟩ := Exec.bind_eq_ok.mp h
      exact ⟨first, hfirst⟩
    · intro h
      exact (h hloops).bind fun handled => ⟨_, rfl⟩
  · exact iff_of_true ⟨_, rfl⟩ fun h => absurd h hloops

-- Whatever comes in is handled without a panic, unless it is such a nonce.
theorem step_returns_iff (s : ServerState) (now : Instant) (e : Event) :
    (s.step now e).Returns ↔ ¬s.SendsBadNonce e := by
  cases e with
  | Tcp r frame =>
      refine (s.readFrame_returns_iff r now frame).trans ?_
      cases frame with
      | CryptSetup message =>
          have hsetup := s.handleCryptSetup_returns_iff r now message
          constructor
          · rintro h ⟨hloops, nonce, hnonce, hlen⟩
            exact hlen (hsetup.mp (h hloops) nonce hnonce)
          · intro h hloops
            refine hsetup.mpr fun nonce hnonce => ?_
            by_contra hlen
            exact h ⟨hloops, nonce, hnonce, hlen⟩
      | Version | UDPTunnel _ | Authenticate | Ping _ | ChannelState _ | PermissionQuery _
      | UserState _ | VoiceTarget _ | UserStats _ | Malformed | Unsupported _ | Unexpected _ | Lost =>
          exact iff_of_true (fun _ => s.handleFrame_returns r now _ fun _ h => nomatch h) id
  | Consume r => exact iff_of_true (s.consume_returns r now) id
  | Udp addr datagram order =>
      exact iff_of_true ((s.handlePacket_returns _ now addr datagram order).bind
        fun handled => ⟨_, rfl⟩) id
  | Connect _ _ _ _ | CleanRun | Quit _ _ | EndLoop _ | Network _ _ _ | Admin _ | Flag _ _ =>
      exact iff_of_true ⟨_, rfl⟩ id

-- Three bytes from a connected client end the process.
theorem short_nonce_panics :
    (sampleServer.afterAll sampleClients).Reachable ∧
      (sampleServer.afterAll sampleClients).clients.lookup 1 = some 0 ∧
      ¬((sampleServer.afterAll sampleClients).step 0
        (.Tcp 0 (.CryptSetup ⟨none, some [1, 2, 3], none⟩))).Returns := by
  refine ⟨reachable_sample _, by decide +kernel, ?_⟩
  rintro ⟨handled, hstep⟩
  have hpanics : ((sampleServer.afterAll sampleClients).step 0
      (.Tcp 0 (.CryptSetup ⟨none, some [1, 2, 3], none⟩))).isOk = false := by decide +kernel
  rw [hstep] at hpanics
  cases hpanics

end ServerState

end Mumble
