import Mumble.Crypt.Replay
import Mumble.Voice.Theorems
import Mumble.Reachable

namespace Mumble

open Mumble.Lib
open DecryptRun (samplePeer samplePing1 samplePeer_encrypt)

namespace ServerState

-- What `handle_packet` takes a datagram for.
inductive Destination where
  | Invalid
  | PingAnonymous
  | Known (client : ClientRef)
  | Unknown
  deriving DecidableEq, Repr

-- It looks at the three high bits of the first byte and at the length before it
-- looks at the address.
def destination (s : ServerState) (addr : SocketAddr) (buffer : List UInt8) : Destination :=
  if buffer.length ≤ 1 then .Invalid
  else if buffer.headD 0 < 32 ∧ buffer.length = 12 then .PingAnonymous
  else
    match s.getClientBySocket addr with
    | some r => .Known r
    | none => .Unknown

theorem kind_eq_zero_iff (header : UInt8) : (header >>> 5) &&& 0x7 = 0 ↔ header < 32 := by
  revert header
  decide +kernel

theorem handlePacket_eq (s : ServerState) (protocolVersion : UInt32) (now : Instant)
    (addr : SocketAddr) (datagram : List UInt8) (order : List ClientRef) :
    s.handlePacket protocolVersion now addr datagram order =
      let buffer := datagram.take UDP_BUFFER_SIZE
      match s.destination addr buffer with
      | .Invalid => .ok (s, .error (.UnknownError "Invalid packet"))
      | .PingAnonymous =>
          match (Cursor.mk 1 buffer.tail).readVarint with
          | .error _ => .ok (s, .error .Io)
          | .ok (timestamp, _) => .ok (s, .ok (some (s.pingAnonymous protocolVersion timestamp)))
      | .Known r => s.handleKnown r now buffer
      | .Unknown => s.handleUnknown now addr buffer order := by
  unfold handlePacket destination
  generalize datagram.take UDP_BUFFER_SIZE = buffer
  dsimp only
  by_cases hshort : buffer.length ≤ 1
  · rw [if_pos hshort, if_pos hshort]
    rfl
  · obtain ⟨header, rest, rfl⟩ : ∃ header rest, buffer = header :: rest := by
      cases buffer with
      | nil => exact absurd (Nat.zero_le 1) hshort
      | cons header rest => exact ⟨header, rest, rfl⟩
    simp only [if_neg hshort, Cursor.new, Cursor.readU8, kind_eq_zero_iff, List.headD_cons,
      List.tail_cons]
    by_cases hping : header < 32 ∧ (header :: rest).length = 12
    · simp only [hping, and_self, if_true, Nat.zero_add]
      cases (Cursor.mk 1 rest).readVarint <;> rfl
    · simp only [hping, if_false]
      cases s.getClientBySocket addr <;> rfl

-- A datagram of a client whose address is bound reaches its `decrypt` unless the low
-- byte of the nonce is below 32 and the packet is encoded in 8 bytes.
theorem destination_encrypted {s : ServerState} {addr : SocketAddr} {r : ClientRef}
    (hbound : s.getClientBySocket addr = some r) {dir : VoicePacketDst} {packet : VoicePacket dir}
    {c c' : CryptState} {dst datagram : List UInt8}
    (hsent : c.encrypt packet dst = .ok (c', datagram)) (protocolVersion : UInt32) (now : Instant)
    (order : List ClientRef) :
    (s.destination addr (datagram.take UDP_BUFFER_SIZE) = .Known r ↔
      ¬(c'.encryptNonce.asU8 < 32 ∧ (encodeVoicePacket packet []).length = 8)) ∧
    (s.destination addr (datagram.take UDP_BUFFER_SIZE) = .Known r →
      s.handlePacket protocolVersion now addr datagram order =
        s.handleKnown r now (datagram.take UDP_BUFFER_SIZE)) := by
  refine ⟨?_, fun hknown => ?_⟩
  · obtain ⟨rest, rfl, hlength⟩ := CryptState.encrypt_shape hsent
    have hsize : ((c'.encryptNonce.asU8 :: rest).take UDP_BUFFER_SIZE).length =
        min UDP_BUFFER_SIZE (4 + (encodeVoicePacket packet []).length) := by
      rw [List.length_take, hlength]
    have hfirst : ((c'.encryptNonce.asU8 :: rest).take UDP_BUFFER_SIZE).headD 0 =
        c'.encryptNonce.asU8 := rfl
    have htwelve : min UDP_BUFFER_SIZE (4 + (encodeVoicePacket packet []).length) = 12 ↔
        (encodeVoicePacket packet []).length = 8 := by
      unfold UDP_BUFFER_SIZE
      omega
    have hlong : ¬min UDP_BUFFER_SIZE (4 + (encodeVoicePacket packet []).length) ≤ 1 := by
      unfold UDP_BUFFER_SIZE
      omega
    unfold destination
    simp only [hsize, hfirst, if_neg hlong, htwelve, hbound]
    split_ifs with hping
    · simp [hping]
    · simp [hping]
  · rw [handlePacket_eq]
    simp only [hknown]

theorem crypt_setClientSocket (s : ServerState) (r q : ClientRef) (addr : SocketAddr) :
    ((s.setClientSocket r addr).get q).crypt = (s.get q).crypt := by
  change (((s.modify r fun c => { c with udpSocketAddr := some addr }).releaseSocket _).get q).crypt
    = _
  rw [get_releaseSocket]
  by_cases hq : q = r
  · subst hq
    rw [get_modify_self]
  · rw [get_modify_ne _ hq]

-- What the trial of a datagram on one candidate after the other changes: the crypt states
-- under which its tag verifies, and only if one of them decodes it, anything else.
theorem findClientWithDecrypt_spec {s s' : ServerState} {now : Instant} {bytes : List UInt8}
    {addr : SocketAddr} {candidates : List ClientRef}
    {found : Option (ClientRef × VoicePacket .ServerBound)}
    (h : s.findClientWithDecrypt now bytes addr candidates = .ok (s', found)) :
    (∀ r, (s'.get r).crypt ≠ (s.get r).crypt →
      r ∈ candidates ∧ (s.get r).crypt.Verifies bytes) ∧
    (found = none → s'.clientsWithoutUdp = s.clientsWithoutUdp ∧
      s'.clientsBySocket = s.clientsBySocket ∧
      ∀ r, (s'.get r).udpSocketAddr = (s.get r).udpSocketAddr) := by
  induction candidates generalizing s with
  | nil =>
      cases h
      exact ⟨fun r hr => absurd rfl hr, fun _ => ⟨rfl, rfl, fun _ => rfl⟩⟩
  | cons first candidates ih =>
      unfold findClientWithDecrypt at h
      obtain ⟨⟨crypt, result⟩, hdecrypt, h⟩ := Exec.bind_eq_ok.mp h
      have hother {r : ClientRef} (hr : r ≠ first) :
          (s.modify first fun c => { c with crypt }).get r = s.get r := get_modify_ne _ hr
      have hfirst : ((s.modify first fun c => { c with crypt }).get first).crypt = crypt := by
        rw [get_modify_self]
      have htried {r : ClientRef}
          (hr : ((s.modify first fun c => { c with crypt }).get r).crypt ≠ (s.get r).crypt) :
          r ∈ first :: candidates ∧ (s.get r).crypt.Verifies bytes := by
        by_cases hsame : r = first
        · subst hsame
          rw [hfirst] at hr
          exact ⟨List.mem_cons_self .., CryptState.verifies_of_changed hdecrypt hr⟩
        · exact absurd (congrArg Client.crypt (hother hsame)) hr
      cases result with
      | ok packet =>
          cases h
          refine ⟨fun r hr => htried fun hsame => hr ?_, fun hnone => by cases hnone⟩
          exact (crypt_setClientSocket _ first r addr).trans hsame
      | error e =>
          obtain ⟨hrest, hnone⟩ := ih h
          refine ⟨fun r hr => ?_, fun hfound => ?_⟩
          · by_cases hsame : ((s.modify first fun c => { c with crypt }).get r).crypt =
                (s.get r).crypt
            · obtain ⟨hmem, hverifies⟩ := hrest r (hsame ▸ hr)
              exact ⟨List.mem_cons_of_mem _ hmem, hsame ▸ hverifies⟩
            · exact htried hsame
          · obtain ⟨hwithout, hsocket, haddr⟩ := hnone hfound
            refine ⟨hwithout, hsocket, fun r => (haddr r).trans ?_⟩
            by_cases hsame : r = first
            · subst hsame
              rw [get_modify_self]
            · rw [hother hsame]

-- A datagram that does not get past the tag check changes no crypt state. So the search for
-- the client it comes from changes only crypt states under which its tag verifies, and none of
-- the tables unless a client is found.
theorem unauthenticated_changes_nothing :
    (∀ (dst : VoicePacketDst) (c c' : CryptState) (now : Instant) (datagram : List UInt8)
      (packet : Except DecryptError (VoicePacket dst)),
      c.decrypt dst now datagram = .ok (c', packet) →
      (datagram.length < 4 ∨ packet = .error .Repeat ∨ packet = .error .Late ∨
        packet = .error .Mac ∨ ¬c.Verifies datagram) → c' = c) ∧
    ∀ (s s' : ServerState) (now : Instant) (datagram : List UInt8) (addr : SocketAddr)
      (candidates : List ClientRef) (found : Option (ClientRef × VoicePacket .ServerBound)),
      s.findClientWithDecrypt now datagram addr candidates = .ok (s', found) →
      (∀ r, (s'.get r).crypt ≠ (s.get r).crypt →
        r ∈ candidates ∧ (s.get r).crypt.Verifies datagram) ∧
      (found = none → s'.clientsWithoutUdp = s.clientsWithoutUdp ∧
        s'.clientsBySocket = s.clientsBySocket ∧
        ∀ r, (s'.get r).udpSocketAddr = (s.get r).udpSocketAddr) := by
  refine ⟨fun dst c c' now datagram packet hcall hrefused => ?_, fun _ _ _ _ _ _ _ h =>
    findClientWithDecrypt_spec h⟩
  by_contra hchanged
  have hverifies := CryptState.verifies_of_changed hcall hchanged
  rcases hrefused with hshort | hrepeat | hlate | hmac | hnot
  · exact CryptState.not_verifies hcall (.inl hshort) hverifies
  · exact CryptState.not_verifies hcall (.inr (.inl hrepeat)) hverifies
  · exact CryptState.not_verifies hcall (.inr (.inr (.inl hlate))) hverifies
  · exact CryptState.not_verifies hcall (.inr (.inr (.inr hmac))) hverifies
  · exact hnot hverifies

def eveAddr : SocketAddr := ⟨"10.0.0.1", 50000⟩

-- A datagram that is too short, and one that neither of two clients can decrypt.
theorem unauthenticated_changes_nothing_stray :
    (∀ c', zeroPeer.decrypt .ServerBound 0 [1, 2, 3] = .ok (c', .error .Eof) → c' = zeroPeer) ∧
    ∃ s', (sampleServer.afterAll sampleClients).findClientWithDecrypt 0 [9, 9, 9, 9, 9] eveAddr
        [0, 1] = .ok (s', none) ∧
      s'.clientsWithoutUdp = (sampleServer.afterAll sampleClients).clientsWithoutUdp ∧
      ∀ r, (s'.get r).udpSocketAddr =
        ((sampleServer.afterAll sampleClients).get r).udpSocketAddr := by
  refine ⟨fun c' hcall => unauthenticated_changes_nothing.1 _ _ _ _ _ _ hcall
    (.inl (by decide)), ?_⟩
  have hnobody : ((sampleServer.afterAll sampleClients).findClientWithDecrypt 0 [9, 9, 9, 9, 9]
      eveAddr [0, 1]).map (fun x => x.2) = .ok none := by decide +kernel
  cases hfind : (sampleServer.afterAll sampleClients).findClientWithDecrypt 0 [9, 9, 9, 9, 9]
      eveAddr [0, 1] with
  | error panic =>
      rw [hfind] at hnobody
      cases hnobody
  | ok pair =>
      obtain ⟨s', found⟩ := pair
      rw [hfind] at hnobody
      cases hnobody
      obtain ⟨hwithout, -, haddr⟩ :=
        (unauthenticated_changes_nothing.2 _ _ _ _ _ _ _ hfind).2 rfl
      exact ⟨s', rfl, hwithout, haddr⟩

-- Eve's address is bound by its first packet, a ping.
def boundServer : ServerState :=
  sampleServer.afterAll
    [(0, .Connect "eve" "10.0.0.1" sampleKey .Open), (0, .Udp eveAddr samplePing1 [0])]

def sampleOpus : VoicePacket .ServerBound := .Audio 0 () 1 (.Opus [1, 2, 3, 4, 5] false) none

def sampleOpus2 : List UInt8 := [2, 3, 36, 184, 69, 160, 180, 238, 164, 228, 30, 244]

theorem samplePeer_encrypt_opus :
    (samplePeer 1).encrypt sampleOpus [] = .ok (samplePeer 2, sampleOpus2) := by
  have hseal : ocbEncrypt (.new sampleKey) (nonceAt (2 ^ 127 + (1 + 1)))
      (encodeVoicePacket sampleOpus []) = .ok ([69, 160, 180, 238, 164, 228, 30, 244],
        4178351604652665545117142029713016490) := by decide +kernel
  have hbytes : UInt8.ofNat (2 ^ 127 + (1 + 1)) ::
      ((Block.toBeBytes 4178351604652665545117142029713016490).take 3 ++
        [69, 160, 180, 238, 164, 228, 30, 244]) = sampleOpus2 := by decide +kernel
  have hsent := samplePeer_encrypt 1 hseal
  rwa [hbytes] at hsent

-- The second packet, five bytes of audio under the next nonce, is answered as a
-- ping and not decrypted.
theorem speech_answered_as_ping :
    boundServer.Reachable ∧ boundServer.getClientBySocket eveAddr = some 0 ∧
      (boundServer.get 0).crypt.key = (samplePeer 1).key ∧
      (boundServer.get 0).crypt.decryptNonce = (samplePeer 1).encryptNonce ∧
      sampleOpus.WellFormed ∧
      (samplePeer 1).encrypt sampleOpus [] = .ok (samplePeer 2, sampleOpus2) ∧
      boundServer.destination eveAddr sampleOpus2 = .PingAnonymous ∧
      boundServer.handlePacket PROTOCOL_VERSION 0 eveAddr sampleOpus2 [] =
        .ok (boundServer, .ok (some (boundServer.pingAnonymous PROTOCOL_VERSION 3))) := by
  have hping : boundServer.destination eveAddr sampleOpus2 = .PingAnonymous := rfl
  refine ⟨reachable_sample _, by decide +kernel, by decide +kernel, by decide +kernel, by decide,
    samplePeer_encrypt_opus, hping, ?_⟩
  rw [handlePacket_eq]
  rfl

-- No varint has seven bytes, so a ping always gets through.

theorem length_writeVarint_of_lt {value : UInt64} (h : value.toNat < 2 ^ 63) :
    (writeVarint value).length ≤ 5 ∨ (writeVarint value).length = 9 := by
  have hsmall : ¬value &&& 0xffff_ffff_ffff_fffc = 0xffff_ffff_ffff_fffc := fun hmask => by
    have hle := mask_le_of_and_eq hmask
    simp only [UInt64.reduceToNat] at hle
    omega
  have hpos : ¬value &&& 0x8000_0000_0000_0000 = 0x8000_0000_0000_0000 := fun hmask => by
    have hle := mask_le_of_and_eq hmask
    simp only [UInt64.reduceToNat] at hle
    omega
  rw [writeVarint, if_neg hsmall, if_neg hpos]
  split_ifs <;> simp

theorem length_writeVarint_ne_seven (value : UInt64) : (writeVarint value).length ≠ 7 := by
  by_cases h : value.toNat < 2 ^ 63
  · have hlength := length_writeVarint_of_lt h
    omega
  · have hnot : (~~~value).toNat < 2 ^ 63 := by
      have hlt := value.toNat_lt
      simp only [UInt64.toNat_not, UInt64.size]
      omega
    have hlength := length_writeVarint_of_lt hnot
    rw [writeVarint]
    split_ifs with hsmall hneg
    · simp
    · simp only [List.length_cons]
      omega
    all_goals simp

theorem length_encode_ping {dir : VoicePacketDst} (timestamp : UInt64) :
    (encodeVoicePacket (.Ping timestamp : VoicePacket dir) []).length ≠ 8 := by
  have hlength := length_writeVarint_ne_seven timestamp
  simp only [encodeVoicePacket, putVarint, List.length_append, List.length_nil, List.length_singleton]
  omega

-- The same client's next ping.
theorem destination_encrypted_ping :
    boundServer.getClientBySocket eveAddr = some 0 ∧
      ∃ datagram, (samplePeer 1).encrypt samplePing [] = .ok (samplePeer 2, datagram) ∧
      boundServer.handlePacket PROTOCOL_VERSION 0 eveAddr datagram [] =
        boundServer.handleKnown 0 0 (datagram.take UDP_BUFFER_SIZE) := by
  have hbound : boundServer.getClientBySocket eveAddr = some 0 := by decide +kernel
  obtain ⟨sealed, tag, hseal, -⟩ := ocbEncrypt_returns (.new sampleKey)
    (nonceAt (2 ^ 127 + (1 + 1))) (encodeVoicePacket samplePing [])
  have hsent := samplePeer_encrypt 1 hseal
  obtain ⟨hiff, hpassed⟩ := destination_encrypted hbound hsent PROTOCOL_VERSION 0 []
  refine ⟨hbound, _, hsent, hpassed (hiff.mpr ?_)⟩
  exact fun hboth => length_encode_ping _ hboth.2

end ServerState

end Mumble
