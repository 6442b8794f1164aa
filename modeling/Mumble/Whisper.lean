import Mumble.Sampler.Reach
import Mumble.Reuse

/-!
Whom a whisper is passed to. The router collects its listeners under their sessions, so
it is exact as long as a session says which client is meant.
-/

namespace Mumble

open Mumble.Lib

-- With one key out, the others are fewer than there are keys.
theorem Lib.HashIndex.length_erase_lt {α : Type} (m : HashIndex UInt32 α) (k : UInt32) :
    (m.erase k).entries.length < 2 ^ 32 := by
  have hout : k ∉ (m.erase k).keys := by
    rw [← AList.mem_keys, AList.mem_erase]
    exact fun h => h.1 rfl
  have hnodup : ((k :: (m.erase k).keys).map UInt32.toNat).Nodup :=
    (List.nodup_cons.mpr ⟨hout, (m.erase k).keys_nodup⟩).map fun _ _ => UInt32.toNat_inj.mp
  have hsubset : (k :: (m.erase k).keys).map UInt32.toNat ⊆ List.range (2 ^ 32) := by
    intro n hn
    obtain ⟨x, -, rfl⟩ := List.mem_map.mp hn
    exact List.mem_range.mpr x.toNat_lt
  have hle := (List.subperm_of_subset hnodup hsubset).length_le
  simp only [List.length_map, List.length_cons, List.length_range, AList.keys, List.keys] at hle
  omega

namespace ServerState

variable {s s' : ServerState} {r q : ClientRef} {x : UInt32} {slot : VoiceTarget} {now : Instant}
  {packet : VoicePacket .ClientBound}

-- The clients that a slot leads to, in one of three ways.
inductive Leads (s : ServerState) (slot : VoiceTarget) (q : ClientRef) : Prop where
  | Session {x : UInt32} (hx : x ∈ slot.sessions) (hq : s.clients.lookup x = some q)
  | Member {k x : UInt32} {channel : Channel} (hk : k ∈ slot.channels)
      (hchannel : s.channels.lookup k = some channel) (hq : channel.clients.lookup x = some q)
  | Listener {k x : UInt32} {channel : Channel} (hk : k ∈ slot.channels)
      (hchannel : s.channels.lookup k = some channel) (hq : channel.listeners.lookup x = some q)

-- Under the sessions that a slot leads to there is someone it leads to.

theorem leads_of_found (h : s.found slot x = some q) : s.Leads slot q := by
  rcases found_cases h with ⟨hx, hq⟩ | hfirst
  · exact .Session hx hq
  · obtain ⟨k, hk, channel, hchannel, hmember | hlistener⟩ := exists_of_firstEntry hfirst
    · exact .Member hk hchannel hmember
    · exact .Listener hk hchannel hlistener

theorem found_of_entry {k : UInt32} {channel : Channel} (hk : k ∈ slot.channels)
    (hchannel : s.channels.lookup k = some channel)
    (hentry : channel.clients.lookup x = some q ∨ channel.listeners.lookup x = some q) :
    (s.found slot x).isSome := by
  have hfirst : (s.firstEntry slot x).isSome := by
    refine List.findSome?_isSome_iff.mpr ⟨k, AList.mem_keys.mp hk, ?_⟩
    rw [hchannel, Option.bind_some, Option.isSome_or]
    rcases hentry with hq | hq
    · rw [hq, Option.isSome_some, Bool.or_true]
    · rw [hq, Option.isSome_some, Bool.true_or]
  unfold found
  rw [Option.isSome_or, hfirst, Bool.or_true]

theorem Leads.found (h : s.Reachable) (hq : s.Leads slot q) :
    q < s.next ∧ (s.found slot (s.get q).sessionId).isSome := by
  have hkeyed {k x : UInt32} {channel : Channel} (hchannel : s.channels.lookup k = some channel)
      (hentry : channel.clients.lookup x = some q ∨ channel.listeners.lookup x = some q) :
      q < s.next ∧ (s.get q).sessionId = x := by
    refine h.keyed (k := k) ⟨channel.room, ?_, hentry⟩
    rw [registry_channels, hchannel]
    rfl
  cases hq with
  | @Session x hx hq =>
      obtain ⟨hrunning, hsession⟩ := h.sound.indexed.connected hq
      have hown : (s.get q).sessionId = x := hsession
      refine ⟨hrunning.1, ?_⟩
      rw [hown, ServerState.found, if_pos hx, hq, Option.some_or, Option.isSome_some]
  | Member hk hchannel hq =>
      obtain ⟨hlt, rfl⟩ := hkeyed hchannel (.inl hq)
      exact ⟨hlt, found_of_entry hk hchannel (.inl hq)⟩
  | Listener hk hchannel hq =>
      obtain ⟨hlt, rfl⟩ := hkeyed hchannel (.inr hq)
      exact ⟨hlt, found_of_entry hk hchannel (.inr hq)⟩

theorem mem_attempted {i : Nat} (hi : i < 30) :
    q ∈ s.attempted r (UInt8.ofNat (i + 1)) ↔
      (∃ x ≠ (s.get r).sessionId, s.found (s.get r).targets[i] x = some q) ∧
        (s.get q).deaf = false := by
  rw [attempted, List.mem_filter, HashIndex.mem_values, Bool.not_eq_true']
  simp only [lookup_recipients_iff hi]

theorem nodup_attempted {i : Nat} (hi : i < 30) (h : s.Reachable) :
    (s.attempted r (UInt8.ofNat (i + 1))).Nodup := by
  refine List.Nodup.filter _ (HashIndex.nodup_values (fun q => (s.get q).sessionId) ?_)
  intro x q hx
  exact sessionId_of_found h ((lookup_recipients_iff hi).mp hx).2

theorem length_attempted_lt (s : ServerState) (r : ClientRef) (target : UInt8) :
    (s.attempted r target).length < 2 ^ 32 := by
  have hall : (s.recipients r target).values.length < 2 ^ 32 := by
    rw [HashIndex.values, List.length_map]
    exact HashIndex.length_erase_lt _ _
  exact Nat.lt_of_le_of_lt (List.length_filter_le _ _) hall

-- No two of the clients that a slot of a client leads to have one session, nor does
-- one of them have the client's own.
def Identified (s : ServerState) (r : ClientRef) (slot : VoiceTarget) : Prop :=
  ∀ p q, (s.Leads slot p ∨ p = r) → (s.Leads slot q ∨ q = r) →
    (s.get p).sessionId = (s.get q).sessionId → p = q

theorem mem_attempted_iff_leads {i : Nat} (hi : i < 30) (h : s.Reachable)
    (hidentified : s.Identified r (s.get r).targets[i]) :
    q ∈ s.attempted r (UInt8.ofNat (i + 1)) ↔
      s.Leads (s.get r).targets[i] q ∧ q ≠ r ∧ (s.get q).deaf = false := by
  rw [mem_attempted hi]
  constructor
  · rintro ⟨⟨x, hx, hfound⟩, hdeaf⟩
    refine ⟨leads_of_found hfound, ?_, hdeaf⟩
    rintro rfl
    exact hx (sessionId_of_found h hfound).symm
  · rintro ⟨hleads, hother, hdeaf⟩
    refine ⟨⟨(s.get q).sessionId, ?_, ?_⟩, hdeaf⟩
    · exact fun hsame => hother (hidentified q r (.inl hleads) (.inr rfl) hsame)
    · obtain ⟨p, hp⟩ := Option.isSome_iff_exists.mp (hleads.found h).2
      have hsame : (s.get p).sessionId = (s.get q).sessionId := sessionId_of_found h hp
      obtain rfl := hidentified p q (.inl (leads_of_found hp)) (.inl hleads) hsame
      exact hp

-- A whisper is tried once on each of those that its slot leads to, the speaker and the
-- deaf apart, and the anticheat is told how many they are.
theorem whisper_exact {i : Nat} (hi : i < 30) (h : s.Reachable) (hmute : (s.get r).mute = false)
    (hidentified : s.Identified r (s.get r).targets[i]) (now : Instant) (seqNum : UInt64)
    (payload : VoicePacketPayload) (positionInfo : Option (List UInt8)) :
    (∃ ac recordHeard,
      s.handleVoicePacket r now
          (.Audio (UInt8.ofNat (i + 1)) (s.get r).sessionId seqNum payload positionInfo) =
        .ok (((s.attempted r (UInt8.ofNat (i + 1))).foldl (fun t q => t.pass r now recordHeard
            (.Audio (UInt8.ofNat (i + 1)) (s.get r).sessionId seqNum payload positionInfo) q)
          (s.annotate r ac)).emitted r
            (UInt32.ofNat (s.attempted r (UInt8.ofNat (i + 1))).length), .ok ())) ∧
    (∀ q, q ∈ s.attempted r (UInt8.ofNat (i + 1)) ↔
      s.Leads (s.get r).targets[i] q ∧ q ≠ r ∧ (s.get q).deaf = false) ∧
    (s.attempted r (UInt8.ofNat (i + 1))).Nodup ∧
    (UInt32.ofNat (s.attempted r (UInt8.ofNat (i + 1))).length).toNat =
      (s.attempted r (UInt8.ofNat (i + 1))).length := by
  have htarget : UInt8.ofNat (i + 1) ≠ 31 := by
    have hnat : (UInt8.ofNat (i + 1)).toNat = i + 1 :=
      UInt8.toNat_ofNat_of_lt (show i + 1 < 256 by omega)
    intro hloopback
    rw [hloopback] at hnat
    change 31 = i + 1 at hnat
    omega
  refine ⟨handleVoicePacket_passes htarget hmute now seqNum payload positionInfo, fun q => ?_, ?_, ?_⟩
  · exact mem_attempted_iff_leads hi h hidentified
  · exact nodup_attempted hi h
  · exact UInt32.toNat_ofNat_of_lt' (length_attempted_lt s r _)

-- In the crowd, where the slot leads to a member and three listeners.
theorem whisper_exact_crowd :
    (∃ s', sampleCrowd.handleVoicePacket 0 0 (.Audio 1 1 0 (.Opus [7] false) none) =
      .ok (s', .ok ())) ∧
    (∀ q, q ∈ sampleCrowd.attempted 0 1 ↔
      sampleCrowd.Leads (sampleCrowd.get 0).targets[0] q ∧ q ≠ 0 ∧
        (sampleCrowd.get q).deaf = false) ∧
    sampleCrowd.attempted 0 1 = [1, 2, 3, 4] := by
  have hmute : (sampleCrowd.get 0).mute = false := by decide +kernel
  have hsessions : ∀ p < 5, ∀ q < 5,
      (sampleCrowd.get p).sessionId = (sampleCrowd.get q).sessionId → p = q := by decide +kernel
  have hnext : sampleCrowd.next = 5 := by decide +kernel
  have hlt {q : ClientRef} (hq : sampleCrowd.Leads (sampleCrowd.get 0).targets[0] q ∨ q = 0) :
      q < 5 := by
    rcases hq with hleads | rfl
    · exact hnext ▸ (hleads.found reachable_sampleCrowd).1
    · decide
  have hidentified : sampleCrowd.Identified 0 (sampleCrowd.get 0).targets[0] :=
    fun p q hp hq => hsessions p (hlt hp) q (hlt hq)
  have hsession : (sampleCrowd.get 0).sessionId = 1 := by decide +kernel
  obtain ⟨⟨ac, recordHeard, hhandle⟩, hexact, -⟩ := whisper_exact (i := 0) (by decide)
    reachable_sampleCrowd hmute hidentified 0 0 (.Opus [7] false) none
  rw [hsession] at hhandle
  exact ⟨⟨_, hhandle⟩, hexact, by decide +kernel⟩

-- The first slot is given the root channel.
theorem handleVoiceTarget_root (s : ServerState) (r : ClientRef) (now : Instant) :
    ∃ ac, s.handleVoiceTarget r now ⟨some 1, [⟨[], some 0⟩]⟩ =
      (s.modify r fun c => { c.setTarget 1 (fillTarget [⟨[], some 0⟩]).1 with ac }, .ok ()) := by
  have hslot : (s.get r).getTarget 1 = some (s.get r).targets[0] :=
    Vector.getElem?_eq_getElem (show (0 : Nat) < 30 by decide)
  refine ⟨s.anticheat.recordTargets now (fillTarget [⟨[], some 0⟩]).2 (s.get r).ac, ?_⟩
  unfold handleVoiceTarget
  dsimp only [Option.getD_some]
  rw [if_neg (by decide), show (1 : UInt32).toUInt8 = 1 from rfl, hslot]
  dsimp only
  rw [modify_modify]
  rfl

theorem after_target (hloops : s.loops r .Tcp = true) (now : Instant) :
    (s.after now (.Tcp r (.VoiceTarget ⟨some 1, [⟨[], some 0⟩]⟩))).registry = s.registry ∧
      ((s.after now (.Tcp r (.VoiceTarget ⟨some 1, [⟨[], some 0⟩]⟩))).get r).targets[0] =
        (fillTarget [⟨[], some 0⟩]).1 := by
  obtain ⟨ac, htarget⟩ := handleVoiceTarget_root s r now
  have hframe : s.handleFrame r now (.VoiceTarget ⟨some 1, [⟨[], some 0⟩]⟩) =
      .ok (s.modify r fun c => { c.setTarget 1 (fillTarget [⟨[], some 0⟩]).1 with ac }, .ok ()) :=
    congrArg Except.ok htarget
  rw [after_tcp hloops hframe]
  refine ⟨registry_modify_same fun _ => rfl, ?_⟩
  rw [get_modify_self]
  exact Vector.getElem_setIfInBounds_self ..

-- The client that has a session for the second time is a member of the channel that is
-- talked to, but it is the listener that had it the first time who is tried.
theorem member_missed :
    ∃ (s : ServerState) (r q : ClientRef), s.Reachable ∧
      s.clients.lookup (s.get r).sessionId = some r ∧ (s.get r).mute = false ∧
      s.clients.lookup (s.get q).sessionId = some q ∧ s.Leads (s.get r).targets[0] q ∧ q ≠ r ∧
      (s.get q).deaf = false ∧ q ∉ s.attempted r 1 ∧
      ∀ now seqNum payload positionInfo, ∃ s',
        s.handleVoicePacket r now (.Audio 1 (s.get r).sessionId seqNum payload positionInfo) =
          .ok (s', .ok ()) ∧ s'.get q = s.get q := by
  obtain ⟨s₀, r, q, hreachable₀, hghost, hloops, htwins⟩ := exists_twins
  obtain ⟨hregistry, hslot⟩ := after_target hloops 0
  have hreachable := hreachable₀.after 0 (.Tcp r (.VoiceTarget ⟨some 1, [⟨[], some 0⟩]⟩))
  generalize s₀.after 0 (.Tcp r (.VoiceTarget ⟨some 1, [⟨[], some 0⟩]⟩)) = s
    at hregistry hslot hreachable
  rw [← hregistry] at htwins
  obtain ⟨room, hroom, hmember, hlistener⟩ := htwins.both
  obtain ⟨channel, hchannel, rfl⟩ := Option.map_eq_some_iff.mp ((registry_channels s 0).symm.trans hroom)
  have hleads : s.Leads (s.get r).targets[0] q := by
    refine .Member ?_ hchannel hmember
    rw [hslot]
    decide
  have hsession : (s.get q).sessionId = 1 := (hreachable.sound.indexed.connected htwins.connected).2
  have hfound : s.found (s.get r).targets[0] 1 = some 0 := by
    have hkeys : (fillTarget [⟨[], some 0⟩]).1.channels.keys = [0] := by decide
    have hsessions : 1 ∉ (fillTarget [⟨[], some 0⟩]).1.sessions := by decide
    have hlook : channel.listeners.lookup 1 = some 0 := hlistener
    rw [hslot, found, firstEntry, if_neg hsessions, hkeys, Option.none_or, List.findSome?_cons,
      hchannel, Option.bind_some, hlook]
    rfl
  have hmissed : q ∉ s.attempted r 1 := by
    intro hq
    obtain ⟨⟨x, -, htried⟩, -⟩ := (mem_attempted (i := 0) (by decide)).mp hq
    have hx : x = 1 := (sessionId_of_found hreachable htried).symm.trans hsession
    subst hx
    exact hghost (Option.some.inj (htried.symm.trans hfound))
  refine ⟨s, r, q, hreachable, htwins.speaker, htwins.unmuted, hsession.symm ▸ htwins.connected,
    hleads, htwins.other, htwins.hears, hmissed, ?_⟩
  intro now seqNum payload positionInfo
  have htarget : (1 : UInt8) ≠ 31 := by decide
  obtain ⟨ac, recordHeard, hhandle⟩ := handleVoicePacket_passes htarget htwins.unmuted now seqNum
    payload positionInfo
  refine ⟨_, hhandle, ?_⟩
  unfold emitted annotate
  rw [get_modify_ne _ htwins.other, get_foldl_pass_ne recordHeard hmissed,
    get_modify_ne _ htwins.other]

end ServerState

end Mumble
