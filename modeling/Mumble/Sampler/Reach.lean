import Mumble.Sampler.Reciprocity
import Mumble.Registry.Entries
import Mumble.Speech

/-!
Whom the sampler counts as reached, and whom the router would send the client's
packets to.
-/

namespace Mumble

open Mumble.Lib

namespace ServerState

-- The connected clients other than the sender among the recipients of all slots.
def audience (s : ServerState) (r : ClientRef) : Finset ClientRef :=
  ((List.range 30).flatMap fun i => (s.recipients r (UInt8.ofNat (i + 1))).values).toFinset.filter
    fun q => q ∈ s.clients.values ∧ q ≠ r

-- The sessions that a client targets, and those in the channels it targets.
def Aimed (s : ServerState) (r : ClientRef) (x : UInt32) : Prop :=
  ∃ slot ∈ (s.get r).targets.toList, x ∈ slot.sessions ∨
    ∃ k ∈ slot.channels, ∃ channel, s.channels.lookup k = some channel ∧
      (x ∈ channel.clients ∨ x ∈ channel.listeners)

-- Who is under a session in the first channel of a slot that has the session at all.
def firstEntry (s : ServerState) (slot : VoiceTarget) (x : UInt32) : Option ClientRef :=
  slot.channels.keys.findSome? fun k =>
    (s.channels.lookup k).bind fun channel =>
      (channel.listeners.lookup x).or (channel.clients.lookup x)

variable {s : ServerState} {r q : ClientRef} {x : UInt32} {slot : VoiceTarget}

-- A session of a slot on its own.
def addSession (s : ServerState) (l : HashIndex UInt32 ClientRef) (session : UInt32) :
    HashIndex UInt32 ClientRef :=
  match s.clients.lookup session with
  | some r => HashIndex.insertNew session r l
  | none => l

theorem lookup_addSession (s : ServerState) (l : HashIndex UInt32 ClientRef) (session x : UInt32) :
    (s.addSession l session).lookup x =
      (l.lookup x).or (if x = session then s.clients.lookup x else none) := by
  unfold addSession
  by_cases hx : x = session
  · subst hx
    rw [if_pos rfl]
    cases s.clients.lookup x with
    | none => rw [Option.or_none]
    | some r =>
        dsimp only
        rw [HashIndex.lookup_insertNew_self]
        cases l.lookup x <;> rfl
  · rw [if_neg hx, Option.or_none]
    cases s.clients.lookup session with
    | none => rfl
    | some r => exact HashIndex.lookup_insertNew_ne hx

theorem lookup_foldl_addSession (sessions : List UInt32) (l : HashIndex UInt32 ClientRef)
    (x : UInt32) :
    (sessions.foldl s.addSession l).lookup x =
      (l.lookup x).or (if x ∈ sessions then s.clients.lookup x else none) := by
  induction sessions generalizing l with
  | nil => simp
  | cons session sessions ih =>
      rw [List.foldl_cons, ih, lookup_addSession, Option.or_assoc]
      by_cases hx : x = session
      · subst hx
        by_cases hthere : x ∈ sessions <;> simp [hthere]
      · simp [hx]

theorem lookup_sessionListeners (s : ServerState) (slot : VoiceTarget) (x : UInt32) :
    (s.sessionListeners slot).lookup x = if x ∈ slot.sessions then s.clients.lookup x else none := by
  have hfold : s.sessionListeners slot = slot.sessions.keys.foldl s.addSession ∅ := rfl
  rw [hfold, lookup_foldl_addSession, AList.lookup_empty, Option.none_or]
  simp only [AList.mem_keys]

theorem lookup_channelListeners (s : ServerState) (slot : VoiceTarget)
    (l : HashIndex UInt32 ClientRef) (x : UInt32) :
    (s.channelListeners slot l).lookup x = (l.lookup x).or (s.firstEntry slot x) := by
  unfold channelListeners firstEntry
  induction slot.channels.keys generalizing l with
  | nil => simp
  | cons k keys ih =>
      rw [List.foldl_cons, ih]
      cases hk : s.channels.lookup k with
      | none => simp [hk]
      | some channel =>
          simp only [hk, lookup_addAll, List.findSome?_cons, Option.bind_some, Option.or_assoc]
          cases l.lookup x <;> cases channel.listeners.lookup x <;>
            cases channel.clients.lookup x <;> simp

-- Whom a slot has under a session: the client of a targeted session, and else the
-- first entry of a targeted channel.
def found (s : ServerState) (slot : VoiceTarget) (x : UInt32) : Option ClientRef :=
  (if x ∈ slot.sessions then s.clients.lookup x else none).or (s.firstEntry slot x)

theorem lookup_recipients_iff {i : Nat} (hi : i < 30) :
    (s.recipients r (UInt8.ofNat (i + 1))).lookup x = some q ↔
      x ≠ (s.get r).sessionId ∧ s.found ((s.get r).targets[i]) x = some q := by
  have hnat : (UInt8.ofNat (i + 1)).toNat = i + 1 := UInt8.toNat_ofNat_of_lt (show i + 1 < 256 by omega)
  have hzero : UInt8.ofNat (i + 1) ≠ 0 := by
    intro h
    rw [h] at hnat
    cases hnat
  have hrange : 1 ≤ UInt8.ofNat (i + 1) ∧ UInt8.ofNat (i + 1) ≤ 30 := by
    rw [UInt8.le_iff_toNat_le, UInt8.le_iff_toNat_le, hnat]
    exact ⟨Nat.succ_pos i, hi⟩
  have hindex : (UInt8.ofNat (i + 1) - 1).toNat = i := by
    rw [UInt8.toNat_sub_of_le _ _ hrange.1, hnat]
    rfl
  have hslot : (s.get r).getTarget (UInt8.ofNat (i + 1)) = some (s.get r).targets[i] := by
    unfold Client.getTarget
    rw [hindex]
    exact Vector.getElem?_eq_getElem hi
  unfold recipients listeningClients
  rw [if_neg hzero, if_pos hrange, hslot, HashIndex.lookup_erase_eq_some]
  dsimp only
  rw [lookup_channelListeners, lookup_sessionListeners]
  rfl

theorem mem_audience : q ∈ s.audience r ↔
    (q ∈ s.clients.values ∧ q ≠ r) ∧
      ∃ slot ∈ (s.get r).targets.toList, ∃ x ≠ (s.get r).sessionId, s.found slot x = some q := by
  unfold audience
  rw [Finset.mem_filter, List.mem_toFinset, List.mem_flatMap, and_comm]
  refine and_congr_right fun _ => ?_
  constructor
  · rintro ⟨i, hi, hq⟩
    have hi := List.mem_range.mp hi
    obtain ⟨x, hx⟩ := HashIndex.mem_values.mp hq
    obtain ⟨hne, hfound⟩ := (lookup_recipients_iff hi).mp hx
    exact ⟨_, Vector.mem_toList_iff.mpr (Vector.getElem_mem hi), x, hne, hfound⟩
  · rintro ⟨slot, hslot, x, hne, hfound⟩
    obtain ⟨i, hi, rfl⟩ := Vector.mem_iff_getElem.mp (Vector.mem_toList_iff.mp hslot)
    exact ⟨i, List.mem_range.mpr hi,
      HashIndex.mem_values.mpr ⟨x, (lookup_recipients_iff hi).mpr ⟨hne, hfound⟩⟩⟩

-- A channel that has the session at all.
theorem exists_of_firstEntry (h : s.firstEntry slot x = some q) :
    ∃ k ∈ slot.channels, ∃ channel, s.channels.lookup k = some channel ∧
      (channel.clients.lookup x = some q ∨ channel.listeners.lookup x = some q) := by
  obtain ⟨k, hk, hentry⟩ := List.exists_of_findSome?_eq_some h
  obtain ⟨channel, hchannel, hentry⟩ := Option.bind_eq_some_iff.mp hentry
  refine ⟨k, AList.mem_keys.mpr hk, channel, hchannel, ?_⟩
  rcases Option.or_eq_some_iff.mp hentry with hlistener | ⟨-, hclient⟩
  · exact .inr hlistener
  · exact .inl hclient

theorem found_cases (h : s.found slot x = some q) :
    x ∈ slot.sessions ∧ s.clients.lookup x = some q ∨ s.firstEntry slot x = some q := by
  rcases Option.or_eq_some_iff.mp h with h | ⟨-, h⟩
  · split_ifs at h with hx
    exact .inl ⟨hx, h⟩
  · exact .inr h

-- For a session that is connected.
theorem found_iff (hq : s.clients.lookup x = some q) :
    s.found slot x = some q ↔ x ∈ slot.sessions ∨ s.firstEntry slot x = some q := by
  unfold found
  by_cases hx : x ∈ slot.sessions
  · simp [hx, hq]
  · simp [hx]

theorem aimed_of_found (hslot : slot ∈ (s.get r).targets.toList) (h : s.found slot x = some q) :
    s.Aimed r x := by
  refine ⟨slot, hslot, ?_⟩
  rcases found_cases h with ⟨hx, -⟩ | h
  · exact .inl hx
  · obtain ⟨k, hk, channel, hchannel, hentry⟩ := exists_of_firstEntry h
    refine .inr ⟨k, hk, channel, hchannel, ?_⟩
    exact hentry.imp (fun h => HashIndex.mem_iff_lookup.mpr ⟨q, h⟩)
      fun h => HashIndex.mem_iff_lookup.mpr ⟨q, h⟩

theorem sessionId_of_found (h : s.Reachable) (hfound : s.found slot x = some q) :
    (s.get q).sessionId = x := by
  rcases found_cases hfound with ⟨-, hq⟩ | hfirst
  · exact (h.sound.indexed.connected hq).2
  · obtain ⟨k, -, channel, hchannel, hentry⟩ := exists_of_firstEntry hfirst
    refine (h.keyed (k := k) ⟨channel.room, ?_, hentry⟩).2
    rw [registry_channels, hchannel]
    rfl

theorem mem_reached_iff :
    x ∈ Sampler.reached s.channels (.new r (s.get r)) ↔ x ≠ (s.get r).sessionId ∧ s.Aimed r x := by
  unfold Sampler.reached Sampler.reachedChan Aimed Snap.new Snap.session
  simp only [Finset.mem_union, Finset.mem_erase, Finset.mem_biUnion, List.mem_toFinset,
    Sampler.mem_chanMembers, List.mem_flatMap, ← AList.mem_keys]
  constructor
  · rintro (⟨hne, slot, hslot, hx⟩ | ⟨hne, k, ⟨slot, hslot, hk⟩, hentry⟩)
    · exact ⟨hne, slot, hslot, .inl hx⟩
    · exact ⟨hne, slot, hslot, .inr ⟨k, hk, hentry⟩⟩
  · rintro ⟨hne, slot, hslot, hx | ⟨k, hk, hentry⟩⟩
    · exact .inl ⟨hne, slot, hslot, hx⟩
    · exact .inr ⟨hne, k, ⟨slot, hslot, hk⟩, hentry⟩

-- A client of the audience is reached, under its session.
theorem image_audience_subset (h : s.Reachable) :
    (s.audience r).image (fun q => (s.get q).sessionId) ⊆
      Sampler.reached s.channels (.new r (s.get r)) := by
  intro x hx
  obtain ⟨q, hq, rfl⟩ := Finset.mem_image.mp hx
  obtain ⟨-, slot, hslot, x, hne, hfound⟩ := mem_audience.mp hq
  have hsession : (s.get q).sessionId = x := sessionId_of_found h hfound
  rw [mem_reached_iff, hsession]
  exact ⟨hne, aimed_of_found hslot hfound⟩

theorem card_image_audience (h : s.Reachable) :
    ((s.audience r).image fun q => (s.get q).sessionId).card = (s.audience r).card := by
  refine Finset.card_image_of_injOn ?_
  have hconnected {q : ClientRef} (hq : q ∈ s.audience r) :
      s.clients.lookup (s.get q).sessionId = some q := by
    obtain ⟨session, hlook⟩ := HashIndex.mem_values.mp (mem_audience.mp hq).1.1
    have hsession : (s.get q).sessionId = session := (h.sound.indexed.connected hlook).2
    rw [hsession, hlook]
  intro q hq p hp hsame
  have hlook := hconnected hq
  rw [show (s.get q).sessionId = (s.get p).sessionId from hsame, hconnected hp] at hlook
  exact (Option.some.inj hlook).symm

theorem toNat_reachInstant (ac : AnticheatConfig) (limits : Limits) (now : Instant) :
    (Sampler.measure s.channels s.snaps (.new r (s.get r)) ac limits now).reachInstant.toNat =
      (Sampler.reached s.channels (.new r (s.get r))).card := by
  have hlt := Sampler.card_audience_lt s.channels (.new r (s.get r))
  rw [← Sampler.reached_eq] at hlt
  exact UInt32.toNat_ofNat_of_lt' hlt

-- The sampler counts the clients that the router finds exactly if every session that
-- the client aims at, by itself or through a channel, is connected and its client is
-- the one that a slot has under it.
theorem reach_agrees_iff {limits : Limits} {now : Instant} {m : Measures} (h : s.Reachable)
    (hm : (Snap.new r (s.get r), m) ∈ (s.sample limits now).2) :
    m.reachInstant.toNat = (s.audience r).card ↔
      ∀ x ≠ (s.get r).sessionId, s.Aimed r x →
        ∃ q, s.clients.lookup x = some q ∧
          ∃ slot ∈ (s.get r).targets.toList, x ∈ slot.sessions ∨ s.firstEntry slot x = some q := by
  obtain ⟨-, -, -, rfl⟩ := mem_sample.mp hm
  rw [toNat_reachInstant, ← card_image_audience h]
  constructor
  · intro hcard x hne haimed
    have hall := Finset.eq_of_subset_of_card_le (image_audience_subset h) (Nat.le_of_eq hcard)
    have hx := mem_reached_iff.mpr ⟨hne, haimed⟩
    rw [← hall] at hx
    obtain ⟨q, hq, hsession⟩ := Finset.mem_image.mp hx
    obtain ⟨⟨hconnected, -⟩, slot, hslot, y, -, hfound⟩ := mem_audience.mp hq
    obtain ⟨session, hlook⟩ := HashIndex.mem_values.mp hconnected
    have hy : y = x := (sessionId_of_found h hfound).symm.trans hsession
    have hsame : session = x := (h.sound.indexed.connected hlook).2.symm.trans hsession
    subst hy hsame
    exact ⟨q, hlook, slot, hslot, (found_iff hlook).mp hfound⟩
  · intro hfound
    have hall : (s.audience r).image (fun q => (s.get q).sessionId) =
        Sampler.reached s.channels (.new r (s.get r)) := by
      refine Finset.Subset.antisymm (image_audience_subset h) fun x hx => ?_
      obtain ⟨hne, haimed⟩ := mem_reached_iff.mp hx
      obtain ⟨q, hlook, slot, hslot, hentry⟩ := hfound x hne haimed
      have hsession : (s.get q).sessionId = x := (h.sound.indexed.connected hlook).2
      have hother : q ≠ r := by
        rintro rfl
        exact hne hsession.symm
      refine Finset.mem_image.mpr ⟨q, mem_audience.mpr ⟨⟨?_, hother⟩, slot, hslot, x, hne, ?_⟩, hsession⟩
      · exact HashIndex.mem_values.mpr ⟨x, hlook⟩
      · exact (found_iff hlook).mpr hentry
    rw [hall]

-- In the crowd, the member and the three listeners of the channel that is talked to.
theorem reach_agrees_iff_crowd :
    ∃ m, (crowdTalker, m) ∈ (sampleCrowd.sample sampleLimits 0).2 ∧
      m.reachInstant.toNat = (sampleCrowd.audience 0).card ∧
      ∀ x ≠ (1 : UInt32), sampleCrowd.Aimed 0 x → ∃ q, sampleCrowd.clients.lookup x = some q := by
  have hconnected : (0 : ClientRef) ∈ sampleCrowd.clients.values := by decide +kernel
  have hm : (crowdTalker, _) ∈ (sampleCrowd.sample sampleLimits 0).2 :=
    mem_sample.mpr ⟨by decide +kernel, by decide +kernel, List.mem_map_of_mem hconnected, rfl⟩
  have hcount : (Sampler.measure sampleCrowd.channels sampleCrowd.snaps crowdTalker
      sampleCrowd.anticheat sampleLimits 0).reachInstant.toNat = (sampleCrowd.audience 0).card := by
    decide +kernel
  refine ⟨_, hm, hcount, fun x hx haimed => ?_⟩
  have hsession : (sampleCrowd.get 0).sessionId = 1 := by decide +kernel
  obtain ⟨q, hq, -⟩ := (reach_agrees_iff reachable_sampleCrowd hm).mp hcount x
    (by rw [hsession]; exact hx) haimed
  exact ⟨q, hq⟩

-- A client that targets a session that nobody has.
def sampleStray : ServerState :=
  sampleServer.afterAll (sampleClients ++ [(0, .Tcp 0 (.VoiceTarget ⟨some 1, [⟨[99], none⟩]⟩))])

theorem stray_session_counted :
    sampleStray.Reachable ∧
    ∃ m, (Snap.new 0 (sampleStray.get 0), m) ∈ (sampleStray.sample sampleLimits 0).2 ∧
      m.reachInstant = 1 ∧ sampleStray.audience 0 = ∅ := by
  have hconnected : (0 : ClientRef) ∈ sampleStray.clients.values := by decide +kernel
  refine ⟨reachable_sample _, _, mem_sample.mpr ⟨by decide +kernel, by decide +kernel,
    List.mem_map_of_mem hconnected, rfl⟩, by decide +kernel, by decide +kernel⟩

end ServerState

end Mumble
