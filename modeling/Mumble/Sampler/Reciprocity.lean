import Mumble.Sampler
import Mumble.Reachable

namespace Mumble

open Mumble.Lib

namespace Snap

-- The targets of the last `window_secs` that the client's window holds.
def recent (me : Snap) (ac : AnticheatConfig) (now : Instant) : Finset UInt64 :=
  me.c.ac.window.keys.toFinset.filter fun k =>
    ∃ t ∈ me.c.ac.window.lookup k, now - t ≤ max ac.windowSecs.toNat 1 * NANOS

section

variable (me : Snap) (channels : ChannelMap)

-- Who is in the channels that the client targets.
def members : Finset UInt32 :=
  me.chans.biUnion fun ch =>
    match channels.lookup ch with
    | some channel => channel.clients.keys.toFinset
    | none => ∅

-- Who listens to them.
def listening : Finset UInt32 :=
  me.chans.biUnion fun ch =>
    match channels.lookup ch with
    | some channel => channel.listeners.keys.toFinset
    | none => ∅

-- Everyone else who hears the client.
def audience : Finset UInt32 :=
  (me.sesss ∪ me.members channels ∪ me.listening channels).erase me.session

end

-- How far it is from one client to another, by the positions that both gave lately.
def distSqTo (me o : Snap) (now : Instant) : Option Float32 := do
  let (x, y, z) ← me.position now
  let (qx, qy, qz) ← o.position now
  return AnticheatConfig.distSq x y z qx qy qz

end Snap

-- What the sampler has read: the channels, and the clients, each with its own
-- session.
structure Snapshot where
  channels : ChannelMap
  snaps : List Snap
  distinct : (snaps.map Snap.session).Nodup

namespace Snapshot

variable (t : Snapshot) (me : Snap) (x : UInt32)

-- The sessions a client targets, and the members of the channels it targets.
def Targets : Prop :=
  x ∈ me.sesss ∨
    ∃ ch ∈ me.chans, ∃ channel, t.channels.lookup ch = some channel ∧ x ∈ channel.clients

def Reciprocates : Prop := ∃ o ∈ t.snaps, o.session = x ∧ o.targets me = true

instance : Decidable (t.Reciprocates me x) :=
  inferInstanceAs (Decidable (∃ o ∈ t.snaps, o.session = x ∧ o.targets me = true))

-- The listeners that do not target the client back.
def strangers : Finset UInt32 :=
  ((me.listening t.channels).erase me.session).filter fun x => ¬t.Reciprocates me x

-- So many are a large part of the clients. The clients are counted in a `u32`.
def Enough (limits : Limits) (n : Nat) : Prop :=
  limits.minRecipients.toNat ≤ n ∧
    t.snaps.length % 2 ^ 32 * limits.thresholdPct.toNat ≤ n * 100

-- Those around the client of whom it is known how far away they are.
def located (now : Instant) : Finset UInt32 :=
  ((me.members t.channels ∪ me.listening t.channels).erase me.session).filter fun x =>
    ∃ o ∈ t.snaps, o.session = x ∧ (me.distSqTo o now).isSome

-- Those of them who are too far away.
def distant (limits : Limits) (now : Instant) : Finset UInt32 :=
  ((me.members t.channels ∪ me.listening t.channels).erase me.session).filter fun x =>
    ∃ o ∈ t.snaps, o.session = x ∧ (me.distSqTo o now).any fun d =>
      d > Float32.ofNat limits.posFarDist.toNat * Float32.ofNat limits.posFarDist.toNat

-- They are many, and a large part of all. The products are those of a `u32`.
def FarOff (limits : Limits) (now : Instant) : Prop :=
  0 < limits.posFarMin.toNat ∧ limits.posFarMin.toNat ≤ (t.distant me limits now).card ∧
    (t.located me now).card * max (min limits.posFarPct.toNat 100) 1 % 2 ^ 32 ≤
      (t.distant me limits now).card * 100 % 2 ^ 32

end Snapshot

namespace Sampler

variable {channels : ChannelMap} {ch x : UInt32}

theorem mem_chanMembers : x ∈ ((chanMembers channels).lookup ch).getD [] ↔
    ∃ channel, channels.lookup ch = some channel ∧
      (x ∈ channel.clients ∨ x ∈ channel.listeners) := by
  unfold chanMembers
  rw [HashIndex.mem_foldl_push]
  simp only [AList.lookup_empty, Option.getD_none, List.not_mem_nil, false_or, List.mem_flatMap,
    List.mem_map, List.mem_append, Prod.mk.injEq]
  constructor
  · rintro ⟨channel, hchannel, _, hx, hid, rfl⟩
    obtain ⟨k, hk⟩ := HashIndex.mem_values.mp hchannel
    have hsame : channel.id = k := channels.keyed k channel hk
    rw [← hid, hsame]
    exact ⟨channel, hk, hx⟩
  · rintro ⟨channel, hchannel, hx⟩
    exact ⟨channel, HashIndex.mem_values.mpr ⟨ch, hchannel⟩, x, hx,
      ChannelMap.id_of_lookup hchannel, rfl⟩

variable {me : Snap}

theorem mem_members : x ∈ me.members channels ↔
    ∃ ch ∈ me.chans, ∃ channel, channels.lookup ch = some channel ∧ x ∈ channel.clients := by
  unfold Snap.members
  rw [Finset.mem_biUnion]
  refine exists_congr fun ch => and_congr_right fun _ => ?_
  cases channels.lookup ch with
  | none => simp
  | some channel => simp [AList.mem_keys]

theorem mem_listening : x ∈ me.listening channels ↔
    ∃ ch ∈ me.chans, ∃ channel, channels.lookup ch = some channel ∧ x ∈ channel.listeners := by
  unfold Snap.listening
  rw [Finset.mem_biUnion]
  refine exists_congr fun ch => and_congr_right fun _ => ?_
  cases channels.lookup ch with
  | none => simp
  | some channel => simp [AList.mem_keys]

-- Whoever the sampler counts as reached through a channel is in it or listens to it.
theorem reachedChan_eq (channels : ChannelMap) (me : Snap) :
    reachedChan channels me = (me.members channels ∪ me.listening channels).erase me.session := by
  ext x
  unfold reachedChan
  simp only [Finset.mem_erase, Finset.mem_biUnion, Finset.mem_union, List.mem_toFinset,
    mem_chanMembers, mem_members, mem_listening]
  grind

theorem reached_eq (channels : ChannelMap) (me : Snap) :
    reached channels me = me.audience channels := by
  unfold reached Snap.audience
  rw [reachedChan_eq, ← Finset.erase_union_distrib, Finset.union_assoc]

-- Sessions without the client's own can be counted in a `u32`.
theorem card_lt_of_not_mem {sessions : Finset UInt32} (h : x ∉ sessions) :
    sessions.card < 2 ^ 32 := by
  have hnumbers : sessions.image UInt32.toNat ⊆ (Finset.range (2 ^ 32)).erase x.toNat := by
    intro n hn
    obtain ⟨y, hy, rfl⟩ := Finset.mem_image.mp hn
    refine Finset.mem_erase.mpr ⟨?_, Finset.mem_range.mpr y.toNat_lt⟩
    intro hsame
    exact h (UInt32.toNat_inj.mp hsame ▸ hy)
  have hcard := Finset.card_le_card hnumbers
  rw [Finset.card_image_of_injective _ fun _ _ => UInt32.toNat_inj.mp,
    Finset.card_erase_of_mem (Finset.mem_range.mpr x.toNat_lt), Finset.card_range] at hcard
  omega

theorem card_audience_lt (channels : ChannelMap) (me : Snap) :
    (me.audience channels).card < 2 ^ 32 :=
  card_lt_of_not_mem (Finset.notMem_erase me.session _)

end Sampler

namespace Snapshot

variable {t : Snapshot} {me o : Snap} {x : UInt32}

theorem targets_iff : t.Targets me x ↔ x ∈ me.sesss ∨ x ∈ me.members t.channels := by
  rw [Sampler.mem_members]
  rfl

theorem mem_audience : x ∈ me.audience t.channels ↔
    x ≠ me.session ∧ (t.Targets me x ∨ x ∈ me.listening t.channels) := by
  unfold Snap.audience
  rw [Finset.mem_erase, Finset.mem_union, Finset.mem_union, targets_iff]

theorem lookup_sessToSnap :
    (Sampler.sessToSnap t.snaps).lookup x = some o ↔ o ∈ t.snaps ∧ o.session = x := by
  unfold Sampler.sessToSnap
  rw [HashIndex.lookup_foldl_insert t.distinct]
  simp

theorem isMutual_iff : Sampler.isMutual t.snaps me x = true ↔ t.Reciprocates me x := by
  unfold Sampler.isMutual Reciprocates
  constructor
  · intro h
    split at h
    · rename_i o ho
      obtain ⟨hmem, hsession⟩ := lookup_sessToSnap.mp ho
      exact ⟨o, hmem, hsession, h⟩
    · cases h
  · rintro ⟨o, hmem, hsession, htargets⟩
    rw [lookup_sessToSnap.mpr ⟨hmem, hsession⟩]
    exact htargets

-- Where all targets reciprocate, the others who hear the client are listeners.
theorem card_mutual
    (h : ∀ x, t.Targets me x → x = me.session ∨ t.Reciprocates me x) :
    ((me.audience t.channels).filter fun x => Sampler.isMutual t.snaps me x).card =
      (me.audience t.channels).card - (t.strangers me).card := by
  have hothers : ((me.audience t.channels).filter fun x =>
      ¬Sampler.isMutual t.snaps me x = true) = t.strangers me := by
    ext x
    simp only [strangers, Finset.mem_filter, Finset.mem_erase, mem_audience, isMutual_iff]
    constructor
    · rintro ⟨⟨hne, htargets | hlistens⟩, hnot⟩
      · exact absurd ((h x htargets).resolve_left hne) hnot
      · exact ⟨⟨hne, hlistens⟩, hnot⟩
    · rintro ⟨⟨hne, hlistens⟩, hnot⟩
      exact ⟨⟨hne, .inr hlistens⟩, hnot⟩
  have hsplit := Finset.card_filter_add_card_filter_not (s := me.audience t.channels)
    (p := fun x => Sampler.isMutual t.snaps me x = true)
  rw [hothers] at hsplit
  omega

theorem toNat_max (a b : UInt32) : (max a b).toNat = max a.toNat b.toNat := by
  have hmax : max a b = if a ≤ b then b else a := rfl
  rw [hmax]
  split_ifs with h
  · exact (max_eq_right (UInt32.le_iff_toNat_le.mp h)).symm
  · rw [UInt32.le_iff_toNat_le] at h
    omega

theorem toNat_min (a b : UInt32) : (min a b).toNat = min a.toNat b.toNat := by
  have hmin : min a b = if a ≤ b then a else b := rfl
  rw [hmin]
  split_ifs with h
  · exact (min_eq_left (UInt32.le_iff_toNat_le.mp h)).symm
  · rw [UInt32.le_iff_toNat_le] at h
    omega

theorem toNat_mutuality (haudience : me.audience t.channels ≠ ∅)
    (h : ∀ x, t.Targets me x → x = me.session ∨ t.Reciprocates me x) :
    (Sampler.mutuality t.channels t.snaps me).toNat =
      ((me.audience t.channels).card - (t.strangers me).card) * 100 % 2 ^ 32 / (me.audience t.channels).card := by
  have hlt := Sampler.card_audience_lt t.channels me
  have hpos : 0 < (me.audience t.channels).card :=
    Finset.card_pos.mpr (Finset.nonempty_iff_ne_empty.mpr haudience)
  have hcount : (UInt32.ofNat (me.audience t.channels).card).toNat = (me.audience t.channels).card :=
    UInt32.toNat_ofNat_of_lt' hlt
  have hdivisor : (max (UInt32.ofNat (me.audience t.channels).card) 1).toNat = (me.audience t.channels).card := by
    rw [toNat_max, hcount]
    exact max_eq_left hpos
  unfold Sampler.mutuality
  rw [Sampler.reached_eq, if_neg haudience, card_mutual h, UInt32.toNat_div, UInt32.toNat_mul, hdivisor,
    UInt32.toNat_ofNat_of_lt' (Nat.lt_of_le_of_lt (Nat.sub_le ..) hlt)]
  rfl

theorem Enough.mono {limits : Limits} {n n' : Nat} (h : t.Enough limits n) (hn : n ≤ n') :
    t.Enough limits n' := ⟨h.1.trans hn, h.2.trans (Nat.mul_le_mul_right _ hn)⟩

section Verdict

variable {limits : Limits} (ac : AnticheatConfig) (now : Instant)

theorem length_window (me : Snap) :
    (me.window ac now).entries.length = (me.recent ac now).card := by
  have hkeys : (me.window ac now).keys.toFinset = me.recent ac now := by
    ext k
    rw [List.mem_toFinset, ← AList.mem_keys, HashIndex.mem_iff_lookup, Snap.recent,
      Finset.mem_filter, List.mem_toFinset, ← AList.mem_keys, HashIndex.mem_iff_lookup]
    simp only [Snap.window, lookup_retain, decide_eq_true_eq, Option.mem_def]
    constructor
    · rintro ⟨t, ht, hrecent⟩
      exact ⟨⟨t, ht⟩, t, ht, hrecent⟩
    · rintro ⟨-, t, ht, hrecent⟩
      exact ⟨t, ht, hrecent⟩
  rw [← hkeys, List.toFinset_card_of_nodup (AList.keys_nodup _)]
  exact (List.length_map ..).symm

-- The reach is high by those who hear the client now or by what is in its window.
theorem highReach_iff :
    (Sampler.measure t.channels t.snaps me ac limits now).highReach limits
        (Sampler.active t.snaps) = true ↔
      t.Enough limits (me.audience t.channels).card ∨
        t.Enough limits ((me.recent ac now).card % 2 ^ 32) := by
  have hreach : (Sampler.measure t.channels t.snaps me ac limits now).reach.toNat =
      max (me.audience t.channels).card ((me.recent ac now).card % 2 ^ 32) := by
    have hinstant : (Sampler.measure t.channels t.snaps me ac limits now).reachInstant.toNat =
        (me.audience t.channels).card := by
      rw [Sampler.measure, Sampler.reached_eq]
      exact UInt32.toNat_ofNat_of_lt' (Sampler.card_audience_lt t.channels me)
    have hwindow : (Sampler.measure t.channels t.snaps me ac limits now).reachWindow.toNat =
        (me.recent ac now).card % 2 ^ 32 := by
      rw [Sampler.measure, length_window]
      exact UInt32.toNat_ofNat'
    rw [Measures.reach, toNat_max, hinstant, hwindow]
  have hmax : t.Enough limits (max (me.audience t.channels).card ((me.recent ac now).card % 2 ^ 32)) ↔
      t.Enough limits (me.audience t.channels).card ∨
        t.Enough limits ((me.recent ac now).card % 2 ^ 32) := by
    constructor
    · intro h
      rcases max_choice (me.audience t.channels).card ((me.recent ac now).card % 2 ^ 32) with hm | hm
      · exact .inl (hm ▸ h)
      · exact .inr (hm ▸ h)
    · rintro (h | h)
      · exact h.mono (le_max_left _ _)
      · exact h.mono (le_max_right _ _)
  rw [← hmax, ← hreach, Measures.highReach, Bool.and_eq_true, decide_eq_true_eq,
    decide_eq_true_eq, UInt32.le_iff_toNat_le, UInt64.le_iff_toNat_le]
  generalize (Sampler.measure t.channels t.snaps me ac limits now).reach = reach
  -- neither product leaves the `u64`
  have hlarge : ∀ a b : UInt32, (a.toUInt64 * b.toUInt64).toNat = a.toNat * b.toNat := by
    intro a b
    rw [UInt64.toNat_mul, UInt32.toNat_toUInt64, UInt32.toNat_toUInt64, Nat.mod_eq_of_lt]
    have hlt : a.toNat * b.toNat < 2 ^ 32 * 2 ^ 32 := Nat.mul_lt_mul'' a.toNat_lt b.toNat_lt
    exact hlt
  have hreach100 : (reach.toUInt64 * 100).toNat = reach.toNat * 100 := hlarge reach 100
  rw [hlarge, hreach100, Sampler.active, UInt32.toNat_ofNat']
  exact Iff.rfl

theorem lookup_session (x : UInt32) {p : Snap → Prop} :
    (∃ o, (Sampler.sessToSnap t.snaps).lookup x = some o ∧ p o) ↔
      ∃ o ∈ t.snaps, o.session = x ∧ p o := by
  simp only [lookup_sessToSnap, and_assoc]

theorem farTargets_eq (limits : Limits) :
    Sampler.farTargets t.channels t.snaps me limits now =
      (UInt32.ofNat (t.distant me limits now).card, UInt32.ofNat (t.located me now).card) := by
  unfold Sampler.farTargets distant located
  rw [Sampler.reachedChan_eq]
  cases hposition : me.position now with
  | none => simp [Snap.distSqTo, hposition]
  | some place =>
      obtain ⟨x, y, z⟩ := place
      have hdist (session : UInt32) (p : Float32 → Bool) :
          ((Sampler.distSqTo t.snaps now x y z session).any p) = true ↔
            ∃ o ∈ t.snaps, o.session = session ∧ (me.distSqTo o now).any p = true := by
        rw [← lookup_session]
        unfold Sampler.distSqTo Snap.distSqTo
        rw [hposition]
        cases (Sampler.sessToSnap t.snaps).lookup session with
        | none => simp
        | some o => simp
      have hsome (session : UInt32) :
          ((Sampler.distSqTo t.snaps now x y z session).isSome) = true ↔
            ∃ o ∈ t.snaps, o.session = session ∧ (me.distSqTo o now).isSome = true := by
        have hany (d : Option Float32) : d.isSome = d.any fun _ => true := by cases d <;> rfl
        simp only [hany]
        exact hdist session _
      simp only [hdist, hsome]

-- Those who are too far away are too many.
theorem outOfRange_iff :
    (Sampler.measure t.channels t.snaps me ac limits now).outOfRange limits = true ↔
      t.FarOff me limits now := by
  have hlocated : (t.located me now).card < 2 ^ 32 :=
    Sampler.card_lt_of_not_mem (x := me.session) fun h => Finset.notMem_erase _ _ (Finset.mem_filter.mp h).1
  have hdistant : (t.distant me limits now).card < 2 ^ 32 :=
    Sampler.card_lt_of_not_mem (x := me.session) fun h => Finset.notMem_erase _ _ (Finset.mem_filter.mp h).1
  unfold Measures.outOfRange Sampler.measure FarOff
  simp only [farTargets_eq, Bool.and_eq_true, decide_eq_true_eq, UInt32.lt_iff_toNat_lt,
    UInt32.le_iff_toNat_le, UInt32.toNat_mul, toNat_max, toNat_min,
    UInt32.toNat_ofNat_of_lt' hlocated, UInt32.toNat_ofNat_of_lt' hdistant, and_assoc]
  exact Iff.rfl

variable (hmax : limits.mutualityMaxPct < 100)
  (h : ∀ x, t.Targets me x → x = me.session ∨ t.Reciprocates me x)
include hmax h

theorem lowMutuality_iff :
    (Sampler.measure t.channels t.snaps me ac limits now).lowMutuality limits = true ↔
      me.audience t.channels ≠ ∅ ∧
      ((me.audience t.channels).card - (t.strangers me).card) * 100 % 2 ^ 32 / (me.audience t.channels).card ≤
        limits.mutualityMaxPct.toNat := by
  have hlow : (Sampler.measure t.channels t.snaps me ac limits now).lowMutuality limits = true ↔
      Sampler.mutuality t.channels t.snaps me ≠ 255 ∧
        Sampler.mutuality t.channels t.snaps me ≤ limits.mutualityMaxPct := by
    unfold Measures.lowMutuality
    rw [Bool.and_eq_true, decide_eq_true_iff, decide_eq_true_iff]
    rfl
  rw [hlow]
  by_cases haudience : me.audience t.channels = ∅
  · have hnone : Sampler.mutuality t.channels t.snaps me = 255 :=
      if_pos ((Sampler.reached_eq t.channels me).trans haudience)
    simp [hnone, haudience]
  · rw [← toNat_mutuality haudience h, ← UInt32.le_iff_toNat_le]
    refine ⟨fun hm => ⟨haudience, hm.2⟩, fun hm => ⟨?_, hm.2⟩⟩
    -- the limit is below 100, and 255 is not
    intro hnone
    have hle := UInt32.le_iff_toNat_le.mp hm.2
    have hlt := UInt32.lt_iff_toNat_lt.mp hmax
    rw [hnone] at hle
    exact absurd (Nat.lt_of_le_of_lt hle hlt) (by decide)

-- A client all of whose targets target it back passes both tests of whom it talks
-- to unless listeners that do not are so many that the share of the others is low.
theorem reciprocated_clear_iff :
    ((Sampler.measure t.channels t.snaps me ac limits now).talkCheat limits
        (Sampler.active t.snaps) = false ∧
      (Sampler.measure t.channels t.snaps me ac limits now).posFarCheat limits = false) ↔
    (¬(t.Enough limits (me.audience t.channels).card ∨
        t.Enough limits ((me.recent ac now).card % 2 ^ 32)) ∧ ¬t.FarOff me limits now) ∨
    me.audience t.channels = ∅ ∨
    limits.mutualityMaxPct.toNat <
      ((me.audience t.channels).card - (t.strangers me).card) * 100 % 2 ^ 32 / (me.audience t.channels).card := by
  have hlow := lowMutuality_iff ac now hmax h
  unfold Measures.talkCheat Measures.posFarCheat
  rw [← highReach_iff ac now, ← outOfRange_iff ac now, Bool.not_eq_true, Bool.not_eq_true]
  cases hm : (Sampler.measure t.channels t.snaps me ac limits now).lowMutuality limits with
  | true =>
      obtain ⟨haudience, hle⟩ := hlow.mp hm
      simp only [Bool.and_true]
      refine ⟨.inl, ?_⟩
      rintro (hclear | hnone | hlt)
      · exact hclear
      · exact absurd hnone haudience
      · omega
  | false =>
      simp only [Bool.and_false, and_self, true_iff]
      refine .inr ?_
      by_contra hnot
      obtain ⟨haudience, hle⟩ := not_or.mp hnot
      exact Bool.false_ne_true (hm.symm.trans (hlow.mpr ⟨haudience, Nat.le_of_not_lt hle⟩))

end Verdict

end Snapshot

namespace ServerState

variable {s : ServerState}

theorem nodup_clients (h : s.registry.Indexed) : s.clients.values.Nodup :=
  HashIndex.nodup_values (fun r => (s.get r).sessionId) fun _ _ hr => (h.connected hr).2

theorem nodup_sessions (h : s.registry.Indexed) : (s.snaps.map Snap.session).Nodup := by
  have hsession (session : UInt32) (r : ClientRef) (hr : s.clients.lookup session = some r) :
      (s.get r).sessionId = session := (h.connected hr).2
  unfold snaps
  rw [List.map_map]
  refine List.Nodup.map_on ?_ (nodup_clients h)
  intro r hr q hq hsame
  obtain ⟨session, hlook⟩ := HashIndex.mem_values.mp hr
  obtain ⟨session', hlook'⟩ := HashIndex.mem_values.mp hq
  have hsessions : session = session' :=
    (hsession _ _ hlook).symm.trans (Eq.trans hsame (hsession _ _ hlook'))
  rw [hsessions, hlook'] at hlook
  exact (Option.some.inj hlook).symm

-- What the sampler reads of a server that nothing happens to meanwhile.
def snapshot (s : ServerState) (h : s.registry.Indexed) : Snapshot :=
  ⟨s.channels, s.snaps, nodup_sessions h⟩

-- Every client is measured, unless the sampler is switched off.
theorem mem_sample {limits : Limits} {now : Instant} {me : Snap} {m : Measures} :
    (me, m) ∈ (s.sample limits now).2 ↔
      s.anticheat.enabled = true ∧ Sampler.active s.snaps ≠ 0 ∧ me ∈ s.snaps ∧
        m = Sampler.measure s.channels s.snaps me s.anticheat limits now := by
  unfold sample
  split_ifs with henabled hactive
  · simp only [Bool.not_eq_true'] at henabled
    simp [henabled]
  · simp [hactive]
  · simp only [Bool.not_eq_true', Bool.not_eq_false] at henabled
    simp only [List.mem_map, Prod.mk.injEq]
    constructor
    · rintro ⟨o, ho, rfl, rfl⟩
      exact ⟨henabled, hactive, ho, rfl⟩
    · rintro ⟨-, -, ho, rfl⟩
      exact ⟨me, ho, rfl, rfl⟩

-- The first client targets the second one's channel, and the second one the root
-- channel, where the first one is. The other three listen.
def sampleCrowd : ServerState :=
  sampleServer.afterAll (sampleClients ++
    [(0, .Connect "ann" "10.0.0.3" (Vector.replicate KEY_SIZE 3) .Open),
      (0, .Connect "cid" "10.0.0.4" (Vector.replicate KEY_SIZE 4) .Open),
      (0, .Connect "dan" "10.0.0.5" (Vector.replicate KEY_SIZE 5) .Open),
      (0, .Tcp 1 (.ChannelState ⟨none, some 0, some "den", none, some true, none⟩)),
      (0, .Tcp 0 (.VoiceTarget ⟨some 1, [⟨[], some 1⟩]⟩)),
      (0, .Tcp 1 (.VoiceTarget ⟨some 1, [⟨[], some 0⟩]⟩)),
      (0, .Tcp 2 (.UserState { sampleUserState 3 with listeningChannelAdd := [1] })),
      (0, .Tcp 3 (.UserState { sampleUserState 4 with listeningChannelAdd := [1] })),
      (0, .Tcp 4 (.UserState { sampleUserState 5 with listeningChannelAdd := [1] }))])

def sampleLimits : Limits := ⟨50, 3, 30, 3, 0, 0, 500, 15, 70⟩

theorem reachable_sampleCrowd : sampleCrowd.Reachable := reachable_sample _

def crowdSnapshot : Snapshot := sampleCrowd.snapshot reachable_sampleCrowd.sound.indexed

def crowdTalker : Snap := .new 0 (sampleCrowd.get 0)

-- The channel has one member, and that one targets the talker's channel.
theorem crowdTalker_reciprocated (x : UInt32) (h : crowdSnapshot.Targets crowdTalker x) :
    x = crowdTalker.session ∨ crowdSnapshot.Reciprocates crowdTalker x := by
  have hsessions : crowdTalker.sesss = ∅ := by decide +kernel
  have hchannels : crowdTalker.chans = {1} := by decide +kernel
  have hmembers : (crowdSnapshot.channels.lookup 1).map (fun c => c.clients.keys) = some [2] := by
    decide +kernel
  rcases h with hx | ⟨ch, hch, channel, hlook, hx⟩
  · rw [hsessions] at hx
    simp at hx
  · rw [hchannels, Finset.mem_singleton] at hch
    subst hch
    rw [hlook] at hmembers
    have hkeys : channel.clients.keys = [2] := Option.some.inj hmembers
    rw [AList.mem_keys, hkeys, List.mem_singleton] at hx
    subst hx
    exact .inr (by decide +kernel)

theorem reciprocated_clear_iff_crowd :
    (Sampler.measure crowdSnapshot.channels crowdSnapshot.snaps crowdTalker sampleCrowd.anticheat
        { sampleLimits with mutualityMaxPct := 20 } 0).talkCheat
        { sampleLimits with mutualityMaxPct := 20 } (Sampler.active crowdSnapshot.snaps) = false ∧
      (Sampler.measure crowdSnapshot.channels crowdSnapshot.snaps crowdTalker sampleCrowd.anticheat
        { sampleLimits with mutualityMaxPct := 20 } 0).posFarCheat
        { sampleLimits with mutualityMaxPct := 20 } = false := by
  have hshare : 20 < ((crowdTalker.audience crowdSnapshot.channels).card -
      (crowdSnapshot.strangers crowdTalker).card) * 100 % 2 ^ 32 /
        (crowdTalker.audience crowdSnapshot.channels).card := by decide +kernel
  exact (Snapshot.reciprocated_clear_iff _ 0 (by decide) crowdTalker_reciprocated).mpr
    (.inr (.inr hshare))

-- With the limit at 30 percent the talker is suspicious, because of those who listen.
theorem reciprocated_flagged :
    ∃ m, (crowdTalker, m) ∈ (sampleCrowd.sample sampleLimits 0).2 ∧
      sampleLimits.mutualityMaxPct < 100 ∧
      (∀ x, crowdSnapshot.Targets crowdTalker x →
        x = crowdTalker.session ∨ crowdSnapshot.Reciprocates crowdTalker x) ∧
      m.talkCheat sampleLimits (Sampler.active sampleCrowd.snaps) = true := by
  have hconnected : (0 : ClientRef) ∈ sampleCrowd.clients.values := by decide +kernel
  refine ⟨_, mem_sample.mpr ⟨by decide +kernel, by decide +kernel, ?_, rfl⟩, by decide,
    crowdTalker_reciprocated, by decide +kernel⟩
  exact List.mem_map_of_mem hconnected

end ServerState

end Mumble
