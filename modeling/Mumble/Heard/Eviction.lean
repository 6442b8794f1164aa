import Mumble.Heard

/-!
What `note_heard` forgets.
-/

namespace Mumble

open Mumble.Lib

namespace AnticheatConfig

variable {ac : AnticheatConfig} {now : Instant} {key : String} {heard : HashIndex String HeardEntry}

-- How long an entry is kept once the map is full.
def retention (ac : AnticheatConfig) : Nat := max ac.heardSecs.toNat 10 * NANOS

def Expired (ac : AnticheatConfig) (now : Instant) (e : HeardEntry) : Prop :=
  ac.retention < now - e.last

theorem retain_eq_self {p : HeardEntry → Bool}
    (h : ∀ k e, heard.lookup k = some e → p e = true) : retain p heard = heard :=
  AList.ext (List.filter_eq_self.mpr fun e he => h e.1 e.2 (AList.mem_lookup_iff.mpr he))

theorem length_retain_lt {p : HeardEntry → Bool} {k : String} {e : HeardEntry}
    (he : heard.lookup k = some e) (hp : p e = false) :
    (retain p heard).entries.length < heard.entries.length := by
  refine List.length_filter_lt_length_iff_exists.mpr ⟨⟨k, e⟩, AList.mem_lookup_iff.mp he, ?_⟩
  simp [hp]

-- The ways in which room is made.
theorem makeRoom_cases (ac : AnticheatConfig) (now : Instant) (key : String)
    (hcap : heard.entries.length ≤ HEARD_CAP) :
    (¬(heard.entries.length = HEARD_CAP ∧ key ∉ heard) ∧ ac.makeRoom now key heard = heard) ∨
    (heard.entries.length = HEARD_CAP ∧ key ∉ heard ∧
      (∃ k e, heard.lookup k = some e ∧ ac.Expired now e) ∧
      ∀ k e, (ac.makeRoom now key heard).lookup k = some e ↔
        heard.lookup k = some e ∧ ¬ac.Expired now e) ∨
    heard.entries.length = HEARD_CAP ∧ key ∉ heard ∧
      (∀ k e, heard.lookup k = some e → ¬ac.Expired now e) ∧
      ∃ k e, heard.lookup k = some e ∧ (∀ k' e', heard.lookup k' = some e' → e.last ≤ e'.last) ∧
        ac.makeRoom now key heard = heard.erase k := by
  by_cases hfull : HEARD_CAP ≤ heard.entries.length ∧ key ∉ heard
  · have hlength : heard.entries.length = HEARD_CAP := Nat.le_antisymm hcap hfull.1
    rw [makeRoom, if_pos hfull]
    dsimp only
    by_cases hexpired : ∃ k e, heard.lookup k = some e ∧ ac.Expired now e
    · obtain ⟨k, e, he, hold⟩ := hexpired
      have hlt := length_retain_lt (p := fun e => now - e.last ≤ max ac.heardSecs.toNat 10 * NANOS) he
        (decide_eq_false (Nat.not_le.mpr hold))
      refine .inr (.inl ⟨hlength, hfull.2, ⟨k, e, he, hold⟩, fun k e => ?_⟩)
      rw [if_neg (by omega), lookup_retain, decide_eq_true_eq, Expired, retention, Nat.not_lt]
    · have hfresh : ∀ k e, heard.lookup k = some e → ¬ac.Expired now e :=
        fun k e he hold => hexpired ⟨k, e, he, hold⟩
      have hkept : retain (fun e => now - e.last ≤ max ac.heardSecs.toNat 10 * NANOS) heard = heard :=
        retain_eq_self fun k e he => decide_eq_true (Nat.not_lt.mp (hfresh k e he))
      have hne : heard.entries ≠ [] :=
        List.ne_nil_of_length_pos (Nat.lt_of_lt_of_le (by decide) hfull.1)
      obtain ⟨k, e, hold, he, hleast⟩ := oldest_spec hne
      rw [hkept, if_pos hfull.1, hold]
      exact .inr (.inr ⟨hlength, hfull.2, hfresh, k, e, he, hleast, rfl⟩)
  · refine .inl ⟨fun hcond => hfull ⟨hcond.1.ge, hcond.2⟩, ?_⟩
    rw [makeRoom, if_neg hfull]

-- What becomes of a map when a speaker is noted in it.
structure Noted (ac : AnticheatConfig) (now : Instant) (key : String) (session : UInt32)
    (heard heard' : HashIndex String HeardEntry) : Prop where
  present : ∃ e, heard'.lookup key = some e ∧ e.last = now ∧ e.sessionId = session ∧
    e.secs.toNat = ((heard.lookup key).elim 0 fun e => e.secs.toNat) + 1
  others : ∀ k e, k ≠ key → heard'.lookup k = some e → heard.lookup k = some e
  full : ∀ k ∈ heard, k ∉ heard' → heard.entries.length = HEARD_CAP ∧ key ∉ heard
  room : heard.entries.length = HEARD_CAP → key ∉ heard →
    ((∃ k e, heard.lookup k = some e ∧ ac.Expired now e) ∧
      ∀ k e, heard.lookup k = some e → (k ∉ heard' ↔ ac.Expired now e)) ∨
    (∀ k e, heard.lookup k = some e → ¬ac.Expired now e) ∧
      ∃ k e, heard.lookup k = some e ∧ (∀ k' e', heard.lookup k' = some e' → e.last ≤ e'.last) ∧
        ∀ k' ∈ heard, k' ∉ heard' ↔ k' = k

theorem sessionId_noteEntry (now : Instant) (speakerName : String) (speakerSession : UInt32)
    (speakerIp : String) (old : Option HeardEntry) :
    (noteEntry now speakerName speakerSession speakerIp old).sessionId = speakerSession := by
  unfold noteEntry
  dsimp only
  split_ifs with hother
  · rfl
  · exact not_not.mp hother

theorem secs_noteEntry (now : Instant) (speakerName : String) (speakerSession : UInt32)
    (speakerIp : String) (old : Option HeardEntry) :
    (noteEntry now speakerName speakerSession speakerIp old).secs =
      (old.elim 0 HeardEntry.secs) + 1 := by
  unfold noteEntry
  dsimp only
  cases old with
  | none => split_ifs <;> rfl
  | some e => split_ifs <;> rfl

variable {c : AcStats}

-- Noting a speaker forgets only what it must.
theorem noteHeard_noted (ac : AnticheatConfig) (now : Instant) (speakerName : String)
    (speakerSession : UInt32) (speakerIp : String) (hcap : c.heard.entries.length ≤ HEARD_CAP)
    (hsecs : ∀ e, c.heard.lookup (namePart speakerName) = some e → e.secs.toNat < 2 ^ 32 - 1) :
    Noted ac now (namePart speakerName) speakerSession c.heard
      (ac.noteHeard now speakerName speakerSession speakerIp c).heard := by
  rw [heard_noteHeard, lookup_makeRoom_key]
  generalize namePart speakerName = key at hsecs ⊢
  -- an entry that was there is gone if and only if room was made with it
  have hgone (e : HeardEntry) {k : String} (hk : k ∈ c.heard) (hkey : key ∉ c.heard) :
      k ∉ AList.insert key e (ac.makeRoom now key c.heard) ↔ k ∉ ac.makeRoom now key c.heard := by
    have hne : k ≠ key := fun heq => hkey (heq ▸ hk)
    rw [AList.mem_insert]
    simp [hne]
  refine ⟨⟨_, AList.lookup_insert _, rfl, sessionId_noteEntry .., ?_⟩, fun k e hk he => ?_,
    fun k hk hnot => ?_, fun hfull hnew => ?_⟩
  · rw [secs_noteEntry]
    cases hold : c.heard.lookup key with
    | none => rfl
    | some e =>
        have hlt := hsecs e hold
        have hone : (1 : UInt32).toNat = 1 := rfl
        rw [Option.elim_some, Option.elim_some, UInt32.toNat_add, hone]
        omega
  · rw [AList.lookup_insert_ne hk] at he
    exact of_lookup_makeRoom he
  · rcases ac.makeRoom_cases now key hcap with ⟨-, hsame⟩ | ⟨hfull, hnew, -⟩ | ⟨hfull, hnew, -⟩
    · rw [hsame, AList.mem_insert] at hnot
      exact absurd (.inr hk) hnot
    · exact ⟨hfull, hnew⟩
    · exact ⟨hfull, hnew⟩
  · rcases ac.makeRoom_cases now key hcap with ⟨hroom, -⟩ | ⟨-, -, hexpired, hkept⟩ |
      ⟨-, -, hfresh, k, e, he, hleast, herase⟩
    · exact absurd ⟨hfull, hnew⟩ hroom
    · refine .inl ⟨hexpired, fun k e he => ?_⟩
      rw [hgone _ (HashIndex.mem_iff_lookup.mpr ⟨e, he⟩) hnew, HashIndex.mem_iff_lookup]
      simp [hkept, he]
    · refine .inr ⟨hfresh, k, e, he, hleast, fun k' hk' => ?_⟩
      rw [hgone _ hk' hnew, herase, AList.mem_erase]
      simp [hk']

-- The map is full when Bob talks to the client for the first time.
def fullStats : AcStats := (AcStats.new 0).seedHeard 0 0 HeardCall.fullList

theorem bob_notMem_fullStats : fullStats.heard.lookup "bob" = none := by
  rw [fullStats, AcStats.lookup_seedHeard, AList.lookup_eq_none.mpr HeardCall.bob_notMem_fullList]
  rfl

theorem noteHeard_noted_full :
    fullStats.heard.entries.length = HEARD_CAP ∧
      Noted ⟨true, 10, 500, 900, .Log⟩ 0 "bob" 2 fullStats.heard
        (noteHeard ⟨true, 10, 500, 900, .Log⟩ 0 "[2] bob" 2 "10.0.0.2" fullStats).heard := by
  have hlength : fullStats.heard.entries.length = HEARD_CAP := by
    have hkeys : (HeardCall.fullList.keys.filter fun k => k ∉ (AcStats.new 0).heard) =
        HeardCall.fullList.keys :=
      List.filter_eq_self.mpr fun k _ => decide_eq_true (AList.notMem_empty k)
    rw [fullStats, AcStats.length_seedHeard, hkeys, ← HeardCall.length_fullList]
    simp [AList.keys, List.keys, AcStats.new]
  have hname : namePart "[2] bob" = "bob" := by decide +kernel
  refine ⟨hlength, ?_⟩
  have hnoted := noteHeard_noted (c := fullStats) ⟨true, 10, 500, 900, .Log⟩ 0 "[2] bob" 2
    "10.0.0.2" hlength.le fun e he => by
      rw [hname, bob_notMem_fullStats] at he
      cases he
  rwa [hname] at hnoted

end AnticheatConfig

end Mumble
