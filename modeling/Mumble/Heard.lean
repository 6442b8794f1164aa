import Mathlib.Data.List.MinMax
import Mumble.Anticheat

/-!
Who has talked to a client, from its connection on (`ac_heard`). The map is behind a
lock, so the calls that change it come one after the other, in whatever order.
-/

namespace Mumble

open Mumble.Lib

structure PersistedHeardEntry where
  sessionId : UInt32
  name : String
  ip : String
  -- in seconds since 1970
  epoch : UInt64
  secs : UInt32

-- The entry at the clock of this process. What was heard before the clock began
-- counts as heard now.
def PersistedHeardEntry.restore (e : PersistedHeardEntry) (now : Instant) (nowEpoch : UInt64) :
    HeardEntry where
  sessionId := e.sessionId
  name := e.name
  ip := e.ip
  last :=
    let ago := (nowEpoch.toNat - e.epoch.toNat) * NANOS
    if ago ≤ now then now - ago else now
  secs := e.secs

namespace AcStats

-- The list that waited for the client goes into the map. What was heard since the
-- client connected is newer and stays.
def seedHeard (c : AcStats) (now : Instant) (nowEpoch : UInt64)
    (entries : HashIndex String PersistedHeardEntry) : AcStats :=
  { c with
    heard := entries.entries.foldl
      (fun heard e => HashIndex.insertNew e.1 (e.2.restore now nowEpoch) heard) c.heard }

-- What a look at the panel does to the map.
def purgeHeard (c : AcStats) (config : AnticheatConfig) (now : Instant) : AcStats :=
  { c with heard := retain (fun e => now - e.last ≤ max config.heardSecs.toNat 10 * NANOS) c.heard }

end AcStats

-- The calls that change the map of a client.
inductive HeardCall where
  | NoteHeard (config : AnticheatConfig) (now : Instant) (speakerName : String)
      (speakerSession : UInt32) (speakerIp : String)
  | SeedHeard (now : Instant) (nowEpoch : UInt64) (entries : HashIndex String PersistedHeardEntry)
  | GetHeard (config : AnticheatConfig) (now : Instant)
  | PostHeardClear
  | ResetCounters

namespace HeardCall

def run (c : AcStats) : HeardCall → AcStats
  | .NoteHeard config now name session ip => config.noteHeard now name session ip c
  | .SeedHeard now nowEpoch entries => c.seedHeard now nowEpoch entries
  | .GetHeard config now => c.purgeHeard config now
  | .PostHeardClear => { c with heard := ∅ }
  | .ResetCounters => c.resetCounters

-- A list that is seeded has room beside what was heard already.
def Fits (c : AcStats) : HeardCall → Prop
  | .SeedHeard _ _ entries =>
      c.heard.entries.length + (entries.keys.filter fun k => k ∉ c.heard).length ≤ HEARD_CAP
  | _ => True

end HeardCall

variable {c : AcStats}

theorem length_retain_le {κ α : Type} (p : α → Bool) (m : HashIndex κ α) :
    (retain p m).entries.length ≤ m.entries.length := List.length_filter_le ..

namespace AnticheatConfig

theorem oldest_eq (heard : HashIndex String HeardEntry) :
    oldest heard = (heard.entries.argmin fun e => e.2.last).map fun e => e.1 := by
  unfold oldest List.argmin
  congr 2
  funext best e
  cases best <;> rfl

-- The entry that makes way is one of the map, and none was heard longer ago.
theorem oldest_spec {heard : HashIndex String HeardEntry} (h : heard.entries ≠ []) :
    ∃ k e, oldest heard = some k ∧ heard.lookup k = some e ∧
      ∀ k' e', heard.lookup k' = some e' → e.last ≤ e'.last := by
  cases hleast : heard.entries.argmin fun e => e.2.last with
  | none => exact absurd (List.argmin_eq_none.mp hleast) h
  | some e =>
      refine ⟨e.1, e.2, ?_, AList.mem_lookup_iff.mpr (List.argmin_mem hleast), fun k' e' he' => ?_⟩
      · rw [oldest_eq, hleast]
        rfl
      · exact List.le_of_mem_argmin (f := fun e => e.2.last) (AList.mem_lookup_iff.mp he') hleast

-- Room for a key that is not in the map yet.
def makeRoom (ac : AnticheatConfig) (now : Instant) (key : String)
    (heard : HashIndex String HeardEntry) : HashIndex String HeardEntry :=
  if HEARD_CAP ≤ heard.entries.length ∧ key ∉ heard then
    let kept := retain (fun e => now - e.last ≤ max ac.heardSecs.toNat 10 * NANOS) heard
    if HEARD_CAP ≤ kept.entries.length then
      match oldest kept with
      | some k => kept.erase k
      | none => kept
    else kept
  else heard

theorem of_lookup_makeRoom {ac : AnticheatConfig} {now : Instant} {key k : String}
    {heard : HashIndex String HeardEntry} {e : HeardEntry}
    (h : (ac.makeRoom now key heard).lookup k = some e) : heard.lookup k = some e := by
  unfold makeRoom at h
  dsimp only at h
  split_ifs at h
  · split at h
    · exact (lookup_retain.mp (HashIndex.lookup_erase_eq_some.mp h).2).1
    · exact (lookup_retain.mp h).1
  · exact (lookup_retain.mp h).1
  · exact h

-- Room is only made for a key that is not there, and so an entry of the key stays as it is.
theorem lookup_makeRoom_key (ac : AnticheatConfig) (now : Instant) (key : String)
    (heard : HashIndex String HeardEntry) :
    (ac.makeRoom now key heard).lookup key = heard.lookup key := by
  by_cases hkey : key ∈ heard
  · rw [makeRoom, if_neg fun hfull => hfull.2 hkey]
  · have hnone := AList.lookup_eq_none.mpr hkey
    rw [hnone]
    refine Option.eq_none_iff_forall_ne_some.mpr fun e he => ?_
    rw [of_lookup_makeRoom he] at hnone
    cases hnone

theorem length_makeRoom (ac : AnticheatConfig) (now : Instant) (key : String)
    {heard : HashIndex String HeardEntry} (hcap : heard.entries.length ≤ HEARD_CAP) :
    (ac.makeRoom now key heard).entries.length ≤ HEARD_CAP ∧
      (key ∉ heard → (ac.makeRoom now key heard).entries.length < HEARD_CAP) := by
  unfold makeRoom
  split_ifs with hfull
  · dsimp only
    have hkept := length_retain_le
      (fun e : HeardEntry => now - e.last ≤ max ac.heardSecs.toNat 10 * NANOS) heard
    generalize retain _ heard = kept at hkept ⊢
    split_ifs with hstill
    · have hne : kept.entries ≠ [] := List.ne_nil_of_length_pos (Nat.lt_of_lt_of_le (by decide) hstill)
      obtain ⟨k, e, hold, hk, -⟩ := oldest_spec hne
      have herase := HashIndex.length_erase (HashIndex.mem_iff_lookup.mpr ⟨e, hk⟩)
      have hpos : 0 < HEARD_CAP := by decide
      rw [hold]
      dsimp only
      omega
    · omega
  · refine ⟨hcap, fun hkey => ?_⟩
    exact Nat.lt_of_not_le fun hle => hfull ⟨hle, hkey⟩

-- What is written under the key, over the entry that is there.
def noteEntry (now : Instant) (speakerName : String) (speakerSession : UInt32) (speakerIp : String)
    (old : Option HeardEntry) : HeardEntry :=
  let e := old.getD ⟨speakerSession, speakerName, speakerIp, now, 0⟩
  let e :=
    if e.sessionId ≠ speakerSession then
      { e with sessionId := speakerSession, name := speakerName, ip := speakerIp }
    else e
  { e with last := now, secs := e.secs + 1 }

theorem heard_noteHeard (ac : AnticheatConfig) (now : Instant) (speakerName : String)
    (speakerSession : UInt32) (speakerIp : String) (c : AcStats) :
    (ac.noteHeard now speakerName speakerSession speakerIp c).heard =
      AList.insert (namePart speakerName)
        (noteEntry now speakerName speakerSession speakerIp
          ((ac.makeRoom now (namePart speakerName) c.heard).lookup (namePart speakerName)))
        (ac.makeRoom now (namePart speakerName) c.heard) := rfl

theorem length_noteHeard (ac : AnticheatConfig) (now : Instant) (speakerName : String)
    (speakerSession : UInt32) (speakerIp : String) (hcap : c.heard.entries.length ≤ HEARD_CAP) :
    (ac.noteHeard now speakerName speakerSession speakerIp c).heard.entries.length ≤ HEARD_CAP := by
  obtain ⟨hle, hroom⟩ := ac.length_makeRoom now (namePart speakerName) hcap
  rw [heard_noteHeard]
  by_cases hkey : namePart speakerName ∈ ac.makeRoom now (namePart speakerName) c.heard
  · rw [HashIndex.length_insert_of_mem hkey]
    exact hle
  · rw [HashIndex.length_insert hkey]
    refine hroom fun hold => hkey ?_
    rw [makeRoom, if_neg fun hfull => hfull.2 hold]
    exact hold

end AnticheatConfig

-- What was heard already stays, and the list gives what was not.
theorem AcStats.lookup_seedHeard (c : AcStats) (now : Instant) (nowEpoch : UInt64)
    (entries : HashIndex String PersistedHeardEntry) (k : String) :
    (c.seedHeard now nowEpoch entries).heard.lookup k =
      (c.heard.lookup k).or ((entries.lookup k).map fun e => e.restore now nowEpoch) :=
  HashIndex.lookup_foldl_insertNew_map (fun e : PersistedHeardEntry => e.restore now nowEpoch)
    entries.entries c.heard k

theorem AcStats.length_seedHeard (c : AcStats) (now : Instant) (nowEpoch : UInt64)
    (entries : HashIndex String PersistedHeardEntry) :
    (c.seedHeard now nowEpoch entries).heard.entries.length =
      c.heard.entries.length + (entries.keys.filter fun k => k ∉ c.heard).length :=
  HashIndex.length_foldl_insertNew (fun e : PersistedHeardEntry => e.restore now nowEpoch)
    entries.nodupKeys c.heard

namespace HeardCall

-- Within the cap, only a list that does not fit leads out of it.
theorem length_run_le {call : HeardCall} (hcap : c.heard.entries.length ≤ HEARD_CAP)
    (hfits : call.Fits c) : (call.run c).heard.entries.length ≤ HEARD_CAP := by
  cases call with
  | NoteHeard config now name session ip => exact config.length_noteHeard now name session ip hcap
  | SeedHeard now nowEpoch entries =>
      rw [run, AcStats.length_seedHeard]
      exact hfits
  | GetHeard config now => exact (length_retain_le _ c.heard).trans hcap
  | PostHeardClear | ResetCounters => exact Nat.zero_le _

-- The cap is kept throughout if and only if every list that is seeded finds room for
-- the speakers in it who have not been heard yet.
theorem heard_le_cap_iff (now : Instant) (calls : List HeardCall) :
    (∀ before, before <+: calls →
      (before.foldl run (.new now)).heard.entries.length ≤ HEARD_CAP) ↔
    ∀ before call, before ++ [call] <+: calls → call.Fits (before.foldl run (.new now)) := by
  constructor
  · intro h before call hprefix
    have hafter := h (before ++ [call]) hprefix
    rw [List.foldl_append, List.foldl_cons, List.foldl_nil] at hafter
    cases call with
    | SeedHeard seeded nowEpoch entries =>
        rw [run, AcStats.length_seedHeard] at hafter
        exact hafter
    | NoteHeard config noted name session ip => exact trivial
    | GetHeard config looked => exact trivial
    | PostHeardClear => exact trivial
    | ResetCounters => exact trivial
  · intro h before
    induction before using List.reverseRecOn with
    | nil => exact fun _ => Nat.zero_le _
    | append_singleton before call ih =>
        intro hprefix
        have hbefore := ih ((List.prefix_append before [call]).trans hprefix)
        rw [List.foldl_append, List.foldl_cons, List.foldl_nil]
        exact length_run_le hbefore (h before call hprefix)

-- A list of as many speakers as the map may hold, whose names are "a", "aa", "aaa" and
-- so on.

def fullName (i : Nat) : String := String.ofList (List.replicate (i + 1) 'a')

theorem fullName_injective : Function.Injective fullName := by
  intro i j h
  have hlength := congrArg (fun name => name.toList.length) h
  simpa [fullName] using hlength

def fullList : HashIndex String PersistedHeardEntry where
  entries := (List.range HEARD_CAP).map fun i => ⟨fullName i, ⟨1, fullName i, "10.0.0.9", 0, 1⟩⟩
  nodupKeys := by
    rw [List.NodupKeys, List.keys, List.map_map]
    exact List.nodup_range.map fullName_injective

theorem length_fullList : fullList.entries.length = HEARD_CAP := by simp [fullList]

theorem bob_notMem_fullList : "bob" ∉ fullList := by
  intro hbob
  obtain ⟨e, he, hname⟩ := List.mem_map.mp (AList.mem_keys.mp hbob)
  obtain ⟨i, -, rfl⟩ := List.mem_map.mp he
  have hletters := congrArg String.toList hname
  simp [fullName, List.replicate_succ] at hletters

def bobTalks : HeardCall := .NoteHeard ⟨true, 10, 500, 900, .Log⟩ 0 "[2] bob" 2 "10.0.0.2"

-- Bob talks to the client before its list is seeded.
theorem heard_over_cap :
    fullList.entries.length ≤ HEARD_CAP ∧
      HEARD_CAP <
        (([bobTalks, .SeedHeard 0 0 fullList].foldl run (.new 0)).heard.entries.length) := by
  have hnoted : (bobTalks.run (.new 0)).heard.keys = ["bob"] := by decide +kernel
  have hothers : (fullList.keys.filter fun k => k ∉ (bobTalks.run (.new 0)).heard) =
      fullList.keys := by
    refine List.filter_eq_self.mpr fun name hname => ?_
    have hne : name ≠ "bob" := fun heq => bob_notMem_fullList (heq ▸ AList.mem_keys.mpr hname)
    simpa [AList.mem_keys, hnoted] using hne
  have hseeded := AcStats.length_seedHeard (bobTalks.run (.new 0)) 0 0 fullList
  have hone : (bobTalks.run (.new 0)).heard.entries.length = 1 := by
    simpa [AList.keys, List.keys] using congrArg List.length hnoted
  have hkeys : fullList.keys.length = HEARD_CAP := by simp [AList.keys, List.keys, length_fullList]
  rw [hothers, hone, hkeys] at hseeded
  refine ⟨length_fullList.le, ?_⟩
  change HEARD_CAP < ((bobTalks.run (.new 0)).seedHeard 0 0 fullList).heard.entries.length
  omega

end HeardCall

end Mumble
