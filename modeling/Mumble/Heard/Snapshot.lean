import Mumble.Heard
import Mumble.Registry.Refinement

/-!
The lists of who has talked to whom, across restarts of the server. A file takes them from
one process to the next.
-/

namespace Mumble

open Mumble.Lib

-- Whoever was talked to, and who talked to them.
abbrev PersistedHeard := HashIndex String (HashIndex String PersistedHeardEntry)

namespace PersistedHeard

def find (lists : PersistedHeard) (owner speaker : String) : Option PersistedHeardEntry :=
  (lists.lookup owner).bind fun list => list.lookup speaker

-- What has not expired. A list that is empty then is dropped.
def purge (lists : PersistedHeard) (retention : Nat) (nowEpoch : UInt64) : PersistedHeard :=
  retain (fun list => !list.entries.isEmpty)
    (HashIndex.mapValues (retain fun e => nowEpoch.toNat - e.epoch.toNat ≤ retention) lists)

end PersistedHeard

-- `serde_json`, for the lists. The entries come back in whatever order.
structure HeardJson (Data : Type) where
  toVec : PersistedHeard → Data
  fromStr : Data → Option PersistedHeard
  round_trip : ∀ lists, ∃ back, fromStr (toVec lists) = some back ∧
    ∀ owner speaker, back.find owner speaker = lists.find owner speaker

-- In seconds.
def AnticheatConfig.heardRetention (ac : AnticheatConfig) : Nat := max ac.heardSecs.toNat 10

namespace HeardEntry

-- For how many whole seconds nothing was heard.
def age (e : HeardEntry) (now : Instant) : Nat := (now - e.last) / NANOS

def persist (now : Instant) (nowEpoch : UInt64) (e : HeardEntry) : PersistedHeardEntry where
  sessionId := e.sessionId
  name := e.name
  ip := e.ip
  epoch := UInt64.ofNat (nowEpoch.toNat - e.age now)
  secs := e.secs

end HeardEntry

def AcStats.persistHeard (c : AcStats) (retention : Nat) (now : Instant) (nowEpoch : UInt64) :
    HashIndex String PersistedHeardEntry :=
  HashIndex.mapValues (HeardEntry.persist now nowEpoch) (retain (fun e => e.age now ≤ retention) c.heard)

namespace ServerState

-- The list of a client, if there is something on it, is written under its name.
def flushClient (s : ServerState) (now : Instant) (nowEpoch : UInt64) (out : PersistedHeard)
    (r : ClientRef) : PersistedHeard :=
  let lists := (s.get r).ac.persistHeard s.anticheat.heardRetention now nowEpoch
  if lists.entries.isEmpty then out else AList.insert (namePart (s.get r).name) lists out

-- What `flush_heard` writes. The lists that wait for their owners come last.
def heardSnapshot (s : ServerState) (seed : PersistedHeard) (now : Instant) (nowEpoch : UInt64) :
    PersistedHeard :=
  seed.entries.foldl (fun out e => HashIndex.insertNew e.1 e.2 out)
    (s.clients.values.foldl (s.flushClient now nowEpoch) ∅)

end ServerState

-- A process and the file it shares with those before and after it. `persists` is whether
-- `heard_file` is set.
structure HeardHost (Data : Type) where
  state : ServerState
  heardSeed : PersistedHeard
  persists : Bool
  file : Option Data

namespace HeardHost

variable {Data : Type} (json : HeardJson Data)

def flushHeard (h : HeardHost Data) (now : Instant) (nowEpoch : UInt64) : HeardHost Data :=
  if h.persists && h.state.anticheat.enabled then
    { h with file := some (json.toVec (h.state.heardSnapshot h.heardSeed now nowEpoch)) }
  else h

-- A file that is not there or cannot be read changes nothing.
def initHeardPersistence (h : HeardHost Data) (nowEpoch : UInt64) : HeardHost Data :=
  match h.file.bind json.fromStr with
  | some seed =>
      { h with heardSeed := seed.purge h.state.anticheat.heardRetention nowEpoch, persists := true }
  | none => { h with persists := true }

def seedHeard (h : HeardHost Data) (r : ClientRef) (now : Instant) (nowEpoch : UInt64) :
    HeardHost Data :=
  let key := namePart (h.state.get r).name
  match h.heardSeed.lookup key with
  | some entries =>
      { h with
        state := h.state.modify r fun c => { c with ac := c.ac.seedHeard now nowEpoch entries }
        heardSeed := h.heardSeed.erase key }
  | none => h

-- A new process comes up.
def restart (h : HeardHost Data) (removePositionalData : Bool) (anticheat : AnticheatConfig)
    (bans : BanList) (nowEpoch : UInt64) (persists : Bool) : HeardHost Data :=
  let fresh : HeardHost Data := ⟨.new removePositionalData anticheat bans, ∅, false, h.file⟩
  if persists then fresh.initHeardPersistence json nowEpoch else fresh

end HeardHost

-- What can happen to the lists.
inductive HeardEvent where
  | AddClient (username : String) (crypt : CryptState) (write : Writer) (peerIp : String)
      (now : Instant)
  | SeedHeard (client : ClientRef) (now : Instant) (nowEpoch : UInt64)
  | NoteHeard (speaker listener : ClientRef) (now : Instant)
  | Disconnect (clientSession : UInt32)
  | FlushHeard (now : Instant) (nowEpoch : UInt64)
  | Restart (removePositionalData : Bool) (anticheat : AnticheatConfig) (bans : BanList)
      (nowEpoch : UInt64) (persists : Bool)

def HeardHost.after {Data : Type} (json : HeardJson Data) (h : HeardHost Data) :
    HeardEvent → HeardHost Data
  | .AddClient username crypt write peerIp now =>
      { h with state := (h.state.addClient username crypt write peerIp now).1 }
  | .SeedHeard r now nowEpoch => h.seedHeard r now nowEpoch
  | .NoteHeard speaker listener now =>
      { h with state := h.state.noteHeard speaker listener now }
  | .Disconnect session => { h with state := h.state.disconnect session }
  | .FlushHeard now nowEpoch => h.flushHeard json now nowEpoch
  | .Restart removePositionalData anticheat bans nowEpoch persists =>
      h.restart json removePositionalData anticheat bans nowEpoch persists

-- Nothing was heard lately.
def AcStats.Silent (c : AcStats) (retention : Nat) (now : Instant) : Prop :=
  ∀ k e, c.heard.lookup k = some e → retention < e.age now

section Written

variable {c : AcStats} {retention : Nat} {now : Instant} {nowEpoch : UInt64} {k owner speaker : String}

theorem lookup_persistHeard {p : PersistedHeardEntry} :
    (c.persistHeard retention now nowEpoch).lookup k = some p ↔
      ∃ e, c.heard.lookup k = some e ∧ e.age now ≤ retention ∧ e.persist now nowEpoch = p := by
  rw [AcStats.persistHeard, HashIndex.lookup_mapValues, Option.map_eq_some_iff]
  refine exists_congr fun e => ?_
  rw [lookup_retain, decide_eq_true_eq, and_assoc]

theorem isEmpty_persistHeard :
    (c.persistHeard retention now nowEpoch).entries.isEmpty = true ↔ c.Silent retention now := by
  rw [List.isEmpty_iff, HashIndex.entries_eq_nil_iff]
  simp only [HashIndex.mem_iff_lookup, lookup_persistHeard]
  constructor
  · intro hnone k e he
    refine Nat.lt_of_not_le fun hage => hnone k ⟨_, e, he, hage, rfl⟩
  · rintro hsilent k ⟨_, e, he, hage, -⟩
    exact absurd hage (Nat.not_le.mpr (hsilent k e he))

theorem PersistedHeard.find_purge {lists : PersistedHeard} {e : PersistedHeardEntry} :
    (lists.purge retention nowEpoch).find owner speaker = some e ↔
      lists.find owner speaker = some e ∧ nowEpoch.toNat - e.epoch.toNat ≤ retention := by
  simp only [find, purge, Option.bind_eq_some_iff, lookup_retain, HashIndex.lookup_mapValues,
    Option.map_eq_some_iff]
  constructor
  · rintro ⟨_, ⟨⟨list, hlist, rfl⟩, -⟩, he⟩
    obtain ⟨he, hage⟩ := lookup_retain.mp he
    exact ⟨⟨list, hlist, he⟩, of_decide_eq_true hage⟩
  · rintro ⟨⟨list, hlist, he⟩, hage⟩
    have hkept : (retain (fun e : PersistedHeardEntry =>
        nowEpoch.toNat - e.epoch.toNat ≤ retention) list).lookup speaker = some e :=
      lookup_retain.mpr ⟨he, decide_eq_true hage⟩
    refine ⟨_, ⟨⟨list, hlist, rfl⟩, ?_⟩, hkept⟩
    -- a list with an entry is not dropped
    rw [Bool.not_eq_true', ← Bool.not_eq_true, List.isEmpty_iff, HashIndex.entries_eq_nil_iff]
    exact fun hempty => hempty speaker (HashIndex.mem_iff_lookup.mpr ⟨e, hkept⟩)

variable {s : ServerState} {r : ClientRef} {refs : List ClientRef} {out : PersistedHeard}

-- A name is written by the clients that have it, if they have heard something.

theorem lookup_flush_silent
    (h : ∀ q ∈ refs, namePart (s.get q).name = owner →
      (s.get q).ac.Silent s.anticheat.heardRetention now) :
    (refs.foldl (s.flushClient now nowEpoch) out).lookup owner = out.lookup owner := by
  induction refs generalizing out with
  | nil => rfl
  | cons q refs ih =>
      rw [List.foldl_cons, ih fun q hq => h q (List.mem_cons_of_mem _ hq)]
      unfold ServerState.flushClient
      dsimp only
      split_ifs with hempty
      · rfl
      · refine AList.lookup_insert_ne fun howner => hempty ?_
        exact isEmpty_persistHeard.mpr (h q List.mem_cons_self howner.symm)

theorem lookup_flush (hr : r ∈ refs) (howner : namePart (s.get r).name = owner)
    (honly : ∀ q ∈ refs, namePart (s.get q).name = owner → q = r)
    (hheard : ¬(s.get r).ac.Silent s.anticheat.heardRetention now) :
    (refs.foldl (s.flushClient now nowEpoch) out).lookup owner =
      some ((s.get r).ac.persistHeard s.anticheat.heardRetention now nowEpoch) := by
  induction refs generalizing out with
  | nil => cases hr
  | cons q refs ih =>
      have hrest : ∀ q ∈ refs, namePart (s.get q).name = owner → q = r :=
        fun q hq => honly q (List.mem_cons_of_mem _ hq)
      rw [List.foldl_cons]
      by_cases hlater : r ∈ refs
      · exact ih hlater hrest
      · have hq : q = r := ((List.mem_cons.mp hr).resolve_right hlater).symm
        subst hq
        rw [lookup_flush_silent]
        · unfold ServerState.flushClient
          dsimp only
          rw [if_neg fun hempty => hheard (isEmpty_persistHeard.mp hempty), howner,
            AList.lookup_insert]
        · intro q' hq' hname
          exact absurd (hrest q' hq' hname ▸ hq') hlater

theorem lookup_heardSnapshot (s : ServerState) (seed : PersistedHeard) :
    (s.heardSnapshot seed now nowEpoch).lookup owner =
      ((s.clients.values.foldl (s.flushClient now nowEpoch) ∅).lookup owner).or
        (seed.lookup owner) :=
  HashIndex.lookup_foldl_insertNew seed.entries _ owner

end Written

-- The clock of the process and that of the wall go together.
structure Moment where
  now : Instant
  epoch : UInt64
  steady : epoch.toNat = now / NANOS

section Restored

variable {t₀ t₁ t₂ : Moment} {e : HeardEntry}

theorem age_le (t : Moment) (e : HeardEntry) : e.age t.now ≤ t.epoch.toNat := by
  rw [t.steady]
  exact Nat.div_le_div_right (Nat.sub_le _ _)

theorem toNat_epoch_persist (t : Moment) (e : HeardEntry) :
    (e.persist t.now t.epoch).epoch.toNat = t.epoch.toNat - e.age t.now :=
  UInt64.toNat_ofNat_of_lt' (Nat.lt_of_le_of_lt (Nat.sub_le _ _) t.epoch.toNat_lt)

-- What has expired when the file is read.
theorem expires_iff (h : t₀.epoch ≤ t₁.epoch) (e : HeardEntry) (retention : Nat) :
    t₁.epoch.toNat - (e.persist t₀.now t₀.epoch).epoch.toNat ≤ retention ↔
      t₁.epoch.toNat - t₀.epoch.toNat + e.age t₀.now ≤ retention := by
  have hage := age_le t₀ e
  rw [UInt64.le_iff_toNat_le] at h
  rw [toNat_epoch_persist]
  omega

theorem restore_persist (h : t₀.epoch ≤ t₂.epoch) (e e' : HeardEntry) :
    (e.persist t₀.now t₀.epoch).restore t₂.now t₂.epoch = e' ↔
      e' = { e with last := e'.last } ∧
        e'.last + (t₂.epoch.toNat - t₀.epoch.toNat + e.age t₀.now) * NANOS = t₂.now := by
  have hage := age_le t₀ e
  rw [UInt64.le_iff_toNat_le] at h
  have hago : t₂.epoch.toNat - (e.persist t₀.now t₀.epoch).epoch.toNat =
      t₂.epoch.toNat - t₀.epoch.toNat + e.age t₀.now := by
    rw [toNat_epoch_persist]
    omega
  have hpast : (t₂.epoch.toNat - t₀.epoch.toNat + e.age t₀.now) * NANOS ≤ t₂.now := by
    refine Nat.le_trans (Nat.mul_le_mul_right _ (?_ : _ ≤ t₂.epoch.toNat)) ?_
    · omega
    · rw [t₂.steady]
      exact Nat.div_mul_le_self _ _
  have hrestored : (e.persist t₀.now t₀.epoch).restore t₂.now t₂.epoch =
      { e with last := t₂.now - (t₂.epoch.toNat - t₀.epoch.toNat + e.age t₀.now) * NANOS } := by
    unfold PersistedHeardEntry.restore
    dsimp only
    rw [hago, if_pos hpast]
    rfl
  rw [hrestored]
  constructor
  · rintro rfl
    exact ⟨rfl, Nat.sub_add_cancel hpast⟩
  · rintro ⟨hsame, hlast⟩
    rw [hsame, ← hlast, Nat.add_sub_cancel]

end Restored

namespace HeardHost

variable {Data : Type} {json : HeardJson Data} {h : HeardHost Data}

theorem find_restart {now : Instant} {epoch nowEpoch : UInt64} {removePositionalData : Bool}
    {anticheat : AnticheatConfig} {bans : BanList} {owner speaker : String}
    {p : PersistedHeardEntry} (hpersists : h.persists = true)
    (henabled : h.state.anticheat.enabled = true) :
    ((h.flushHeard json now epoch).restart json removePositionalData anticheat bans nowEpoch
        true).heardSeed.find owner speaker = some p ↔
      (h.state.heardSnapshot h.heardSeed now epoch).find owner speaker = some p ∧
        nowEpoch.toNat - p.epoch.toNat ≤ anticheat.heardRetention := by
  obtain ⟨back, hback, hsame⟩ := json.round_trip (h.state.heardSnapshot h.heardSeed now epoch)
  have hfile : (h.flushHeard json now epoch).file =
      some (json.toVec (h.state.heardSnapshot h.heardSeed now epoch)) := by
    rw [flushHeard, hpersists, henabled]
    rfl
  have hseed : ((h.flushHeard json now epoch).restart json removePositionalData anticheat bans
      nowEpoch true).heardSeed = back.purge anticheat.heardRetention nowEpoch := by
    rw [restart, if_pos rfl]
    unfold initHeardPersistence
    dsimp only
    rw [hfile, Option.bind_some, hback]
    rfl
  rw [hseed, PersistedHeard.find_purge, hsame]

-- The list of an owner goes into a map that is empty.
theorem lookup_seedHeard {r : ClientRef} {now : Instant} {nowEpoch : UInt64} {owner k : String}
    (howner : namePart (h.state.get r).name = owner) (hempty : (h.state.get r).ac.heard = ∅) :
    ((h.seedHeard r now nowEpoch).state.get r).ac.heard.lookup k =
      (h.heardSeed.find owner k).map fun e => e.restore now nowEpoch := by
  subst howner
  unfold seedHeard PersistedHeard.find
  dsimp only
  cases hlist : h.heardSeed.lookup (namePart (h.state.get r).name) with
  | none =>
      dsimp only
      rw [hempty, AList.lookup_empty]
      rfl
  | some entries =>
      dsimp only
      rw [ServerState.get_modify_self, AcStats.lookup_seedHeard, hempty, AList.lookup_empty]
      rfl

-- The only client that is connected under its name.
def Sole (h : HeardHost Data) (r : ClientRef) : Prop :=
  r ∈ h.state.clients.values ∧ ∀ q ∈ h.state.clients.values,
    namePart (h.state.get q).name = namePart (h.state.get r).name → q = r

theorem find_heardSnapshot {r : ClientRef} {now : Instant} {nowEpoch : UInt64} {k : String}
    {p : PersistedHeardEntry} (hr : h.Sole r)
    (hwaits : ¬(h.state.get r).ac.Silent h.state.anticheat.heardRetention now ∨
      namePart (h.state.get r).name ∉ h.heardSeed) :
    (h.state.heardSnapshot h.heardSeed now nowEpoch).find (namePart (h.state.get r).name) k = some p ↔
      ∃ e, (h.state.get r).ac.heard.lookup k = some e ∧
        e.age now ≤ h.state.anticheat.heardRetention ∧ e.persist now nowEpoch = p := by
  by_cases hsilent : (h.state.get r).ac.Silent h.state.anticheat.heardRetention now
  · -- nothing is written under the name, and nothing waits under it
    have hothers : ∀ q ∈ h.state.clients.values,
        namePart (h.state.get q).name = namePart (h.state.get r).name →
          (h.state.get q).ac.Silent h.state.anticheat.heardRetention now :=
      fun q hq hname => hr.2 q hq hname ▸ hsilent
    have hnone := AList.lookup_eq_none.mpr (hwaits.resolve_left (not_not.mpr hsilent))
    rw [PersistedHeard.find, lookup_heardSnapshot, lookup_flush_silent hothers, hnone,
      AList.lookup_empty]
    constructor
    · exact fun hfind => nomatch hfind
    · rintro ⟨e, he, hage, -⟩
      exact absurd hage (Nat.not_le.mpr (hsilent k e he))
  · rw [PersistedHeard.find, lookup_heardSnapshot, lookup_flush hr.1 rfl hr.2 hsilent]
    exact lookup_persistHeard

-- The map of a client once its list was put into it, in a process that was started after a
-- flush. What else has happened in that process is left open.
def seeded (json : HeardJson Data) (h : HeardHost Data) (t₀ t₁ t₂ : Moment)
    (removePositionalData : Bool) (anticheat : AnticheatConfig) (bans : BanList)
    (state : ServerState) (c : ClientRef) : HashIndex String HeardEntry :=
  let loaded := (h.flushHeard json t₀.now t₀.epoch).restart json removePositionalData anticheat
    bans t₁.epoch true
  (({ loaded with state }.seedHeard c t₂.now t₂.epoch).state.get c).ac.heard

theorem lookup_seeded {t₀ t₁ t₂ : Moment} {removePositionalData : Bool}
    {anticheat : AnticheatConfig} {bans : BanList} {state : ServerState} {c : ClientRef}
    {owner k : String} (howner : namePart (state.get c).name = owner)
    (hempty : (state.get c).ac.heard = ∅) :
    (h.seeded json t₀ t₁ t₂ removePositionalData anticheat bans state c).lookup k =
      (((h.flushHeard json t₀.now t₀.epoch).restart json removePositionalData anticheat bans
        t₁.epoch true).heardSeed.find owner k).map fun e => e.restore t₂.now t₂.epoch := by
  unfold seeded
  generalize (h.flushHeard json t₀.now t₀.epoch).restart json removePositionalData anticheat bans
    t₁.epoch true = loaded
  exact lookup_seedHeard (h := { loaded with state }) howner hempty

-- What an owner was told by the others is there again after a restart, if it is not too old,
-- and its age goes on. A list that waits for its owner is written as it is, as long as no
-- client of that name has heard anything lately.
theorem heard_survives (json : HeardJson Data) (h : HeardHost Data) (t₀ t₁ t₂ : Moment)
    (hload : t₀.epoch ≤ t₁.epoch) (hseed : t₁.epoch ≤ t₂.epoch) (hpersists : h.persists = true)
    (henabled : h.state.anticheat.enabled = true) (removePositionalData : Bool)
    (anticheat : AnticheatConfig) (bans : BanList) :
    (∀ r, h.Sole r →
      (¬(h.state.get r).ac.Silent h.state.anticheat.heardRetention t₀.now ∨
        namePart (h.state.get r).name ∉ h.heardSeed) →
      ∀ (state : ServerState) (c : ClientRef),
        namePart (state.get c).name = namePart (h.state.get r).name → (state.get c).ac.heard = ∅ →
      ∀ k e',
        (h.seeded json t₀ t₁ t₂ removePositionalData anticheat bans state c).lookup k = some e' ↔
        ∃ e, (h.state.get r).ac.heard.lookup k = some e ∧
          e.age t₀.now ≤ h.state.anticheat.heardRetention ∧
          t₁.epoch.toNat - t₀.epoch.toNat + e.age t₀.now ≤ anticheat.heardRetention ∧
          e' = { e with last := e'.last } ∧
          e'.last + (t₂.epoch.toNat - t₀.epoch.toNat + e.age t₀.now) * NANOS = t₂.now) ∧
    ∀ owner, (∀ q ∈ h.state.clients.values, namePart (h.state.get q).name = owner →
        (h.state.get q).ac.Silent h.state.anticheat.heardRetention t₀.now) →
      (h.state.heardSnapshot h.heardSeed t₀.now t₀.epoch).lookup owner = h.heardSeed.lookup owner := by
  have hlater : t₀.epoch ≤ t₂.epoch := UInt64.le_trans hload hseed
  refine ⟨fun r hr hwaits state c howner hempty k e' => ?_, fun owner hsilent => ?_⟩
  · rw [lookup_seeded howner hempty, Option.map_eq_some_iff]
    constructor
    · rintro ⟨p, hp, hrestored⟩
      obtain ⟨hwritten, hloaded⟩ := (find_restart hpersists henabled).mp hp
      obtain ⟨e, he, hage, rfl⟩ := (find_heardSnapshot hr hwaits).mp hwritten
      exact ⟨e, he, hage, (expires_iff hload e _).mp hloaded, (restore_persist hlater e e').mp hrestored⟩
    · rintro ⟨e, he, hage, hloaded, hrestored⟩
      refine ⟨e.persist t₀.now t₀.epoch, (find_restart hpersists henabled).mpr ⟨?_, ?_⟩,
        (restore_persist hlater e e').mpr hrestored⟩
      · exact (find_heardSnapshot hr hwaits).mpr ⟨e, he, hage, rfl⟩
      · exact (expires_iff hload e _).mpr hloaded
  · rw [lookup_heardSnapshot, lookup_flush_silent hsilent, AList.lookup_empty, Option.none_or]

-- Bob talks to Alice, and the lists are written.

def afterAll (json : HeardJson Data) (h : HeardHost Data) (events : List HeardEvent) :
    HeardHost Data := events.foldl (after json) h

def plainJson : HeardJson PersistedHeard where
  toVec := fun lists => lists
  fromStr := some
  round_trip := fun lists => ⟨lists, rfl, fun _ _ => rfl⟩

def sampleConfig : AnticheatConfig := ⟨true, 10, 500, 900, .Log⟩

def noFile : HeardHost PersistedHeard := ⟨.new false sampleConfig ⟨[], 1⟩, ∅, false, none⟩

def comesUp : HeardEvent := .Restart false sampleConfig ⟨[], 1⟩ 0 true

def enters (username peerIp : String) : HeardEvent :=
  let key := Vector.replicate KEY_SIZE 1
  .AddClient username (.default key (.new key) 0) .Open peerIp 0

def bobToAlice : List HeardEvent :=
  [comesUp, enters "[1] bob" "10.0.0.1", enters "[2] alice" "10.0.0.9", .NoteHeard 0 1 0]

-- Alice is there again, and her list still waits for her.
def aliceEnters : List HeardEvent :=
  bobToAlice ++ [.FlushHeard 0 0, comesUp, enters "[1] alice" "10.0.0.9"]

def afterSecs (secs : Nat) (h : secs < 2 ^ 64) : Moment where
  now := secs * NANOS
  epoch := UInt64.ofNat secs
  steady := by
    rw [UInt64.toNat_ofNat_of_lt' h]
    exact (Nat.mul_div_cancel secs (by decide)).symm

theorem heard_survives_alice :
    ((noFile.afterAll plainJson bobToAlice).seeded plainJson (afterSecs 5 (by decide))
        (afterSecs 8 (by decide)) (afterSecs 10 (by decide)) false sampleConfig ⟨[], 1⟩
        (noFile.afterAll plainJson aliceEnters).state 0).lookup "bob" =
      some ⟨1, "[1] bob", "10.0.0.1", 0, 1⟩ := by
  have hsole : (noFile.afterAll plainJson bobToAlice).Sole 1 := by
    unfold Sole
    decide +kernel
  have hempty : ((noFile.afterAll plainJson aliceEnters).state.get 0).ac.heard = ∅ :=
    HashIndex.eq_empty_of_keys (by decide +kernel)
  have hheard : ((noFile.afterAll plainJson bobToAlice).state.get 1).ac.heard.lookup "bob" =
      some ⟨1, "[1] bob", "10.0.0.1", 0, 1⟩ := by decide +kernel
  obtain ⟨hsurvives, -⟩ := heard_survives plainJson (noFile.afterAll plainJson bobToAlice)
    (afterSecs 5 (by decide)) (afterSecs 8 (by decide)) (afterSecs 10 (by decide)) (by decide)
    (by decide) (by decide +kernel) (by decide +kernel) false sampleConfig ⟨[], 1⟩
  refine (hsurvives 1 hsole (.inr (by decide +kernel)) _ 0 (by decide +kernel) hempty _ _).mpr
    ⟨_, hheard, ?_, ?_, rfl, ?_⟩ <;> decide +kernel

-- The lists are written once more before hers is put into her map. Her map is empty then, but
-- her list comes back.
theorem waiting_list_comes_back :
    (noFile.afterAll plainJson aliceEnters).persists = true ∧
      (noFile.afterAll plainJson aliceEnters).state.anticheat.enabled = true ∧
      (noFile.afterAll plainJson aliceEnters).Sole 0 ∧
      ((noFile.afterAll plainJson aliceEnters).state.get 0).ac.heard = ∅ ∧
      ((noFile.afterAll plainJson aliceEnters).seeded plainJson (afterSecs 5 (by decide))
        (afterSecs 8 (by decide)) (afterSecs 10 (by decide)) false sampleConfig ⟨[], 1⟩
        (noFile.afterAll plainJson aliceEnters).state 0).lookup "bob" =
          some ⟨1, "[1] bob", "10.0.0.1", 0, 1⟩ := by
  refine ⟨by decide +kernel, by decide +kernel, ?_, HashIndex.eq_empty_of_keys (by decide +kernel),
    by decide +kernel⟩
  unfold Sole
  decide +kernel

end HeardHost

end Mumble
