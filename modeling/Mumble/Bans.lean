import Mumble.BanFile

/-!
What a ban is worth: it is found again under the address and under the name, whatever
else is done to the list and however often the server is restarted.
-/

namespace Mumble

open Mumble.Lib

-- A username with the number of its session in front.
def tagged (i : Nat) (name : String) : String := "[" ++ toString i ++ "] " ++ name

theorem afterBracket_cons {c : Char} (h : c ≠ ']') (rest : List Char) :
    afterBracket (c :: rest) = afterBracket rest := by
  rw [afterBracket]
  rintro rest' rfl
  exact absurd rfl h

theorem afterBracket_append {l : List Char} (h : ∀ c ∈ l, c ≠ ']') (rest : List Char) :
    afterBracket (l ++ rest) = afterBracket rest := by
  induction l with
  | nil => rfl
  | cons c l ih =>
      rw [List.cons_append, afterBracket_cons (h c List.mem_cons_self)]
      exact ih fun d hd => h d (List.mem_cons_of_mem _ hd)

-- The number has no bracket in it, so the first one ends it.
theorem namePart_tagged (i : Nat) (name : String) :
    namePart (tagged i name) = String.ofList (trim name.toList) := by
  have hdigits : ∀ c ∈ '[' :: Nat.toDigits 10 i, c ≠ ']' := by
    intro c hc
    rcases List.mem_cons.mp hc with rfl | hc
    · decide
    · rintro rfl
      exact absurd (Nat.isDigit_of_mem_toDigits (by decide) (by decide) hc) (by decide)
  have hlist : (tagged i name).toList =
      ('[' :: Nat.toDigits 10 i) ++ ']' :: ' ' :: name.toList := by
    simp [tagged]
  rw [namePart, hlist, afterBracket_append hdigits]
  rfl

theorem matches_name {entry : BanEntry} {ip : String} {name other : List Char}
    (hname : entry.name = some (String.ofList name)) (hne : name ≠ [])
    (hsame : other.map Char.toLower = name.map Char.toLower) :
    BanList.matches entry ip (String.ofList other) = true := by
  have hequal : BanList.eqIgnoreAsciiCase (String.ofList name) (String.ofList other) = true := by
    simp [BanList.eqIgnoreAsciiCase, hsame]
  simp [BanList.matches, hname, hequal, hne]

theorem matches_ip {entry : BanEntry} {ip : String} (hip : entry.ip = some ip) (name : String) :
    BanList.matches entry ip name = true := by
  simp [BanList.matches, hip]

theorem BanList.isBanned_of_mem {l : BanList} {entry : BanEntry} {ip name : String}
    (hmem : entry ∈ l.bans) (hkind : entry.kind = .Ban)
    (hmatches : BanList.matches entry ip name = true) : (l.isBanned ip name).isSome = true := by
  rw [isBanned, Option.isSome_map, List.find?_isSome]
  exact ⟨entry, hmem, by simp [hkind, hmatches]⟩

instance maxEqOr_uint64 : Std.MaxEqOr UInt64 where
  max_eq_or a b := by
    change (if a ≤ b then b else a) = a ∨ (if a ≤ b then b else a) = b
    split_ifs
    · exact .inr rfl
    · exact .inl rfl

instance lawfulOrderSup_uint64 : Std.LawfulOrderSup UInt64 where
  max_le_iff a b c := by
    change (if a ≤ b then b else a) ≤ c ↔ a ≤ c ∧ b ≤ c
    simp only [UInt64.le_iff_toNat_le]
    split_ifs <;> omega

-- What can happen to the list: a call, from its first step to the end of its `save`, or
-- a restart of the server. The time of day goes into a new entry.
inductive BanMove where
  | Call (call : BanCall) (now : String)
  | Restart

namespace BanMove

-- The move removes neither the entry with this id nor bans by whom they match.
def Spares (id : UInt64) : BanMove → Prop
  | .Call (.Remove other) _ => other ≠ id
  | .Call (.RemoveMatching _ _ kind) _ => kind ≠ .Ban
  | _ => True

def isAdd : BanMove → Bool
  | .Call (.Add _ _ _ _ _) _ => true
  | _ => false

end BanMove

section

variable {Data : Type} (json : Json Data)

namespace BanStore

def change (s : BanStore Data) (call : BanCall) (now : String) : BanStore Data :=
  match s.begin call with
  | (s, .Push entry) => { s with bans := s.bans ++ [⟨entry, now⟩] }
  | (s, _) => s

def save (s : BanStore Data) : BanStore Data :=
  { s with
    file := some (json.toStringPretty s.bans)
    serialised := s.serialised + 1
    written := s.serialised + 1 }

def move (s : BanStore Data) : BanMove → BanStore Data
  | .Call call now => (s.change call now).save json
  | .Restart => .load json s.file

-- A whole call is what its task does when nobody comes in between.
theorem alone_change (s : BanStore Data) (call : BanCall) (now : String) :
    Alone (BanTask.next json) (s, ⟨call, .Begin⟩) ((s.change call now).save json, ⟨call, .Done⟩) := by
  have hsave (t : BanStore Data) :
      Alone (BanTask.next json) (t, ⟨call, .Save⟩) (t.save json, ⟨call, .Done⟩) :=
    .step "" rfl (.step "" rfl (.refl _))
  cases call with
  | Add kind ip name display reason =>
      exact .step now rfl (.step now rfl (hsave _))
  | Remove id => exact .step now rfl (hsave _)
  | RemoveMatching ip namePart kind => exact .step now rfl (hsave _)

-- The file is the one that a restart would give the list back from.
def Synced (s : BanStore Data) : Prop := (BanStore.load json s.file).bans = s.bans

theorem synced_load (file : Option Data) : (BanStore.load json file).Synced json := by
  have hfile : (BanStore.load json file).file = file := by
    unfold BanStore.load
    split <;> rfl
  rw [Synced, hfile]

theorem synced_move (s : BanStore Data) (m : BanMove) : (s.move json m).Synced json := by
  cases m with
  | Call call now => exact load_written json _
  | Restart => exact synced_load json s.file

-- The ids were handed out below `n`, which is next, and none was handed out twice.
structure Numbered (s : BanStore Data) (n : Nat) : Prop where
  pos : 0 < n
  next : s.nextId = UInt64.ofNat n
  below : ∀ b ∈ s.bans, b.id.toNat < n
  nodup : (s.bans.map fun b => b.id).Nodup

theorem numbered_load {file : Option Data} (hempty : (BanStore.load json file).bans = []) :
    (BanStore.load json file).Numbered 1 := by
  refine ⟨Nat.one_pos, ?_, by simp [hempty], by simp [hempty]⟩
  unfold BanStore.load at hempty ⊢
  split at hempty
  · subst hempty
    rfl
  · rfl

theorem Numbered.sublist {s s' : BanStore Data} {n : Nat} (h : s.Numbered n)
    (hnext : s'.nextId = s.nextId) (hbans : s'.bans.Sublist s.bans) : s'.Numbered n where
  pos := h.pos
  next := hnext.trans h.next
  below b hb := h.below b (hbans.subset hb)
  nodup := h.nodup.sublist (hbans.map _)

theorem Numbered.push {s : BanStore Data} {n : Nat} (h : s.Numbered n) (hn : n < 2 ^ 64)
    (record : BanRecord) (hid : record.id = s.nextId) :
    BanStore.Numbered { s with nextId := s.nextId + 1, bans := s.bans ++ [record] } (n + 1) := by
  have hnat : record.id.toNat = n := by
    rw [hid, h.next]
    exact UInt64.toNat_ofNat_of_lt' hn
  refine ⟨Nat.succ_pos n, ?_, ?_, ?_⟩
  · simp [h.next, UInt64.ofNat_add]
  · intro b hb
    rcases List.mem_append.mp hb with hb | hb
    · exact Nat.lt_succ_of_lt (h.below b hb)
    · rw [List.mem_singleton.mp hb, hnat]
      exact Nat.lt_succ_self n
  · rw [List.map_append, List.map_singleton, ← List.concat_eq_append, List.nodup_concat]
    refine ⟨fun hmem => ?_, h.nodup⟩
    obtain ⟨b, hb, hsame⟩ := List.mem_map.mp hmem
    have hlt := h.below b hb
    rw [hsame, hnat] at hlt
    exact Nat.lt_irrefl n hlt

-- The largest id of the file is below `n`, so the count starts again at most there.
theorem Numbered.load {s : BanStore Data} {n : Nat} (h : s.Numbered n) (hsynced : s.Synced json) :
    ∃ k ≤ n, (BanStore.load json s.file).Numbered k := by
  have hbans : (BanStore.load json s.file).bans = s.bans := hsynced
  unfold BanStore.load at hbans ⊢
  split at hbans
  · subst hbans
    cases hmax : (s.bans.map fun b => b.id).max? with
    | none =>
        have hnil : s.bans = [] := List.map_eq_nil_iff.mp (List.max?_eq_none_iff.mp hmax)
        exact ⟨1, h.pos, Nat.one_pos, rfl, by simp [hnil], by simp [hnil]⟩
    | some top =>
        obtain ⟨htop, hle⟩ := List.max?_eq_some_iff.mp hmax
        obtain ⟨b, hb, rfl⟩ := List.mem_map.mp htop
        refine ⟨b.id.toNat + 1, h.below b hb, Nat.succ_pos _, ?_, ?_, h.nodup⟩
        · simp [UInt64.ofNat_add]
        · intro c hc
          have hc := hle c.id (List.mem_map.mpr ⟨c, hc, rfl⟩)
          exact Nat.lt_succ_of_le (UInt64.le_iff_toNat_le.mp hc)
  · exact ⟨1, h.pos, Nat.one_pos, rfl, by simp, by simp⟩

theorem Numbered.move {s : BanStore Data} {n : Nat} (h : s.Numbered n) (hsynced : s.Synced json)
    (m : BanMove) (hn : m.isAdd = true → n < 2 ^ 64) :
    ∃ k ≤ n + m.isAdd.toNat, (s.move json m).Numbered k := by
  cases m with
  | Restart => exact h.load json hsynced
  | Call call now =>
      cases call with
      | Add kind ip name display reason =>
          obtain ⟨hpos, hnext, hbelow, hnodup⟩ :=
            h.push (hn rfl) ⟨⟨s.nextId, kind, ip, name, display, reason⟩, now⟩ rfl
          exact ⟨n + 1, Nat.le_refl _, hpos, hnext, hbelow, hnodup⟩
      | Remove id => exact ⟨n, Nat.le_refl _, h.sublist rfl List.filter_sublist⟩
      | RemoveMatching ip namePart kind =>
          exact ⟨n, Nat.le_refl _, h.sublist rfl List.filter_sublist⟩

def moves (s : BanStore Data) (ms : List BanMove) : BanStore Data := ms.foldl (move json) s

theorem Numbered.moves {s : BanStore Data} {n : Nat} (h : s.Numbered n) (hsynced : s.Synced json)
    (ms : List BanMove) (hn : n + ms.countP BanMove.isAdd ≤ 2 ^ 64) :
    ∃ k, (s.moves json ms).Numbered k := by
  induction ms generalizing s n with
  | nil => exact ⟨n, h⟩
  | cons m ms ih =>
      rw [List.countP_cons] at hn
      have hroom : m.isAdd = true → n < 2 ^ 64 := by
        intro hadd
        rw [if_pos hadd] at hn
        omega
      obtain ⟨k, hk, hmoved⟩ := h.move json hsynced m hroom
      refine ih hmoved (synced_move json s m) ?_
      cases hadd : m.isAdd <;> simp only [hadd] at hn hk <;> simp at hn hk <;> omega

-- With distinct ids, `remove` takes out the one entry that it names.
theorem Numbered.remove {s : BanStore Data} {n : Nat} (h : s.Numbered n) {b : BanRecord}
    (hb : b ∈ s.bans) (now : String) :
    ∃ l r, s.bans = l ++ b :: r ∧ (s.move json (.Call (.Remove b.id) now)).bans = l ++ r := by
  obtain ⟨l, r, hsplit⟩ := List.append_of_mem hb
  refine ⟨l, r, hsplit, ?_⟩
  have hnodup := h.nodup
  rw [hsplit, List.map_append, List.map_cons, List.nodup_middle, List.nodup_cons,
    ← List.map_append] at hnodup
  have hother : ∀ c ∈ l ++ r, c.id ≠ b.id := fun c hc hsame =>
    hnodup.1 (List.mem_map.mpr ⟨c, hc, hsame⟩)
  change s.bans.filter (fun c => c.id ≠ b.id) = l ++ r
  rw [hsplit, List.filter_append, List.filter_cons_of_neg (by simp), ← List.filter_append,
    List.filter_eq_self]
  exact fun c hc => decide_eq_true (hother c hc)

-- An entry of the kind `ban` stays through everything that spares it.
theorem mem_move {s : BanStore Data} (hsynced : s.Synced json) {b : BanRecord} (hb : b ∈ s.bans)
    (hkind : b.kind = .Ban) {m : BanMove} (hspares : m.Spares b.id) : b ∈ (s.move json m).bans := by
  cases m with
  | Restart =>
      rw [move, hsynced]
      exact hb
  | Call call now =>
      cases call with
      | Add kind ip name display reason => exact List.mem_append_left _ hb
      | Remove id => exact List.mem_filter.mpr ⟨hb, decide_eq_true (Ne.symm hspares)⟩
      | RemoveMatching ip namePart kind =>
          refine List.mem_filter.mpr ⟨hb, ?_⟩
          have hne : b.kind ≠ kind := hkind ▸ Ne.symm hspares
          simp [hne]

theorem mem_moves {s : BanStore Data} (hsynced : s.Synced json) {b : BanRecord} (hb : b ∈ s.bans)
    (hkind : b.kind = .Ban) {ms : List BanMove} (hspares : ∀ m ∈ ms, m.Spares b.id) :
    b ∈ (s.moves json ms).bans := by
  induction ms generalizing s with
  | nil => exact hb
  | cons m ms ih =>
      have hmoved := mem_move json hsynced hb hkind (hspares m List.mem_cons_self)
      exact ih (synced_move json s m) hmoved fun m hm => hspares m (List.mem_cons_of_mem _ hm)

end BanStore

-- The ban of a client, as the panel and the action `ban` write it.
def banClient (ip username display reason : String) : BanCall :=
  .Add .Ban (some ip) (some (namePart username)) display reason

-- `handle_new_client` lets nobody in who comes from the address, nor anybody who
-- bears the name, under whatever number. The ids stay distinct for 2 ^ 64 - 1 entries.
theorem ban_sticks (file : Option Data) (hempty : (BanStore.load json file).bans = [])
    (before after : List BanMove) (i : Nat) (name ip display reason now : String) :
    let found := (BanStore.load json file).moves json before
    let banned := found.move json (.Call (banClient ip (tagged i name) display reason) now)
    let s := banned.moves json after
    (∀ m ∈ after, m.Spares found.nextId) →
      (∀ username, (s.banList.isBanned ip (namePart username)).isSome = true) ∧
      (trim name.toList ≠ [] → ∀ other j peer,
        (trim other.toList).map Char.toLower = (trim name.toList).map Char.toLower →
        (s.banList.isBanned peer (namePart (tagged j other))).isSome = true) ∧
      (before.countP BanMove.isAdd + after.countP BanMove.isAdd + 1 < 2 ^ 64 →
        (s.bans.map fun b => b.id).Nodup ∧
        ∀ b ∈ s.bans, ∀ time, ∃ l r, s.bans = l ++ b :: r ∧
          (s.move json (.Call (.Remove b.id) time)).bans = l ++ r) := by
  intro found banned s hspares
  have hload := BanStore.synced_load json file
  let record : BanRecord :=
    ⟨⟨found.nextId, .Ban, some ip, some (namePart (tagged i name)), display, reason⟩, now⟩
  have hadded : record ∈ banned.bans := List.mem_append_right _ List.mem_cons_self
  have hthere : record ∈ s.bans :=
    BanStore.mem_moves json (BanStore.synced_move json _ _) hadded rfl hspares
  have hlisted : record.toBanEntry ∈ s.banList.bans := List.mem_map.mpr ⟨record, hthere, rfl⟩
  refine ⟨fun username => ?_, fun hname other j peer hsame => ?_, fun hcount => ?_⟩
  · exact BanList.isBanned_of_mem hlisted rfl (matches_ip rfl _)
  · rw [namePart_tagged j other]
    refine BanList.isBanned_of_mem hlisted rfl (matches_name ?_ hname hsame)
    exact congrArg some (namePart_tagged i name)
  · have hstart := BanStore.numbered_load json hempty
    have hall : s = (BanStore.load json file).moves json
        (before ++ .Call (banClient ip (tagged i name) display reason) now :: after) := by
      simp [s, banned, found, BanStore.moves]
    obtain ⟨k, hk⟩ := hstart.moves json hload
      (before ++ .Call (banClient ip (tagged i name) display reason) now :: after) (by
        simp only [List.countP_append, List.countP_cons, banClient, BanMove.isAdd, if_true]
        omega)
    rw [← hall] at hk
    exact ⟨hk.nodup, fun b hb time => hk.remove json hb time⟩

-- A ban, restarts and a mute given and taken back.
def sampleMoves : List BanMove :=
  [.Restart, .Call (.Add .Mute none (some "bob") "[3] bob" "noise") "12:05:00",
    .Call (.RemoveMatching "10.0.0.9" "bob" .Mute) "12:06:00", .Restart]

theorem ban_sticks_sample :
    let s := ((BanStore.load listJson none).move listJson
      (.Call (banClient "10.0.0.1" "[2] eve" "[2] eve" "cheat") "12:00:00")).moves listJson sampleMoves
    (s.banList.isBanned "10.0.0.1" (namePart "[7] mallory")).isSome = true ∧
      (s.banList.isBanned "10.0.0.2" (namePart "[31] EVE ")).isSome = true ∧
      (s.bans.map fun b => b.id).Nodup := by
  have hspares : ∀ m ∈ sampleMoves, m.Spares 1 := by
    simp [sampleMoves, BanMove.Spares]
  obtain ⟨hip, hname, hids⟩ :=
    ban_sticks listJson none rfl [] sampleMoves 2 "eve" "10.0.0.1" "[2] eve" "cheat" "12:00:00" hspares
  exact ⟨hip _, hname (by decide) "EVE " 31 _ (by decide), (hids (by decide)).1⟩

end

-- Rounds of giving a mute and taking it back: each uses up an id.
def muteRounds : Nat → List BanMove
  | 0 => []
  | k + 1 => .Call (.Add .Mute none (some "bob") "[3] bob" "noise") "" ::
      .Call (.RemoveMatching "10.0.0.9" "bob" .Mute) "" :: muteRounds k

theorem muteRounds_spares (k : Nat) {id : UInt64} : ∀ m ∈ muteRounds k, m.Spares id := by
  induction k with
  | zero => simp [muteRounds]
  | succ k ih =>
      refine List.forall_mem_cons.mpr ⟨trivial, List.forall_mem_cons.mpr ⟨?_, ih⟩⟩
      exact fun h => by cases h

theorem moves_muteRounds {Data : Type} (json : Json Data) (s : BanStore Data)
    (hkinds : ∀ b ∈ s.bans, b.kind ≠ .Mute) (k : Nat) :
    (s.moves json (muteRounds k)).bans = s.bans ∧
      (s.moves json (muteRounds k)).nextId = s.nextId + UInt64.ofNat k := by
  induction k generalizing s with
  | zero => simp [muteRounds, BanStore.moves]
  | succ k ih =>
      let t := (s.move json (.Call (.Add .Mute none (some "bob") "[3] bob" "noise") "")).move json
        (.Call (.RemoveMatching "10.0.0.9" "bob" .Mute) "")
      have hbans : t.bans = s.bans := by
        change (s.bans ++ [_]).filter _ = s.bans
        rw [List.filter_append, List.filter_cons_of_neg (by
            simp [BanList.matches, BanList.eqIgnoreAsciiCase]), List.filter_nil, List.append_nil,
          List.filter_eq_self]
        intro b hb
        simp [hkinds b hb]
      have hnext : t.nextId = s.nextId + 1 := rfl
      obtain ⟨hsame, hlater⟩ := ih t (hbans ▸ hkinds)
      refine ⟨hsame.trans hbans, hlater.trans ?_⟩
      rw [hnext, UInt64.ofNat_add, UInt64.add_assoc, UInt64.add_comm 1]
      rfl

theorem ids_banClient {Data : Type} (json : Json Data) (s : BanStore Data)
    (ip username display reason now : String) :
    (s.move json (.Call (banClient ip username display reason) now)).bans.map (fun b => b.id) =
      s.bans.map (fun b => b.id) ++ [s.nextId] :=
  List.map_append

-- The 2 ^ 64th entry gets the id of the first.
def wrappingMoves : List BanMove :=
  muteRounds (2 ^ 64 - 1) ++ [.Call (banClient "10.0.0.3" "[4] mallory" "[4] mallory" "cheat") ""]

theorem ban_ids_repeat :
    let s := ((BanStore.load listJson none).move listJson
      (.Call (banClient "10.0.0.1" "[2] eve" "[2] eve" "cheat") "")).moves listJson wrappingMoves
    (∀ m ∈ wrappingMoves, m.Spares 1) ∧ ¬ (s.bans.map fun b => b.id).Nodup := by
  intro s
  let banned := (BanStore.load listJson none).move listJson
    (.Call (banClient "10.0.0.1" "[2] eve" "[2] eve" "cheat") "")
  obtain ⟨hbans, hnext⟩ := moves_muteRounds listJson banned (by simp [banned, BanStore.move,
    BanStore.save, BanStore.change, BanStore.begin, banClient, BanStore.load]) (2 ^ 64 - 1)
  refine ⟨fun m hm => ?_, ?_⟩
  · rcases List.mem_append.mp hm with hm | hm
    · exact muteRounds_spares _ m hm
    · rw [List.mem_singleton.mp hm]
      trivial
  · have hlast : s = (banned.moves listJson (muteRounds (2 ^ 64 - 1))).move listJson
        (.Call (banClient "10.0.0.3" "[4] mallory" "[4] mallory" "cheat") "") := by
      simp only [s, wrappingMoves, BanStore.moves, List.foldl_append, List.foldl_cons, List.foldl_nil]
      rfl
    rw [hlast, ids_banClient, hbans, hnext]
    decide

end Mumble
