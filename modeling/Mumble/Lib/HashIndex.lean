import Mathlib.Data.List.AList

namespace Mumble.Lib

-- A finite map whose insertion keeps an entry that is already there. Nothing is
-- said about the order of its entries.
abbrev HashIndex (κ α : Type) := AList fun _ : κ => α

namespace HashIndex

variable {κ α : Type} [DecidableEq κ] {m : HashIndex κ α} {k k' : κ} {v : α}

def insertNew (k : κ) (v : α) (m : HashIndex κ α) : HashIndex κ α :=
  if k ∈ m then m else AList.insert k v m

-- Changes the value of a key, if it is there.
def alter (k : κ) (f : α → α) (m : HashIndex κ α) : HashIndex κ α :=
  match m.lookup k with
  | some v => AList.insert k (f v) m
  | none => m

-- Adds a value to the list that is stored under a key.
def push (k : κ) (v : α) (m : HashIndex κ (List α)) : HashIndex κ (List α) :=
  AList.insert k ((m.lookup k).getD [] ++ [v]) m

def values (m : HashIndex κ α) : List α := m.entries.map fun e => e.2

def mapValues {β : Type} (f : α → β) (m : HashIndex κ α) : HashIndex κ β where
  entries := m.entries.map fun e => ⟨e.1, f e.2⟩
  nodupKeys := by
    have hkeys : (m.entries.map fun e => (⟨e.1, f e.2⟩ : Sigma fun _ : κ => β)).keys =
        m.entries.keys := by
      rw [List.keys, List.keys, List.map_map]
      rfl
    rw [List.NodupKeys, hkeys]
    exact m.nodupKeys

omit [DecidableEq κ] in
theorem values_mapValues {β : Type} (f : α → β) (m : HashIndex κ α) :
    (mapValues f m).values = m.values.map f := by
  rw [values, values, mapValues, List.map_map, List.map_map]
  rfl

theorem lookup_mapValues {β : Type} (f : α → β) (m : HashIndex κ α) (k : κ) :
    (mapValues f m).lookup k = (m.lookup k).map f := by
  have hentry (v : β) : (mapValues f m).lookup k = some v ↔ (m.lookup k).map f = some v := by
    have hmapped : (mapValues f m).lookup k = some v ↔ ⟨k, v⟩ ∈ (mapValues f m).entries :=
      AList.mem_lookup_iff
    rw [hmapped, mapValues, List.mem_map, Option.map_eq_some_iff]
    constructor
    · rintro ⟨e, he, heq⟩
      cases heq
      exact ⟨e.2, AList.mem_lookup_iff.mpr he, rfl⟩
    · rintro ⟨w, hw, rfl⟩
      exact ⟨⟨k, w⟩, AList.mem_lookup_iff.mp hw, rfl⟩
  exact Option.ext hentry

theorem lookup_insertNew_self (k : κ) (v : α) (m : HashIndex κ α) :
    (insertNew k v m).lookup k = some ((m.lookup k).getD v) := by
  unfold insertNew
  by_cases h : k ∈ m
  · obtain ⟨old, hold⟩ := Option.isSome_iff_exists.mp (AList.lookup_isSome.mpr h)
    rw [if_pos h, hold, Option.getD_some]
  · rw [if_neg h, AList.lookup_insert, AList.lookup_eq_none.mpr h, Option.getD_none]

theorem lookup_insertNew_ne (h : k' ≠ k) : (insertNew k v m).lookup k' = m.lookup k' := by
  unfold insertNew
  split_ifs
  · rfl
  · exact AList.lookup_insert_ne h

theorem lookup_insertNew_of_notMem (h : k ∉ m) : (insertNew k v m).lookup k = some v := by
  rw [lookup_insertNew_self, AList.lookup_eq_none.mpr h, Option.getD_none]

theorem lookup_alter_self (f : α → α) : (alter k f m).lookup k = (m.lookup k).map f := by
  unfold alter
  cases h : m.lookup k with
  | none => simp [h]
  | some v => simp

theorem lookup_alter_ne (f : α → α) (h : k' ≠ k) : (alter k f m).lookup k' = m.lookup k' := by
  unfold alter
  cases m.lookup k with
  | none => rfl
  | some v => exact AList.lookup_insert_ne h

theorem lookup_foldl_insertNew_map {β : Type} (f : β → α) (entries : List (Sigma fun _ : κ => β))
    (m : HashIndex κ α) (k : κ) :
    (entries.foldl (fun l e => insertNew e.1 (f e.2) l) m).lookup k =
      (m.lookup k).or ((entries.dlookup k).map f) := by
  induction entries generalizing m with
  | nil => simp
  | cons e entries ih =>
      rw [List.foldl_cons, ih]
      obtain ⟨own, v⟩ := e
      by_cases hown : k = own
      · subst hown
        rw [lookup_insertNew_self, List.dlookup_cons_eq]
        cases m.lookup k with
        | none => rfl
        | some w => rfl
      · rw [lookup_insertNew_ne hown, List.dlookup_cons_ne _ _ hown]

theorem lookup_foldl_insertNew (entries : List (Sigma fun _ : κ => α)) (m : HashIndex κ α) (k : κ) :
    (entries.foldl (fun l e => insertNew e.1 e.2 l) m).lookup k =
      (m.lookup k).or (entries.dlookup k) := by
  have hmap := lookup_foldl_insertNew_map (fun v => v) entries m k
  rwa [Option.map_id'] at hmap

theorem mem_insertNew : k' ∈ insertNew k v m ↔ k' = k ∨ k' ∈ m := by
  unfold insertNew
  split_ifs with h
  · constructor
    · exact .inr
    · rintro (rfl | h')
      · exact h
      · exact h'
  · exact AList.mem_insert m

theorem mem_foldl_insertNew {entries : List (Sigma fun _ : κ => α)} :
    k ∈ entries.foldl (fun m e => insertNew e.1 e.2 m) m ↔ k ∈ entries.map Sigma.fst ∨ k ∈ m := by
  induction entries generalizing m with
  | nil => simp
  | cons e entries ih =>
      rw [List.foldl_cons, ih, mem_insertNew, List.map_cons, List.mem_cons]
      tauto

omit [DecidableEq κ] in
theorem eq_empty_of_keys (h : m.keys = []) : m = ∅ := AList.ext (List.map_eq_nil_iff.mp h)

theorem mem_iff_lookup : k ∈ m ↔ ∃ v, m.lookup k = some v := by
  rw [← AList.lookup_isSome, Option.isSome_iff_exists]

theorem mem_values : v ∈ values m ↔ ∃ k, m.lookup k = some v := by
  constructor
  · intro h
    obtain ⟨⟨k, w⟩, he, rfl⟩ := List.mem_map.mp h
    exact ⟨k, AList.mem_lookup_iff.mpr he⟩
  · rintro ⟨k, h⟩
    exact List.mem_map.mpr ⟨⟨k, v⟩, AList.mem_lookup_iff.mp h, rfl⟩

theorem lookup_erase_eq_some :
    (m.erase k').lookup k = some v ↔ k ≠ k' ∧ m.lookup k = some v := by
  by_cases hk : k = k'
  · subst hk
    simp [AList.lookup_erase]
  · simp [AList.lookup_erase_ne hk, hk]

-- Values that tell the key they are stored under are all different.
theorem nodup_values (key : α → κ) (h : ∀ k v, m.lookup k = some v → key v = k) :
    (values m).Nodup := by
  have hkey {e : Sigma fun _ : κ => α} (he : e ∈ m.entries) : key e.2 = e.1 :=
    h e.1 e.2 (AList.mem_lookup_iff.mpr he)
  refine List.Nodup.map_on ?_ m.nodupKeys.nodup
  intro e he e' he' hsame
  refine m.nodupKeys.eq_of_fst_eq he he' ?_
  rw [← hkey he, ← hkey he', hsame]

-- Values stored one by one, each under its own key, no two under the same.
theorem lookup_foldl_insert {key : α → κ} {l : List α} (hnodup : (l.map key).Nodup) :
    (l.foldl (fun m v => AList.insert (key v) v m) m).lookup k = some v ↔
      v ∈ l ∧ key v = k ∨ k ∉ l.map key ∧ m.lookup k = some v := by
  induction l generalizing m with
  | nil => simp
  | cons w l ih =>
      obtain ⟨hw, hl⟩ := List.nodup_cons.mp hnodup
      rw [List.foldl_cons, ih hl]
      by_cases hk : k = key w
      · subst hk
        rw [AList.lookup_insert]
        constructor
        · rintro (⟨hv, hkey⟩ | ⟨-, hv⟩)
          · exact absurd (hkey ▸ List.mem_map_of_mem hv) hw
          · exact .inl ⟨(Option.some.inj hv) ▸ List.mem_cons_self, by rw [Option.some.inj hv]⟩
        · rintro (⟨hv, hkey⟩ | ⟨hnot, -⟩)
          · rcases List.mem_cons.mp hv with rfl | hv
            · exact .inr ⟨hw, rfl⟩
            · exact absurd (hkey ▸ List.mem_map_of_mem hv) hw
          · exact absurd (by simp) hnot
      · rw [AList.lookup_insert_ne hk]
        have hfirst : key v = k → v ≠ w := by
          rintro rfl rfl
          exact hk rfl
        constructor
        · rintro (⟨hv, hkey⟩ | ⟨hnot, hold⟩)
          · exact .inl ⟨List.mem_cons_of_mem _ hv, hkey⟩
          · exact .inr ⟨by simpa [hk] using hnot, hold⟩
        · rintro (⟨hv, hkey⟩ | ⟨hnot, hold⟩)
          · exact .inl ⟨(List.mem_cons.mp hv).resolve_left (hfirst hkey), hkey⟩
          · exact .inr ⟨fun hmem => hnot (List.mem_cons_of_mem _ hmem), hold⟩

theorem mem_push {m : HashIndex κ (List α)} {w : α} :
    w ∈ ((push k v m).lookup k').getD [] ↔ w ∈ (m.lookup k').getD [] ∨ k' = k ∧ w = v := by
  unfold push
  by_cases hk : k' = k
  · subst hk
    simp [AList.lookup_insert]
  · simp [AList.lookup_insert_ne hk, hk]

theorem mem_foldl_push {l : List (κ × α)} {m : HashIndex κ (List α)} :
    v ∈ ((l.foldl (fun m e => push e.1 e.2 m) m).lookup k).getD [] ↔
      v ∈ (m.lookup k).getD [] ∨ (k, v) ∈ l := by
  induction l generalizing m with
  | nil => simp
  | cons e l ih =>
      rw [List.foldl_cons, ih, mem_push, List.mem_cons, or_assoc, Prod.ext_iff]

theorem length_insert (h : k ∉ m) : (AList.insert k v m).entries.length = m.entries.length + 1 := by
  rw [AList.entries_insert_of_notMem h, List.length_cons]

theorem length_insertNew (h : k ∉ m) : (insertNew k v m).entries.length = m.entries.length + 1 := by
  rw [insertNew, if_neg h, length_insert h]

theorem length_erase (h : k ∈ m) : (m.erase k).entries.length = m.entries.length - 1 := by
  have hkeys : (m.erase k).keys.length = m.keys.length - 1 := by
    rw [AList.keys_erase]
    exact List.length_erase_of_mem h
  simpa only [AList.keys, List.keys, List.length_map] using hkeys

-- A key that is written again is still there once.
theorem length_insert_of_mem (h : k ∈ m) :
    (AList.insert k v m).entries.length = m.entries.length := by
  have hkeys : (AList.insert k v m).keys.length = m.keys.length := by
    have hpos : 0 < m.keys.length := List.length_pos_of_mem h
    rw [AList.keys_insert, List.length_cons, List.length_erase_of_mem h]
    omega
  simpa only [AList.keys, List.keys, List.length_map] using hkeys

-- Entries whose keys are all different are added to those that are there.
theorem length_foldl_insertNew {β : Type} (f : β → α) {entries : List (Sigma fun _ : κ => β)}
    (hnodup : entries.NodupKeys) (m : HashIndex κ α) :
    (entries.foldl (fun l e => insertNew e.1 (f e.2) l) m).entries.length =
      m.entries.length + (entries.keys.filter fun k => k ∉ m).length := by
  induction entries generalizing m with
  | nil => simp
  | cons e entries ih =>
      obtain ⟨own, v⟩ := e
      obtain ⟨hown, hrest⟩ := List.nodupKeys_cons.mp hnodup
      have hsame : (entries.keys.filter fun k => k ∉ insertNew own (f v) m) =
          entries.keys.filter fun k => k ∉ m := by
        refine List.filter_congr fun k hk => ?_
        have hne : k ≠ own := fun heq => hown (heq ▸ hk)
        simp [mem_insertNew, hne]
      rw [List.foldl_cons, ih hrest, hsame, List.keys_cons, List.filter_cons]
      by_cases hmem : own ∈ m
      · simp [insertNew, hmem]
      · rw [length_insertNew hmem, if_pos (by simpa using hmem), List.length_cons]
        omega

omit [DecidableEq κ] in
theorem entries_eq_nil_iff : m.entries = [] ↔ ∀ k, k ∉ m := by
  constructor
  · intro h k hk
    rw [AList.mem_keys, AList.keys, h] at hk
    simp at hk
  · intro h
    by_contra hne
    obtain ⟨e, rest, he⟩ := List.exists_cons_of_ne_nil hne
    apply h e.1
    rw [AList.mem_keys, AList.keys, he]
    simp

end HashIndex

end Mumble.Lib
