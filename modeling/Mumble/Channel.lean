import Mumble.Client

namespace Mumble

open Mumble.Lib

-- The place of a client in memory, what an `Arc<Client>` or a `Weak<Client>`
-- points to. Two clients that had the same session id at different times are
-- two places.
abbrev ClientRef := Nat

structure Channel where
  id : UInt32
  name : String
  temporary : Bool
  listeners : HashIndex UInt32 ClientRef
  clients : HashIndex UInt32 ClientRef
  channelStateCache : ChannelState
  -- the cache is filled once, when the channel is made
  cached : channelStateCache.channelId = some id

namespace Channel

def new (id : UInt32) (parentId : Option UInt32) (name description : String) (temporary : Bool) :
    Channel where
  id := id
  name := name
  temporary := temporary
  listeners := ∅
  clients := ∅
  channelStateCache :=
    { channelId := some id
      parent := parentId
      name := some name
      description := some description
      temporary := some temporary
      position := some id.toInt32 }
  cached := rfl

def getChannelState (c : Channel) : ChannelState := c.channelStateCache

end Channel

-- The channels of the server, each under its own id.
structure ChannelMap where
  index : HashIndex UInt32 Channel
  keyed : ∀ k c, index.lookup k = some c → c.id = k

namespace ChannelMap

variable {m : ChannelMap} {k k' : UInt32}

def lookup (m : ChannelMap) (k : UInt32) : Option Channel := m.index.lookup k

def contains (m : ChannelMap) (k : UInt32) : Bool := (m.lookup k).isSome

def empty : ChannelMap := ⟨∅, by simp⟩

def insert (c : Channel) (m : ChannelMap) : ChannelMap where
  index := HashIndex.insertNew c.id c m.index
  keyed := by
    intro k c' h
    by_cases hk : k = c.id
    · subst hk
      rw [HashIndex.lookup_insertNew_self] at h
      cases hold : m.index.lookup c.id with
      | none =>
          simp only [hold, Option.getD_none, Option.some.injEq] at h
          rw [← h]
      | some old =>
          simp only [hold, Option.getD_some, Option.some.injEq] at h
          rw [← h]
          exact m.keyed _ _ hold
    · rw [HashIndex.lookup_insertNew_ne hk] at h
      exact m.keyed k c' h

def erase (k : UInt32) (m : ChannelMap) : ChannelMap where
  index := m.index.erase k
  keyed := by
    intro k' c h
    by_cases hk : k' = k
    · subst hk
      rw [AList.lookup_erase] at h
      cases h
    · rw [AList.lookup_erase_ne hk] at h
      exact m.keyed k' c h

-- Changes a channel in place; its id stays.
def alter (k : UInt32) (f : Channel → Channel) (hf : ∀ c, (f c).id = c.id) (m : ChannelMap) :
    ChannelMap where
  index := HashIndex.alter k f m.index
  keyed := by
    intro k' c h
    by_cases hk : k' = k
    · subst hk
      rw [HashIndex.lookup_alter_self] at h
      obtain ⟨old, hold, rfl⟩ := Option.map_eq_some_iff.mp h
      rw [hf]
      exact m.keyed _ _ hold
    · rw [HashIndex.lookup_alter_ne f hk] at h
      exact m.keyed k' c h

def alterClients (k : UInt32) (f : HashIndex UInt32 ClientRef → HashIndex UInt32 ClientRef) :
    ChannelMap → ChannelMap :=
  alter k (fun c => { c with clients := f c.clients }) fun _ => rfl

def alterListeners (k : UInt32) (f : HashIndex UInt32 ClientRef → HashIndex UInt32 ClientRef) :
    ChannelMap → ChannelMap :=
  alter k (fun c => { c with listeners := f c.listeners }) fun _ => rfl

-- `any_entry_async`.
def find (p : Channel → Bool) (m : ChannelMap) : Option Channel := m.index.values.find? p

theorem lookup_insert_ne (c : Channel) (h : k ≠ c.id) :
    (m.insert c).lookup k = m.lookup k := HashIndex.lookup_insertNew_ne h

theorem lookup_insert_self (c : Channel) :
    (m.insert c).lookup c.id = some ((m.lookup c.id).getD c) := HashIndex.lookup_insertNew_self _ _ _

@[simp] theorem lookup_erase_self : (m.erase k).lookup k = none := AList.lookup_erase _ _

theorem lookup_erase_ne (h : k' ≠ k) : (m.erase k).lookup k' = m.lookup k' :=
  AList.lookup_erase_ne h

theorem lookup_alter_self {f : Channel → Channel} {hf : ∀ c, (f c).id = c.id} :
    (m.alter k f hf).lookup k = (m.lookup k).map f := HashIndex.lookup_alter_self f

theorem lookup_alter_ne {f : Channel → Channel} {hf : ∀ c, (f c).id = c.id} (h : k' ≠ k) :
    (m.alter k f hf).lookup k' = m.lookup k' := HashIndex.lookup_alter_ne f h

theorem id_of_lookup {c : Channel} (h : m.lookup k = some c) : c.id = k := m.keyed k c h

-- A search for an id finds the channel stored under it.
theorem find_id (m : ChannelMap) (k : UInt32) : m.find (fun c => c.id = k) = m.lookup k := by
  cases hfind : m.find fun c => c.id = k with
  | some c =>
      have hid := List.find?_some hfind
      obtain ⟨key, hkey⟩ := HashIndex.mem_values.mp (List.mem_of_find?_eq_some hfind)
      have hsame : k = key := (of_decide_eq_true hid).symm.trans (m.keyed key c hkey)
      rw [hsame]
      exact hkey.symm
  | none =>
      cases hlook : m.lookup k with
      | none => rfl
      | some c =>
          have hmem : c ∈ m.index.values := HashIndex.mem_values.mpr ⟨k, hlook⟩
          have hne := List.find?_eq_none.mp hfind c hmem
          simp [id_of_lookup hlook] at hne

end ChannelMap

end Mumble
