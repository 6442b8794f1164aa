import Mumble.Lib.Pool
import Mumble.Lib.Walk
import Mumble.Sampler.Cycles
import Mumble.Sampler.Reach
import Mumble.Targets

/-!
A slot of a client is replaced on one of its tasks while a packet to the slot is routed on
another, one access to a map of the slot at a time.
-/

namespace Mumble

open Mumble.Lib

-- The maps of a slot.
inductive Part where
  | Sessions
  | Channels
  deriving DecidableEq

def Target.part : Target → Part
  | .Session _ => .Sessions
  | .Channel _ => .Channels

namespace VoiceTarget

def part (slot : VoiceTarget) : Part → HashIndex UInt32 Unit
  | .Sessions => slot.sessions
  | .Channels => slot.channels

def erase (slot : VoiceTarget) (k : UInt32) : Part → VoiceTarget
  | .Sessions => { slot with sessions := slot.sessions.erase k }
  | .Channels => { slot with channels := slot.channels.erase k }

end VoiceTarget

def VoiceTargetMessage.replacement (message : VoiceTargetMessage) : VoiceTarget :=
  (ServerState.fillTarget message.targets).1

-- What a step leaves to the environment: the entry that a walk over a map comes to, or the
-- empty place that it goes past.
inductive Pick where
  | Go
  | Entry (k : UInt32)
  | Gap (k : UInt32)

-- Where the handler of a `VoiceTarget` is. `clear_async` takes the entries out one by one.
inductive Retargeting where
  | Check
  | Get
  | Clear (part : Part)
  | Fill (rest : List Target)
  | Record
  | Done (result : MumbleResult)

def Retargeting.afterClear (message : VoiceTargetMessage) : Part → Retargeting
  | .Sessions => .Clear .Channels
  | .Channels => .Fill message.registers

def ServerState.setSlot (s : ServerState) (r : ClientRef) (id : UInt8) (slot : VoiceTarget) :
    ServerState := s.modify r fun c => c.setTarget id slot

def Retargeting.next (r : ClientRef) (now : Instant) (message : VoiceTargetMessage)
    (s : ServerState) (pick : Pick) : Retargeting → Option (ServerState × Retargeting)
  | .Check =>
      let id := message.id.getD 0
      some (s, if id < 1 ∨ id ≥ 31 then .Done (.error .InvalidVoiceTarget) else .Get)
  | .Get =>
      some (s, if ((s.get r).getTarget message.slot).isSome then .Clear .Sessions
        else .Done (.ok ()))
  | .Clear part =>
      match (s.get r).getTarget message.slot, pick with
      | some slot, .Entry k =>
          if k ∈ slot.part part then
            some (s.setSlot r message.slot (slot.erase k part), .Clear part)
          else none
      | some slot, .Go =>
          if (slot.part part).keys = [] then some (s, afterClear message part) else none
      | _, _ => none
  | .Fill (target :: rest) =>
      match (s.get r).getTarget message.slot with
      | some slot => some (s.setSlot r message.slot (slot.add target), .Fill rest)
      | none => none
  | .Fill [] => some (s, .Record)
  | .Record =>
      some (s.modify r fun c => { c with ac := s.anticheat.recordTargets now message.keys c.ac },
        .Done (.ok ()))
  | .Done _ => none

-- A channel of a slot on its own.
def ServerState.addChannelListeners (s : ServerState) (l : HashIndex UInt32 ClientRef)
    (channelId : UInt32) : HashIndex UInt32 ClientRef :=
  match s.channels.lookup channelId with
  | some channel => addAll channel.clients (addAll channel.listeners l)
  | none => l

def ServerState.addEntry (s : ServerState) : Part → HashIndex UInt32 ClientRef → UInt32 →
    HashIndex UInt32 ClientRef
  | .Sessions => s.addSession
  | .Channels => s.addChannelListeners

-- Where the router of a packet to a slot is, and whom it has found.
inductive Routing where
  | Get
  | Walk (part : Part) (walk : Walk UInt32) (found : HashIndex UInt32 ClientRef)
  | Done (found : HashIndex UInt32 ClientRef)

def Routing.afterWalk (found : HashIndex UInt32 ClientRef) : Part → Routing
  | .Sessions => .Walk .Channels .start found
  | .Channels => .Done found

-- The channels and the clients do not change, so that all of a channel is added at once.
def Routing.next (r : ClientRef) (target : UInt8) (s : ServerState) (pick : Pick) :
    Routing → Option Routing
  | .Get =>
      some (if ((s.get r).getTarget target).isSome then .Walk .Sessions .start ∅ else .Done ∅)
  | .Walk part walk found =>
      match (s.get r).getTarget target, pick with
      | some slot, .Entry k =>
          if walk.reaches (slot.part part).keys k then
            some (.Walk part (walk.visit k) (s.addEntry part found k))
          else none
      | some slot, .Gap k =>
          if k ∉ (slot.part part).keys then some (.Walk part (walk.miss k) found) else none
      | some slot, .Go =>
          if walk.complete (slot.part part).keys then some (afterWalk found part) else none
      | none, _ => none
  | .Done _ => none

inductive SlotTask where
  | Handler (stage : Retargeting)
  | Router (stage : Routing)

-- The two tasks are there from the start.
def slotTasks (r : ClientRef) (now : Instant) (message : VoiceTargetMessage) :
    Tasks ServerState Pick SlotTask where
  next := fun s pick t =>
    match t with
    | .Handler stage =>
        (stage.next r now message s pick).map fun next => (next.1, .Handler next.2)
    | .Router stage => (stage.next r message.slot s pick).map fun stage => (s, .Router stage)
  starts := fun _ _ => false

theorem VoiceTargetMessage.replacement_eq (message : VoiceTargetMessage) :
    message.replacement = message.registers.foldl VoiceTarget.add ⟨∅, ∅⟩ :=
  congrArg Prod.fst (ServerState.fillTarget_eq message.targets)

theorem Client.getTarget_setTarget {c : Client} {id : UInt8} {slot : VoiceTarget}
    (h : c.getTarget id = some slot) (slot' : VoiceTarget) :
    (c.setTarget id slot').getTarget id = some slot' := by
  obtain ⟨hlt, -⟩ := Vector.getElem?_eq_some_iff.mp h
  exact Vector.getElem?_setIfInBounds_self_of_lt hlt

namespace ServerState

-- What the router can find for a slot. The entries of its maps come in any order.
def Finds (s : ServerState) (slot : VoiceTarget) (found : HashIndex UInt32 ClientRef) : Prop :=
  ∃ sessions channels : List UInt32, sessions.Perm slot.sessions.keys ∧
    channels.Perm slot.channels.keys ∧
    found = channels.foldl s.addChannelListeners (sessions.foldl s.addSession ∅)

def Resolves (s : ServerState) (r : ClientRef) (target : UInt8)
    (found : HashIndex UInt32 ClientRef) : Prop :=
  ∃ slot, (s.get r).getTarget target = some slot ∧ s.Finds slot found

variable {s s₁ : ServerState} {r : ClientRef} {now : Instant} {message : VoiceTargetMessage}
  {slot : VoiceTarget} {found : HashIndex UInt32 ClientRef} {x : UInt32}

theorem addSession_congr (h : s₁.clients = s.clients) : s₁.addSession = s.addSession := by
  funext l session
  rw [addSession, addSession, h]

theorem addChannelListeners_congr (h : s₁.channels = s.channels) :
    s₁.addChannelListeners = s.addChannelListeners := by
  funext l channelId
  rw [addChannelListeners, addChannelListeners, h]

theorem handleVoiceTarget_of_valid (s : ServerState) (r : ClientRef) (now : Instant)
    (h : message.Valid) :
    s.handleVoiceTarget r now message =
      ((s.setSlot r message.slot message.replacement).modify r
        fun c => { c with ac := s.anticheat.recordTargets now message.keys c.ac }, .ok ()) := by
  obtain ⟨slot, hslot⟩ := getTarget_of_valid h (s.get r)
  rw [VoiceTargetMessage.slot] at hslot
  unfold handleVoiceTarget
  dsimp only
  rw [if_neg h, hslot]
  rfl

theorem Finds.congr (h : s.Finds slot found) (hclients : s₁.clients = s.clients)
    (hchannels : s₁.channels = s.channels) : s₁.Finds slot found := by
  obtain ⟨sessions, channels, hsessions, hkeys, hfound⟩ := h
  refine ⟨sessions, channels, hsessions, hkeys, ?_⟩
  rw [addSession_congr hclients, addChannelListeners_congr hchannels]
  exact hfound

theorem mem_foldl_addSession {sessions : List UInt32} {l : HashIndex UInt32 ClientRef} :
    x ∈ sessions.foldl s.addSession l ↔ x ∈ l ∨ x ∈ sessions ∧ x ∈ s.clients := by
  simp only [HashIndex.mem_iff_lookup, lookup_foldl_addSession]
  by_cases hx : x ∈ sessions
  · cases l.lookup x <;> simp [hx]
  · simp [hx]

theorem mem_addAll {m l : HashIndex UInt32 ClientRef} : x ∈ addAll m l ↔ x ∈ m ∨ x ∈ l := by
  rw [addAll, HashIndex.mem_foldl_insertNew]
  rfl

theorem mem_foldl_addChannelListeners {channels : List UInt32} {l : HashIndex UInt32 ClientRef} :
    x ∈ channels.foldl s.addChannelListeners l ↔ x ∈ l ∨ ∃ k ∈ channels, ∃ channel,
      s.channels.lookup k = some channel ∧ (x ∈ channel.clients ∨ x ∈ channel.listeners) := by
  induction channels generalizing l with
  | nil => simp
  | cons k channels ih =>
      have hadd : x ∈ s.addChannelListeners l k ↔ x ∈ l ∨ ∃ channel,
          s.channels.lookup k = some channel ∧ (x ∈ channel.clients ∨ x ∈ channel.listeners) := by
        unfold addChannelListeners
        cases s.channels.lookup k with
        | none => simp
        | some channel =>
            simp only [mem_addAll, Option.some.injEq, exists_eq_left']
            tauto
      rw [List.foldl_cons, ih, hadd, or_assoc]
      simp only [List.exists_mem_cons_iff]

-- The order in which the entries come does not matter for who is found.
theorem Finds.mem_iff (h : s.Finds slot found) :
    x ∈ found ↔ (x ∈ slot.sessions ∧ x ∈ s.clients) ∨ ∃ k ∈ slot.channels, ∃ channel,
      s.channels.lookup k = some channel ∧ (x ∈ channel.clients ∨ x ∈ channel.listeners) := by
  obtain ⟨sessions, channels, hsessions, hchannels, rfl⟩ := h
  rw [mem_foldl_addChannelListeners, mem_foldl_addSession]
  simp only [AList.notMem_empty, false_or, hsessions.mem_iff, hchannels.mem_iff, ← AList.mem_keys]

theorem resolves_handleVoiceTarget (hvalid : message.Valid)
    (h : s.Finds message.replacement found) :
    (s.handleVoiceTarget r now message).1.Resolves r message.slot found := by
  obtain ⟨slot, hslot⟩ := getTarget_of_valid hvalid (s.get r)
  rw [handleVoiceTarget_of_valid s r now hvalid]
  refine ⟨message.replacement, ?_, h.congr rfl rfl⟩
  rw [get_modify_self, setSlot, get_modify_self]
  exact Client.getTarget_setTarget hslot message.replacement

end ServerState

namespace Retargeting

variable {r : ClientRef} {now : Instant} {message : VoiceTargetMessage} {s s' : ServerState}
  {pick : Pick} {stage stage' : Retargeting} {old slot : VoiceTarget} {part : Part}

-- What a step of the handler does to the state.
inductive Change (r : ClientRef) (id : UInt8) (s : ServerState) (slot : VoiceTarget) :
    ServerState → VoiceTarget → Prop where
  | Same : Change r id s slot s slot
  | Set (slot' : VoiceTarget) : Change r id s slot (s.setSlot r id slot') slot'
  | Note (f : AcStats → AcStats) :
      Change r id s slot (s.modify r fun c => { c with ac := f c.ac }) slot

-- What a step of the handler of a valid message does to the slot.
inductive Moves (message : VoiceTargetMessage) (pick : Pick) (slot : VoiceTarget) :
    Retargeting → Retargeting → VoiceTarget → Prop where
  | Check : Moves message pick slot .Check .Get slot
  | Get : Moves message pick slot .Get (.Clear .Sessions) slot
  | Erase (part : Part) (k : UInt32) :
      Moves message pick slot (.Clear part) (.Clear part) (slot.erase k part)
  | Cleared (part : Part) (hgo : pick = .Go) (hempty : slot.part part = ∅) :
      Moves message pick slot (.Clear part) (afterClear message part) slot
  | Add (t : Target) (rest : List Target) :
      Moves message pick slot (.Fill (t :: rest)) (.Fill rest) (slot.add t)
  | Filled : Moves message pick slot (.Fill []) .Record slot
  | Record : Moves message pick slot .Record (.Done (.ok ())) slot

theorem next_cases (hvalid : message.Valid)
    (hslot : (s.get r).getTarget message.slot = some slot)
    (h : stage.next r now message s pick = some (s', stage')) :
    ∃ slot', Change r message.slot s slot s' slot' ∧ Moves message pick slot stage stage' slot' := by
  cases stage with
  | Check =>
      simp only [next, if_neg hvalid] at h
      cases h
      exact ⟨slot, .Same, .Check⟩
  | Get =>
      simp only [next, hslot, Option.isSome_some, if_true] at h
      cases h
      exact ⟨slot, .Same, .Get⟩
  | Clear part =>
      cases pick with
      | Go =>
          simp only [next, hslot] at h
          split_ifs at h with hempty
          cases h
          exact ⟨slot, .Same, .Cleared part rfl (HashIndex.eq_empty_of_keys hempty)⟩
      | Entry k =>
          simp only [next, hslot] at h
          split_ifs at h
          cases h
          exact ⟨_, .Set _, .Erase part k⟩
      | Gap k => simp [next, hslot] at h
  | Fill rest =>
      cases rest with
      | nil =>
          cases h
          exact ⟨slot, .Same, .Filled⟩
      | cons t rest =>
          simp only [next, hslot] at h
          cases h
          exact ⟨_, .Set _, .Add t rest⟩
  | Record =>
      cases h
      exact ⟨slot, .Note _, .Record⟩
  | Done result => cases h

theorem Change.frame {id : UInt8} {slot' : VoiceTarget} (h : Change r id s slot s' slot')
    (hslot : (s.get r).getTarget id = some slot) :
    (s'.get r).getTarget id = some slot' ∧ s'.clients = s.clients ∧ s'.channels = s.channels := by
  cases h with
  | Same => exact ⟨hslot, rfl, rfl⟩
  | Set slot' =>
      refine ⟨?_, rfl, rfl⟩
      rw [ServerState.setSlot, ServerState.get_modify_self]
      exact Client.getTarget_setTarget hslot slot'
  | Note f =>
      refine ⟨?_, rfl, rfl⟩
      rw [ServerState.get_modify_self]
      exact hslot

end Retargeting

-- What a step of a walk can be.
theorem Routing.next_walk {s : ServerState} {r : ClientRef} {target : UInt8} {pick : Pick}
    {part : Part} {walk : Lib.Walk UInt32} {found : HashIndex UInt32 ClientRef} {slot : VoiceTarget}
    {q : Routing} (hslot : (s.get r).getTarget target = some slot)
    (h : next r target s pick (.Walk part walk found) = some q) :
    (∃ k, walk.reaches (slot.part part).keys k = true ∧
      q = .Walk part (walk.visit k) (s.addEntry part found k)) ∨
    (∃ k, k ∉ (slot.part part).keys ∧ q = .Walk part (walk.miss k) found) ∨
    walk.complete (slot.part part).keys = true ∧ q = afterWalk found part := by
  cases pick with
  | Go =>
      simp only [next, hslot] at h
      split_ifs at h with hcomplete
      cases h
      exact .inr (.inr ⟨hcomplete, rfl⟩)
  | Entry k =>
      simp only [next, hslot] at h
      split_ifs at h with hreaches
      cases h
      exact .inl ⟨k, hreaches, rfl⟩
  | Gap k =>
      simp only [next, hslot] at h
      split_ifs at h with hgap
      cases h
      exact .inr (.inl ⟨k, hgap, rfl⟩)

-- Each of the two, left alone, does what the operation does.

section Alone

variable {s : ServerState} {r : ClientRef} {message : VoiceTargetMessage} {slot : VoiceTarget}

def VoiceTarget.clear (slot : VoiceTarget) : Part → VoiceTarget
  | .Sessions => { slot with sessions := ∅ }
  | .Channels => { slot with channels := ∅ }

theorem setSlot_setSlot (s : ServerState) (r : ClientRef) (id : UInt8) (slot slot' : VoiceTarget) :
    (s.setSlot r id slot).setSlot r id slot' = s.setSlot r id slot' := by
  have htwice (c : Client) : (c.setTarget id slot).setTarget id slot' = c.setTarget id slot' := by
    simp [Client.setTarget]
  simp only [ServerState.setSlot, ServerState.modify_modify, htwice]

theorem setSlot_self {id : UInt8} (h : (s.get r).getTarget id = some slot) :
    s.setSlot r id slot = s := by
  obtain ⟨hlt, hget⟩ := Vector.getElem?_eq_some_iff.mp h
  have htargets : (s.get r).targets.setIfInBounds (id - 1).toNat slot = (s.get r).targets := by
    ext i hi
    by_cases hsame : (id - 1).toNat = i
    · subst hsame
      simp [← hget]
    · simp [hsame]
  have hsame : (s.get r).setTarget id slot = s.get r := by rw [Client.setTarget, htargets]
  rw [ServerState.setSlot, ServerState.modify, hsame]
  simp [ServerState.set, ServerState.get]

theorem alone_clear (now : Instant) (part : Part)
    (hslot : (s.get r).getTarget message.slot = some slot) :
    Alone (Retargeting.next r now message) (s, .Clear part)
      (s.setSlot r message.slot (slot.clear part), Retargeting.afterClear message part) := by
  generalize hkeys : (slot.part part).keys = keys
  induction keys generalizing s slot with
  | nil =>
      have hclear : slot.clear part = slot := by
        have hempty := HashIndex.eq_empty_of_keys hkeys
        cases part with
        | Sessions => exact congrArg (fun sessions => { slot with sessions }) hempty.symm
        | Channels => exact congrArg (fun channels => { slot with channels }) hempty.symm
      have hgo : Retargeting.next r now message s .Go (.Clear part) =
          some (s, Retargeting.afterClear message part) := by
        simp only [Retargeting.next, hslot, hkeys, if_true]
      rw [hclear, setSlot_self hslot]
      exact .step .Go hgo (.refl _)
  | cons k keys ih =>
      have hthere : k ∈ slot.part part := by
        rw [AList.mem_keys, hkeys]
        exact List.mem_cons_self
      have herase : Retargeting.next r now message s (.Entry k) (.Clear part) =
          some (s.setSlot r message.slot (slot.erase k part), .Clear part) := by
        simp only [Retargeting.next, hslot, if_pos hthere]
      have hslot' : ((s.setSlot r message.slot (slot.erase k part)).get r).getTarget message.slot =
          some (slot.erase k part) := ((Retargeting.Change.Set _).frame hslot).1
      have hpart : (slot.erase k part).part part = (slot.part part).erase k := by
        cases part <;> rfl
      have hrest := ih hslot' (by rw [hpart, AList.keys_erase, hkeys, List.erase_cons_head])
      have hclear : (slot.erase k part).clear part = slot.clear part := by cases part <;> rfl
      rw [setSlot_setSlot, hclear] at hrest
      exact .step (.Entry k) herase hrest

theorem alone_fill (now : Instant) (targets : List Target)
    (hslot : (s.get r).getTarget message.slot = some slot) :
    Alone (Retargeting.next r now message) (s, .Fill targets)
      (s.setSlot r message.slot (targets.foldl VoiceTarget.add slot), .Record) := by
  induction targets generalizing s slot with
  | nil =>
      rw [List.foldl_nil, setSlot_self hslot]
      exact .step .Go rfl (.refl _)
  | cons t targets ih =>
      have hadd : Retargeting.next r now message s .Go (.Fill (t :: targets)) =
          some (s.setSlot r message.slot (slot.add t), .Fill targets) := by
        simp only [Retargeting.next, hslot]
      have hslot' : ((s.setSlot r message.slot (slot.add t)).get r).getTarget message.slot =
          some (slot.add t) := ((Retargeting.Change.Set _).frame hslot).1
      have hrest := ih hslot'
      rw [setSlot_setSlot] at hrest
      exact .step .Go hadd hrest

theorem alone_handleVoiceTarget (s : ServerState) (r : ClientRef) (now : Instant)
    (message : VoiceTargetMessage) :
    Alone (Retargeting.next r now message) (s, .Check)
      ((s.handleVoiceTarget r now message).1, .Done (s.handleVoiceTarget r now message).2) := by
  by_cases hvalid : message.Valid
  · obtain ⟨slot, hslot⟩ := ServerState.getTarget_of_valid hvalid (s.get r)
    have hcheck : Retargeting.next r now message s .Go .Check = some (s, .Get) := by
      simp only [Retargeting.next, if_neg hvalid]
    have hget : Retargeting.next r now message s .Go .Get = some (s, .Clear .Sessions) := by
      simp only [Retargeting.next, hslot, Option.isSome_some, if_true]
    have hframe (slot' : VoiceTarget) :
        ((s.setSlot r message.slot slot').get r).getTarget message.slot = some slot' :=
      ((Retargeting.Change.Set _).frame hslot).1
    have hsessions := alone_clear now .Sessions hslot
    have hchannels := alone_clear now .Channels (hframe (slot.clear .Sessions))
    have hfill := alone_fill now message.registers
      (hframe ((slot.clear .Sessions).clear .Channels))
    rw [setSlot_setSlot] at hchannels hfill
    have hempty : (slot.clear .Sessions).clear .Channels = ⟨∅, ∅⟩ := rfl
    rw [hempty, ← message.replacement_eq] at hfill
    rw [ServerState.handleVoiceTarget_of_valid s r now hvalid]
    refine .step .Go hcheck (.step .Go hget (hsessions.trans (hchannels.trans (hfill.trans ?_))))
    exact .step .Go rfl (.refl _)
  · have hcheck : Retargeting.next r now message s .Go .Check =
        some (s, .Done (.error .InvalidVoiceTarget)) := by
      simp only [Retargeting.next, if_pos (not_not.mp hvalid)]
    rw [ServerState.handleVoiceTarget_of_not_valid hvalid]
    exact .step .Go hcheck (.refl _)

-- The router changes nothing.
def Routing.nextAlone (r : ClientRef) (target : UInt8) (s : ServerState) (pick : Pick)
    (stage : Routing) : Option (ServerState × Routing) :=
  (stage.next r target s pick).map fun stage => (s, stage)

theorem alone_routing {target : UInt8} (part : Part) (seen : List UInt32) {rest : List UInt32}
    (found : HashIndex UInt32 ClientRef) (hslot : (s.get r).getTarget target = some slot)
    (hkeys : (slot.part part).keys = seen ++ rest) :
    Alone (Routing.nextAlone r target) (s, .Walk part ⟨seen, []⟩ found)
      (s, Routing.afterWalk (rest.foldl (s.addEntry part) found) part) := by
  induction rest generalizing seen found with
  | nil =>
      have hcomplete : (Walk.mk seen []).complete (slot.part part).keys = true := by
        simp [hkeys, Walk.complete, Walk.passed]
      refine .step .Go ?_ (.refl _)
      simp only [Routing.nextAlone, Routing.next, hslot, hcomplete, if_true, Option.map_some,
        List.foldl_nil]
  | cons k rest ih =>
      have hnodup : (seen ++ k :: rest).Nodup := hkeys ▸ (slot.part part).keys_nodup
      have hreaches : (Walk.mk seen []).reaches (slot.part part).keys k = true := by
        have hnew : k ∉ seen := fun hk =>
          (List.nodup_append.mp hnodup).2.2 k hk k List.mem_cons_self rfl
        rw [hkeys]
        exact Walk.reaches_iff.mpr ⟨by simp, hnew, by simp⟩
      refine .step (.Entry k) ?_ (ih (seen ++ [k]) (s.addEntry part found k) ?_)
      · simp only [Routing.nextAlone, Routing.next, hslot, hreaches, if_true, Option.map_some,
          Walk.visit]
      · rw [hkeys, List.append_assoc]
        rfl

theorem alone_listeningClients {target : UInt8} (hslot : (s.get r).getTarget target = some slot)
    (htarget : 1 ≤ target ∧ target ≤ 30) :
    Alone (Routing.nextAlone r target) (s, .Get) (s, .Done (s.listeningClients r target)) := by
  have hzero : target ≠ 0 := by
    rintro rfl
    exact absurd htarget.1 (by decide)
  have hget : Routing.nextAlone r target s .Go .Get = some (s, .Walk .Sessions .start ∅) := by
    simp only [Routing.nextAlone, Routing.next, hslot, Option.isSome_some, if_true, Option.map_some]
  unfold ServerState.listeningClients
  rw [if_neg hzero, if_pos htarget, hslot]
  refine .step .Go hget ((alone_routing .Sessions [] ∅ hslot rfl).trans ?_)
  exact alone_routing .Channels [] _ hslot rfl

end Alone

end Mumble
