import Mumble.Tasks.Slot

/-!
What a packet is routed to while its slot is being replaced.
-/

namespace Mumble

open Mumble.Lib

-- What is in a map of the slot while the handler is at work.
inductive Content where
  | Old
  | Torn
  | New
  deriving DecidableEq

def Retargeting.content (message : VoiceTargetMessage) (part : Part) : Retargeting → Content
  | .Check | .Get => .Old
  | .Clear .Sessions => if part = .Sessions then .Torn else .Old
  | .Clear .Channels =>
      if part = .Channels ∨ message.registers.any fun t => t.part = part then .Torn else .New
  | .Fill rest => if rest.any fun t => t.part = part then .Torn else .New
  | .Record | .Done _ => .New

-- The router does not walk over a map that has been cleared and not yet filled again, and no
-- map is cleared that the router is in the middle of. Once it is through with the sessions it
-- is in the middle until it is through with the channels.
def SlotTask.apart (message : VoiceTargetMessage) (pick : Pick) : SlotTask → SlotTask → Bool
  | .Router (.Walk part _ _), .Handler stage => stage.content message part ≠ .Torn
  | .Handler .Get, .Router (.Walk .Sessions walk _) => walk = .start
  | .Handler (.Clear .Sessions), .Router (.Walk .Channels _ _) =>
      match pick with
      | .Go => false
      | _ => true
  | _, _ => true

def readsApart (message : VoiceTargetMessage) (p : Pool ServerState SlotTask) :
    Turn Pick SlotTask → Bool
  | .Start _ => true
  | .Next place pick =>
      match p.tasks[place]? with
      | some t => p.tasks.all fun u => t.apart message pick u
      | none => true

namespace VoiceTarget

theorem part_add_ne {part : Part} (slot : VoiceTarget) {t : Target} (h : t.part ≠ part) :
    (slot.add t).part part = slot.part part := by
  cases t <;> cases part <;> first | rfl | exact absurd rfl h

theorem part_foldl_add {part : Part} {targets : List Target} (slot : VoiceTarget)
    (h : ∀ t ∈ targets, t.part ≠ part) :
    (targets.foldl add slot).part part = slot.part part := by
  induction targets generalizing slot with
  | nil => rfl
  | cons t targets ih =>
      rw [List.foldl_cons, ih _ fun u hu => h u (List.mem_cons_of_mem _ hu)]
      exact part_add_ne slot (h t List.mem_cons_self)

end VoiceTarget

namespace Retargeting

variable {message : VoiceTargetMessage}
  {pick : Pick} {stage stage' : Retargeting} {old slot : VoiceTarget} {part : Part}

-- What the slot holds.
def Holds (message : VoiceTargetMessage) (old slot : VoiceTarget) : Retargeting → Prop
  | .Check | .Get => slot = old
  | .Clear .Sessions => slot.channels = old.channels
  | .Clear .Channels => slot.sessions = ∅
  | .Fill rest =>
      ∃ done, message.registers = done ++ rest ∧ slot = done.foldl VoiceTarget.add ⟨∅, ∅⟩
  | .Record | .Done _ => slot = message.replacement

theorem Moves.holds {slot' : VoiceTarget} (h : Moves message pick slot stage stage' slot')
    (hholds : stage.Holds message old slot) : stage'.Holds message old slot' := by
  cases h with
  | Check => exact hholds
  | Get => exact congrArg VoiceTarget.channels hholds
  | Erase part k =>
      cases part with
      | Sessions => exact hholds
      | Channels => exact hholds
  | Cleared part _ hempty =>
      cases part with
      | Sessions => exact hempty
      | Channels =>
          -- both maps are empty now
          refine ⟨[], rfl, ?_⟩
          obtain ⟨sessions, channels⟩ := slot
          have hsessions : sessions = ∅ := hholds
          have hchannels : channels = ∅ := hempty
          rw [hsessions, hchannels]
          rfl
  | Add t rest =>
      obtain ⟨done, hregisters, rfl⟩ := hholds
      refine ⟨done ++ [t], ?_, ?_⟩
      · rw [hregisters, List.append_assoc]
        rfl
      · rw [List.foldl_append]
        rfl
  | Filled =>
      obtain ⟨done, hregisters, rfl⟩ := hholds
      rw [List.append_nil] at hregisters
      rw [← hregisters]
      exact message.replacement_eq.symm
  | Record => exact hholds

theorem part_of_old (hholds : stage.Holds message old slot)
    (h : stage.content message part = .Old) : slot.part part = old.part part := by
  cases stage with
  | Check | Get => exact congrArg (fun slot => slot.part part) hholds
  | Clear cleared =>
      cases cleared with
      | Sessions =>
          cases part with
          | Sessions => cases h
          | Channels => exact hholds
      | Channels =>
          simp only [content] at h
          split_ifs at h
  | Fill rest =>
      simp only [content] at h
      split_ifs at h
  | Record | Done result => cases h

theorem part_of_new (hholds : stage.Holds message old slot)
    (h : stage.content message part = .New) : slot.part part = message.replacement.part part := by
  have hnone {rest : List Target} (hrest : ¬(rest.any fun t => t.part = part) = true) :
      ∀ t ∈ rest, t.part ≠ part := by simpa using hrest
  cases stage with
  | Check | Get => cases h
  | Clear cleared =>
      cases cleared with
      | Sessions =>
          simp only [content] at h
          split_ifs at h
      | Channels =>
          simp only [content] at h
          split_ifs at h with hpart
          obtain ⟨hpart, hrest⟩ := not_or.mp hpart
          cases part with
          | Sessions =>
              rw [message.replacement_eq, VoiceTarget.part_foldl_add _ (hnone hrest)]
              exact hholds
          | Channels => exact absurd rfl hpart
  | Fill rest =>
      simp only [content] at h
      split_ifs at h with hrest
      obtain ⟨done, hregisters, rfl⟩ := hholds
      rw [message.replacement_eq, hregisters, List.foldl_append,
        VoiceTarget.part_foldl_add _ (hnone hrest)]
  | Record | Done result => exact congrArg (fun slot => slot.part part) hholds

-- What is new stays, and what is torn becomes new in the end.

theorem Moves.keeps_new {slot' : VoiceTarget} (h : Moves message pick slot stage stage' slot')
    (hnew : stage.content message part = .New) : stage'.content message part = .New := by
  cases h with
  | Check | Get => cases hnew
  | Erase cleared k => exact hnew
  | Cleared cleared _ _ =>
      cases cleared with
      | Sessions =>
          simp only [content] at hnew
          split_ifs at hnew
      | Channels =>
          simp only [content] at hnew
          split_ifs at hnew with hpart
          exact if_neg (not_or.mp hpart).2
  | Add t rest =>
      refine if_neg fun hrest => ?_
      simp [content, hrest] at hnew
  | Filled | Record => rfl

theorem Moves.keeps_not_old {slot' : VoiceTarget} (h : Moves message pick slot stage stage' slot')
    (hold : stage.content message part ≠ .Old) : stage'.content message part ≠ .Old := by
  cases h with
  | Check | Get => exact absurd rfl hold
  | Erase cleared k => exact hold
  | Cleared cleared _ _ =>
      cases cleared <;> simp only [afterClear, content] <;> split_ifs <;> simp
  | Add t rest =>
      simp only [content]
      split_ifs <;> simp
  | Filled | Record => simp [content]

-- The steps with which a map begins to be cleared.
theorem Moves.leaves_old {slot' : VoiceTarget} (h : Moves message pick slot stage stage' slot')
    (hold : stage.content message part = .Old) :
    stage'.content message part = .Old ∨ stage = .Get ∧ part = .Sessions ∨
      stage = .Clear .Sessions ∧ pick = .Go ∧ part = .Channels := by
  cases h with
  | Check => exact .inl rfl
  | Get =>
      cases part with
      | Sessions => exact .inr (.inl ⟨rfl, rfl⟩)
      | Channels => exact .inl rfl
  | Erase cleared k => exact .inl hold
  | Cleared cleared hgo _ =>
      cases cleared with
      | Sessions =>
          cases part with
          | Sessions => cases hold
          | Channels => exact .inr (.inr ⟨rfl, hgo, rfl⟩)
      | Channels =>
          simp only [content] at hold
          split_ifs at hold
  | Add t rest =>
      simp only [content] at hold
      split_ifs at hold
  | Filled | Record => cases hold

-- The channels are cleared after the sessions.

theorem channels_old (h : stage.content message .Sessions = .Old) :
    stage.content message .Channels = .Old := by
  cases stage with
  | Check | Get => rfl
  | Clear cleared =>
      cases cleared with
      | Sessions => cases h
      | Channels =>
          simp only [content] at h
          split_ifs at h
  | Fill rest =>
      simp only [content] at h
      split_ifs at h
  | Record | Done result => cases h

theorem channels_not_old (h : stage.content message .Sessions = .New) :
    stage.content message .Channels ≠ .Old := by
  cases stage with
  | Check | Get => cases h
  | Clear cleared =>
      cases cleared with
      | Sessions => cases h
      | Channels => simp [content]
  | Fill rest =>
      simp only [content]
      split_ifs <;> simp
  | Record | Done result => simp [content]

end Retargeting

-- The slot that a router has to do with.
inductive Reads (message : VoiceTargetMessage) (old : VoiceTarget) : Content → VoiceTarget → Prop where
  | Old : Reads message old .Old old
  | New : Reads message old .New message.replacement

namespace Routing

-- The router has met one of the two slots only.
def Sound (s : ServerState) (message : VoiceTargetMessage) (old : VoiceTarget)
    (stage : Retargeting) : Routing → Prop
  | .Get => True
  | .Walk .Sessions walk found =>
      walk = .start ∧ found = ∅ ∨
      ∃ slot, Reads message old (stage.content message .Sessions) slot ∧
        walk.Of slot.sessions.keys ∧ found = walk.seen.foldl s.addSession ∅
  | .Walk .Channels walk found =>
      ∃ (content : Content) (slot : VoiceTarget) (sessions : List UInt32),
        Reads message old content slot ∧
        (content = .Old ↔ stage.content message .Channels = .Old) ∧
        sessions.Perm slot.sessions.keys ∧ walk.Of slot.channels.keys ∧
        found = walk.seen.foldl s.addChannelListeners (sessions.foldl s.addSession ∅)
  | .Done found => s.Finds old found ∨ s.Finds message.replacement found

variable {message : VoiceTargetMessage} {s s₁ : ServerState} {r : ClientRef} {pick : Pick}
  {stage stage' : Retargeting} {q q' : Routing} {old slot slot' : VoiceTarget}

-- A step of the handler.
theorem Sound.handled (h : q.Sound s message old stage)
    (hmoves : Retargeting.Moves message pick slot stage stage' slot')
    (hapart : SlotTask.apart message pick (.Handler stage) (.Router q) = true) :
    q.Sound s message old stage' := by
  cases q with
  | Get => trivial
  | Walk part walk found =>
      cases part with
      | Sessions =>
          rcases h with hfresh | ⟨slot, hreads, hwalk, hfound⟩
          · exact .inl hfresh
          · cases hcontent : stage.content message .Sessions with
            | Old =>
                rw [hcontent] at hreads
                rcases hmoves.leaves_old hcontent with hstill | ⟨rfl, -⟩ | ⟨-, -, hpart⟩
                · exact .inr ⟨slot, hstill ▸ hreads, hwalk, hfound⟩
                · -- the walk has not begun
                  have hfresh : walk = .start := by simpa [SlotTask.apart] using hapart
                  subst hfresh
                  exact .inl ⟨rfl, hfound⟩
                · cases hpart
            | Torn =>
                rw [hcontent] at hreads
                cases hreads
            | New =>
                rw [hcontent] at hreads
                exact .inr ⟨slot, (hmoves.keeps_new hcontent) ▸ hreads, hwalk, hfound⟩
      | Channels =>
          obtain ⟨content, slot, sessions, hreads, hside, hrest⟩ := h
          refine ⟨content, slot, sessions, hreads, hside.trans ⟨fun hold => ?_, fun hold => ?_⟩, hrest⟩
          · rcases hmoves.leaves_old hold with hstill | ⟨-, hpart⟩ | ⟨rfl, rfl, -⟩
            · exact hstill
            · cases hpart
            · cases hapart
          · by_contra hnot
            exact hmoves.keeps_not_old hnot hold
  | Done found => exact h

-- A map that is not torn is that of one of the two slots.

theorem part_of_reads {part : Part} {met : VoiceTarget} (hholds : stage.Holds message old slot)
    (h : Reads message old (stage.content message part) met) : slot.part part = met.part part := by
  cases hcontent : stage.content message part with
  | Old =>
      rw [hcontent] at h
      cases h
      exact Retargeting.part_of_old hholds hcontent
  | Torn =>
      rw [hcontent] at h
      cases h
  | New =>
      rw [hcontent] at h
      cases h
      exact Retargeting.part_of_new hholds hcontent

theorem exists_reads (message : VoiceTargetMessage) (old : VoiceTarget) {content : Content}
    (h : content ≠ .Torn) : ∃ met, Reads message old content met := by
  cases content with
  | Old => exact ⟨old, .Old⟩
  | Torn => exact absurd rfl h
  | New => exact ⟨message.replacement, .New⟩

-- A walk over a map of a slot, and whom it has found.
def Walking (s : ServerState) (met : VoiceTarget) (part : Part) (base : HashIndex UInt32 ClientRef)
    (walk : Lib.Walk UInt32) (found : HashIndex UInt32 ClientRef) : Prop :=
  walk.Of (met.part part).keys ∧ found = walk.seen.foldl (s.addEntry part) base

-- It goes on, or it has come to every entry.
theorem Walking.next {met : VoiceTarget} {part : Part} {base found : HashIndex UInt32 ClientRef}
    {walk : Lib.Walk UInt32} (h : Walking s met part base walk found)
    (hslot : (s₁.get r).getTarget message.slot = some slot) (hpart : slot.part part = met.part part)
    (hsame : s₁.addEntry part = s.addEntry part)
    (hnext : Routing.next r message.slot s₁ pick (.Walk part walk found) = some q') :
    (∃ walk' found', q' = .Walk part walk' found' ∧ Walking s met part base walk' found') ∨
    ∃ keys : List UInt32, keys.Perm (met.part part).keys ∧ found = keys.foldl (s.addEntry part) base ∧
      q' = afterWalk found part := by
  obtain ⟨hwalk, hfound⟩ := h
  have hstep := next_walk hslot hnext
  rw [hpart, hsame] at hstep
  rcases hstep with ⟨k, hreaches, rfl⟩ | ⟨k, hgap, rfl⟩ | ⟨hcomplete, rfl⟩
  · refine .inl ⟨_, _, rfl, hwalk.visit hreaches, ?_⟩
    rw [hfound, Walk.visit, List.foldl_append]
    rfl
  · exact .inl ⟨_, _, rfl, hwalk.miss hgap, hfound⟩
  · exact .inr ⟨walk.seen, hwalk.perm (met.part part).keys_nodup hcomplete, hfound, rfl⟩

-- A step of the router.

theorem Sound.routed_sessions {walk : Lib.Walk UInt32} {found : HashIndex UInt32 ClientRef}
    (h : Sound s message old stage (.Walk .Sessions walk found))
    (hholds : stage.Holds message old slot)
    (hslot : (s₁.get r).getTarget message.slot = some slot) (hclients : s₁.clients = s.clients)
    (hwhole : stage.content message .Sessions ≠ .Torn)
    (hnext : next r message.slot s₁ pick (.Walk .Sessions walk found) = some q') :
    q'.Sound s message old stage := by
  obtain ⟨met, hreads, hwalking⟩ : ∃ met,
      Reads message old (stage.content message .Sessions) met ∧
        Walking s met .Sessions ∅ walk found := by
    rcases h with ⟨rfl, rfl⟩ | ⟨met, hreads, hwalking⟩
    · obtain ⟨met, hreads⟩ := exists_reads message old hwhole
      exact ⟨met, hreads, .start _, rfl⟩
    · exact ⟨met, hreads, hwalking⟩
  rcases hwalking.next hslot (part_of_reads hholds hreads) (ServerState.addSession_congr hclients)
    hnext with ⟨walk', found', rfl, hgoes⟩ | ⟨sessions, hperm, hfound, rfl⟩
  · exact .inr ⟨met, hreads, hgoes⟩
  · refine ⟨_, met, sessions, hreads, ⟨Retargeting.channels_old, fun hold => ?_⟩, hperm, .start _,
      hfound⟩
    cases hcontent : stage.content message .Sessions with
    | Old => rfl
    | Torn => exact absurd hcontent hwhole
    | New => exact absurd hold (Retargeting.channels_not_old hcontent)

theorem Sound.routed_channels {walk : Lib.Walk UInt32} {found : HashIndex UInt32 ClientRef}
    (h : Sound s message old stage (.Walk .Channels walk found))
    (hholds : stage.Holds message old slot)
    (hslot : (s₁.get r).getTarget message.slot = some slot) (hchannels : s₁.channels = s.channels)
    (hwhole : stage.content message .Channels ≠ .Torn)
    (hnext : next r message.slot s₁ pick (.Walk .Channels walk found) = some q') :
    q'.Sound s message old stage := by
  obtain ⟨content, met, sessions, hreads, hside, hsessions, hwalking⟩ := h
  have hcontent : content = stage.content message .Channels := by
    cases hnow : stage.content message .Channels with
    | Old => exact hside.mpr hnow
    | Torn => exact absurd hnow hwhole
    | New =>
        cases hreads with
        | Old => exact absurd (hside.mp rfl) (by simp [hnow])
        | New => rfl
  have hnow : Reads message old (stage.content message .Channels) met := hcontent ▸ hreads
  have hwalking : Walking s met .Channels (sessions.foldl s.addSession ∅) walk found := hwalking
  rcases hwalking.next hslot (part_of_reads hholds hnow)
    (ServerState.addChannelListeners_congr hchannels) hnext with
    ⟨walk', found', rfl, hgoes⟩ | ⟨channels, hperm, hfound, rfl⟩
  · exact ⟨content, met, sessions, hreads, hside, hsessions, hgoes⟩
  · have hfinds : s.Finds met found := ⟨sessions, channels, hsessions, hperm, hfound⟩
    cases hreads with
    | Old => exact .inl hfinds
    | New => exact .inr hfinds

theorem Sound.routed (h : q.Sound s message old stage) (hholds : stage.Holds message old slot)
    (hslot : (s₁.get r).getTarget message.slot = some slot)
    (hclients : s₁.clients = s.clients) (hchannels : s₁.channels = s.channels)
    (hapart : SlotTask.apart message pick (.Router q) (.Handler stage) = true)
    (hnext : q.next r message.slot s₁ pick = some q') : q'.Sound s message old stage := by
  cases q with
  | Get =>
      simp only [next, hslot, Option.isSome_some, if_true] at hnext
      cases hnext
      exact .inl ⟨rfl, rfl⟩
  | Walk part walk found =>
      have hwhole : stage.content message part ≠ .Torn := by simpa [SlotTask.apart] using hapart
      cases part with
      | Sessions => exact h.routed_sessions hholds hslot hclients hwhole hnext
      | Channels => exact h.routed_channels hholds hslot hchannels hwhole hnext
  | Done found => cases hnext

end Routing

-- The slot and the two tasks along a run.
def Whole (s : ServerState) (r : ClientRef) (message : VoiceTargetMessage) (old : VoiceTarget)
    (p : Pool ServerState SlotTask) : Prop :=
  ∃ stage q slot, p.tasks = [.Handler stage, .Router q] ∧
    (p.shared.get r).getTarget message.slot = some slot ∧
    p.shared.clients = s.clients ∧ p.shared.channels = s.channels ∧
    stage.Holds message old slot ∧ q.Sound s message old stage

theorem Whole.stepped {s s₁ s₂ : ServerState} {r : ClientRef} {now : Instant}
    {message : VoiceTargetMessage} {old : VoiceTarget} {before after : List SlotTask}
    {t t' : SlotTask} {pick : Pick} (hvalid : message.Valid)
    (h : Whole s r message old ⟨s₁, before ++ t :: after⟩)
    (hnext : (slotTasks r now message).next s₁ pick t = some (s₂, t'))
    (hapart : ∀ u ∈ before ++ t :: after, t.apart message pick u = true) :
    Whole s r message old ⟨s₂, before ++ t' :: after⟩ := by
  obtain ⟨stage, q, slot, htasks, hslot, hclients, hchannels, hholds, hsound⟩ := h
  have htasks : before ++ t :: after = [.Handler stage, .Router q] := htasks
  rw [htasks] at hapart
  rcases two_places htasks with ⟨rfl, rfl, rfl⟩ | ⟨rfl, rfl, rfl⟩
  · -- the handler steps
    obtain ⟨⟨s', stage'⟩, hstep, heq⟩ := Option.map_eq_some_iff.mp hnext
    cases heq
    obtain ⟨slot', hchange, hmoves⟩ := Retargeting.next_cases hvalid hslot hstep
    obtain ⟨hslot', hclients', hchannels'⟩ := hchange.frame hslot
    exact ⟨stage', q, slot', rfl, hslot', hclients'.trans hclients, hchannels'.trans hchannels,
      hmoves.holds hholds, hsound.handled hmoves (hapart _ (by simp))⟩
  · -- the router steps
    obtain ⟨q', hstep, heq⟩ := Option.map_eq_some_iff.mp hnext
    cases heq
    exact ⟨stage, q', slot, rfl, hslot, hclients, hchannels, hholds,
      hsound.routed hholds hslot hclients hchannels (hapart _ (by simp)) hstep⟩

-- As long as the two keep apart on each map, the router finds whom the old slot is for or
-- whom the new slot is for.
theorem retarget_whole {s : ServerState} {r : ClientRef} {now : Instant}
    {message : VoiceTargetMessage} {turns : List (Turn Pick SlotTask)}
    {p : Pool ServerState SlotTask} {found : HashIndex UInt32 ClientRef} (hvalid : message.Valid)
    (hrun : Run ((slotTasks r now message).StepIf (readsApart message))
      ⟨s, [.Handler .Check, .Router .Get]⟩ turns p)
    (hdone : .Router (.Done found) ∈ p.tasks) :
    s.Resolves r message.slot found ∨
      (s.handleVoiceTarget r now message).1.Resolves r message.slot found := by
  obtain ⟨old, hold⟩ := ServerState.getTarget_of_valid hvalid (s.get r)
  have hwhole : Whole s r message old p := by
    refine Tasks.invariant (I := Whole s r message old) ?_ ?_ hrun
      ⟨.Check, .Get, old, rfl, hold, rfl, rfl, rfl, trivial⟩
    · intro s₁ tasks t _ hstarts
      cases hstarts
    · intro s₁ before t after pick s₂ t' h hnext hok
      simp only [readsApart, getElem?_place, List.all_eq_true] at hok
      exact h.stepped hvalid hnext hok
  obtain ⟨stage, q, slot, htasks, -, -, -, -, hsound⟩ := hwhole
  rw [htasks] at hdone
  have hq : q = .Done found := by simpa [eq_comm] using hdone
  subst hq
  rcases hsound with hfinds | hfinds
  · exact .inl ⟨old, hold, hfinds⟩
  · exact .inr (ServerState.resolves_handleVoiceTarget hvalid hfinds)

-- A client has a slot for the session of another one, and sets it to the same again.

def whisper : VoiceTargetMessage := ⟨some 1, [⟨[2], none⟩]⟩

def whisperer : ServerState :=
  ServerState.sampleServer.afterAll
    (ServerState.sampleClients ++ [(0, .Tcp 0 (.VoiceTarget whisper))])

def SlotTask.found : SlotTask → Option (HashIndex UInt32 ClientRef)
  | .Router (.Done found) => some found
  | _ => none

theorem exists_routed {tasks : List SlotTask} {seen : HashIndex UInt32 ClientRef → Bool}
    (h : (tasks.any fun t => t.found.any seen) = true) :
    ∃ found, .Router (.Done found) ∈ tasks ∧ seen found = true := by
  obtain ⟨t, ht, hseen⟩ := List.any_eq_true.mp h
  cases t with
  | Handler stage => cases hseen
  | Router stage =>
      cases stage with
      | Done found => exact ⟨found, ht, hseen⟩
      | _ => cases hseen

theorem not_resolves_empty {s : ServerState} {r : ClientRef} {target : UInt8} {x : UInt32}
    (hslot : ((s.get r).getTarget target).all (fun slot => x ∈ slot.sessions) = true)
    (hx : x ∈ s.clients) : ¬s.Resolves r target ∅ := by
  rintro ⟨slot, hget, hfinds⟩
  rw [hget, Option.all_some, decide_eq_true_eq] at hslot
  exact AList.notMem_empty x (hfinds.mem_iff.mpr (.inl ⟨hslot, hx⟩))

-- The sessions are cleared while the router is with the channels.
def apartTurns : List (Turn Pick SlotTask) :=
  [.Next 1 .Go, .Next 1 (.Entry 2), .Next 1 .Go, .Next 0 .Go, .Next 0 .Go, .Next 0 (.Entry 2),
    .Next 1 .Go]

theorem retarget_whole_whisper :
    ∃ p found, Run ((slotTasks 0 0 whisper).StepIf (readsApart whisper))
        ⟨whisperer, [.Handler .Check, .Router .Get]⟩ apartTurns p ∧
      .Router (.Done found) ∈ p.tasks ∧ whisper.Valid ∧
      (whisperer.Resolves 0 whisper.slot found ∨
        (whisperer.handleVoiceTarget 0 0 whisper).1.Resolves 0 whisper.slot found) := by
  have hplay : ((Pool.mk whisperer [.Handler .Check, .Router .Get]).play (slotTasks 0 0 whisper)
      (readsApart whisper) apartTurns).any
      (fun p => p.tasks.any fun t => t.found.any fun _ => true) = true := by decide +kernel
  have hvalid : whisper.Valid := by
    unfold VoiceTargetMessage.Valid
    decide
  obtain ⟨p, hrun, hseen⟩ := Pool.exists_run hplay
  obtain ⟨found, hdone, -⟩ := exists_routed hseen
  exact ⟨p, found, hrun, hdone, hvalid, retarget_whole hvalid hrun hdone⟩

-- The router comes when the slot has been cleared.
def tornTurns : List (Turn Pick SlotTask) :=
  [.Next 0 .Go, .Next 0 .Go, .Next 0 (.Entry 2), .Next 0 .Go, .Next 0 .Go, .Next 1 .Go,
    .Next 1 .Go, .Next 1 .Go, .Next 0 .Go, .Next 0 .Go, .Next 0 .Go]

theorem routed_to_nobody :
    ∃ p, Run (slotTasks 0 0 whisper).Step ⟨whisperer, [.Handler .Check, .Router .Get]⟩ tornTurns p ∧
      .Router (.Done ∅) ∈ p.tasks ∧ ¬whisperer.Resolves 0 1 ∅ ∧
      ¬(whisperer.handleVoiceTarget 0 0 whisper).1.Resolves 0 1 ∅ := by
  have hplay : ((Pool.mk whisperer [.Handler .Check, .Router .Get]).play (slotTasks 0 0 whisper)
      (fun _ _ => true) tornTurns).any
      (fun p => p.tasks.any fun t => t.found.any fun found => found.keys = []) = true := by
    decide +kernel
  have hold : ((whisperer.get 0).getTarget 1).all (fun slot => (2 : UInt32) ∈ slot.sessions) = true := by
    decide +kernel
  have hnew : (((whisperer.handleVoiceTarget 0 0 whisper).1.get 0).getTarget 1).all
      (fun slot => (2 : UInt32) ∈ slot.sessions) = true := by decide +kernel
  have hclient : (2 : UInt32) ∈ whisperer.clients := by decide +kernel
  have hclient' : (2 : UInt32) ∈ (whisperer.handleVoiceTarget 0 0 whisper).1.clients := by
    decide +kernel
  obtain ⟨p, hrun, hseen⟩ := Pool.exists_run hplay
  obtain ⟨found, hdone, hnobody⟩ := exists_routed hseen
  have hempty : found = ∅ := HashIndex.eq_empty_of_keys (of_decide_eq_true hnobody)
  rw [hempty] at hdone
  exact ⟨p, Tasks.run_step hrun, hdone, not_resolves_empty hold hclient,
    not_resolves_empty hnew hclient'⟩

end Mumble
