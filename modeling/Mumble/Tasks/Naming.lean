import Mumble.Reachable
import Mumble.Tasks.Alone

/-!
Requests for channels, one access to the map of channels or to the counter of ids at a
time.
-/

namespace Mumble

open Mumble.Lib

-- Where the handler of a `ChannelState` is.
inductive Creating where
  | Check
  | Parent
  | Find
  | Fetch
  | Free (channelId : UInt32)
  | Insert (channelId : UInt32)
  | Tell (channelId : UInt32) (channelState : ChannelState) (stage : Telling)
  | Join (channelId : UInt32) (stage : Joining)
  | Done (result : Except MumbleError Unit)

-- What can be said of a request without a look at the channels.
def ChannelState.isRequest (message : ChannelState) : Bool :=
  message.channelId.isNone && message.parent.isSome && message.name.isSome &&
    message.temporary.getD false && (message.name.getD "").utf8ByteSize ≤ 512

-- The channel that is made for a request.
def ChannelState.channel (message : ChannelState) (channelId : UInt32) : Channel :=
  .new channelId (some (message.parent.getD 0)) (message.name.getD "")
    (message.description.getD "") (message.temporary.getD false)

def Creating.next (r : ClientRef) (message : ChannelState) (s : Shared) (choice : Choice) :
    Creating → Option (Shared × Creating)
  | .Check => some (s, if message.isRequest then .Parent else .Done (.ok ()))
  | .Parent =>
      some (s, if s.state.channels.contains (message.parent.getD 0) then .Find else .Done (.ok ()))
  | .Find =>
      some (s, if (s.state.getChannelByName (message.name.getD "")).isSome then .Done (.ok ())
        else .Fetch)
  | .Fetch =>
      some (s.update { s.state with channelCount := s.state.channelCount + 1 },
        .Free s.state.channelCount)
  | .Free channelId =>
      some (s, if s.state.channels.contains channelId then .Fetch else .Insert channelId)
  | .Insert channelId =>
      let channel := message.channel channelId
      some (s.update { s.state with channels := s.state.channels.insert channel },
        .Tell channelId channel.getChannelState .Walk)
  | .Tell channelId channelState stage =>
      (stage.next (.ChannelState channelState) s.state choice).map fun next =>
        (s.update next.1,
          match next.2 with
          | some stage => .Tell channelId channelState stage
          | none => .Join channelId .Load)
  | .Join channelId stage =>
      (stage.next r channelId s choice).map fun next =>
        (next.1,
          match next.2 with
          | .Done result => .Done result
          | stage => .Join channelId stage)
  | .Done _ => none

-- A request of a client.
structure Creation where
  client : ClientRef
  message : ChannelState
  stage : Creating

namespace Creation

def next (s : Shared) (choice : Choice) (t : Creation) : Option (Shared × Creation) :=
  (t.stage.next t.client t.message s choice).map fun next => (next.1, { t with stage := next.2 })

def name (t : Creation) : String := t.message.name.getD ""

def finished (t : Creation) : Bool :=
  match t.stage with
  | .Done _ => true
  | _ => false

-- The name that no channel had when the request looked, until the channel is there.
def claims (t : Creation) : Option String :=
  match t.stage with
  | .Fetch | .Free _ | .Insert _ => some t.name
  | _ => none

end Creation

-- A client's requests are handled one after the other.
def creations : Tasks Shared Choice Creation where
  next := Creation.next
  starts := fun p t =>
    match t.stage with
    | .Check => p.tasks.all fun u => u.client ≠ t.client || u.finished
    | _ => false

-- No request looks for a name while another one, that did not find it, has not yet made
-- its channel.
def looksApart (p : Pool Shared Creation) : Turn Choice Creation → Bool
  | .Start _ => true
  | .Next place _ =>
      match p.tasks[place]? with
      | some t =>
          match t.stage with
          | .Find => p.tasks.all fun u => u.claims ≠ some t.name
          | _ => true
      | none => true

namespace ChannelMap

variable {m m' m'' : ChannelMap} {k : UInt32}

def Distinct (m : ChannelMap) : Prop :=
  ∀ ⦃k k' c c'⦄, m.lookup k = some c → m.lookup k' = some c' → c.name = c'.name → k = k'

-- No channel was added or given another name.
def Within (m m' : ChannelMap) : Prop :=
  ∀ ⦃k c'⦄, m'.lookup k = some c' → ∃ c, m.lookup k = some c ∧ c.name = c'.name

def Unnamed (m : ChannelMap) (name : String) : Prop := ∀ ⦃k c⦄, m.lookup k = some c → c.name ≠ name

theorem Within.refl (m : ChannelMap) : m.Within m := fun _ c hc => ⟨c, hc, rfl⟩

theorem within_erase (m : ChannelMap) (k : UInt32) : m.Within (m.erase k) := by
  intro k' c hc
  by_cases hk : k' = k
  · subst hk
    rw [lookup_erase_self] at hc
    cases hc
  · rw [lookup_erase_ne hk] at hc
    exact ⟨c, hc, rfl⟩

theorem within_alterClients (m : ChannelMap) (k : UInt32)
    (f : HashIndex UInt32 ClientRef → HashIndex UInt32 ClientRef) :
    m.Within (m.alterClients k f) := by
  intro k' c hc
  unfold alterClients at hc
  by_cases hk : k' = k
  · subst hk
    rw [lookup_alter_self] at hc
    obtain ⟨old, hold, rfl⟩ := Option.map_eq_some_iff.mp hc
    exact ⟨old, hold, rfl⟩
  · rw [lookup_alter_ne hk] at hc
    exact ⟨c, hc, rfl⟩

theorem Distinct.within (h : m.Distinct) (hwithin : m.Within m') : m'.Distinct := by
  intro k k' c c' hc hc' hname
  obtain ⟨old, hold, hsame⟩ := hwithin hc
  obtain ⟨old', hold', hsame'⟩ := hwithin hc'
  exact h hold hold' (hsame.trans (hname.trans hsame'.symm))

theorem Unnamed.within {name : String} (h : m.Unnamed name) (hwithin : m.Within m') :
    m'.Unnamed name := by
  intro k c hc
  obtain ⟨old, hold, hsame⟩ := hwithin hc
  exact hsame ▸ h hold

theorem of_insert {channel c : Channel} (h : (m.insert channel).lookup k = some c) :
    m.lookup k = some c ∨ k = channel.id ∧ c = channel := by
  by_cases hk : k = channel.id
  · subst hk
    rw [lookup_insert_self] at h
    cases hold : m.lookup channel.id with
    | none =>
        rw [hold] at h
        exact .inr ⟨rfl, (Option.some.inj h).symm⟩
    | some old =>
        rw [hold] at h
        exact .inl h
  · rw [lookup_insert_ne channel hk] at h
    exact .inl h

theorem Distinct.insert {channel : Channel} (h : m.Distinct) (hname : m.Unnamed channel.name) :
    (m.insert channel).Distinct := by
  intro k k' c c' hc hc' hsame
  rcases of_insert hc with hold | ⟨hk, rfl⟩
  · rcases of_insert hc' with hold' | ⟨hk', rfl⟩
    · exact h hold hold' hsame
    · exact absurd hsame (hname hold)
  · rcases of_insert hc' with hold' | ⟨hk', rfl⟩
    · exact absurd hsame.symm (hname hold')
    · exact hk.trans hk'.symm

theorem Unnamed.insert {channel : Channel} {name : String} (h : m.Unnamed name)
    (hne : channel.name ≠ name) : (m.insert channel).Unnamed name := by
  intro k c hc
  rcases of_insert hc with hold | ⟨-, rfl⟩
  · exact h hold
  · exact hne

theorem distinct_of_nodup (h : (m.index.values.map Channel.name).Nodup) : m.Distinct := by
  intro k k' c c' hc hc' hname
  have hmem : c ∈ m.index.values := HashIndex.mem_values.mpr ⟨k, hc⟩
  have hmem' : c' ∈ m.index.values := HashIndex.mem_values.mpr ⟨k', hc'⟩
  have hsame : c = c' := List.inj_on_of_nodup_map h hmem hmem' hname
  rw [← id_of_lookup hc, ← id_of_lookup hc', hsame]

theorem unnamed_of_find {name : String} (h : m.find (fun c => c.name = name) = none) :
    m.Unnamed name := by
  intro k c hc
  have hmem : c ∈ m.index.values := HashIndex.mem_values.mpr ⟨k, hc⟩
  simpa using List.find?_eq_none.mp h c hmem

end ChannelMap

theorem Telling.next_within {message : ServerMessage} {s : Shared} {state : ServerState}
    {choice : Choice} {stage : Telling} {stage' : Option Telling}
    (h : stage.next message s.state choice = some (state, stage')) :
    s.state.channels.Within (s.update state).state.channels := by
  have hsame : (s.update state).state.channels = s.state.channels := (next_same h).2.1
  rw [hsame]
  exact .refl _

theorem ChannelStep.within {s s' : Shared} {t : Task} (h : ChannelStep s s' t) :
    s.state.channels.Within s'.state.channels := by
  cases h with
  | Same hchannels =>
      rw [hchannels]
      exact .refl _
  | Insert hchannels | Remove _ hchannels =>
      rw [hchannels]
      exact ChannelMap.within_alterClients _ _ _
  | Delete _ _ hchannels =>
      rw [hchannels]
      exact ChannelMap.within_erase _ _

namespace Creation

variable {s s' : Shared} {choice : Choice} {t t' : Creation}

-- A name is claimed, or the channel is put into the map, or nothing of the kind.
theorem next_cases (h : t.next s choice = some (s', t')) :
    (t.stage = .Find ∧ s' = s ∧ s.state.channels.Unnamed t.name ∧ t'.claims = some t.name) ∨
    (∃ channelId, t.claims = some t.name ∧ t'.claims = none ∧
      s'.state.channels = s.state.channels.insert (t.message.channel channelId)) ∨
    s.state.channels.Within s'.state.channels ∧ (t'.claims = none ∨ t'.claims = t.claims) := by
  obtain ⟨r, message, stage⟩ := t
  obtain ⟨⟨state, stage'⟩, hnext, heq⟩ := Option.map_eq_some_iff.mp h
  cases heq
  cases stage with
  | Check =>
      cases hnext
      refine .inr (.inr ⟨.refl _, .inl ?_⟩)
      cases message.isRequest <;> rfl
  | Parent =>
      cases hnext
      refine .inr (.inr ⟨.refl _, .inl ?_⟩)
      cases hparent : s.state.channels.contains (message.parent.getD 0) <;> simp [claims]
  | Find =>
      cases hnext
      cases hfound : s.state.getChannelByName (message.name.getD "") with
      | some channel => exact .inr (.inr ⟨.refl _, .inl (by simp [claims])⟩)
      | none => exact .inl ⟨rfl, rfl, ChannelMap.unnamed_of_find hfound, rfl⟩
  | Fetch =>
      cases hnext
      exact .inr (.inr ⟨.refl _, .inr rfl⟩)
  | Free channelId =>
      cases hnext
      refine .inr (.inr ⟨.refl _, .inr ?_⟩)
      cases hthere : s.state.channels.contains channelId <;> simp [claims, name]
  | Insert channelId =>
      cases hnext
      exact .inr (.inl ⟨channelId, rfl, rfl, rfl⟩)
  | Tell channelId channelState stage =>
      obtain ⟨⟨state, stage'⟩, htell, heq⟩ := Option.map_eq_some_iff.mp hnext
      cases heq
      refine .inr (.inr ⟨Telling.next_within htell, .inl ?_⟩)
      cases stage' <;> rfl
  | Join channelId stage =>
      obtain ⟨⟨state, stage'⟩, hjoin, heq⟩ := Option.map_eq_some_iff.mp hnext
      cases heq
      refine .inr (.inr ⟨(Joining.next_spec hjoin).2.1.within, .inl ?_⟩)
      cases stage' <;> rfl
  | Done result => cases hnext

end Creation

-- Every channel has a name of its own, and so will those that are to come.
structure Named (p : Pool Shared Creation) : Prop where
  distinct : p.shared.state.channels.Distinct
  unnamed : ∀ t ∈ p.tasks, ∀ name, t.claims = some name → p.shared.state.channels.Unnamed name
  exclusive : Exclusive Creation.claims p.tasks

theorem Named.started {s : Shared} {tasks : List Creation} {t : Creation} (h : Named ⟨s, tasks⟩)
    (ht : t.claims = none) : Named ⟨s, tasks ++ [t]⟩ := by
  have hnone (name : String) : t.claims ≠ some name := by simp [ht]
  refine ⟨h.distinct, forall_mem_started h.unnamed ?_, h.exclusive.started ?_⟩
  · exact fun name hname => absurd hname (hnone name)
  · exact fun name hname => absurd hname (hnone name)

theorem Named.stepped {s s' : Shared} {before after : List Creation} {t t' : Creation}
    {choice : Choice} (h : Named ⟨s, before ++ t :: after⟩) (hnext : t.next s choice = some (s', t'))
    (hapart : t.stage = .Find → ∀ u ∈ before ++ t :: after, u.claims ≠ some t.name) :
    Named ⟨s', before ++ t' :: after⟩ := by
  rcases Creation.next_cases hnext with ⟨hfind, rfl, hunnamed, hclaims⟩ |
    ⟨channelId, hclaims, hdone, hchannels⟩ | ⟨hwithin, hclaims⟩
  · -- the name is claimed
    refine ⟨h.distinct, forall_mem_stepped h.unnamed (fun _ _ hu => hu) ?_, h.exclusive.stepped ?_⟩
    · intro name hname
      rw [hclaims] at hname
      cases hname
      exact hunnamed
    · intro name hname
      rw [hclaims] at hname
      cases hname
      exact .inr fun u hu => hapart hfind u (mem_of_mem_others hu)
  · -- the channel is made
    have hself : s.state.channels.Unnamed t.name :=
      h.unnamed t (List.mem_append_right _ List.mem_cons_self) _ hclaims
    have hothers := (exclusive_append.mp h.exclusive).1 _ hclaims
    have hnone (name : String) : t'.claims ≠ some name := by simp [hdone]
    refine ⟨?_, forall_mem_stepped h.unnamed ?_ ?_, h.exclusive.stepped ?_⟩
    · rw [hchannels]
      exact h.distinct.insert hself
    · intro u hu hold name hname
      rw [hchannels]
      refine (hold name hname).insert ?_
      rintro rfl
      exact hothers u hu hname
    · exact fun name hname => absurd hname (hnone name)
    · exact fun name hname => absurd hname (hnone name)
  · refine ⟨h.distinct.within hwithin, forall_mem_stepped h.unnamed ?_ ?_, h.exclusive.stepped ?_⟩
    · exact fun u _ hold name hname => (hold name hname).within hwithin
    · intro name hname
      rcases hclaims with hnone | hsame
      · rw [hnone] at hname
        cases hname
      · rw [hsame] at hname
        exact (h.unnamed t (List.mem_append_right _ List.mem_cons_self) name hname).within hwithin
    · intro name hname
      rcases hclaims with hnone | hsame
      · rw [hnone] at hname
        cases hname
      · exact .inl (hsame ▸ hname)

theorem claims_of_starts {p : Pool Shared Creation} {t : Creation}
    (h : creations.starts p t = true) : t.claims = none := by
  obtain ⟨r, message, stage⟩ := t
  cases stage with
  | Check => rfl
  | _ => cases h

theorem apart_of_ok {s : Shared} {before after : List Creation} {t : Creation} {choice : Choice}
    (hok : looksApart ⟨s, before ++ t :: after⟩ (.Next before.length choice) = true)
    (hfind : t.stage = .Find) : ∀ u ∈ before ++ t :: after, u.claims ≠ some t.name := by
  simp only [looksApart, getElem?_place, hfind, List.all_eq_true, decide_eq_true_eq] at hok
  exact hok

-- As long as no two requests for a name overlap between the look and the insertion, no two
-- channels have the same name.
theorem names_distinct {s : Shared} {p : Pool Shared Creation}
    {turns : List (Turn Choice Creation)} (hs : s.state.channels.Distinct)
    (hrun : Run (creations.StepIf looksApart) ⟨s, []⟩ turns p) :
    p.shared.state.channels.Distinct := by
  have hnamed : Named p := by
    refine Tasks.invariant (I := Named) ?_ ?_ hrun ⟨hs, by simp, List.nodup_nil⟩
    · exact fun h hstarts _ => h.started (claims_of_starts hstarts)
    · exact fun h hnext hok => h.stepped hnext (apart_of_ok hok)
  exact hnamed.distinct

-- Two clients ask for a channel of the same name.

def twoClients : Shared := ⟨ServerState.sampleServer.afterAll ServerState.sampleClients, fun _ => false⟩

def denCreation (r : ClientRef) : Creation :=
  ⟨r, ⟨none, some 0, some "den", none, some true, none⟩, .Check⟩

theorem names_distinct_sample :
    ∃ p, Run (creations.StepIf looksApart) ⟨twoClients, []⟩
        ([.Start (denCreation 0), .Start (denCreation 1)] ++ turnsOf 0 (List.replicate 6 .Go) ++
          turnsOf 1 (List.replicate 3 .Go)) p ∧
      p.shared.state.channels.contains 1 = true ∧ p.shared.state.channels.Distinct := by
  have hplay : ((Pool.mk twoClients []).play creations looksApart
      ([.Start (denCreation 0), .Start (denCreation 1)] ++ turnsOf 0 (List.replicate 6 .Go) ++
        turnsOf 1 (List.replicate 3 .Go))).any
      (fun p => p.shared.state.channels.contains 1) = true := by decide +kernel
  have hstart : twoClients.state.channels.Distinct :=
    ChannelMap.distinct_of_nodup (by decide +kernel)
  obtain ⟨p, hrun, hthere⟩ := Pool.exists_run hplay
  exact ⟨p, hrun, hthere, names_distinct hstart hrun⟩

-- Both look before either has made its channel.
def raceTurns : List (Turn Choice Creation) :=
  [.Start (denCreation 0), .Start (denCreation 1)] ++ turnsOf 0 (List.replicate 3 .Go) ++
    turnsOf 1 (List.replicate 3 .Go) ++ turnsOf 0 (List.replicate 3 .Go) ++
    turnsOf 1 (List.replicate 3 .Go)

theorem same_name_twice :
    ∃ p, Run creations.Step ⟨twoClients, []⟩ raceTurns p ∧ ¬p.shared.state.channels.Distinct := by
  have hplay : ((Pool.mk twoClients []).play creations (fun _ _ => true) raceTurns).any
      (fun p => (p.shared.state.channels.lookup 1).map Channel.name = some "den" &&
        (p.shared.state.channels.lookup 2).map Channel.name = some "den") = true := by
    decide +kernel
  obtain ⟨p, hrun, hseen⟩ := Pool.exists_run hplay
  simp only [Bool.and_eq_true, decide_eq_true_eq] at hseen
  obtain ⟨c, hc, hname⟩ := Option.map_eq_some_iff.mp hseen.1
  obtain ⟨c', hc', hname'⟩ := Option.map_eq_some_iff.mp hseen.2
  refine ⟨p, Tasks.run_step hrun, fun hdistinct => ?_⟩
  exact absurd (hdistinct hc hc' (hname.trans hname'.symm)) (by decide)

-- A request that is left alone does what the operation does.

section Alone

variable {s : Shared} {r : ClientRef} {message : ChannelState}

theorem alone_announce (channelId : UInt32) (channelState : ChannelState) :
    Alone Creation.next (s, ⟨r, message, .Tell channelId channelState .Walk⟩)
      (s.update (s.state.broadcastMessage (.ChannelState channelState)),
        ⟨r, message, .Join channelId .Load⟩) := by
  refine (alone_broadcastMessage (.ChannelState channelState) s.state).within (I := fun _ => True)
    (fun x => (s.update x.1, Creation.mk r message (match x.2 with
      | some stage => .Tell channelId channelState stage
      | none => .Join channelId .Load))) ?_ trivial
  rintro ⟨state, stage⟩ choice ⟨state', stage'⟩ - h
  cases stage with
  | none => cases h
  | some stage =>
      simp only [Telling.nextOf] at h
      refine ⟨trivial, ?_⟩
      cases stage' <;> simp only [Creation.next, Creating.next, Shared.update, h, Option.map_some]

theorem alone_join (channelId : UInt32) (hfree : ∀ k, s.held k = false) :
    Alone Creation.next (s, ⟨r, message, .Join channelId .Load⟩)
      (s.update (s.state.setClientChannel r channelId).1,
        ⟨r, message, .Done (s.state.setClientChannel r channelId).2⟩) := by
  refine (alone_joining r channelId hfree).within (I := fun _ => True)
    (fun x => (x.1, Creation.mk r message (match x.2 with
      | .Done result => .Done result
      | stage => .Join channelId stage))) ?_ trivial
  rintro ⟨state, stage⟩ choice ⟨state', stage'⟩ - h
  refine ⟨trivial, ?_⟩
  cases stage with
  | Done result => cases h
  | _ =>
      simp only [Creation.next, Creating.next]
      rw [h]
      rfl

theorem alone_addChannel (hroom : s.state.channels.index.entries.length < 2 ^ 32) :
    Alone Creation.next (s, ⟨r, message, .Fetch⟩)
      (s.update (s.state.addChannel message).1,
        ⟨r, message, .Tell (s.state.addChannel message).2.id
          (s.state.addChannel message).2.getChannelState .Walk⟩) := by
  obtain ⟨i, hi, hfree⟩ := HashIndex.exists_unused s.state.channels.index s.state.channelCount hroom
  have hfree : s.state.channels.contains (s.state.channelCount + UInt32.ofNat i) = false := by
    rw [ChannelMap.contains, ChannelMap.lookup, AList.lookup_eq_none.mpr hfree]
    rfl
  have hcheck (id : UInt32) :
      Creation.next (s.update { s.state with channelCount := id + 1 }) .Go ⟨r, message, .Free id⟩ =
        some (s.update { s.state with channelCount := id + 1 },
          if s.state.channels.contains id then ⟨r, message, .Fetch⟩ else ⟨r, message, .Insert id⟩) := by
    cases hused : s.state.channels.contains id <;>
      simp [Creation.next, Creating.next, Shared.update, hused]
  have hfetch := alone_freeId Creation.next s.state.channels.contains
    (fun count => s.update { s.state with channelCount := count }) ⟨r, message, .Fetch⟩
    (fun id => ⟨r, message, .Free id⟩) (fun id => ⟨r, message, .Insert id⟩)
    (fun _ => rfl) hcheck (2 ^ 32) ⟨i, by omega, hfree⟩
  exact hfetch.trans (.step .Go rfl (.refl _))

theorem handleChannelState_eq (s : ServerState) (r : ClientRef) (message : ChannelState) :
    s.handleChannelState r message =
      if message.isRequest = false then (s, .ok ())
      else if s.channels.contains (message.parent.getD 0) = false then (s, .ok ())
      else if (s.getChannelByName (message.name.getD "")).isSome then (s, .ok ())
      else ((s.addChannel message).1.broadcastMessage
        (.ChannelState (s.addChannel message).2.getChannelState)).setClientChannel r
          (s.addChannel message).2.id := by
  have hrequest : message.isRequest = false ↔ message.channelId.isSome = true ∨
      message.parent.isNone = true ∨ message.name.isNone = true ∨
      (!message.temporary.getD false) = true ∨ (message.name.getD "").utf8ByteSize > 512 := by
    simp only [ChannelState.isRequest, Bool.and_eq_false_iff, decide_eq_false_iff_not, Nat.not_le,
      Option.isNone_eq_false_iff, Option.isSome_eq_false_iff, Bool.not_eq_true', or_assoc, gt_iff_lt]
  unfold ServerState.handleChannelState
  dsimp only
  by_cases hfails : message.isRequest = false
  · rw [if_pos hfails]
    rcases hrequest.mp hfails with hfails | hfails | hfails | hfails | hfails <;>
      split_ifs <;> rfl
  · have hholds := mt hrequest.mpr hfails
    simp only [not_or] at hholds
    obtain ⟨hnumbered, hchild, hnamed, htemporary, hshort⟩ := hholds
    rw [if_neg hfails, if_neg hnumbered, if_neg hchild, if_neg hnamed, if_neg htemporary,
      if_neg hshort]
    simp only [Bool.not_eq_true']

theorem alone_handleChannelState (hfree : ∀ k, s.held k = false)
    (hroom : s.state.channels.index.entries.length < 2 ^ 32) :
    Alone Creation.next (s, ⟨r, message, .Check⟩)
      (s.update (s.state.handleChannelState r message).1,
        ⟨r, message, .Done (s.state.handleChannelState r message).2⟩) := by
  rw [handleChannelState_eq]
  have hcheck : Creation.next s .Go ⟨r, message, .Check⟩ = some (s, ⟨r, message,
      if message.isRequest then .Parent else .Done (.ok ())⟩) := rfl
  have hparent : Creation.next s .Go ⟨r, message, .Parent⟩ = some (s, ⟨r, message,
      if s.state.channels.contains (message.parent.getD 0) then .Find else .Done (.ok ())⟩) := rfl
  have hfind : Creation.next s .Go ⟨r, message, .Find⟩ = some (s, ⟨r, message,
      if (s.state.getChannelByName (message.name.getD "")).isSome then .Done (.ok ())
      else .Fetch⟩) := rfl
  cases hrequest : message.isRequest with
  | false =>
      rw [hrequest] at hcheck
      exact .step .Go hcheck (.refl _)
  | true =>
      rw [hrequest] at hcheck
      refine .step .Go hcheck ?_
      cases hthere : s.state.channels.contains (message.parent.getD 0) with
      | false =>
          rw [hthere] at hparent
          exact .step .Go hparent (.refl _)
      | true =>
          rw [hthere] at hparent
          refine .step .Go hparent ?_
          cases hfound : (s.state.getChannelByName (message.name.getD "")).isSome with
          | true =>
              rw [hfound] at hfind
              exact .step .Go hfind (.refl _)
          | false =>
              rw [hfound] at hfind
              refine .step .Go hfind ((alone_addChannel hroom).trans ?_)
              exact (alone_announce _ _).trans (alone_join _ hfree)

end Alone

end Mumble
