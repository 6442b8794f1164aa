import Mumble.Lib.Tickets
import Mumble.Tasks.Counting
import Mumble.Tasks.Naming

/-!
Session ids and channel ids. The search for a free one and the insertion of its holder are
separate steps, and any number of connections and requests for channels overlap.
-/

namespace Mumble

open Mumble.Lib

-- The search for an id alone.

-- The loop goes past the ids in use and no further. Any fuel beyond that is enough.
theorem freeId_eq {used : UInt32 → Bool} {n fuel : Nat} {count : UInt32}
    (hused : ∀ i < n, used (count + UInt32.ofNat i) = true)
    (hfree : used (count + UInt32.ofNat n) = false) (hfuel : n < fuel) :
    freeId used fuel count = (count + UInt32.ofNat n, count + UInt32.ofNat n + 1) := by
  induction n generalizing count fuel with
  | zero =>
      have hzero : count + UInt32.ofNat 0 = count := UInt32.add_zero count
      rw [hzero] at hfree ⊢
      exact freeId_of_unused hfuel hfree
  | succ n ih =>
      obtain ⟨fuel, rfl⟩ := Nat.exists_eq_succ_of_ne_zero (Nat.ne_zero_of_lt hfuel)
      have hfirst : used count = true := by
        have hzero : count + UInt32.ofNat 0 = count := UInt32.add_zero count
        have hfirst := hused 0 (Nat.zero_lt_succ n)
        rwa [hzero] at hfirst
      rw [add_ofNat_succ] at hfree ⊢
      rw [freeId, if_pos hfirst]
      refine ih (fun i hi => ?_) hfree (Nat.lt_of_succ_lt_succ hfuel)
      rw [← add_ofNat_succ]
      exact hused (i + 1) (Nat.succ_lt_succ hi)

-- The loop ends at the first id that is not in use.
structure SearchEnds (used : UInt32 → Bool) (count : UInt32) (n : Nat) : Prop where
  lt : n < 2 ^ 32
  passed : ∀ i < n, used (count + UInt32.ofNat i) = true
  free : used (count + UInt32.ofNat n) = false
  ends : ∀ fuel, n < fuel →
    freeId used fuel count = (count + UInt32.ofNat n, count + UInt32.ofNat n + 1)

theorem exists_searchEnds {α : Type} (used : UInt32 → Bool) {m : HashIndex UInt32 α}
    (hm : ∀ id, used id = true ↔ id ∈ m) (hlen : m.entries.length < 2 ^ 32) (count : UInt32) :
    ∃ n, SearchEnds used count n := by
  obtain ⟨i, hi, hnot⟩ := HashIndex.exists_unused m count hlen
  have hunused : used (count + UInt32.ofNat i) = false :=
    Bool.eq_false_iff.mpr fun hused => hnot ((hm _).mp hused)
  have hsome : ∃ n, used (count + UInt32.ofNat n) = false := ⟨i, hunused⟩
  have hle : Nat.find hsome ≤ i := Nat.find_min' hsome hunused
  have hpassed : ∀ j < Nat.find hsome, used (count + UInt32.ofNat j) = true :=
    fun j hj => Bool.eq_true_of_not_eq_false (Nat.find_min hsome hj)
  exact ⟨Nat.find hsome, by omega, hpassed, Nat.find_spec hsome,
    fun fuel hfuel => freeId_eq hpassed (Nat.find_spec hsome) hfuel⟩

theorem SearchEnds.unused {used : UInt32 → Bool} {count : UInt32} {n : Nat}
    (h : SearchEnds used count n) : used (freeId used (2 ^ 32) count).1 = false := by
  rw [h.ends _ h.lt]
  exact h.free

-- The tasks of the server and the requests for channels, side by side.
inductive Worker where
  | Serve (task : Task)
  -- a request that has ended is kept with the channel it made
  | Create (request : Creation) (made : Option UInt32)

def Creating.made : Creating → Option UInt32
  | .Tell channelId _ _ => some channelId
  | .Join channelId _ => some channelId
  | _ => none

namespace Worker

def next (s : Shared) (choice : Choice) : Worker → Option (Shared × Worker)
  | .Serve task => (task.next s choice).map fun next => (next.1, .Serve next.2)
  | .Create request _ =>
      (request.next s choice).map fun next => (next.1, .Create next.2 request.stage.made)

-- Where `get_free_session_id` and the insertion into `clients` are.
def session : Worker → Ticket UInt32
  | .Serve (.Connect _ stage) =>
      match stage with
      | .Handshake => .None
      | .Refused => .None
      | .Fetch => .Waiting
      | .Check sessionId => .Taken sessionId
      | .New sessionId => .Granted sessionId
      | .Count _ sessionId => .Granted sessionId
      | .Insert _ sessionId => .Granted sessionId
      | .InsertUdp _ sessionId => .Entered sessionId
      | .Done _ sessionId => .Entered sessionId
  | _ => .None

-- Where `get_free_channel_id` and the insertion into `channels` are.
def channel : Worker → Ticket UInt32
  | .Serve _ => .None
  | .Create request made =>
      match request.stage with
      | .Check => .None
      | .Parent => .None
      | .Find => .None
      | .Fetch => .Waiting
      | .Free channelId => .Taken channelId
      | .Insert channelId => .Granted channelId
      | .Tell channelId _ _ => .Entered channelId
      | .Join channelId _ => .Entered channelId
      | .Done _ => made.elim .None .Entered

end Worker

-- Connections come in, clients are disconnected and change their channel, and requests for
-- channels are handled, in any number and at any time.
def allocating : Tasks Shared Choice Worker where
  next := Worker.next
  starts := fun _ t =>
    match t with
    | .Serve (.Client _ _ .Load) => true
    | .Serve (.Disconnect _ .Lookup) => true
    | .Serve (.Connect _ .Handshake) => true
    | .Create request _ =>
        match request.stage with
        | .Check => true
        | _ => false
    | _ => false

namespace Shared

def sessionIds (s : Shared) : Set UInt32 := {id | id ∈ s.state.clients}

def channelIds (s : Shared) : Set UInt32 := {id | s.state.channels.contains id = true}

end Shared

variable {s s' : Shared} {choice : Choice}

theorem ChannelMap.Within.subset {s s' : Shared} (h : s.state.channels.Within s'.state.channels) :
    s'.channelIds ⊆ s.channelIds := by
  intro id hid
  obtain ⟨c', hc'⟩ := Option.isSome_iff_exists.mp hid
  obtain ⟨c, hc, -⟩ := h hc'
  exact Option.isSome_iff_exists.mpr ⟨c, hc⟩

-- The tasks of the server make no channels.
theorem Task.next_channels {t t' : Task} (h : t.next s choice = some (s', t')) :
    s'.state.channelCount = s.state.channelCount ∧ s'.channelIds ⊆ s.channelIds := by
  cases t with
  | Client r k stage =>
      rcases Task.next_client h with ⟨result, k', rfl, rfl, rfl⟩ | ⟨stage', hstage, rfl⟩
      · exact ⟨rfl, subset_rfl⟩
      · obtain ⟨-, hchannels, -, hcount⟩ := Joining.next_spec hstage
        exact ⟨hcount, hchannels.within.subset⟩
  | Disconnect x stage =>
      obtain ⟨stage', hstage, rfl⟩ := Task.next_disconnect h
      obtain ⟨-, hchannels, -, hcount⟩ := Disconnecting.next_spec hstage
      exact ⟨hcount, hchannels.within.subset⟩
  | Connect newcomer stage =>
      obtain ⟨stage', hstage, rfl⟩ := Task.next_connect h
      cases stage with
      | Refused | Done => cases hstage
      | _ =>
          cases hstage
          exact ⟨rfl, subset_rfl⟩

theorem channelIds_insert (channel : Channel) (s : Shared) :
    (s.update { s.state with channels := s.state.channels.insert channel }).channelIds ⊆
      insert channel.id s.channelIds := by
  intro id hid
  obtain ⟨c, hc⟩ := Option.isSome_iff_exists.mp hid
  rcases ChannelMap.of_insert hc with hold | ⟨rfl, -⟩
  · exact .inr (Option.isSome_iff_exists.mpr ⟨c, hold⟩)
  · exact .inl rfl

theorem Creation.next_ticket {request request' : Creation} {made : Option UInt32}
    (h : request.next s choice = some (s', request')) :
    Ticket.Step (· + 1) s.channelIds s'.channelIds s.state.channelCount s'.state.channelCount
      (Worker.Create request made).channel
      (Worker.Create request' request.stage.made).channel := by
  obtain ⟨r, message, stage⟩ := request
  obtain ⟨⟨s', stage'⟩, hstage, heq⟩ := Option.map_eq_some_iff.mp h
  cases heq
  cases stage with
  | Check =>
      cases hstage
      cases message.isRequest <;> exact .Stay _ subset_rfl
  | Parent =>
      cases hstage
      cases s.state.channels.contains (message.parent.getD 0) <;> exact .Stay _ subset_rfl
  | Find =>
      cases hstage
      cases (s.state.getChannelByName (message.name.getD "")).isSome with
      | true => exact .Stay _ subset_rfl
      | false => exact .Begin subset_rfl
  | Fetch =>
      cases hstage
      exact .Take subset_rfl
  | Free channelId =>
      cases hstage
      cases hused : s.state.channels.contains channelId with
      | true => exact .Skip subset_rfl hused
      | false =>
          refine .Grant subset_rfl fun hin => ?_
          have hin : s.state.channels.contains channelId = true := hin
          rw [hused] at hin
          cases hin
  | Insert channelId =>
      cases hstage
      exact .Enter (channelIds_insert _ _)
  | Tell channelId channelState stage =>
      obtain ⟨⟨state, stage'⟩, htell, heq⟩ := Option.map_eq_some_iff.mp hstage
      cases heq
      have hcount : (s.update state).state.channelCount = s.state.channelCount :=
        (Telling.next_same htell).2.2
      have hused := (Telling.next_within htell).subset
      rw [hcount]
      cases stage' <;> exact .Stay _ hused
  | Join channelId stage =>
      obtain ⟨⟨state, stage'⟩, hjoin, heq⟩ := Option.map_eq_some_iff.mp hstage
      cases heq
      obtain ⟨-, hchannels, -, hcount⟩ := Joining.next_spec hjoin
      rw [hcount]
      cases stage' <;> exact .Stay _ hchannels.within.subset
  | Done result => cases hstage

-- The counter of channel ids and the map of channels are used as the rule for tickets has it.
theorem channels_draw : allocating.Draws (· + 1) (fun s => s.state.channelCount)
    Shared.channelIds Worker.channel where
  starts := by
    intro p t h
    cases t with
    | Serve task => rfl
    | Create request made =>
        obtain ⟨r, message, stage⟩ := request
        cases stage with
        | Check => rfl
        | _ => cases h
  step := by
    intro s choice t s' t' h
    cases t with
    | Serve task =>
        obtain ⟨⟨s', task'⟩, hnext, heq⟩ := Option.map_eq_some_iff.mp h
        cases heq
        obtain ⟨hcount, hused⟩ := Task.next_channels hnext
        rw [hcount]
        exact .Stay _ hused
    | Create request made =>
        obtain ⟨⟨s', request'⟩, hnext, heq⟩ := Option.map_eq_some_iff.mp h
        cases heq
        exact Creation.next_ticket hnext

-- The same for the session ids.

theorem ServerState.SameClients.subset {s s' : Shared} (h : s.state.SameClients s'.state) :
    s'.sessionIds ⊆ s.sessionIds := by
  intro id hid
  rw [Shared.sessionIds, h.clients] at hid
  exact hid

theorem sessionIds_erase {s s' : Shared} {x : UInt32}
    (h : s'.state = { s.state with clients := s.state.clients.erase x }) :
    s'.sessionIds ⊆ s.sessionIds := by
  intro id hid
  rw [Shared.sessionIds, h] at hid
  exact (AList.mem_erase.mp hid).2

theorem DisconnectStep.sessions {x : UInt32} {stage stage' : Disconnecting}
    (h : DisconnectStep x s.state s'.state stage stage') :
    s'.state.sessionCount = s.state.sessionCount ∧ s'.sessionIds ⊆ s.sessionIds := by
  cases h with
  | Found _ hsame | Absent _ hsame | Alive hsame | Dead _ hsame | Gone _ hsame | On _ _ _ hsame =>
      exact ⟨hsame.sessionCount, hsame.subset⟩
  | Removed _ heq | Unclaimed _ heq =>
      exact ⟨by rw [heq], sessionIds_erase heq⟩
  | Counted heq =>
      refine ⟨by rw [heq], fun id hid => ?_⟩
      rw [Shared.sessionIds, heq] at hid
      exact hid

-- A request for a channel connects nobody.
theorem Creation.next_sessions {request request' : Creation}
    (h : request.next s choice = some (s', request')) :
    s'.state.sessionCount = s.state.sessionCount ∧ s'.sessionIds ⊆ s.sessionIds := by
  obtain ⟨r, message, stage⟩ := request
  obtain ⟨⟨s', stage'⟩, hstage, heq⟩ := Option.map_eq_some_iff.mp h
  cases heq
  cases stage with
  | Check | Parent | Find | Fetch | Free channelId | Insert channelId =>
      cases hstage
      exact ⟨rfl, subset_rfl⟩
  | Tell channelId channelState stage =>
      obtain ⟨⟨state, stage'⟩, htell, heq⟩ := Option.map_eq_some_iff.mp hstage
      cases heq
      have hsame : s.state.SameClients (s.update state).state := (Telling.next_same htell).1
      exact ⟨hsame.sessionCount, hsame.subset⟩
  | Join channelId stage =>
      obtain ⟨⟨state, stage'⟩, hjoin, heq⟩ := Option.map_eq_some_iff.mp hstage
      cases heq
      have hsame := (Joining.next_spec hjoin).1
      exact ⟨hsame.sessionCount, hsame.subset⟩
  | Done result => cases hstage

theorem sessionIds_insertNew (x : UInt32) (r : ClientRef) (s : Shared) :
    (s.update { s.state with clients := HashIndex.insertNew x r s.state.clients }).sessionIds ⊆
      insert x s.sessionIds := by
  intro id hid
  by_cases hx : id = x
  · exact .inl hx
  · refine .inr ?_
    obtain ⟨r', hr'⟩ := HashIndex.mem_iff_lookup.mp hid
    have hold := HashIndex.lookup_insertNew_ne (m := s.state.clients) (v := r) hx
    exact HashIndex.mem_iff_lookup.mpr ⟨r', hold ▸ hr'⟩

theorem Connecting.next_ticket {newcomer : Newcomer} {stage stage' : Connecting}
    (h : stage.next newcomer s choice = some (s', stage')) :
    Ticket.Step (· + 1) s.sessionIds s'.sessionIds s.state.sessionCount s'.state.sessionCount
      (Worker.Serve (.Connect newcomer stage)).session
      (Worker.Serve (.Connect newcomer stage')).session := by
  cases stage with
  | Handshake =>
      cases h
      by_cases hstop : choice = .Stop
      · rw [if_pos hstop]
        exact .Stay _ subset_rfl
      · rw [if_neg hstop]
        exact .Begin subset_rfl
  | Fetch =>
      cases h
      exact .Take subset_rfl
  | Check sessionId =>
      cases h
      by_cases hused : sessionId ∈ s.state.clients
      · rw [if_pos hused]
        exact .Skip subset_rfl hused
      · rw [if_neg hused]
        exact .Grant subset_rfl hused
  | New sessionId | Count r sessionId | InsertUdp r sessionId =>
      cases h
      exact .Stay _ subset_rfl
  | Insert r sessionId =>
      cases h
      exact .Enter (sessionIds_insertNew _ _ _)
  | Refused | Done r sessionId => cases h

theorem sessions_draw : allocating.Draws (· + 1) (fun s => s.state.sessionCount)
    Shared.sessionIds Worker.session where
  starts := by
    intro p t h
    cases t with
    | Create request made => rfl
    | Serve task =>
        cases task with
        | Client r k stage | Disconnect x stage => rfl
        | Connect newcomer stage =>
            cases stage with
            | Handshake => rfl
            | _ => cases h
  step := by
    intro s choice t s' t' h
    cases t with
    | Create request made =>
        obtain ⟨⟨s', request'⟩, hnext, heq⟩ := Option.map_eq_some_iff.mp h
        cases heq
        obtain ⟨hcount, hused⟩ := Creation.next_sessions hnext
        rw [hcount]
        exact .Stay _ hused
    | Serve task =>
        obtain ⟨⟨s', task'⟩, hnext, heq⟩ := Option.map_eq_some_iff.mp h
        cases heq
        cases task with
        | Client r k stage =>
            rcases Task.next_client hnext with ⟨result, k', rfl, rfl, rfl⟩ | ⟨stage', hstage, rfl⟩
            · exact .Stay _ subset_rfl
            · have hsame := (Joining.next_spec hstage).1
              rw [hsame.sessionCount]
              exact .Stay _ hsame.subset
        | Disconnect x stage =>
            obtain ⟨stage', hstage, rfl⟩ := Task.next_disconnect hnext
            obtain ⟨hcount, hused⟩ := (Disconnecting.next_spec hstage).1.sessions
            rw [hcount]
            exact .Stay _ hused
        | Connect newcomer stage =>
            obtain ⟨stage', hstage, rfl⟩ := Task.next_connect hnext
            exact Connecting.next_ticket hstage

theorem iterate_eq (count : UInt32) (n : Nat) : (· + 1)^[n] count = count + UInt32.ofNat n := by
  induction n generalizing count with
  | zero => exact (UInt32.add_zero count).symm
  | succ n ih => rw [Function.iterate_succ_apply, ih, add_ofNat_succ]

theorem nodup_ids (count : UInt32) : (drawn (· + 1) count (2 ^ 32)).Nodup := by
  have hdrawn : drawn (· + 1) count (2 ^ 32) =
      (List.range (2 ^ 32)).map fun i => count + UInt32.ofNat i :=
    List.map_congr_left fun i _ => iterate_eq count i
  rw [hdrawn]
  exact nodup_counter count (Nat.le_refl _)

theorem card_keys {α : Type} (m : HashIndex UInt32 α) :
    m.keys.toFinset.card = m.entries.length := by
  rw [List.toFinset_card_of_nodup (AList.keys_nodup m)]
  exact List.length_map _

-- The search for an id ends, wherever the counter is, and finds one that is not in use. With
-- those that are registered at the start counted among them, up to 2^32 allocations get
-- ids of their own, however they overlap: no two are handed the same one, and nobody else
-- comes to be registered under an id between the search that found it and the insertion.
-- A new server has no client and one channel.
theorem ids_fresh :
    (∀ s : ServerState, s.clients.entries.length < 2 ^ 32 →
      (∃ n, SearchEnds (fun id => id ∈ s.clients) s.sessionCount n) ∧
        s.getFreeSessionId.2 ∉ s.clients) ∧
    (∀ s : ServerState, s.channels.index.entries.length < 2 ^ 32 →
      (∃ n, SearchEnds s.channels.contains s.channelCount n) ∧
        s.channels.contains s.getFreeChannelId.2 = false) ∧
    ∀ (s : Shared) (turns : List (Turn Choice Worker)) (p : Pool Shared Worker),
      Run allocating.Step ⟨s, []⟩ turns p →
      (s.state.clients.entries.length + p.tasks.countP (fun t => t.session.wants) ≤ 2 ^ 32 →
        Exclusive (fun t => t.session.handed) p.tasks ∧
        ∀ t ∈ p.tasks, ∀ id, t.session = .Granted id → id ∉ p.shared.state.clients) ∧
      (s.state.channels.index.entries.length + p.tasks.countP (fun t => t.channel.wants) ≤ 2 ^ 32 →
        Exclusive (fun t => t.channel.handed) p.tasks ∧
        ∀ t ∈ p.tasks, ∀ id, t.channel = .Granted id →
          p.shared.state.channels.contains id = false) := by
  refine ⟨fun s hroom => ?_, fun s hroom => ?_, fun s turns p hrun => ⟨fun hfew => ?_, fun hfew => ?_⟩⟩
  · obtain ⟨n, hn⟩ := exists_searchEnds (fun id => decide (id ∈ s.clients))
      (fun id => decide_eq_true_iff) hroom s.sessionCount
    exact ⟨⟨n, hn⟩, of_decide_eq_false hn.unused⟩
  · have hkeys (id : UInt32) : s.channels.contains id = true ↔ id ∈ s.channels.index :=
      AList.lookup_isSome
    obtain ⟨n, hn⟩ := exists_searchEnds _ hkeys hroom s.channelCount
    exact ⟨⟨n, hn⟩, hn.unused⟩
  · have hused : ∀ id ∈ s.sessionIds, id ∈ s.state.clients.keys.toFinset :=
      fun id hid => List.mem_toFinset.mpr hid
    refine sessions_draw.fresh hrun (nodup_ids _) hused ?_
    rw [card_keys]
    exact hfew
  · have hused : ∀ id ∈ s.channelIds, id ∈ s.state.channels.index.keys.toFinset :=
      fun id hid => List.mem_toFinset.mpr (AList.lookup_isSome.mp hid)
    have hfew' : s.state.channels.index.keys.toFinset.card +
        p.tasks.countP (fun t => t.channel.wants) ≤ 2 ^ 32 := by
      rw [card_keys]
      exact hfew
    obtain ⟨hexclusive, hgranted⟩ := channels_draw.fresh hrun (nodup_ids _) hused hfew'
    exact ⟨hexclusive, fun t ht id hid => Bool.eq_false_iff.mpr (hgranted t ht id hid)⟩

-- Two clients are there and both counters have come round. Two connections and two requests
-- for a channel overlap.
def comeRound : Shared :=
  twoClients.update { twoClients.state with sessionCount := 0, channelCount := 0xFFFFFFFF }

def overlappingTurns : List (Turn Choice Worker) :=
  [.Start (.Serve (.Connect sampleNewcomer .Handshake)),
    .Start (.Serve (.Connect sampleNewcomer .Handshake)),
    .Start (.Create (denCreation 0) none), .Start (.Create (denCreation 1) none)] ++
    turnsOf 0 (List.replicate 3 .Go) ++ turnsOf 1 (List.replicate 7 .Go) ++
    turnsOf 2 (List.replicate 5 .Go) ++ turnsOf 3 (List.replicate 7 .Go)

-- The second connection goes past the ids of the clients, and the second request past the
-- one of the root channel.
theorem ids_fresh_overlapping :
    ∃ p, Run allocating.Step ⟨comeRound, []⟩ overlappingTurns p ∧
      p.tasks.map (fun t => t.session.handed) = [some 0, some 3, none, none] ∧
      p.tasks.map (fun t => t.channel.handed) = [none, none, some 0xFFFFFFFF, some 1] ∧
      Exclusive (fun t => t.session.handed) p.tasks ∧
      Exclusive (fun t => t.channel.handed) p.tasks ∧
      comeRound.state.getFreeSessionId.2 ∉ comeRound.state.clients := by
  have hplay : ((Pool.mk comeRound []).play allocating (fun _ _ => true) overlappingTurns).any
      (fun p => p.tasks.map (fun t => t.session.handed) == [some 0, some 3, none, none] &&
        p.tasks.map (fun t => t.channel.handed) == [none, none, some 0xFFFFFFFF, some 1] &&
        p.tasks.countP (fun t => t.session.wants) == 2 &&
        p.tasks.countP (fun t => t.channel.wants) == 2) = true := by decide +kernel
  have hclients : comeRound.state.clients.entries.length = 2 := by decide +kernel
  have hchannels : comeRound.state.channels.index.entries.length = 1 := by decide +kernel
  obtain ⟨p, hrun, hseen⟩ := Pool.exists_run hplay
  simp only [Bool.and_eq_true, beq_iff_eq] at hseen
  obtain ⟨⟨⟨hsessions, hids⟩, hconnects⟩, hrequests⟩ := hseen
  have hrun := Tasks.run_step hrun
  obtain ⟨hsearch, -, hinterleaved⟩ := ids_fresh
  obtain ⟨hsession, hchannel⟩ := hinterleaved _ _ _ hrun
  exact ⟨p, hrun, hsessions, hids, (hsession (by omega)).1, (hchannel (by omega)).1,
    (hsearch _ (by omega)).2⟩

end Mumble
