import Mumble.Tasks.Alone
import Mumble.Tasks.Counting

namespace Mumble

open Mumble.Lib

-- A connection that was accepted and is not in the map of clients yet.
def Task.pending : Task → Bool
  | .Connect _ .Handshake => true
  | .Connect _ .Fetch => true
  | .Connect _ (.Check _) => true
  | .Connect _ (.New _) => true
  | .Connect _ (.Count _ _) => true
  | .Connect _ (.Insert _ _) => true
  | _ => false

-- The loop that accepts connections looks at the counter of the clients, and each
-- connection goes on from there in a task of its own. Any session can be
-- disconnected.
def accepting : Tasks Shared Choice Task where
  next := Task.next
  starts p t :=
    match t with
    | .Connect _ .Handshake => p.shared.state.activeClients.toNat < MAX_CLIENTS
    | .Disconnect _ .Lookup => true
    | .Client _ _ .Load => true
    | _ => false

-- Those in the map and those that may still come into it.
def expected (p : Pool Shared Task) : Nat :=
  p.shared.state.clients.entries.length + p.tasks.countP Task.pending

-- There is room for the connection that is accepted even if all get through.
def roomForAll (p : Pool Shared Task) : Turn Choice Task → Bool
  | .Start t => !t.connects || expected p < MAX_CLIENTS
  | .Next _ _ => true

section

variable {s s' : Shared} {t t' : Task}

theorem Connecting.next_expected {newcomer : Newcomer} {stage stage' : Connecting}
    {choice : Choice} (h : stage.next newcomer s choice = some (s', stage')) :
    s'.state.clients.entries.length +
        (if (Task.Connect newcomer stage').pending then 1 else 0) ≤
      s.state.clients.entries.length +
        if (Task.Connect newcomer stage).pending then 1 else 0 := by
  cases stage with
  | Handshake =>
      cases h
      by_cases hstop : choice = .Stop <;> simp [Task.pending, hstop]
  | Check sessionId =>
      cases h
      by_cases hused : sessionId ∈ s.state.clients <;> simp [Task.pending, hused]
  | Refused => cases h
  | Done r sessionId => cases h
  | Insert r sessionId =>
      cases h
      by_cases hmem : sessionId ∈ s.state.clients
      · simp [Task.pending, Shared.update, HashIndex.insertNew, hmem]
      · simp [Task.pending, Shared.update, HashIndex.length_insertNew hmem]
  | _ =>
      cases h
      exact Nat.le_refl _

theorem DisconnectStep.length_le {x : UInt32} {s s' : ServerState}
    {stage stage' : Disconnecting} (h : DisconnectStep x s s' stage stage') :
    s'.clients.entries.length ≤ s.clients.entries.length := by
  have herase : (s.clients.erase x).entries.length ≤ s.clients.entries.length :=
    (List.kerase_sublist x s.clients.entries).length_le
  cases h with
  | Removed hmem heq | Unclaimed hmem heq =>
      rw [heq]
      exact herase
  | Counted heq => rw [heq]
  | Found _ hsame | Absent _ hsame | Alive hsame | Dead _ hsame | Gone _ hsame
  | On _ _ _ hsame => rw [hsame.clients]

-- A step takes a connection into the map or out of the server, or it changes
-- neither number.
theorem Task.next_expected {choice : Choice} (h : t.next s choice = some (s', t')) :
    s'.state.clients.entries.length + (if t'.pending then 1 else 0) ≤
      s.state.clients.entries.length + if t.pending then 1 else 0 := by
  cases t with
  | Client r k stage =>
      rcases Task.next_client h with ⟨result, k', rfl, rfl, rfl⟩ | ⟨stage', hstage, rfl⟩
      · exact Nat.le_refl _
      · rw [(Joining.next_spec hstage).1.clients]
        exact Nat.le_refl _
  | Disconnect x stage =>
      obtain ⟨stage', hstage, rfl⟩ := Task.next_disconnect h
      have hshrinks := (Disconnecting.next_spec hstage).1.length_le
      exact Nat.add_le_add_right hshrinks 0
  | Connect newcomer stage =>
      obtain ⟨stage', hstage, rfl⟩ := Task.next_connect h
      exact Connecting.next_expected hstage

end

-- As long as no connection is accepted without room for it, the map of clients
-- stays within its capacity.
theorem length_clients_le {removePositionalData : Bool} {anticheat : AnticheatConfig}
    {bans : BanList} {p : Pool Shared Task} {turns : List (Turn Choice Task)}
    (hrun : Run (accepting.StepIf roomForAll)
      (ServerState.new removePositionalData anticheat bans).idle turns p) :
    p.shared.state.clients.entries.length ≤ MAX_CLIENTS := by
  have hexpected : expected p ≤ MAX_CLIENTS := by
    refine Tasks.invariant (I := fun p => expected p ≤ MAX_CLIENTS) ?_ ?_ hrun (Nat.zero_le _)
    · intro s tasks t h hstarts hroom
      cases t with
      | Connect newcomer stage =>
          have hroom : expected ⟨s, tasks⟩ < MAX_CLIENTS := by
            simpa [roomForAll, Task.connects] using hroom
          simp only [expected, List.countP_append, List.countP_singleton] at hroom ⊢
          split_ifs <;> omega
      | _ => simpa [expected, Task.pending] using h
    · intro s before t after choice s' t' h hnext _
      have hstep := Task.next_expected hnext
      simp only [expected, countP_place] at h ⊢
      omega
  unfold expected at hexpected
  omega

-- Two connections, the second one accepted while the first one is on its way.
def roomyTurns : List (Turn Choice Task) :=
  [.Start (.Connect sampleNewcomer .Handshake), .Next 0 .Go,
    .Start (.Connect sampleNewcomer .Handshake)] ++
    turnsOf 1 (List.replicate 7 .Go) ++ turnsOf 0 (List.replicate 6 .Go)

theorem length_clients_le_roomy :
    ∃ p, Run (accepting.StepIf roomForAll) ServerState.sampleServer.idle roomyTurns p ∧
      2 = p.shared.state.clients.entries.length ∧ 2 ≤ MAX_CLIENTS := by
  have hplay : ((ServerState.sampleServer.idle.play accepting roomForAll roomyTurns).any
      fun p => 2 == p.shared.state.clients.entries.length) = true := by
    decide +kernel
  obtain ⟨p, hrun, hseen⟩ := Pool.exists_run hplay
  have hlength := beq_iff_eq.mp hseen
  exact ⟨p, hrun, hlength, hlength ▸ length_clients_le hrun⟩

-- Nobody looks at the map again once a connection is accepted. While the counter
-- is still zero any number of connections can be accepted, and all get through.

theorem run_accept {s : Shared} (hroom : s.state.activeClients.toNat < MAX_CLIENTS)
    (newcomer : Newcomer) (n : Nat) :
    ∃ turns, Run accepting.Step ⟨s, []⟩ turns
      ⟨s, List.replicate n (.Connect newcomer .Handshake)⟩ := by
  induction n with
  | zero => exact ⟨[], .Done _⟩
  | succ n ih =>
      obtain ⟨turns, hrun⟩ := ih
      refine ⟨turns ++ [.Start (.Connect newcomer .Handshake)], hrun.append (.single ?_)⟩
      simp [Tasks.Step, Pool.turn, accepting, hroom, List.replicate_succ']

theorem alone_getThrough {s : Shared} (newcomer : Newcomer)
    (hroom : s.state.clients.entries.length < 2 ^ 32) :
    ∃ s' t, Alone Task.next (s, .Connect newcomer .Handshake) (s', t) ∧
      s'.state.clients.entries.length = s.state.clients.entries.length + 1 := by
  refine ⟨_, _, .step .Go rfl (alone_addClient newcomer hroom), ?_⟩
  exact HashIndex.length_insertNew (s.state.getFreeSessionId_notMem hroom)

theorem run_getThrough (newcomer : Newcomer) (n : Nat) (s : Shared) (before : List Task)
    (hroom : s.state.clients.entries.length + n ≤ 2 ^ 32) :
    ∃ turns p, Run accepting.Step
      ⟨s, before ++ List.replicate n (.Connect newcomer .Handshake)⟩ turns p ∧
      p.shared.state.clients.entries.length = s.state.clients.entries.length + n := by
  induction n generalizing s before with
  | zero => exact ⟨[], _, .Done _, rfl⟩
  | succ n ih =>
      obtain ⟨s', t, halone, hlength⟩ := alone_getThrough (s := s) newcomer (by omega)
      obtain ⟨turns, hfirst⟩ := halone.run (T := accepting) before
        (List.replicate n (.Connect newcomer .Handshake))
      obtain ⟨turns', p, hrest, hp⟩ := ih s' (before ++ [t]) (by omega)
      rw [List.append_assoc] at hrest
      exact ⟨turns ++ turns', p, hfirst.append hrest, by omega⟩

theorem clients_over_capacity :
    ∃ turns p, Run accepting.Step ServerState.sampleServer.idle turns p ∧
      MAX_CLIENTS < p.shared.state.clients.entries.length := by
  obtain ⟨turns, haccept⟩ := run_accept (s := ⟨ServerState.sampleServer, fun _ => false⟩)
    (by decide) sampleNewcomer (MAX_CLIENTS + 1)
  obtain ⟨turns', p, hrun, hp⟩ := run_getThrough sampleNewcomer (MAX_CLIENTS + 1)
    ⟨ServerState.sampleServer, fun _ => false⟩ [] (by decide)
  refine ⟨turns ++ turns', p, haccept.append hrun, ?_⟩
  rw [hp]
  exact Nat.lt_of_lt_of_le (Nat.lt_succ_self _) (Nat.le_add_left _ _)

end Mumble
