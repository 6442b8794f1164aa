import Mumble.Deeds.Runs

/-!
How often turns of a client's two loops may fail. The loops have one counter between
them, and each of them looks at it only when a turn of its own has failed.
-/

namespace Mumble

open Mumble.Lib

-- A turn of one of the client's loops fails.
def Occurrence.fails (q : ClientRef) : Occurrence → Bool
  | .Event ⟨_, .Tcp r _, .error _⟩ | .Event ⟨_, .Consume r, .error _⟩ => decide (r = q)
  | _ => false

-- One of the client's loops has ended.
def Client.over (c : Client) : ServerState.Loop → Bool
  | .Tcp => c.stopped
  | .Queue => c.closed

-- How many of its loops have ended.
def Client.overs (c : Client) : Nat := (c.over .Tcp).toNat + (c.over .Queue).toNat

namespace ServerState

variable {s s' : ServerState} {q : ClientRef} {o : Occurrence} {course : List Occurrence}
  {loop : Loop}

theorem loops_iff : s.loops q loop = true ↔ q < s.next ∧ (s.get q).over loop = false := by
  cases loop <;> simp [loops, Client.over]

-- A loop that has ended stays so.
theorem over_occurs (hsound : s.registry.Sound) (h : s.Occurs o s') (hq : q < s.next)
    (hover : (s.get q).over loop = true) : (s'.get q).over loop = true := by
  refine h.keeps (I := fun p c => p = q → c.over loop = true) hsound ?_ ?_ ?_ ?_ q rfl
  · exact fun _ _ _ hnew => absurd hnew (Nat.ne_of_gt hq)
  · intro p message rest _ hc hp
    have hbefore := hc hp
    cases loop <;> exact hbefore
  · intro p c d _ hc hp
    have hbefore := hc hp
    cases d <;> cases loop <;> first | exact hbefore | rfl
  · rintro p rfl
    exact hover

theorem over_mono (hsound : s.registry.Sound) (h : s.Occurs o s') (hq : q < s.next) (loop : Loop) :
    ((s.get q).over loop).toNat ≤ ((s'.get q).over loop).toNat :=
  Bool.toNat_le_toNat fun hover => over_occurs hsound h hq hover

theorem overs_mono (hsound : s.registry.Sound) (h : s.Occurs o s') (hq : q < s.next) :
    (s.get q).overs ≤ (s'.get q).overs :=
  Nat.add_le_add (over_mono hsound h hq .Tcp) (over_mono hsound h hq .Queue)

-- A loop that ends makes one more.
theorem overs_lt (hsound : s.registry.Sound) (h : s.Occurs o s') (hq : q < s.next)
    (hover : (s.get q).over loop = false) (hend : (s'.get q).over loop = true) :
    (s.get q).overs < (s'.get q).overs := by
  have hone : ((s.get q).over loop).toNat < ((s'.get q).over loop).toNat := by
    rw [hover, hend]
    exact Nat.zero_lt_one
  cases loop with
  | Tcp => exact Nat.add_lt_add_of_lt_of_le hone (over_mono hsound h hq .Queue)
  | Queue => exact Nat.add_lt_add_of_le_of_lt (over_mono hsound h hq .Tcp) hone

-- Deeds among which no failure is counted.
theorem badNetCount_does {A : ClientRef → Client → Deed → Prop} {K : Area → Prop} {t : ServerState}
    (h : s.Does A K t) (hA : ∀ c, ¬A q c .Fail) :
    (t.get q).badNetCount = (s.get q).badNetCount := by
  refine (h.clients q).field Client.badNetCount fun {c d} hd => ?_
  cases d with
  | Fail => exact absurd hd (hA c)
  | _ => rfl

-- The turn is taken by a loop that runs, and the failure is counted after it.
theorem turn_fails (h : s.Occurs o s') (hfails : o.fails q = true) :
    ∃ loop, s.loops q loop = true ∧ ∃ (t : ServerState) (error : MumbleError), error ≠ .Waiting ∧
      (t.get q).badNetCount = (s.get q).badNetCount ∧ s' = t.countFailure q loop (.error error) := by
  obtain ⟨now, event, error | _⟩ | ⟨limits, now⟩ := o
  · obtain ⟨⟨hstep, hended⟩, -⟩ := h
    have herror : error ≠ .Waiting := fun hwaiting => hended (congrArg Except.error hwaiting)
    cases event with
    | Tcp r frame =>
        obtain rfl : r = q := of_decide_eq_true hfails
        rcases readFrame_cases hstep with ⟨hloops, t, hframe, hs'⟩ | ⟨-, hok⟩
        · have hdoes : s.Does (s.Allows now (.Tcp r frame) (.ok ())) (Touches (.Tcp r frame)) t :=
            does_handleFrame hloops hframe
          exact ⟨.Tcp, hloops, t, error, herror, badNetCount_does hdoes fun c hc => (nomatch hc.1), hs'⟩
        · cases hok
    | Consume r =>
        obtain rfl : r = q := of_decide_eq_true hfails
        rcases consume_cases hstep with ⟨hloops, message, rest, t, hqueue, hqueued, hs'⟩ | ⟨-, hok⟩
        · have hdoes : (s.modify r fun c => { c with queue := rest }).Does
              (s.Allows now (.Consume r) (.ok ())) (Touches (.Consume r)) t :=
            does_handleQueued hqueue hqueued
          refine ⟨.Queue, hloops, t, error, herror, ?_, hs'⟩
          rw [badNetCount_does hdoes fun c hc => (nomatch hc.1), get_modify_self]
        · cases hok
    | _ => cases hfails
  · cases event <;> cases hfails
  · cases hfails

theorem Permits.fails {c : Client} (h : s.Permits o q c .Fail) : o.fails q = true := by
  cases o with
  | Event l =>
      obtain ⟨now, event, result⟩ := l
      obtain ⟨⟨error, hresult, -⟩, hevent | ⟨frame, hevent⟩⟩ := h
      · dsimp only at hresult hevent
        rw [hresult, hevent]
        exact decide_eq_true rfl
      · dsimp only at hresult hevent
        rw [hresult, hevent]
        exact decide_eq_true rfl
  | Sample limits now => exact absurd h id

-- How often a client has failed. The first twenty-one failures end no loop, and each
-- further one ends the loop in which it occurs.
structure Failures (q : ClientRef) (s : ServerState) (failures : Nat) : Prop where
  counted : (s.get q).badNetCount = UInt32.ofNat failures
  unborn : s.next ≤ q → failures = 0
  ended : failures ≤ 21 + (s.get q).overs

namespace Failures

variable {failures : Nat}

theorem le (h : Failures q s failures) : failures ≤ 23 := by
  have hovers : (s.get q).overs ≤ 1 + 1 := Nat.add_le_add (Bool.toNat_le _) (Bool.toNat_le _)
  have hended := h.ended
  omega

theorem toNat_counted (h : Failures q s failures) : (s.get q).badNetCount.toNat = failures := by
  have hmost := h.le
  rw [h.counted]
  exact UInt32.toNat_ofNat_of_lt' (show failures < 2 ^ 32 by omega)

theorem failed (hsound : s.registry.Sound) (hf : Failures q s failures) (h : s.Occurs o s')
    (hfails : o.fails q = true) : Failures q s' (failures + 1) := by
  have hnext := h.next_le hsound
  obtain ⟨loop, hloops, t, error, hended, hcount, hs'⟩ := turn_fails h hfails
  obtain ⟨hborn, hover⟩ := loops_iff.mp hloops
  have hbefore := hf.ended
  have hunborn : s'.next ≤ q → failures + 1 = 0 := fun hlater =>
    absurd (Nat.lt_of_lt_of_le hborn hnext) (Nat.not_lt.mpr hlater)
  have hone : (UInt32.ofNat failures + 1) = UInt32.ofNat (failures + 1) := by
    rw [UInt32.ofNat_add]
    rfl
  rcases countFailure_cases t q loop (.error error) with
    ⟨-, hok | hwaiting⟩ | ⟨-, ⟨hcounted, hfew⟩ | ⟨hstopped, hmany⟩⟩
  · cases hok
  · exact absurd (Except.error.inj hwaiting) hended
  · rw [hcount] at hfew
    have hle : failures ≤ 20 := by
      rw [← hf.toNat_counted]
      exact UInt32.not_lt.mp hfew
    refine ⟨?_, hunborn, by omega⟩
    rw [hs', hcounted, get_modify_self, hcount, hf.counted, hone]
  · -- the loop was running, and is not any more
    have hend : (s'.get q).over loop = true := by
      rw [hs', hstopped]
      cases loop <;> simp [stop, Client.over, get_modify_self]
    refine ⟨?_, hunborn, ?_⟩
    · rw [hs', hstopped]
      cases loop <;> simp only [stop, get_modify_self, hcount, hf.counted, hone]
    · have hmore := overs_lt hsound h hborn hover hend
      omega

theorem passed (hsound : s.registry.Sound) (hf : Failures q s failures) (h : s.Occurs o s')
    (hfails : o.fails q = false) : Failures q s' failures := by
  refine ⟨?_, fun hlater => hf.unborn (Nat.le_trans (h.next_le hsound) hlater), ?_⟩
  · refine h.keeps (I := fun p c => p = q → c.badNetCount = UInt32.ofNat failures) hsound ?_
      (fun _ _ _ _ hc => hc) ?_ ?_ q rfl
    · rintro - c ⟨username, session, key, peerIp, write, now, mute, rfl⟩ rfl
      rw [hf.unborn (Nat.le_refl _)]
      rfl
    · rintro p c d hd hc rfl
      have hbefore := hc rfl
      cases d with
      | Fail =>
          rw [Permits.fails hd] at hfails
          cases hfails
      | _ => exact hbefore
    · rintro p rfl
      exact hf.counted
  · by_cases hborn : q < s.next
    · have hmore := overs_mono hsound h hborn
      have hbefore := hf.ended
      omega
    · rw [hf.unborn (Nat.not_lt.mp hborn)]
      exact Nat.zero_le _

end Failures

-- A client is counted every failed turn of its loops.
theorem failures_counted {removePositionalData : Bool} {anticheat : AnticheatConfig} {bans : BanList}
    (hrun : Run Occurs (.new removePositionalData anticheat bans) course s) (q : ClientRef) :
    Failures q s (course.countP (Occurrence.fails q)) := by
  have hall := hrun.history (I := fun course s => s.registry.Sound ∧
    Failures q s (course.countP (Occurrence.fails q)))
    ⟨sound_new _ _ _, rfl, fun _ => rfl, Nat.zero_le _⟩ (fun {course s o s'} _ hs h => ?_)
  · exact hall.2
  · refine ⟨sound_occurs hs.1 h, ?_⟩
    rw [List.countP_append, List.countP_singleton]
    cases hfails : o.fails q with
    | true => exact hs.2.failed hs.1 h hfails
    | false => exact hs.2.passed hs.1 h hfails

-- A client has sent twenty-two frames that do not parse, and takes no more bytes. The loop
-- that read them has ended, but the other one can still fail once.
def sampleMalformed : List (Instant × Event) :=
  sampleClients ++ List.replicate 22 (0, .Tcp 0 .Malformed) ++
    [(0, .Network 0 .Broken .Up), (0, .Consume 0), (0, .Consume 0)]

theorem failures_counted_sample :
    (sampleServer.courseOf sampleMalformed).countP (Occurrence.fails 0) = 23 ∧
    Failures 0 (sampleServer.afterAll sampleMalformed)
      ((sampleServer.courseOf sampleMalformed).countP (Occurrence.fails 0)) := by
  have hrun : Run Occurs sampleServer (sampleServer.courseOf sampleMalformed)
      (sampleServer.afterAll sampleMalformed) := by
    refine run_courseOf ?_
    simp [sampleMalformed, sampleClients]
  exact ⟨by decide +kernel, failures_counted hrun 0⟩

end ServerState

end Mumble
