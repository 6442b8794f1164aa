import Mumble.Deeds.Runs

/-!
Whom an evaluation flags and whom it punishes.
-/

namespace Mumble

open Mumble.Lib

section

variable (limits : Limits) (now : Instant) (active : UInt32)

-- Whether `flag` gets beyond its cooldown, as the snapshot of the client has it.
def flagged (e : Snap × Measures) : Bool :=
  e.2.flags limits active e.1.c.ac.strikes && FLAG_COOLDOWN ≤ now - e.1.c.ac.lastFlag

def punished (e : Snap × Measures) : Bool := flagged limits now active e && !e.1.c.ac.exempt

end

-- What makes the action one that disconnects.
def AnticheatAction.disconnects : AnticheatAction → Bool
  | .Kick | .Ban => true
  | .Log | .Mute => false

namespace ServerState

variable {s t : ServerState} {limits : Limits} {now : Instant} {active : UInt32}
  {e : Snap × Measures} {q : ClientRef}

-- What `flag` does, to the lists and to the client. It gets beyond its cooldown and finds
-- the client exempt or not.
theorem flag_spec (s : ServerState) (r : ClientRef) (now : Instant) (reason : String) :
    let hits := decide (FLAG_COOLDOWN ≤ now - (s.get r).ac.lastFlag) && !(s.get r).ac.exempt
    (s.flag r now reason).bans =
        (if hits && s.anticheat.action = .Ban then
          s.bans.add .Ban (some (s.get r).peerIp) (some (namePart (s.get r).name)) (s.get r).name
            ("ban auto anticheat : " ++ reason)
        else s.bans) ∧
      (s.flag r now reason).disconnectQueue =
        (if hits && s.anticheat.action.disconnects then
          HashIndex.insertNew (s.get r).sessionId .Anticheat s.disconnectQueue
        else s.disconnectQueue) ∧
      ((s.flag r now reason).get r).mute = ((s.get r).mute || hits && s.anticheat.action = .Mute) ∧
      ∀ q ≠ r, (s.flag r now reason).get q = s.get q := by
  dsimp only
  unfold flag
  dsimp only
  by_cases hcool : now - (s.get r).ac.lastFlag < FLAG_COOLDOWN
  · have hearly : ¬FLAG_COOLDOWN ≤ now - (s.get r).ac.lastFlag := Nat.not_le.mpr hcool
    simp [hcool, hearly]
  · have hlate : FLAG_COOLDOWN ≤ now - (s.get r).ac.lastFlag := Nat.le_of_not_lt hcool
    obtain ⟨noted, hnoted⟩ : ∃ noted, noted = s.modify r fun c =>
      { c with ac := { c.ac with lastFlag := now, flags := c.ac.flags + 1 } } := ⟨_, rfl⟩
    have hbans : noted.bans = s.bans := by rw [hnoted]; rfl
    have hqueue : noted.disconnectQueue = s.disconnectQueue := by rw [hnoted]; rfl
    have haction : noted.anticheat.action = s.anticheat.action := by rw [hnoted]; rfl
    have hmute : (noted.get r).mute = (s.get r).mute := by rw [hnoted, get_modify_self]
    have hothers (q : ClientRef) (hq : q ≠ r) : noted.get q = s.get q := by
      rw [hnoted, get_modify_ne _ hq]
    rw [if_neg hcool, ← hnoted, decide_eq_true hlate, Bool.true_and, haction]
    cases (s.get r).ac.exempt with
    | true => exact ⟨hbans, hqueue, by simpa using hmute, hothers⟩
    | false =>
        cases s.anticheat.action with
        | Log => exact ⟨hbans, hqueue, by simpa using hmute, hothers⟩
        | Mute =>
            refine ⟨hbans, hqueue, ?_, fun q hq => ?_⟩
            · simp [Client.setMute]
            · simpa [get_modify_ne _ hq] using hothers q hq
        | Kick =>
            refine ⟨hbans, ?_, ?_, hothers⟩
            · simp [addClientToDisconnectQueue, AnticheatAction.disconnects, hqueue]
            · exact hmute.trans (by simp)
        | Ban =>
            refine ⟨?_, ?_, ?_, hothers⟩
            · simp [addClientToDisconnectQueue, hbans]
            · simp [addClientToDisconnectQueue, AnticheatAction.disconnects, hqueue]
            · exact hmute.trans (by simp)

-- Nobody mutes the client in the course of the run: no administrator, and not it itself.
def Unmuted (start : ServerState) (course : List Occurrence) (q : ClientRef) : Prop :=
  ∀ before l after s, course = before ++ .Event l :: after → Run Occurs start before s →
    ¬s.SetsMute l.event q true

theorem Unmuted.before {start : ServerState} {course more : List Occurrence}
    (h : Unmuted start (course ++ more) q) : Unmuted start course q := by
  rintro before l after s rfl hrun
  exact h before l (after ++ more) s (by simp) hrun

theorem exempt_apply (c : Client) (d : Deed) :
    (∃ exempt, d = .Exempt exempt) ∨ (d.apply c).ac.exempt = c.ac.exempt := by
  cases d with
  | Exempt exempt => exact .inl ⟨exempt, rfl⟩
  | Position ac now x y z =>
      right
      unfold Deed.apply AnticheatConfig.notePosition AnticheatConfig.notePlace
      dsimp only
      split_ifs <;> rfl
  | Record ac now keys =>
      right
      unfold Deed.apply AnticheatConfig.recordTargets
      dsimp only
      split_ifs <;> rfl
  | Emission ac recipients =>
      right
      unfold Deed.apply AnticheatConfig.noteEmission
      dsimp only
      split_ifs <;> rfl
  | _ => exact .inr rfl

-- A deed that is neither an unmuting nor an unblocking leaves both alone.
theorem Permits.spares {c : Client} {d : Deed} {o : Occurrence} {s' : ServerState}
    (h : s.Occurs o s') (hunmuted : ∀ l, o = .Event l → ¬s.SetsMute l.event q true)
    (hd : s.Permits o q c d) (hc : c.ac.exempt = true ∧ c.mute = false) :
    (d.apply c).ac.exempt = true ∧ (d.apply c).mute = false := by
  refine ⟨?_, ?_⟩
  · rcases exempt_apply c d with ⟨exempt, rfl⟩ | hsame
    · cases o with
      | Sample limits now => exact absurd hd id
      | Event l =>
          cases exempt with
          | true => rfl
          | false => exact absurd (Or.inl hd) (hunmuted l rfl)
    · exact hsame.trans hc.1
  · cases d with
    | Mute mute =>
        cases o with
        | Sample limits now =>
            have hexempt : c.ac.exempt = false := hd
            rw [hc.1] at hexempt
            cases hexempt
        | Event l =>
            obtain hsets | ⟨⟨reason, hflag⟩, -⟩ := hd
            · cases mute with
              | true => exact absurd hsets (hunmuted l rfl)
              | false => rfl
            · exact absurd hflag (h.2 q reason)
    | _ => exact hc.2

-- A client that an administrator has unblocked is safe from the sampler, until somebody
-- mutes it.
theorem exempt_spared {course : List Occurrence} {s' : ServerState} (hsound : s.registry.Sound)
    (hq : q < s.next) (hexempt : (s.get q).ac.exempt = true) (hmute : (s.get q).mute = false)
    (hunmuted : Unmuted s course q) (hrun : Run Occurs s course s') :
    (s'.get q).ac.exempt = true ∧ (s'.get q).mute = false ∧
      ∀ limits now, ∀ e ∈ (s'.sample limits now).2.filter
        (punished limits now (Sampler.active s'.snaps)), e.1.ref ≠ q := by
  have hall := hrun.history (I := fun course s' => s'.registry.Sound ∧ q < s'.next ∧
    (Unmuted s course q → (s'.get q).ac.exempt = true ∧ (s'.get q).mute = false))
    ⟨hsound, hq, fun _ => ⟨hexempt, hmute⟩⟩ (fun {course t o t'} hrun ht h => ?_)
  · obtain ⟨-, -, hspared⟩ := hall
    obtain ⟨hstill, hspeaks⟩ := hspared hunmuted
    refine ⟨hstill, hspeaks, ?_⟩
    rintro limits now e he rfl
    obtain ⟨hmem, hpunished⟩ := List.mem_filter.mp he
    have hsnap : e.1.c = s'.get e.1.ref := congrArg Snap.c (snap_of_mem_sample hmem)
    rw [punished, hsnap, hstill, Bool.not_true, Bool.and_false] at hpunished
    cases hpunished
  · obtain ⟨hsound, hborn, hspared⟩ := ht
    refine ⟨sound_occurs hsound h, Nat.lt_of_lt_of_le hborn (h.next_le hsound), fun hunmuted => ?_⟩
    refine h.keeps (I := fun p c => p = q → c.ac.exempt = true ∧ c.mute = false) hsound ?_
      (fun _ _ _ _ hc => hc) ?_ ?_ q rfl
    · rintro - c - rfl
      exact absurd hborn (Nat.lt_irrefl _)
    · rintro p c d hd hc rfl
      refine Permits.spares h ?_ hd (hc rfl)
      rintro l rfl
      exact hunmuted course l [] t rfl hrun
    · rintro p rfl
      exact hspared hunmuted.before

-- The talker is unblocked before it is judged.
theorem exempt_spared_crowd :
    ((sampleCrowd.after 0 (.Admin (.PostAnticheatUser "eve" .Unblock))).get 0).ac.exempt = true ∧
    ((((sampleCrowd.after 0 (.Admin (.PostAnticheatUser "eve" .Unblock))).sample
      { sampleLimits with strikesRequired := 1 } FLAG_COOLDOWN).1.get 0).mute = false) := by
  have hexempt : ((sampleCrowd.after 0 (.Admin (.PostAnticheatUser "eve" .Unblock))).get 0).ac.exempt =
      true := by decide +kernel
  have hrun : Run Occurs (sampleCrowd.after 0 (.Admin (.PostAnticheatUser "eve" .Unblock)))
      [.Sample { sampleLimits with strikesRequired := 1 } FLAG_COOLDOWN]
      ((sampleCrowd.after 0 (.Admin (.PostAnticheatUser "eve" .Unblock))).sample
        { sampleLimits with strikesRequired := 1 } FLAG_COOLDOWN).1 := .single rfl
  have hsound := (reachable_sampleCrowd.after 0 (.Admin (.PostAnticheatUser "eve" .Unblock))).sound
  refine ⟨hexempt, (exempt_spared hsound (by decide +kernel) hexempt (by decide +kernel) ?_ hrun).2.1⟩
  intro before l after s hcourse
  cases before with
  | nil => cases hcourse
  | cons first before =>
      have hlength := congrArg List.length hcourse
      simp at hlength

end ServerState

end Mumble
