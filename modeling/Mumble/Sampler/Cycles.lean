import Mumble.Deeds.Steps
import Mumble.Sampler.Reciprocity

/-!
What the sampler keeps of a client from one evaluation to the next, and what can become
of it in between.
-/

namespace Mumble

open Mumble.Lib

structure Notes where
  strikes : UInt32
  window : HashIndex UInt64 Instant

def Notes.empty : Notes := ⟨0, ∅⟩

def Client.notes (c : Client) : Notes := ⟨c.ac.strikes, c.ac.window⟩

namespace VoiceTargetMessage

def slot (message : VoiceTargetMessage) : UInt8 := (message.id.getD 0).toUInt8

theorem slot_range {message : VoiceTargetMessage} (h : message.Valid) :
    1 ≤ message.slot ∧ message.slot ≤ 30 := by
  obtain ⟨hpos, hmax⟩ := not_or.mp h
  rw [UInt32.lt_iff_toNat_lt, Nat.not_lt] at hpos
  rw [ge_iff_le, UInt32.le_iff_toNat_le, Nat.not_le] at hmax
  have hpos : 1 ≤ (message.id.getD 0).toNat := hpos
  have hmax : (message.id.getD 0).toNat < 31 := hmax
  have hbyte : message.slot.toNat = (message.id.getD 0).toNat := by
    rw [slot, UInt32.toNat_toUInt8]
    omega
  rw [UInt8.le_iff_toNat_le, UInt8.le_iff_toNat_le, hbyte]
  exact ⟨hpos, Nat.le_of_lt_succ hmax⟩

end VoiceTargetMessage

-- It is no call of `flag` and no request.
def Event.isPlain : Event → Bool
  | .Flag _ _ | .Admin _ => false
  | _ => true

namespace Client

theorem notes_notePosition (c : Client) (ac : AnticheatConfig) (now : Instant) (x y z : Float32) :
    notes { c with ac := ac.notePosition now x y z c.ac } = c.notes := by
  have hplace (a : AcStats) : (ac.notePlace now x y z a).strikes = a.strikes ∧
      (ac.notePlace now x y z a).window = a.window := by
    unfold AnticheatConfig.notePlace
    dsimp only
    split_ifs <;> exact ⟨rfl, rfl⟩
  have hposition : (ac.notePosition now x y z c.ac).strikes = c.ac.strikes ∧
      (ac.notePosition now x y z c.ac).window = c.ac.window := by
    unfold AnticheatConfig.notePosition
    split_ifs
    · exact ⟨rfl, rfl⟩
    · exact hplace _
  exact congrArg₂ Notes.mk hposition.1 hposition.2

theorem notes_noteEmission (c : Client) (ac : AnticheatConfig) (recipients : UInt32) :
    notes { c with ac := ac.noteEmission recipients c.ac } = c.notes := by
  unfold AnticheatConfig.noteEmission
  split_ifs <;> rfl

end Client

namespace Deed

-- Neither the strikes of the client nor its window are written.
def calm : Deed → Bool
  | .Record .. | .Reset | .Charge .. => false
  | _ => true

theorem notes_apply (c : Client) {d : Deed} (h : d.calm = true) : (d.apply c).notes = c.notes := by
  cases d with
  | Record | Reset | Charge => cases h
  | Position ac now x y z => exact Client.notes_notePosition c ac now x y z
  | Emission ac recipients => exact Client.notes_noteEmission c ac recipients
  | _ => rfl

end Deed

namespace ServerState

variable {s s' : ServerState} {r q : ClientRef} {now : Instant} {l : Label}

def Calm (_ : ClientRef) (_ : Client) (d : Deed) : Prop := d.calm = true

theorem Does.notes {K : Area → Prop} (h : s.Does Calm K s') (q : ClientRef) :
    (s'.get q).notes = (s.get q).notes :=
  (h.clients q).field Client.notes fun hd => Deed.notes_apply _ hd

theorem not_resets_of_plain {e : Event} (h : e.isPlain = true) : ¬s.Resets q e := by
  cases e with
  | Admin request => cases h
  | _ => exact id

theorem getTarget_of_valid {message : VoiceTargetMessage} (h : message.Valid) (c : Client) :
    ∃ slot, c.getTarget message.slot = some slot := by
  obtain ⟨hone, hmax⟩ := VoiceTargetMessage.slot_range h
  have hindex : (message.slot - 1).toNat < 30 := by
    rw [UInt8.le_iff_toNat_le] at hmax
    rw [UInt8.toNat_sub_of_le _ _ hone]
    change message.slot.toNat - 1 < 30
    change message.slot.toNat ≤ 30 at hmax
    omega
  exact ⟨_, Vector.getElem?_eq_getElem hindex⟩

-- The targets are put into the window, and what is too old goes.
theorem notes_handleVoiceTarget (s : ServerState) (r : ClientRef) (now : Instant)
    {message : VoiceTargetMessage} (h : message.Valid) :
    ((s.handleVoiceTarget r now message).1.get r).notes =
      ⟨(s.get r).ac.strikes, (s.anticheat.recordTargets now message.keys (s.get r).ac).window⟩ := by
  obtain ⟨slot, hslot⟩ := getTarget_of_valid h (s.get r)
  rw [VoiceTargetMessage.slot] at hslot
  unfold handleVoiceTarget
  dsimp only
  rw [if_neg h, hslot]
  dsimp only
  rw [get_modify_self, get_modify_self]
  have hstrikes (ac : AnticheatConfig) (a : AcStats) :
      (ac.recordTargets now message.keys a).strikes = a.strikes := by
    unfold AnticheatConfig.recordTargets
    split_ifs <;> rfl
  exact congrArg (fun strikes => Notes.mk strikes _) (hstrikes s.anticheat (s.get r).ac)

theorem handleVoiceTarget_of_not_valid {message : VoiceTargetMessage} (h : ¬message.Valid) :
    s.handleVoiceTarget r now message = (s, .error .InvalidVoiceTarget) := by
  unfold handleVoiceTarget
  dsimp only
  rw [if_pos (not_not.mp h)]

-- The event that sets a slot.
theorem notes_registered {message : VoiceTargetMessage} (h : s.Transition l s')
    (hevent : l.event = .Tcp r (.VoiceTarget message)) (hloops : s.loops r .Tcp = true)
    (hvalid : message.Valid) :
    (s'.get r).notes = ⟨(s.get r).ac.strikes,
      (s.anticheat.recordTargets l.now message.keys (s.get r).ac).window⟩ := by
  have hstep := h.step
  rw [hevent] at hstep
  have hframe : s.readFrame r l.now (.VoiceTarget message) = .ok (s', l.result) := hstep
  rw [readFrame, if_pos hloops] at hframe
  obtain ⟨⟨s₁, result⟩, hhandled, hend⟩ := Exec.bind_eq_ok.mp hframe
  cases hend
  have hs₁ : s₁ = (s.handleVoiceTarget r l.now message).1 :=
    (congrArg Prod.fst (Except.ok.inj hhandled)).symm
  have hcounted := does_countFailure (A := Calm) (K := fun _ => False) s₁ r .Tcp l.result
    (fun _ _ _ => rfl) fun _ => rfl
  rw [hcounted.notes r, hs₁]
  exact notes_handleVoiceTarget s r l.now hvalid

-- The other events leave the notes alone, or the client is new.
theorem notes_transition (hindexed : s.registry.Indexed) (h : s.Transition l s')
    (hregisters : ¬s.Registers q l.event) (hresets : ¬s.Resets q l.event) :
    (s'.get q).notes = (s.get q).notes ∨ s.next ≤ q ∧ (s'.get q).notes = .empty := by
  obtain ⟨t, hbegins, hdoes⟩ := step_does hindexed h.step
  have hkept : (s'.get q).notes = (t.get q).notes :=
    (hdoes.clients q).field Client.notes fun {c d} hd => by
      refine Deed.notes_apply c ?_
      cases d with
      | Record ac time keys =>
          obtain ⟨-, -, message, hevent, hloops, hvalid, -⟩ := hd
          exact absurd ⟨message, hevent, hloops, hvalid⟩ hregisters
      | Reset => exact absurd hd hresets
      | Charge => exact absurd hd id
      | _ => rfl
  rw [hkept]
  rcases hbegins.get q with hsame | ⟨rfl, -, hfresh⟩ | ⟨message, rest, -, htaken⟩
  · rw [hsame]
    exact .inl rfl
  · obtain ⟨username, session, key, peerIp, write, now, mute, hnew⟩ := hfresh
    rw [hnew]
    exact .inr ⟨Nat.le_refl _, rfl⟩
  · rw [htaken]
    exact .inl rfl

theorem anticheat_handleVoiceTarget {message : VoiceTargetMessage} :
    (s.handleVoiceTarget r now message).1.anticheat = s.anticheat := by
  unfold handleVoiceTarget
  dsimp only
  split_ifs
  · rfl
  · split <;> rfl

end ServerState

-- What a run is made of when the sampler is part of it.
inductive Occurrence where
  | Event (l : Label)
  | Sample (limits : Limits) (now : Instant)

namespace ServerState

variable {s s' : ServerState} {r q : ClientRef} {now : Instant} {limits : Limits} {active : UInt32}
  {me : Snap} {m : Measures}

-- What is written for a client before `flag` is called.
def charge (s : ServerState) (limits : Limits) (now : Instant) (active : UInt32) (me : Snap)
    (m : Measures) : ServerState :=
  s.modify me.ref fun c =>
    { c with ac := { c.ac with
        window := me.window s.anticheat now
        farTargets := m.far
        posHist := me.posHist now
        posJumps := m.posOsc
        strikes := m.count limits active c.ac.strikes
        score :=
          if m.flags limits active c.ac.strikes then c.ac.score + m.metric.toUInt64
          else c.ac.score } }

theorem judge_eq : s.judge limits now active me m =
    if m.flags limits active (s.get me.ref).ac.strikes then
      (s.charge limits now active me m).flag me.ref now (m.reason limits active)
    else s.charge limits now active me m := by
  unfold judge charge Measures.flags Measures.count
  dsimp only
  rw [get_modify_self]
  cases hsuspicious : m.suspicious limits active with
  | false =>
      simp only [Bool.false_eq_true, if_false, Bool.false_and]
      split_ifs with hstrikes
      · rw [modify_modify]
        unfold modify
        simp only [if_pos hstrikes]
      · unfold modify
        simp only [if_neg hstrikes]
  | true =>
      simp only [if_true, Bool.true_and, decide_eq_true_eq]
      split_ifs with hrequired
      · rw [modify_modify, modify_modify]
        unfold modify
        simp only [if_pos hrequired]
      · rw [modify_modify]
        unfold modify
        simp only [if_neg hrequired]

theorem calm_judge : (s.charge limits now active me m).Does Calm (fun part => part = .Bans)
    (s.judge limits now active me m) := by
  rw [judge_eq]
  split_ifs
  · exact does_flag _ me.ref now _ rfl (fun _ => rfl) fun _ _ => rfl
  · exact .refl _

theorem notes_judge_self : ((s.judge limits now active me m).get me.ref).notes =
    ⟨m.count limits active (s.get me.ref).ac.strikes, me.window s.anticheat now⟩ := by
  rw [calm_judge.notes, charge, get_modify_self]
  rfl

theorem notes_judge_ne (h : q ≠ me.ref) :
    ((s.judge limits now active me m).get q).notes = (s.get q).notes := by
  rw [calm_judge.notes, charge, get_modify_ne _ h]

theorem anticheat_judge : (s.judge limits now active me m).anticheat = s.anticheat :=
  calm_judge.frame.settings nofun

theorem follows_judge : Follows (fun _ => True) s (s.judge limits now active me m) := by
  have hcharge : Follows (fun _ => True) s (s.charge limits now active me m) :=
    .of_eq (registry_modify_same fun _ => rfl)
  rw [judge_eq]
  split_ifs
  · exact hcharge.trans (follows_flag _ trivial)
  · exact hcharge

-- Each of the clients is judged once.
theorem notes_foldl_judge {measured : List (Snap × Measures)}
    (hnodup : (measured.map fun e => e.1.ref).Nodup) :
    (∀ e ∈ measured,
      ((measured.foldl (fun s e => s.judge limits now active e.1 e.2) s).get e.1.ref).notes =
        ⟨e.2.count limits active (s.get e.1.ref).ac.strikes, e.1.window s.anticheat now⟩) ∧
    ∀ q ∉ measured.map fun e => e.1.ref,
      ((measured.foldl (fun s e => s.judge limits now active e.1 e.2) s).get q).notes =
        (s.get q).notes := by
  induction measured generalizing s with
  | nil => exact ⟨by simp, fun _ _ => rfl⟩
  | cons first measured ih =>
      rw [List.map_cons, List.nodup_cons] at hnodup
      obtain ⟨hrest, hothers⟩ := ih (s := s.judge limits now active first.1 first.2) hnodup.2
      constructor
      · intro e he
        rw [List.foldl_cons]
        rcases List.mem_cons.mp he with rfl | he
        · rw [hothers _ hnodup.1, notes_judge_self]
        · have hne : e.1.ref ≠ first.1.ref := by
            intro hsame
            exact hnodup.1 (hsame ▸ List.mem_map_of_mem he)
          have hstrikes : ((s.judge limits now active first.1 first.2).get e.1.ref).ac.strikes =
              (s.get e.1.ref).ac.strikes := congrArg Notes.strikes (notes_judge_ne hne)
          rw [hrest e he, anticheat_judge, hstrikes]
      · intro q hq
        rw [List.map_cons, List.mem_cons, not_or] at hq
        rw [List.foldl_cons, hothers q hq.2, notes_judge_ne hq.1]

theorem sample_eq : (s.sample limits now).1 = (s.sample limits now).2.foldl
    (fun t e => t.judge limits now (Sampler.active s.snaps) e.1 e.2) s := by
  unfold sample
  split_ifs <;> rfl

theorem nodup_sample (h : s.registry.Indexed) :
    ((s.sample limits now).2.map fun e => e.1.ref).Nodup := by
  unfold sample
  split_ifs
  · exact List.nodup_nil
  · exact List.nodup_nil
  · have hrefs : s.snaps.map Snap.ref = s.clients.values := by
      rw [snaps, List.map_map]
      exact List.map_id _
    rw [List.map_map]
    change (s.snaps.map Snap.ref).Nodup
    rw [hrefs]
    exact nodup_clients h

theorem notes_sample (h : s.registry.Indexed) (hme : (me, m) ∈ (s.sample limits now).2) :
    ((s.sample limits now).1.get me.ref).notes =
      ⟨m.count limits (Sampler.active s.snaps) (s.get me.ref).ac.strikes,
        me.window s.anticheat now⟩ := by
  rw [sample_eq]
  exact (notes_foldl_judge (nodup_sample h)).1 _ hme

theorem notes_sample_ne (h : s.registry.Indexed)
    (hq : q ∉ (s.sample limits now).2.map fun e => e.1.ref) :
    ((s.sample limits now).1.get q).notes = (s.get q).notes := by
  rw [sample_eq]
  exact (notes_foldl_judge (nodup_sample h)).2 q hq

theorem anticheat_sample : (s.sample limits now).1.anticheat = s.anticheat := by
  rw [sample_eq]
  generalize (s.sample limits now).2 = measured
  generalize Sampler.active s.snaps = active
  induction measured generalizing s with
  | nil => rfl
  | cons e measured ih => exact ih.trans anticheat_judge

theorem follows_sample : Follows (fun _ => True) s (s.sample limits now).1 := by
  rw [sample_eq]
  exact (follows_foldl (I := fun _ => True) (fun _ _ _ _ => ⟨follows_judge, trivial⟩) trivial).1

end ServerState

end Mumble
