import Mumble.Sampler.Cycles

namespace Mumble

open Mumble.Lib

-- A connection comes in.
def Occurrence.Connects (o : Occurrence) : Prop :=
  ∃ l username peerIp key write, o = .Event l ∧ l.event = .Connect username peerIp key write

namespace ServerState

variable {s s' : ServerState} {r : ClientRef} {limits : Limits} {now : Instant}
  {o : Occurrence} {course : List Occurrence}

-- The server with its sampler: an event, or one evaluation. The calls of `flag` are part
-- of the evaluations.
def Occurs (s : ServerState) (o : Occurrence) (s' : ServerState) : Prop :=
  match o with
  | .Event l => s.Transition l s' ∧ ∀ r reason, l.event ≠ .Flag r reason
  | .Sample limits now => s' = (s.sample limits now).1

-- What an evaluation may do to a client.
def Judges (s : ServerState) (limits : Limits) (now : Instant) (q : ClientRef) (c : Client) :
    Deed → Prop
  | .Charge ac settings time active me m => ac = s.anticheat ∧ settings = limits ∧ time = now ∧
      active = Sampler.active s.snaps ∧ me = .new q (s.get q) ∧ (me, m) ∈ (s.sample limits now).2
  | .Flag time => time = now ∧ FLAG_COOLDOWN ≤ now - c.ac.lastFlag
  | .Mute _ => c.ac.exempt = false
  | _ => False

def Permits (s : ServerState) : Occurrence → ClientRef → Client → Deed → Prop
  | .Event l => s.Allows l.now l.event l.result
  | .Sample limits now => s.Judges limits now

-- What is measured is measured of a client of the state.
theorem snap_of_mem_sample {e : Snap × Measures} (h : e ∈ (s.sample limits now).2) :
    e.1 = .new e.1.ref (s.get e.1.ref) := by
  obtain ⟨-, -, hsnap, -⟩ := mem_sample.mp h
  obtain ⟨r, -, hr⟩ := List.mem_map.mp hsnap
  rw [← hr]
  rfl

theorem does_judge {t : ServerState} {e : Snap × Measures} (he : e ∈ (s.sample limits now).2)
    (hac : t.anticheat = s.anticheat) :
    t.Does (s.Judges limits now) (fun part => part = .Bans)
      (t.judge limits now (Sampler.active s.snaps) e.1 e.2) := by
  have hme := snap_of_mem_sample he
  have hcharge : t.Does (s.Judges limits now) (fun part => part = .Bans)
      (t.charge limits now (Sampler.active s.snaps) e.1 e.2) :=
    does_modify (.one (.Charge t.anticheat limits now _ e.1 e.2) ⟨hac, rfl, rfl, rfl, hme, he⟩)
  rw [judge_eq]
  split_ifs
  · refine hcharge.trans (does_flag _ _ now _ rfl (fun hcool => ⟨rfl, hcool⟩) ?_)
    exact fun _ hexempt => hexempt
  · exact hcharge

theorem does_sample (s : ServerState) (limits : Limits) (now : Instant) :
    s.Does (s.Judges limits now) (fun part => part = .Bans) (s.sample limits now).1 := by
  have hall {measured : List (Snap × Measures)} (hmem : ∀ e ∈ measured, e ∈ (s.sample limits now).2)
      {t : ServerState} (hac : t.anticheat = s.anticheat) :
      t.Does (s.Judges limits now) (fun part => part = .Bans)
        (measured.foldl (fun t e => t.judge limits now (Sampler.active s.snaps) e.1 e.2) t) := by
    induction measured generalizing t with
    | nil => exact .refl t
    | cons e measured ih =>
        obtain ⟨hfirst, hrest⟩ := List.forall_mem_cons.mp hmem
        exact (does_judge hfirst hac).trans (ih hrest (anticheat_judge.trans hac))
  rw [sample_eq]
  exact hall (fun _ he => he) rfl

theorem sound_occurs (hsound : s.registry.Sound) (h : s.Occurs o s') : s'.registry.Sound := by
  cases o with
  | Event l => exact sound_transition hsound h.1
  | Sample limits now =>
      obtain rfl : s' = (s.sample limits now).1 := h
      exact follows_sample.invariant (fun _ hg hop => hg.step hop) hsound

theorem Occurs.next_le (hsound : s.registry.Sound) (h : s.Occurs o s') : s.next ≤ s'.next := by
  cases o with
  | Event l => exact next_le_step hsound.indexed h.1.step
  | Sample limits now =>
      obtain rfl : s' = (s.sample limits now).1 := h
      exact follows_sample.next_le

theorem fresh_default : (default : Client).Fresh := ⟨"", 0, _, "", .Taken, 0, false, rfl⟩

-- What holds of every new client, is kept when a message is taken from a queue, and is
-- kept by every deed that is permitted.
theorem Occurs.keeps {I : ClientRef → Client → Prop} (hsound : s.registry.Sound)
    (h : s.Occurs o s') (hfresh : o.Connects → ∀ {c : Client}, c.Fresh → I s.next c)
    (htaken : ∀ q message rest, (s.get q).queue = message :: rest →
      I q (s.get q) → I q { s.get q with queue := rest })
    (hdeed : ∀ q {c : Client} {d : Deed}, s.Permits o q c d → I q c → I q (d.apply c))
    (hs : ∀ q, I q (s.get q)) (q : ClientRef) : I q (s'.get q) := by
  cases o with
  | Event l =>
      refine step_keeps hsound.indexed h.1.step (fun hconnects => hfresh ?_) htaken hdeed hs q
      obtain ⟨username, peerIp, key, write, hevent⟩ := hconnects
      exact ⟨l, username, peerIp, key, write, rfl, hevent⟩
  | Sample limits now =>
      obtain rfl : s' = (s.sample limits now).1 := h
      exact ((does_sample s limits now).clients q).kept (hdeed q) (hs q)

theorem Occurs.strips (hsound : s.registry.Sound) (h : s.Occurs o s') :
    s'.removePositionalData = s.removePositionalData := by
  cases o with
  | Event l =>
      obtain ⟨t, hbegins, hdoes⟩ := step_does hsound.indexed h.1.step
      exact hdoes.frame.strips.trans hbegins.same.2.2.1
  | Sample limits now =>
      obtain rfl : s' = (s.sample limits now).1 := h
      exact (does_sample s limits now).frame.strips

-- As above over a whole run, where what holds may speak of what has happened so far.
theorem run_kept {I : List Occurrence → ClientRef → Client → Prop} {removePositionalData : Bool}
    {anticheat : AnticheatConfig} {bans : BanList}
    (hfresh : ∀ {course q} {c : Client}, c.Fresh → I course q c)
    (hlater : ∀ {course q c} o, I course q c → I (course ++ [o]) q c)
    (htaken : ∀ {course q} {c : Client} rest, I course q c → I course q { c with queue := rest })
    (hdeed : ∀ {course s o q c d}, Run Occurs (.new removePositionalData anticheat bans) course s →
      (∀ q, I course q (s.get q)) → s.Permits o q c d → I (course ++ [o]) q c →
      I (course ++ [o]) q (d.apply c))
    (hrun : Run Occurs (.new removePositionalData anticheat bans) course s) (q : ClientRef) :
    I course q (s.get q) := by
  have hboth := hrun.history (I := fun course s => s.registry.Sound ∧ ∀ q, I course q (s.get q))
    ⟨sound_new _ _ _, fun q => hfresh fresh_default⟩
    (fun {course s o s'} hrun hs h => ⟨sound_occurs hs.1 h, fun q => ?_⟩)
  · exact hboth.2 q
  · exact h.keeps (I := I (course ++ [o])) hs.1 (fun _ => hfresh) (fun _ _ rest _ => htaken rest)
      (fun _ => hdeed hrun hs.2) (fun q => hlater o (hs.2 q)) q

-- A run that is computed event by event. An event that panics is left out.
def courseOf (s : ServerState) : List (Instant × Event) → List Occurrence
  | [] => []
  | e :: events =>
      match s.outcome e.1 e.2 with
      | some result => .Event ⟨e.1, e.2, result⟩ :: (s.after e.1 e.2).courseOf events
      | none => (s.after e.1 e.2).courseOf events

theorem run_courseOf {events : List (Instant × Event)}
    (hflags : ∀ e ∈ events, ∀ r reason, e.2 ≠ .Flag r reason) :
    Run Occurs s (s.courseOf events) (s.afterAll events) := by
  induction events generalizing s with
  | nil => exact .Done s
  | cons e events ih =>
      obtain ⟨hfirst, hrest⟩ := List.forall_mem_cons.mp hflags
      have hrun : Run Occurs (s.after e.1 e.2) ((s.after e.1 e.2).courseOf events)
          (s.afterAll (e :: events)) := ih hrest
      rw [courseOf]
      rcases after_cases s e.1 e.2 with ⟨hnone, hsame⟩ | ⟨result, hsome, hstep⟩
      · rw [hnone, hsame]
        rwa [hsame] at hrun
      · rw [hsome]
        exact .Step ⟨hstep, hfirst⟩ hrun

end ServerState

end Mumble
