import Mumble.Lib.Pool
import Mumble.Anticheat

/-!
The list of bans and the file it is kept in. Calls from several tasks change the
list and save it, each access to the list or the file being a step of its own.
-/

namespace Mumble

open Mumble.Lib

-- An entry of the list with all that is written to the file.
structure BanRecord extends BanEntry where
  «at» : String
  deriving DecidableEq, Repr

-- `serde_json`, for the list.
structure Json (Data : Type) where
  toStringPretty : List BanRecord → Data
  fromStr : Data → Option (List BanRecord)
  round_trip : ∀ bans, fromStr (toStringPretty bans) = some bans

structure BanStore (Data : Type) where
  bans : List BanRecord
  nextId : UInt64
  file : Option Data
  -- Not in the program: how many times the list was serialised, and which of these
  -- times the file is from.
  serialised : Nat
  written : Nat

inductive BanCall where
  | Add (kind : BanKind) (ip name : Option String) (display reason : String)
  | Remove (id : UInt64)
  | RemoveMatching (ip namePart : String) (kind : BanKind)

-- Where a call is: before its change of the list, between the change and the
-- serialisation of `save`, or before the write.
inductive BanStage (Data : Type) where
  | Begin
  | Push (entry : BanEntry)
  | Save
  | Write (data : Data) (number : Nat)
  | Done

-- The call has not changed the list yet.
def BanStage.waiting {Data : Type} : BanStage Data → Bool
  | .Begin => true
  | .Push _ => true
  | _ => false

structure BanTask (Data : Type) where
  call : BanCall
  stage : BanStage Data

section

variable {Data : Type} (json : Json Data)

def BanStore.load (file : Option Data) : BanStore Data :=
  match file.bind json.fromStr with
  | some bans => ⟨bans, (bans.map fun b => b.id).max?.getD 0 + 1, file, 0, 0⟩
  | none => ⟨[], 1, file, 0, 0⟩

-- The first step of a call.
def BanStore.begin (s : BanStore Data) : BanCall → BanStore Data × BanStage Data
  | .Add kind ip name display reason =>
      ({ s with nextId := s.nextId + 1 }, .Push ⟨s.nextId, kind, ip, name, display, reason⟩)
  | .Remove id => ({ s with bans := s.bans.filter fun b => b.id ≠ id }, .Save)
  | .RemoveMatching ip namePart kind =>
      ({ s with bans := s.bans.filter fun b =>
          !(b.kind = kind && BanList.matches b.toBanEntry ip namePart) }, .Save)

-- The time of day that a new entry is given is the environment's choice. The file
-- is replaced as a whole.
def BanTask.next (s : BanStore Data) (now : String) (t : BanTask Data) :
    Option (BanStore Data × BanTask Data) :=
  match t.stage with
  | .Begin => some ((s.begin t.call).1, { t with stage := (s.begin t.call).2 })
  | .Push entry => some ({ s with bans := s.bans ++ [⟨entry, now⟩] }, { t with stage := .Save })
  | .Save =>
      some ({ s with serialised := s.serialised + 1 },
        { t with stage := .Write (json.toStringPretty s.bans) (s.serialised + 1) })
  | .Write data number =>
      some ({ s with file := some data, written := number }, { t with stage := .Done })
  | .Done => none

def saving : Tasks (BanStore Data) String (BanTask Data) where
  next := BanTask.next json
  starts _ t :=
    match t.stage with
    | .Begin => true
    | _ => false

-- The writes come in the order in which the list was serialised.
def inOrder (p : Pool (BanStore Data) (BanTask Data)) : Turn String (BanTask Data) → Bool
  | .Next place _ =>
      match p.tasks[place]? with
      | some ⟨_, .Write _ number⟩ => p.shared.written < number
      | _ => true
  | .Start _ => true

-- The file is up to date, or a call that will bring it up to date is on its way to
-- the file. `file` is what the file was at the start.
structure Current (file : Option Data) (p : Pool (BanStore Data) (BanTask Data)) : Prop where
  latest : ∀ t ∈ p.tasks, ∀ data, t.stage = .Write data p.shared.serialised →
    data = json.toStringPretty p.shared.bans
  under_way : (∃ t ∈ p.tasks, ∃ data, t.stage = .Write data p.shared.serialised) ∨
    p.shared.written = p.shared.serialised ∧
      (p.shared.file = some (json.toStringPretty p.shared.bans) ∨
        p.shared.serialised = 0 ∧ p.shared.file = file ∧
          p.shared.bans = (BanStore.load json file).bans)

structure Saved (file : Option Data) (p : Pool (BanStore Data) (BanTask Data)) : Prop where
  writes : ∀ t ∈ p.tasks, ∀ data number, t.stage = .Write data number →
    number ≤ p.shared.serialised
  written : p.shared.written ≤ p.shared.serialised
  done : ∀ t ∈ p.tasks, t.stage = .Done → 0 < p.shared.serialised
  current : (∃ t ∈ p.tasks, t.stage = .Save) ∨ Current json file p

end

section

variable {Data : Type} {json : Json Data} {file : Option Data} {s s' : BanStore Data}
  {before after : List (BanTask Data)} {t t' : BanTask Data}

theorem mem_place {u : BanTask Data} (h : u ∈ before ++ t :: after) :
    u = t ∨ u ∈ before ++ after := by
  simp only [List.mem_append, List.mem_cons] at h ⊢
  tauto

-- A call changes the list, or takes an id before it does.
theorem BanStore.begin_spec (s : BanStore Data) (call : BanCall) :
    (s.begin call).1.file = s.file ∧ (s.begin call).1.serialised = s.serialised ∧
      (s.begin call).1.written = s.written ∧
      ((s.begin call).2 = .Save ∨
        ∃ entry, (s.begin call).2 = .Push entry ∧ (s.begin call).1.bans = s.bans) := by
  cases call with
  | Add kind ip name display reason => exact ⟨rfl, rfl, rfl, .inr ⟨_, rfl, rfl⟩⟩
  | Remove id => exact ⟨rfl, rfl, rfl, .inl rfl⟩
  | RemoveMatching ip namePart kind => exact ⟨rfl, rfl, rfl, .inl rfl⟩

-- The list has changed, and the call that changed it will save it.
theorem Saved.change (h : Saved json file ⟨s, before ++ t :: after⟩)
    (hserialised : s'.serialised = s.serialised) (hwritten : s'.written = s.written)
    (ht : t'.stage = .Save) : Saved json file ⟨s', before ++ t' :: after⟩ where
  writes := forall_mem_stepped h.writes
    (fun u _ hu data number hstage => hserialised ▸ hu data number hstage) fun data number hstage => by
      rw [ht] at hstage
      cases hstage
  written := by
    rw [hserialised, hwritten]
    exact h.written
  done := forall_mem_stepped h.done (fun u _ hu hstage => hserialised ▸ hu hstage) fun hstage => by
    rw [ht] at hstage
    cases hstage
  current := .inl ⟨t', by simp, ht⟩

-- Calls that have not changed the list yet come and go.
theorem Saved.quiet {tasks tasks' : List (BanTask Data)} (h : Saved json file ⟨s, tasks⟩)
    (hnew : ∀ u ∈ tasks', u ∈ tasks ∨ u.stage.waiting = true)
    (hold : ∀ u ∈ tasks, u ∈ tasks' ∨ u.stage.waiting = true)
    (hbans : s'.bans = s.bans) (hfile : s'.file = s.file)
    (hserialised : s'.serialised = s.serialised) (hwritten : s'.written = s.written) :
    Saved json file ⟨s', tasks'⟩ := by
  obtain ⟨hwrites, hbound, hdone, hcurrent⟩ := h
  have hin {u : BanTask Data} (hu : u ∈ tasks') (hstage : u.stage.waiting = false) : u ∈ tasks :=
    (hnew u hu).resolve_right (by simp [hstage])
  have hkept {u : BanTask Data} (hu : u ∈ tasks) (hstage : u.stage.waiting = false) : u ∈ tasks' :=
    (hold u hu).resolve_right (by simp [hstage])
  refine ⟨?_, ?_, ?_, ?_⟩
  · intro u hu data number hstage
    rw [hserialised]
    exact hwrites u (hin hu (by rw [hstage]; rfl)) data number hstage
  · rw [hserialised, hwritten]
    exact hbound
  · intro u hu hstage
    rw [hserialised]
    exact hdone u (hin hu (by rw [hstage]; rfl)) hstage
  · rcases hcurrent with ⟨u, hu, hsave⟩ | ⟨hlatest, hway⟩
    · exact .inl ⟨u, hkept hu (by rw [hsave]; rfl), hsave⟩
    · refine .inr ⟨?_, ?_⟩
      · intro u hu data hstage
        rw [hserialised] at hstage
        rw [hbans]
        exact hlatest u (hin hu (by rw [hstage]; rfl)) data hstage
      · rw [hserialised, hbans, hfile, hwritten]
        refine hway.imp_left ?_
        rintro ⟨u, hu, data, hstage⟩
        exact ⟨u, hkept hu (by rw [hstage]; rfl), data, hstage⟩

theorem Saved.serialise (h : Saved json file ⟨s, before ++ t :: after⟩) :
    Saved json file ⟨{ s with serialised := s.serialised + 1 }, before ++
      { t with stage := .Write (json.toStringPretty s.bans) (s.serialised + 1) } :: after⟩ where
  writes := forall_mem_stepped h.writes
    (fun u _ hu data number hstage => Nat.le_succ_of_le (hu data number hstage))
    fun data number hstage => by
      cases hstage
      exact Nat.le_refl _
  written := Nat.le_succ_of_le h.written
  done := fun _ _ _ => Nat.succ_pos _
  current := by
    have hthere := List.mem_append_right before (List.mem_cons_self (a :=
      BanTask.mk t.call (.Write (json.toStringPretty s.bans) (s.serialised + 1))) (l := after))
    refine .inr ⟨?_, .inl ⟨_, hthere, _, rfl⟩⟩
    -- no other call has this number
    refine forall_mem_stepped h.writes (fun u _ hu data hstage => ?_) fun data hstage => ?_
    · exact absurd (hu data _ hstage) (Nat.not_succ_le_self _)
    · cases hstage
      rfl

theorem Saved.write (h : Saved json file ⟨s, before ++ t :: after⟩) {data : Data} {number : Nat}
    (ht : t.stage = .Write data number) (horder : s.written < number) :
    Saved json file ⟨{ s with file := some data, written := number },
      before ++ { t with stage := .Done } :: after⟩ := by
  obtain ⟨hwrites, hbound, hdone, hcurrent⟩ := h
  have hnumber : number ≤ s.serialised := hwrites t (by simp) data number ht
  refine ⟨?_, hnumber, ?_, ?_⟩
  · exact forall_mem_stepped hwrites (fun u _ hu => hu) fun _ _ h => by cases h
  · exact fun _ _ _ => Nat.lt_of_lt_of_le (Nat.zero_lt_of_lt horder) hnumber
  · rcases hcurrent with ⟨u, hu, hsave⟩ | ⟨hlatest, hway⟩
    · rcases mem_place hu with rfl | hu
      · rw [ht] at hsave
        cases hsave
      · exact .inl ⟨u, mem_of_mem_others hu, hsave⟩
    · refine .inr ⟨forall_mem_stepped hlatest (fun u _ hu => hu) fun _ h => (by cases h), ?_⟩
      -- it writes the latest list, or that one is still on its way
      by_cases hlast : number = s.serialised
      · subst hlast
        exact .inr ⟨rfl, .inl (congrArg some (hlatest t (by simp) data ht))⟩
      · rcases hway with ⟨u, hu, data', hwrite⟩ | ⟨hwritten, -⟩
        · rcases mem_place hu with rfl | hu
          · rw [ht] at hwrite
            cases hwrite
            exact absurd rfl hlast
          · exact .inl ⟨u, mem_of_mem_others hu, data', hwrite⟩
        · dsimp only at hwritten
          omega

theorem Saved.next (h : Saved json file ⟨s, before ++ t :: after⟩) {now : String}
    (hnext : t.next json s now = some (s', t'))
    (horder : ∀ data number, t.stage = .Write data number → s.written < number) :
    Saved json file ⟨s', before ++ t' :: after⟩ := by
  cases hstage : t.stage with
  | Begin =>
      simp only [BanTask.next, hstage] at hnext
      cases hnext
      obtain ⟨hfile, hserialised, hwritten, hsave | ⟨entry, hpush, hbans⟩⟩ := s.begin_spec t.call
      · exact h.change hserialised hwritten hsave
      · refine h.quiet (fun u hu => ?_) (fun u hu => ?_) hbans hfile hserialised hwritten
        · rcases mem_place hu with rfl | hu
          · exact .inr (by rw [hpush]; rfl)
          · exact .inl (mem_of_mem_others hu)
        · rcases mem_place hu with rfl | hu
          · exact .inr (by rw [hstage]; rfl)
          · exact .inl (mem_of_mem_others hu)
  | Push entry =>
      simp only [BanTask.next, hstage] at hnext
      cases hnext
      exact h.change rfl rfl rfl
  | Save =>
      simp only [BanTask.next, hstage] at hnext
      cases hnext
      exact h.serialise
  | Write data number =>
      simp only [BanTask.next, hstage] at hnext
      cases hnext
      exact h.write hstage (horder data number hstage)
  | Done =>
      simp only [BanTask.next, hstage] at hnext
      cases hnext

theorem saved_load (json : Json Data) (file : Option Data) :
    Saved json file ⟨.load json file, []⟩ := by
  have hstart : (BanStore.load json file).serialised = 0 ∧ (BanStore.load json file).written = 0 ∧
      (BanStore.load json file).file = file := by
    unfold BanStore.load
    split <;> exact ⟨rfl, rfl, rfl⟩
  obtain ⟨hserialised, hwritten, hfile⟩ := hstart
  refine ⟨by simp, by simp [hwritten], by simp, .inr ⟨by simp, .inr ⟨?_, .inr ⟨hserialised, hfile, rfl⟩⟩⟩⟩
  rw [hwritten, hserialised]

theorem saved_run {p : Pool (BanStore Data) (BanTask Data)} {turns : List (Turn String (BanTask Data))}
    (hrun : Run ((saving json).StepIf inOrder) ⟨.load json file, []⟩ turns p) :
    Saved json file p := by
  refine Tasks.invariant (I := Saved json file) ?_ ?_ hrun (saved_load json file)
  · intro s tasks t h hstarts _
    have hbegin : t.stage = .Begin := by
      simp only [saving] at hstarts
      split at hstarts
      · assumption
      · cases hstarts
    refine h.quiet (fun u hu => ?_) (fun u hu => .inl (List.mem_append_left _ hu)) rfl rfl rfl rfl
    rcases List.mem_append.mp hu with hu | hu
    · exact .inl hu
    · rw [List.mem_singleton.mp hu, hbegin]
      exact .inr rfl
  · intro s before t after now s' t' h hnext hok
    refine h.next hnext fun data number hstage => ?_
    obtain ⟨call, stage⟩ := t
    cases hstage
    simpa [inOrder, getElem?_place] using hok

theorem load_written (json : Json Data) (bans : List BanRecord) :
    (BanStore.load json (some (json.toStringPretty bans))).bans = bans := by
  simp only [BanStore.load, Option.bind_some, json.round_trip]

-- Once all calls have returned, the file has the list, and a restart gives it back.
theorem load_of_completed {p : Pool (BanStore Data) (BanTask Data)}
    {turns : List (Turn String (BanTask Data))}
    (hrun : Run ((saving json).StepIf inOrder) ⟨.load json file, []⟩ turns p)
    (hdone : ∀ t ∈ p.tasks, t.stage = .Done) :
    (p.tasks ≠ [] → p.shared.file = some (json.toStringPretty p.shared.bans)) ∧
      (BanStore.load json p.shared.file).bans = p.shared.bans := by
  have hsaved := saved_run hrun
  rcases hsaved.current with ⟨t, ht, hsave⟩ | ⟨-, ⟨t, ht, data, hwrite⟩ | ⟨-, hfile | hstart⟩⟩
  · cases (hdone t ht).symm.trans hsave
  · cases (hdone t ht).symm.trans hwrite
  · refine ⟨fun _ => hfile, ?_⟩
    rw [hfile, load_written]
  · obtain ⟨hserialised, hfile, hbans⟩ := hstart
    refine ⟨fun hne => ?_, ?_⟩
    · obtain ⟨t, ht⟩ := List.exists_mem_of_ne_nil _ hne
      have hpos := hsaved.done t ht (hdone t ht)
      omega
    · rw [hfile, hbans]

-- A call that is left alone is the operation on the list, and it saves it.

def BanStore.banList (s : BanStore Data) : BanList := ⟨s.bans.map BanRecord.toBanEntry, s.nextId⟩

def BanCall.run (l : BanList) : BanCall → BanList
  | .Add kind ip name display reason => l.add kind ip name display reason
  | .Remove id => l.remove id
  | .RemoveMatching ip namePart kind => l.removeMatching ip namePart kind

theorem alone_save (json : Json Data) (s : BanStore Data) (call : BanCall) :
    ∃ s', Alone (BanTask.next json) (s, ⟨call, .Save⟩) (s', ⟨call, .Done⟩) ∧
      s'.banList = s.banList ∧ s'.file = some (json.toStringPretty s'.bans) :=
  ⟨_, .step "" rfl (.step "" rfl (.refl _)), rfl, rfl⟩

theorem alone_call (json : Json Data) (s : BanStore Data) (call : BanCall) (now : String) :
    ∃ s', Alone (BanTask.next json) (s, ⟨call, .Begin⟩) (s', ⟨call, .Done⟩) ∧
      s'.banList = call.run s.banList ∧ s'.file = some (json.toStringPretty s'.bans) := by
  obtain ⟨changed, hchange, hlist⟩ : ∃ changed,
      Alone (BanTask.next json) (s, ⟨call, .Begin⟩) (changed, ⟨call, .Save⟩) ∧
      changed.banList = call.run s.banList := by
    cases call with
    | Add kind ip name display reason =>
        refine ⟨_, .step now rfl (.step now rfl (.refl _)), ?_⟩
        simp [BanStore.begin, BanStore.banList, BanCall.run, BanList.add]
    | Remove id =>
        refine ⟨_, .step now rfl (.refl _), ?_⟩
        simp only [BanCall.run, BanList.remove, BanStore.banList, List.filter_map]
        rfl
    | RemoveMatching ip namePart kind =>
        refine ⟨_, .step now rfl (.refl _), ?_⟩
        simp only [BanCall.run, BanList.removeMatching, BanStore.banList, List.filter_map]
        rfl
  obtain ⟨s', hsave, hsame, hfile⟩ := alone_save json changed call
  exact ⟨s', hchange.trans hsave, hsame.trans hlist, hfile⟩

end

-- Two bans.

def sampleBan (ip : String) : BanCall := .Add .Ban (some ip) none "eve" "cheat"

def bothCalls {Data : Type} : List (Turn String (BanTask Data)) :=
  [.Start ⟨sampleBan "10.0.0.1", .Begin⟩, .Start ⟨sampleBan "10.0.0.2", .Begin⟩]

-- The second call is done with the file before the first one writes it.
def overtakenTurns {Data : Type} : List (Turn String (BanTask Data)) :=
  bothCalls ++ [.Next 0 "12:00:00", .Next 0 "12:00:00", .Next 0 "", .Next 1 "12:00:01",
    .Next 1 "12:00:01", .Next 1 "", .Next 1 "", .Next 0 ""]

def sampleRecords : List BanRecord :=
  [⟨⟨1, .Ban, some "10.0.0.1", none, "eve", "cheat"⟩, "12:00:00"⟩,
    ⟨⟨2, .Ban, some "10.0.0.2", none, "eve", "cheat"⟩, "12:00:01"⟩]

-- Whatever the format of the file is, the second ban is not in it.
theorem run_overtaken {Data : Type} (json : Json Data) :
    ∃ p, Run (saving json).Step ⟨.load json none, []⟩ overtakenTurns p ∧
      (∀ t ∈ p.tasks, t.stage = .Done) ∧ p.shared.bans = sampleRecords ∧
      p.shared.file ≠ some (json.toStringPretty p.shared.bans) ∧
      (BanStore.load json p.shared.file).bans = sampleRecords.take 1 := by
  have hrun : Run ((saving json).StepIf fun _ _ => true) ⟨.load json none, []⟩ overtakenTurns
      ⟨⟨sampleRecords, 3, some (json.toStringPretty (sampleRecords.take 1)), 2, 1⟩,
        [⟨sampleBan "10.0.0.1", .Done⟩, ⟨sampleBan "10.0.0.2", .Done⟩]⟩ :=
    Pool.run_play rfl
  refine ⟨_, Tasks.run_step hrun, by simp, rfl, fun hsame => ?_, load_written json _⟩
  have hback := congrArg (fun file => (BanStore.load json file).bans) hsame
  simp only [load_written] at hback
  cases hback

def listJson : Json (List BanRecord) := ⟨id, some, fun _ => rfl⟩

theorem ban_lost_in_file :
    ∃ p, Run (saving listJson).Step ⟨.load listJson none, []⟩ overtakenTurns p ∧
      (∀ t ∈ p.tasks, t.stage = .Done) ∧ p.shared.bans = sampleRecords ∧
      p.shared.file ≠ some (listJson.toStringPretty p.shared.bans) ∧
      (BanStore.load listJson p.shared.file).bans = sampleRecords.take 1 :=
  run_overtaken listJson

-- The second call changes the list while the first one saves it, and writes it last.
def orderedTurns {Data : Type} : List (Turn String (BanTask Data)) :=
  bothCalls ++ [.Next 0 "12:00:00", .Next 0 "12:00:00", .Next 0 "", .Next 1 "12:00:01",
    .Next 1 "12:00:01", .Next 0 "", .Next 1 "", .Next 1 ""]

theorem load_of_completed_ordered :
    ∃ p, Run ((saving listJson).StepIf inOrder) ⟨.load listJson none, []⟩ orderedTurns p ∧
      p.shared.bans = sampleRecords ∧ (BanStore.load listJson p.shared.file).bans = sampleRecords := by
  have hrun : Run ((saving listJson).StepIf inOrder) ⟨.load listJson none, []⟩ orderedTurns
      ⟨⟨sampleRecords, 3, some sampleRecords, 2, 2⟩,
        [⟨sampleBan "10.0.0.1", .Done⟩, ⟨sampleBan "10.0.0.2", .Done⟩]⟩ :=
    Pool.run_play rfl
  exact ⟨_, hrun, rfl, (load_of_completed hrun (by simp)).2⟩

end Mumble
