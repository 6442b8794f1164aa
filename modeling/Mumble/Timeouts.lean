import Mumble.Deeds.Steps

/-!
The clocks of a client, and what a clean-up pass does when they are old.
-/

namespace Mumble

open Mumble.Lib

namespace ServerState

variable {s s' : ServerState} {r q : ClientRef} {session : UInt32} {now : Instant}

-- What a reset does to the client, and what becomes of the write.
theorem resetClientCrypt_spec (s : ServerState) (r : ClientRef) (now : Instant) :
    ∃ sent, (s.resetClientCrypt r now).1.get r =
        { s.get r with udpSocketAddr := none, crypt := (s.get r).crypt.reset now, sent } ∧
      (s.resetClientCrypt r now).2 = (s.get r).send := by
  let freed := { s.get r with udpSocketAddr := none, crypt := (s.get r).crypt.reset now }
  have hreset : (s.resetClientCrypt r now).1.get r =
        (freed.sendMessage (.CryptSetup freed.crypt.getCryptSetup)).1 ∧
      (s.resetClientCrypt r now).2 =
        (freed.sendMessage (.CryptSetup freed.crypt.getCryptSetup)).2 := by
    unfold resetClientCrypt
    dsimp only
    simp only [call, get_set_self, get_releaseSocket]
    exact ⟨rfl, rfl⟩
  rw [hreset.1, hreset.2]
  unfold Client.sendMessage
  split
  · rename_i hsend
    exact ⟨_, rfl, hsend.symm⟩
  · rename_i e hsend
    exact ⟨_, rfl, hsend.symm⟩

theorem get_resetClientCrypt_ne (h : q ≠ r) : (s.resetClientCrypt r now).1.get q = s.get q := by
  unfold resetClientCrypt
  dsimp only
  simp only [call, get_set_ne _ h, get_releaseSocket]
  rfl

theorem send_resetClientCrypt (s : ServerState) (r q : ClientRef) (now : Instant) :
    ((s.resetClientCrypt r now).1.get q).send = (s.get q).send := by
  by_cases hq : q = r
  · subst hq
    obtain ⟨sent, hget, -⟩ := resetClientCrypt_spec s q now
    rw [hget]
    rfl
  · rw [get_resetClientCrypt_ne hq]

-- The resets are done unless the write to one of the clients waits.
theorem resetAll_ok_iff (s : ServerState) (now : Instant) (refs : List ClientRef) :
    (s.resetAll now refs).2 = .ok () ↔ ∀ r ∈ refs, (s.get r).send ≠ .error .Waiting := by
  induction refs generalizing s with
  | nil => simp [resetAll]
  | cons r refs ih =>
      obtain ⟨-, -, hsend⟩ := resetClientCrypt_spec s r now
      have hfirst : (logged (s.resetClientCrypt r now)).2 = .ok () ↔
          (s.get r).send ≠ .error .Waiting := by rw [logged_ok_iff, hsend]
      have hrest := ih (s.resetClientCrypt r now).1
      simp only [send_resetClientCrypt] at hrest
      rw [List.forall_mem_cons, ← hfirst, ← hrest]
      constructor
      · intro hall
        obtain ⟨hlogged, hthen⟩ := andThen_ok hall
        refine ⟨hlogged, ?_⟩
        rw [← logged_state, ← hthen]
        exact hall
      · rintro ⟨hlogged, hmore⟩
        unfold resetAll
        rw [andThen_of_ok hlogged, logged_state]
        exact hmore

theorem clients_resets (refs : List ClientRef) (t : ServerState) :
    (refs.foldl (fun t r => (t.resetClientCrypt r now).1) t).registry.clients =
      t.registry.clients := by
  induction refs generalizing t with
  | nil => rfl
  | cons r refs ih =>
      rw [List.foldl_cons, ih, registry_resetClientCrypt]
      rfl

theorem clients_foldl_disconnect (sessions : List UInt32) (t : ServerState) (x : UInt32) :
    (sessions.foldl (fun t y => t.disconnect y) t).registry.clients x =
      if x ∈ sessions then none else t.registry.clients x := by
  induction sessions generalizing t with
  | nil => simp
  | cons y sessions ih =>
      rw [List.foldl_cons, ih, registry_disconnect, Registry.drop_clients]
      by_cases hx : x = y
      · subst hx
        simp
      · simp [hx]

-- A pass that is done has made all its resets and removals. One that waits has removed nobody.
theorem cleanRun_done (hdone : (s.cleanRun now).2 = .ok ()) :
    (s.cleanRun now).1 = (s.cleanPlan now).clientsToRemove.keys.foldl
      (fun s session => s.disconnect session)
      ((s.cleanPlan now).clientsToResetCrypt.foldl (fun s r => (s.resetClientCrypt r now).1)
        { s with disconnectQueue := ∅ }) := by
  obtain ⟨made, -, t, rfl, ⟨rfl, hend⟩ | hwaiting⟩ := cleanRun_cases s now
  · rw [hend]
  · rw [hwaiting] at hdone
    cases hdone

theorem cleanRun_ok_iff (s : ServerState) (now : Instant) : (s.cleanRun now).2 = .ok () ↔
    ∀ r ∈ (s.cleanPlan now).clientsToResetCrypt, (s.get r).send ≠ .error .Waiting := by
  refine Iff.trans ?_ (resetAll_ok_iff { s with disconnectQueue := ∅ } now _)
  constructor
  · exact fun h => (andThen_ok h).1
  · intro h
    unfold cleanRun
    dsimp only
    rw [andThen_of_ok h]

theorem clients_cleanRun (hdone : (s.cleanRun now).2 = .ok ()) (x : UInt32) :
    (s.cleanRun now).1.registry.clients x =
      if x ∈ (s.cleanPlan now).clientsToRemove.keys then none else s.registry.clients x := by
  rw [cleanRun_done hdone, clients_foldl_disconnect, clients_resets]
  rfl

theorem clients_cleanRun_waiting (h : (s.cleanRun now).2 ≠ .ok ()) :
    (s.cleanRun now).1.registry.clients = s.registry.clients := by
  obtain ⟨made, -, t, rfl, ⟨-, hend⟩ | hwaiting⟩ := cleanRun_cases s now
  · rw [hend] at h
    exact absurd rfl h
  · rw [hwaiting]
    exact clients_resets made _

-- A client is gone after the pass exactly if it was on the queue or timed out.
theorem cleanRun_removes_iff (hindexed : s.registry.Indexed)
    (hlook : s.registry.clients session = some r) (hdone : (s.cleanRun now).2 = .ok ()) :
    (s.cleanRun now).1.registry.clients session = none ↔
      session ∈ s.disconnectQueue ∨ (s.get r).TimesOut now := by
  have hmem : session ∈ (s.cleanPlan now).clientsToRemove.keys ↔
      session ∈ s.disconnectQueue ∨ (s.get r).TimesOut now := by
    refine mem_cleanPlan_remove.trans (or_congr_right ?_)
    constructor
    · rintro ⟨q, hq, hout, hsession⟩
      -- two clients do not have one session
      obtain ⟨other, hother⟩ := HashIndex.mem_values.mp hq
      have hsame : other = session := (hindexed.connected hother).2.symm.trans hsession.symm
      have hqr : some q = some r := hother.symm.trans (hsame ▸ hlook)
      cases hqr
      exact hout
    · intro hout
      exact ⟨r, HashIndex.mem_values.mpr ⟨session, hlook⟩, hout, (hindexed.connected hlook).2.symm⟩
  rw [clients_cleanRun hdone, ← hmem, hlook]
  split_ifs with hremoved
  · exact iff_of_true rfl hremoved
  · exact iff_of_false not_false hremoved

-- Who is connected is not cancelled: a write to it waits only for the peer.
theorem waits_iff (hreachable : s.Reachable) (hr : r ∈ s.clients.values) :
    (s.get r).send = .error .Waiting ↔ (s.get r).write = .Blocked := by
  obtain ⟨session, hlook⟩ := HashIndex.mem_values.mp hr
  have hrunning : (s.get r).cancelled = false := (hreachable.sound.indexed.connected hlook).1.2
  unfold Client.send
  rw [hrunning]
  cases (s.get r).write <;> simp

-- A client whose last TCP ping is too old is dropped, unless its last UDP ping is too old as
-- well: then its crypt state is reset and the TCP ping is not looked at. Before anyone is
-- dropped the pass writes to all the clients whose crypt state is reset, and waits for the
-- peers that take nothing.
theorem cleanRun_drops_dead_iff (hreachable : s.Reachable)
    (hlook : s.clients.lookup session = some r)
    (hdead : (now - (s.get r).lastTcpPing) / NANOS > 10) :
    (s.cleanRun now).1.clients.lookup session = none ↔
      ((s.get r).closed = true ∨ (now - (s.get r).lastUdpPing) / NANOS ≤ 30 ∨
        session ∈ s.disconnectQueue) ∧
      ∀ q ∈ (s.cleanPlan now).clientsToResetCrypt, (s.get q).write ≠ .Blocked := by
  have hwrites : (s.cleanRun now).2 = .ok () ↔
      ∀ q ∈ (s.cleanPlan now).clientsToResetCrypt, (s.get q).write ≠ .Blocked := by
    rw [cleanRun_ok_iff]
    refine forall₂_congr fun q hq => not_congr (waits_iff hreachable ?_)
    exact (mem_cleanPlan_reset.mp hq).1
  rw [← hwrites]
  by_cases hdone : (s.cleanRun now).2 = .ok ()
  · rw [and_iff_left hdone]
    refine (cleanRun_removes_iff hreachable.sound.indexed hlook hdone).trans ?_
    unfold Client.TimesOut
    tauto
  · refine iff_of_false (fun hgone => ?_) fun h => hdone h.2
    have hkept : (s.cleanRun now).1.clients.lookup session = s.clients.lookup session :=
      congrFun (clients_cleanRun_waiting hdone) session
    rw [hkept, hlook] at hgone
    cases hgone

-- A `Ping` message without figures.
def emptyPing : PingMessage :=
  ⟨none, none, none, none, none, none, none, none, none, none, none⟩

theorem cleanRun_drops_dead_iff_sample :
    ((sampleServer.afterAll sampleClients).cleanRun (20 * NANOS)).1.clients.lookup 1 = none := by
  refine (cleanRun_drops_dead_iff (r := 0) (reachable_sample sampleClients) ?_ ?_).mpr ⟨?_, ?_⟩
  · decide +kernel
  · decide +kernel
  · exact .inr (.inl (by decide +kernel))
  · decide +kernel

-- A client that never gets through by UDP, pings every ten seconds and stops after forty.
def sampleSilent : List (Instant × Event) :=
  sampleClients ++ [10, 20, 30, 40].map fun i => (i * NANOS, .Tcp 0 (.Ping emptyPing))

theorem dead_client_kept :
    ∃ s : ServerState, s.Reachable ∧ s.clients.lookup 1 = some 0 ∧
      (60 * NANOS - (s.get 0).lastTcpPing) / NANOS > 10 ∧
      (s.cleanRun (60 * NANOS)).1.clients.lookup 1 = some 0 := by
  refine ⟨sampleServer.afterAll sampleSilent, reachable_sample sampleSilent, ?_, ?_, ?_⟩
  · decide +kernel
  · decide +kernel
  · decide +kernel

end ServerState

-- What the deeds do to the clocks.

theorem CryptOp.apply_lastGood {now : Instant} {op : CryptOp} {c c' : CryptState} (hat : op.At now)
    (h : op.apply c = .ok c') : c'.lastGood = c.lastGood ∨ c'.lastGood = now := by
  cases op with
  | Encrypt dir packet dst =>
      simp only [CryptOp.apply, Exec.bind_eq_ok] at h
      obtain ⟨⟨c₁, out⟩, hencrypt, hc⟩ := h
      cases hc
      rw [CryptState.encrypt_next hencrypt]
      exact .inl rfl
  | Decrypt dst time datagram =>
      obtain rfl : time = now := hat
      simp only [CryptOp.apply, Exec.bind_eq_ok] at h
      obtain ⟨⟨c₁, packet⟩, hdecrypt, hc⟩ := h
      cases hc
      obtain ⟨e, hrefused, -⟩ | ⟨nonce, late, lost, plain, packet', -, -, haccepted⟩ :=
        CryptState.decrypt_cases dst c time datagram
      · rw [hrefused] at hdecrypt
        cases hdecrypt
        exact .inl rfl
      · rw [haccepted] at hdecrypt
        cases hdecrypt
        exact .inr rfl
  | SetDecryptNonce nonce =>
      simp only [CryptOp.apply, CryptState.setDecryptNonce, Exec.bind_eq_ok] at h
      obtain ⟨bytes, -, hc⟩ := h
      cases hc
      exact .inl rfl
  | Reset time =>
      cases h
      exact .inr hat

namespace Deed

variable {now : Instant} {c : Client}

theorem cancelled_apply (d : Deed) (h : c.cancelled = true) : (d.apply c).cancelled = true := by
  cases d <;> first | exact h | rfl

-- The deeds that set a clock are routine, and set it to the time of the event.
def ClockAt (now : Instant) (c : Client) : Deed → Prop
  | .Crypt op crypt => (Deed.Crypt op crypt).Routine now c
  | .PingUdp time => time = now
  | _ => True

theorem ClockAt.lastGood {d : Deed} (h : d.ClockAt now c) :
    (d.apply c).crypt.lastGood = c.crypt.lastGood ∨ (d.apply c).crypt.lastGood = now := by
  cases d with
  | Crypt op crypt => exact CryptOp.apply_lastGood h.1 h.2
  | _ => exact .inl rfl

theorem ClockAt.lastUdpPing {d : Deed} (h : d.ClockAt now c) :
    (d.apply c).lastUdpPing = c.lastUdpPing ∨ (d.apply c).lastUdpPing = now := by
  cases d with
  | PingUdp time => exact .inr h
  | _ => exact .inl rfl

end Deed

namespace ServerState

variable {s s' : ServerState} {r q : ClientRef} {session : UInt32} {now : Instant}

theorem Allows.clockAt {e : Event} {result : MumbleResult} {c : Client} {d : Deed}
    (h : s.Allows now e result q c d) : d.ClockAt now c := by
  cases d with
  | Crypt | PingUdp => exact h
  | _ => trivial

theorem lenient_clockAt (now : Instant) : Lenient now fun _ c d => d.ClockAt now c := by
  intro q c d hd
  cases d with
  | Crypt | PingUdp => exact hd
  | _ => trivial

-- A disconnect does not read the clock, so that any time will do for it.
theorem clocks_foldl_disconnect (sessions : List UInt32) (t : ServerState) (r : ClientRef) :
    ((sessions.foldl (fun t x => t.disconnect x) t).get r).crypt.lastGood =
        (t.get r).crypt.lastGood ∧
      ((sessions.foldl (fun t x => t.disconnect x) t).get r).lastUdpPing = (t.get r).lastUdpPing := by
  have hdoes (time : Instant) : t.Does (fun _ c d => d.ClockAt time c) (fun _ => True)
      (sessions.foldl (fun t x => t.disconnect x) t) :=
    does_foldl (fun t x => does_disconnect (lenient_clockAt time)
      (fun _ _ _ _ _ => trivial) trivial t x) t sessions
  generalize sessions.foldl (fun t x => t.disconnect x) t = t' at hdoes
  have hgood (time : Instant) : (t'.get r).crypt.lastGood = (t.get r).crypt.lastGood ∨
      (t'.get r).crypt.lastGood = time :=
    ((hdoes time).clients r).kept (I := fun c => c.crypt.lastGood = (t.get r).crypt.lastGood ∨
      c.crypt.lastGood = time) (fun hd hc => hd.lastGood.elim (· ▸ hc) .inr) (.inl rfl)
  have hudp (time : Instant) : (t'.get r).lastUdpPing = (t.get r).lastUdpPing ∨
      (t'.get r).lastUdpPing = time :=
    ((hdoes time).clients r).kept (I := fun c => c.lastUdpPing = (t.get r).lastUdpPing ∨
      c.lastUdpPing = time) (fun hd hc => hd.lastUdpPing.elim (· ▸ hc) .inr) (.inl rfl)
  exact ⟨(hgood ((t'.get r).crypt.lastGood + 1)).resolve_right (Nat.ne_of_lt (Nat.lt_succ_self _)),
    (hudp ((t'.get r).lastUdpPing + 1)).resolve_right (Nat.ne_of_lt (Nat.lt_succ_self _))⟩

theorem lastGood_resets (refs : List ClientRef) (t : ServerState)
    (h : r ∈ refs ∨ (t.get r).crypt.lastGood = now) :
    ((refs.foldl (fun t q => (t.resetClientCrypt q now).1) t).get r).crypt.lastGood = now := by
  induction refs generalizing t with
  | nil => simpa using h
  | cons q refs ih =>
      refine ih _ ?_
      by_cases hq : r = q
      · subst hq
        obtain ⟨sent, hget, -⟩ := resetClientCrypt_spec t r now
        rw [hget]
        exact .inr rfl
      · rw [get_resetClientCrypt_ne hq]
        exact h.imp_left fun hmem => (List.mem_cons.mp hmem).resolve_left hq

theorem lastUdpPing_resets (refs : List ClientRef) (t : ServerState) :
    ((refs.foldl (fun t q => (t.resetClientCrypt q now).1) t).get r).lastUdpPing =
      (t.get r).lastUdpPing := by
  induction refs generalizing t with
  | nil => rfl
  | cons q refs ih =>
      rw [List.foldl_cons, ih]
      by_cases hq : r = q
      · subst hq
        obtain ⟨sent, hget, -⟩ := resetClientCrypt_spec t r now
        rw [hget]
      · rw [get_resetClientCrypt_ne hq]

-- The pass sets one clock of a client that it selects, and leaves the other as it was.
theorem clocks_cleanRun (hselected : r ∈ (s.cleanPlan now).clientsToResetCrypt)
    (hdone : (s.cleanRun now).2 = .ok ()) :
    ((s.cleanRun now).1.get r).crypt.lastGood = now ∧
      ((s.cleanRun now).1.get r).lastUdpPing = (s.get r).lastUdpPing := by
  rw [cleanRun_done hdone]
  obtain ⟨hgood, hudp⟩ := clocks_foldl_disconnect (s.cleanPlan now).clientsToRemove.keys _ r
  rw [hgood, hudp]
  exact ⟨lastGood_resets _ _ (.inl hselected), lastUdpPing_resets _ _⟩

-- Nor does the pass end the task of a client.
theorem closed_cleanRun (s : ServerState) (now : Instant) (r : ClientRef) :
    ((s.cleanRun now).1.get r).closed = (s.get r).closed := by
  have hA : Lenient now fun _ _ d => d ≠ .Close ∧ d ≠ .Finish := by
    rintro q c d hd
    constructor <;> rintro rfl <;> exact hd
  have hdoes := does_cleanRun (K := fun _ => True) hA (fun _ _ _ _ _ => ⟨nofun, nofun⟩) trivial s
  refine (hdoes.clients r).field Client.closed fun {c d} hd => ?_
  cases d with
  | Close => exact absurd rfl hd.1
  | Finish => exact absurd rfl hd.2
  | _ => rfl

-- A client that is dropped stays away.
theorem not_mem_values_of_cancelled (hreachable : s.Reachable) (hr : (s.get r).cancelled = true) :
    r ∉ s.clients.values := by
  intro hmem
  obtain ⟨session, hlook⟩ := HashIndex.mem_values.mp hmem
  have hrunning := (hreachable.sound.indexed.connected hlook).1
  exact absurd (hrunning.2.symm.trans hr) (by decide)

theorem cancelled_of_removed (hreachable : s.Reachable) (hr : r < s.next)
    (h : s.registry.clients (s.get r).sessionId = none) : (s.get r).cancelled = true := by
  by_contra hcancelled
  have hrunning : s.registry.Running r := ⟨hr, Bool.eq_false_of_not_eq_true hcancelled⟩
  have hlook := hreachable.sound.indexed.running hrunning
  rw [show (s.registry.entry r).sessionId = (s.get r).sessionId from rfl, h] at hlook
  cases hlook

theorem reachable_cleanRun (hreachable : s.Reachable) (hdone : (s.cleanRun now).2 = .ok ()) :
    (s.cleanRun now).1.Reachable := by
  have hstep : s.Transition ⟨now, .CleanRun, .ok ()⟩ (s.cleanRun now).1 := by
    refine ⟨?_, fun h => nomatch h⟩
    rw [← hdone]
    rfl
  exact hreachable.run (.single hstep)

-- The ages that the pass compares, in whole seconds and in milliseconds.

theorem udp_age_le {udp start later : Nat} (hudp : start ≤ udp + 23 * NANOS)
    (hlater : later < start + 8 * NANOS) : (later - udp) / NANOS ≤ 30 := by
  unfold NANOS at *
  omega

theorem good_age_le {good start later : Nat} (hgood : start ≤ good)
    (hlater : later < start + 8 * NANOS) : (later - good) / 1000000 ≤ 8000 := by
  unfold NANOS at *
  omega

theorem udp_age_gt {udp start : Nat} (hudp : udp + 23 * NANOS < start) :
    max start (udp + 31 * NANOS) < start + 8 * NANOS ∧
      (max start (udp + 31 * NANOS) - udp) / NANOS > 30 := by
  unfold NANOS at *
  omega

section Reset

variable {labels : List Label} {later : Instant}

-- A client that the pass has dropped is never selected again.
theorem not_reset_of_dropped (hreachable : s.Reachable) (hr : r < s.next)
    (hdropped : (s.get r).cancelled = true) (hrun : Run Transition s labels s') :
    r ∉ (s'.cleanPlan later).clientsToResetCrypt := by
  have hcancelled : (s'.get r).cancelled = true :=
    run_keeps (I := fun c => c.cancelled = true) (P := fun _ => True) (fun _ hc => hc)
      (fun {_ _ _ _ d} _ _ hc => d.cancelled_apply hc) hreachable.sound hrun (fun _ _ => trivial) hr
      hdropped
  intro hselected
  exact not_mem_values_of_cancelled (hreachable.run hrun) hcancelled
    (mem_cleanPlan_reset.mp hselected).1

-- As long as both clocks are recent, neither of them gets a client selected.
theorem not_reset_of_recent (hreachable : s.Reachable) (hr : r < s.next)
    (hgood : now ≤ (s.get r).crypt.lastGood)
    (hudp : now ≤ (s.get r).lastUdpPing + 23 * NANOS) (hrun : Run Transition s labels s')
    (hlabels : ∀ l ∈ labels, now ≤ l.now) (hlater : later < now + 8 * NANOS) :
    r ∉ (s'.cleanPlan later).clientsToResetCrypt := by
  have hrecent : now ≤ (s'.get r).crypt.lastGood ∧ now ≤ (s'.get r).lastUdpPing + 23 * NANOS := by
    refine run_keeps (I := fun c => now ≤ c.crypt.lastGood ∧ now ≤ c.lastUdpPing + 23 * NANOS)
      (P := fun time => now ≤ time) (fun _ hc => hc) ?_ hreachable.sound hrun hlabels hr ⟨hgood, hudp⟩
    rintro s l q c d htime hd ⟨hgood, hudp⟩
    constructor
    · rcases hd.clockAt.lastGood with hsame | hset
      · rwa [hsame]
      · rwa [hset]
    · rcases hd.clockAt.lastUdpPing with hsame | hset
      · rwa [hsame]
      · rw [hset]
        exact Nat.le_add_right_of_le htime
  intro hselected
  obtain ⟨-, hudpOld | ⟨-, hgoodOld⟩⟩ := (mem_cleanPlan_reset.mp hselected).2
  · exact absurd hudpOld (Nat.not_lt_of_le (udp_age_le hrecent.2 hlater))
  · exact absurd hgoodOld (Nat.not_lt_of_le (good_age_le hrecent.1 hlater))

-- The old UDP ping of a client that stays gets it selected again before eight seconds are over.
theorem reset_again (hreachable : s.Reachable)
    (hselected : r ∈ (s.cleanPlan now).clientsToResetCrypt) (hdone : (s.cleanRun now).2 = .ok ())
    (hqueue : (s.get r).sessionId ∉ s.disconnectQueue)
    (hudp : (s.get r).lastUdpPing + 23 * NANOS < now) :
    ∃ later, now ≤ later ∧ later < now + 8 * NANOS ∧
      r ∈ ((s.cleanRun now).1.cleanPlan later).clientsToResetCrypt := by
  obtain ⟨hvalue, hunheard⟩ := mem_cleanPlan_reset.mp hselected
  obtain ⟨session, hlook⟩ := HashIndex.mem_values.mp hvalue
  obtain ⟨hrunning, hsession⟩ := hreachable.sound.indexed.connected hlook
  change (s.get r).sessionId = session at hsession
  subst hsession
  have hin : ¬(s.get r).TimesOut now := by
    rintro (hclosed | ⟨hrecent, hdead⟩)
    · exact absurd (hunheard.1.symm.trans hclosed) (by decide)
    · rcases hunheard.2 with hold | ⟨halive, -⟩
      · exact absurd hold (Nat.not_lt_of_le hrecent)
      · exact absurd hdead (Nat.not_lt_of_le halive)
  have hkept : ¬(s.cleanRun now).1.registry.clients (s.get r).sessionId = none := by
    rw [cleanRun_removes_iff hreachable.sound.indexed hlook hdone]
    exact not_or_intro hqueue hin
  have hstays : (s.cleanRun now).1.registry.clients (s.get r).sessionId = some r := by
    rw [clients_cleanRun hdone] at hkept ⊢
    rw [if_neg fun hremoved => hkept (if_pos hremoved)]
    exact hlook
  obtain ⟨-, hudpSame⟩ := clocks_cleanRun hselected hdone
  obtain ⟨hsoon, hold⟩ := udp_age_gt hudp
  refine ⟨max now ((s.get r).lastUdpPing + 31 * NANOS), le_max_left .., hsoon, ?_⟩
  refine mem_cleanPlan_reset.mpr ⟨HashIndex.mem_values.mpr ⟨_, hstays⟩, ?_, .inl ?_⟩
  · rw [closed_cleanRun]
    exact hunheard.1
  · rw [hudpSame]
    exact hold

end Reset

-- A client that is selected for a reset is not selected again in the eight seconds after the
-- pass, whatever happens in between, if it is dropped in the same pass or its last UDP ping is
-- at most twenty-three seconds old. Otherwise nothing has to happen for it to be selected again.
theorem reset_clears_trigger_iff (hreachable : s.Reachable)
    (hselected : r ∈ (s.cleanPlan now).clientsToResetCrypt) (hdone : (s.cleanRun now).2 = .ok ())
    (quiet : ServerState → Label → Prop) :
    (∀ labels s' later, Run (fun s l s' => s.Transition l s' ∧ quiet s l ∧ now ≤ l.now)
        (s.cleanRun now).1 labels s' → now ≤ later → later < now + 8 * NANOS →
        r ∉ (s'.cleanPlan later).clientsToResetCrypt) ↔
      (s.get r).sessionId ∈ s.disconnectQueue ∨ now ≤ (s.get r).lastUdpPing + 23 * NANOS := by
  have hvalue := (mem_cleanPlan_reset.mp hselected).1
  obtain ⟨session, hlook⟩ := HashIndex.mem_values.mp hvalue
  obtain ⟨hrunning, hsession⟩ := hreachable.sound.indexed.connected hlook
  have hreached := reachable_cleanRun hreachable hdone
  have hdoes := does_cleanRun (K := fun _ => True) (lenient_clockAt now) (fun _ _ _ _ _ => trivial)
    trivial s
  have hnext : r < (s.cleanRun now).1.next := by
    rw [hdoes.frame.next]
    exact hrunning.1
  constructor
  · intro hclears
    by_contra hnot
    obtain ⟨hqueue, hudp⟩ := not_or.mp hnot
    obtain ⟨later, hlater, hsoon, hagain⟩ :=
      reset_again hreachable hselected hdone hqueue (Nat.lt_of_not_le hudp)
    exact hclears [] _ later (.Done _) hlater hsoon hagain
  · rintro hcases labels s' later hrun hlater hsoon
    have htransitions : Run Transition (s.cleanRun now).1 labels s' := hrun.mono fun h => h.1
    rcases hcases with hqueue | hudp
    · refine not_reset_of_dropped hreached hnext ?_ htransitions
      refine cancelled_of_removed hreached hnext ?_
      change (s.get r).sessionId = session at hsession
      rw [hdoes.sessionId, hsession, cleanRun_removes_iff hreachable.sound.indexed hlook hdone,
        ← hsession]
      exact .inl hqueue
    · obtain ⟨hgood, hudpSame⟩ := clocks_cleanRun hselected hdone
      have hlabels : ∀ l ∈ labels, now ≤ l.now := hrun.labels_of fun h => h.2.2
      refine not_reset_of_recent hreached hnext hgood.ge ?_ htransitions hlabels hsoon
      rwa [hudpSame]

-- The next turn of the clean-up loop is fifty milliseconds later.
theorem reset_clears_trigger_iff_sample :
    ∃ s : ServerState, s.Reachable ∧ 0 ∈ (s.cleanPlan (9 * NANOS)).clientsToResetCrypt ∧
      0 ∉ ((s.cleanRun (9 * NANOS)).1.cleanPlan (9 * NANOS + 50000000)).clientsToResetCrypt := by
  have hreachable := reachable_sample sampleClients
  have hselected : 0 ∈ ((sampleServer.afterAll sampleClients).cleanPlan
      (9 * NANOS)).clientsToResetCrypt := by decide +kernel
  have hrecent : 9 * NANOS ≤ ((sampleServer.afterAll sampleClients).get 0).lastUdpPing +
      23 * NANOS := by decide +kernel
  have hdone : ((sampleServer.afterAll sampleClients).cleanRun (9 * NANOS)).2 = .ok () := by
    decide +kernel
  have hnow : 9 * NANOS ≤ 9 * NANOS + 50000000 := Nat.le_add_right _ _
  have hsoon : 9 * NANOS + 50000000 < 9 * NANOS + 8 * NANOS := by decide
  generalize sampleServer.afterAll sampleClients = s at hreachable hselected hrecent hdone
  have hcleared := (reset_clears_trigger_iff hreachable hselected hdone fun _ _ => True).mpr
    (.inr hrecent)
  exact ⟨s, hreachable, hselected, hcleared [] _ _ (.Done _) hnow hsoon⟩

theorem reset_every_tick :
    ∃ s : ServerState, s.Reachable ∧ 0 ∈ (s.cleanPlan (45 * NANOS)).clientsToResetCrypt ∧
      0 ∈ ((s.cleanRun (45 * NANOS)).1.cleanPlan (45 * NANOS + 50000000)).clientsToResetCrypt := by
  refine ⟨sampleServer.afterAll sampleSilent, reachable_sample sampleSilent, ?_, ?_⟩
  · decide +kernel
  · decide +kernel

end ServerState

end Mumble
