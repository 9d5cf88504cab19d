import DsiWifi.Wmi.Selection

/-!
# Attempts to connect

`CONNECT` and `START_SCAN` are sent by the tick only (`quiet_of_not_tick`).  A tick sends `CONNECT`
exactly when it sets `sent_connect` (`connects_drive`), and `START_SCAN` only when it scans, which a
requested connection excludes (`ConnectsFound`).  So between two events that clear `sent_connect`
at most one `CONNECT` is sent, and no `START_SCAN` after it (`one_connect_per_attempt`).
-/

namespace DsiWifi

open ApSecurityType ApCipherType

/-! ## Commands of the tick -/

def Out.isConnect : Out → Bool
  | .wmi (.connect _) => true
  | _ => false

def Out.isStartScan : Out → Bool
  | .wmi .startScan => true
  | _ => false

/-- The number of `CONNECT` commands of a step. -/
def connects (P : Platform) (s : Wmi) (e : Event) : ℕ := (drive P s e).2.countP Out.isConnect

/-- The number of `START_SCAN` commands of a step. -/
def startScans (P : Platform) (s : Wmi) (e : Event) : ℕ := (drive P s e).2.countP Out.isStartScan

/-- The step clears `sent_connect`. -/
def Clears (P : Platform) (s : Wmi) (e : Event) : Prop :=
  s.sentConnect = true ∧ (step P s e).sentConnect = false

instance (P : Platform) (s : Wmi) (e : Event) : Decidable (Clears P s e) := by
  unfold Clears; infer_instance

/-- Neither `CONNECT` nor `START_SCAN` is among the emissions. -/
def Quiet (out : List Out) : Prop := ∀ o ∈ out, o.isConnect = false ∧ o.isStartScan = false

theorem Quiet.connects_eq {out : List Out} (h : Quiet out) : out.countP Out.isConnect = 0 :=
  List.countP_eq_zero.2 fun o ho => by simp [(h o ho).1]

theorem Quiet.startScans_eq {out : List Out} (h : Quiet out) : out.countP Out.isStartScan = 0 :=
  List.countP_eq_zero.2 fun o ho => by simp [(h o ho).2]

theorem quiet_of_isRoutine {o : Out} (h : o.IsRoutine) :
    o.isConnect = false ∧ o.isStartScan = false := by
  cases o with
  | wmi cmd =>
    cases cmd with
    | connect params => exact h.elim
    | startScan => exact h.elim
    | _ => exact ⟨rfl, rfl⟩
  | data pkt => exact ⟨rfl, rfl⟩
  | ipc msg => exact h.elim

theorem quiet_wmiPostHandshake (ap : Ap) (keys : Option PostKeys) :
    Quiet (wmiPostHandshake ap keys) := by
  intro o ho
  rcases mem_wmiPostHandshake ho with h | rfl | ⟨-, k, rfl⟩
  · exact quiet_of_isRoutine h
  · exact ⟨rfl, rfl⟩
  · exact ⟨rfl, rfl⟩

theorem quiet_wmiHandlePkt (P : Platform) (s : Wmi) (pktCmd : ℕ) (pkt : Mem UInt8) (len : ℕ) :
    Quiet (wmiHandlePkt P s pktCmd pkt len).2 := by
  intro o ho
  rcases mem_wmiHandlePkt ho with h | ⟨-, rfl | rfl⟩
  · exact quiet_of_isRoutine h
  · exact ⟨rfl, rfl⟩
  · exact ⟨rfl, rfl⟩

theorem quiet_dataHandlePkt (C : Crypto) (s : Wmi) (addr : ℕ) (pkt : Mem UInt8) (len : ℕ)
    (env : AuthEnv) : Quiet (dataHandlePkt C s addr pkt len env).2 := by
  unfold dataHandlePkt
  split_ifs
  · rcases dataHandleAuth_snd s C (snapBody pkt) (arrayAt pkt 2 6) (arrayAt pkt 8 6) env with
      ⟨-, h | ⟨f, h⟩⟩ | ⟨-, f, h⟩
    · rw [h]
      exact List.forall_mem_nil _
    · rw [h]
      exact List.forall_mem_singleton.2 ⟨rfl, rfl⟩
    · rw [h]
      exact List.forall_mem_cons.2 ⟨⟨rfl, rfl⟩, quiet_wmiPostHandshake _ _⟩
  · exact List.forall_mem_singleton.2 ⟨rfl, rfl⟩

/-- Only the tick connects and scans. -/
theorem quiet_of_not_tick {P : Platform} {s : Wmi} {e : Event} (he : ∀ past, e ≠ .tick past) :
    Quiet (drive P s e).2 := by
  cases e with
  | tick past => exact absurd rfl (he past)
  | scan =>
    unfold drive
    split_ifs
    · simp [Quiet, wmiScan, wmiScanCmds, Out.isConnect, Out.isStartScan]
    · simp [Quiet]
  | wmi pktCmd pkt len => exact quiet_wmiHandlePkt P s pktCmd pkt len
  | data addr pkt len env => exact quiet_dataHandlePkt P.crypto s addr pkt len env

theorem wmiConnect_connects (ap : Ap) : (wmiConnect ap).countP Out.isConnect = 1 := by
  unfold wmiConnect wmiConnectCmd
  cases ap.securityType <;> simp [Out.isConnect]

theorem wmiConnect_startScans (ap : Ap) : (wmiConnect ap).countP Out.isStartScan = 0 := by
  unfold wmiConnect wmiConnectCmd
  cases ap.securityType <;> simp [Out.isStartScan]

theorem wmiScanNext_connects (s : Wmi) (past : UInt16) :
    (wmiScanNext s past).2.countP Out.isConnect = 0 := by
  rw [wmiScanNext_snd]
  split_ifs <;> rfl

section Step

variable {P : Platform} {s : Wmi} {e : Event}

/-- A step sends `CONNECT`, once, exactly when it sets `sent_connect`. -/
theorem connects_drive (P : Platform) (s : Wmi) (e : Event) :
    connects P s e =
      if s.sentConnect = false ∧ (step P s e).sentConnect = true then 1 else 0 := by
  unfold connects
  by_cases h : s.sentConnect = false ∧ (step P s e).sentConnect = true
  · rw [if_pos h, drive_of_requests h.1 h.2]
    exact wmiConnect_connects s.ap
  · rw [if_neg h]
    cases e with
    | tick past =>
      unfold step at h
      rw [drive] at h ⊢
      rcases wmiTick_cases s past with ⟨ht, -⟩ | ⟨-, hsent, -, -, ht⟩ | ⟨-, ht⟩
      · rw [ht]
        rfl
      · refine absurd ⟨hsent, ?_⟩ h
        rw [ht]
      · rw [ht]
        exact wmiScanNext_connects s past
    | scan => exact (quiet_of_not_tick (by simp)).connects_eq
    | wmi pktCmd pkt len => exact (quiet_of_not_tick (by simp)).connects_eq
    | data addr pkt len env => exact (quiet_of_not_tick (by simp)).connects_eq

/-- Where a `CONNECT` is sent, and that the same step does not scan. -/
theorem of_connects_pos (h : 0 < connects P s e) :
    (s.apFound = true ∧ s.sentConnect = false ∧ 4 ≤ s.numRoundsScanned) ∧ startScans P s e = 0 ∧
      (step P s e).sentConnect = true := by
  rw [connects_drive] at h
  have hreq : s.sentConnect = false ∧ (step P s e).sentConnect = true := by
    by_contra hno
    rw [if_neg hno] at h
    exact absurd h (lt_irrefl 0)
  refine ⟨?_, ?_, hreq.2⟩
  · have hsel := selects_step P s e
    generalize step P s e = s' at hsel hreq
    obtain ⟨hno, hyes⟩ := hreq
    cases hsel with
    | other _ _ hsent _ _ => exact absurd (hyes.symm.trans (hsent.trans hno)) (by simp)
    | bssInfo pkt len =>
      rw [(wmiHandleBssInfo_flags P.nvram s pkt len).1, hno] at hyes
      exact absurd hyes (by simp)
    | teardown _ _ _ _ => exact absurd hyes (by simp [wmiTeardown, wmiScan])
    | connect _ hfound hsent hrounds => exact ⟨hfound, hsent, hrounds⟩
    | scan past _ =>
      rw [wmiScanNext_sentConnect, hno] at hyes
      exact absurd hyes (by simp)
  · unfold startScans
    rw [drive_of_requests hreq.1 hreq.2]
    exact wmiConnect_startScans s.ap

/-- While a connection is requested, no scan is started. -/
theorem startScans_eq_zero (hs : ConnectsFound s) (hc : s.sentConnect = true) :
    startScans P s e = 0 := by
  unfold startScans
  cases e with
  | tick past =>
    rw [drive]
    rcases wmiTick_cases s past with ⟨ht, -⟩ | ⟨-, hsent, -⟩ | ⟨hscan, -⟩
    · rw [ht]
      rfl
    · exact absurd (hc.symm.trans hsent) (by simp)
    · exact absurd (hs hc) hscan.2.2.1
  | scan => exact (quiet_of_not_tick (by simp)).startScans_eq
  | wmi pktCmd pkt len => exact (quiet_of_not_tick (by simp)).startScans_eq
  | data addr pkt len env => exact (quiet_of_not_tick (by simp)).startScans_eq

end Step

/-! ## One attempt -/

/-- A part of a run without a clearing sends at most one `CONNECT`, and none once one is sent. -/
theorem total_connects_le {P : Platform} {s : Wmi} {seg : List Event}
    (hseg : Run.Along (step P) (fun s e => ¬Clears P s e) s seg) :
    Run.total (step P) (connects P) s seg + (if s.sentConnect = true then 1 else 0) ≤ 1 := by
  induction seg generalizing s with
  | nil =>
    rw [Run.total_nil]
    split_ifs <;> omega
  | cons e seg ih =>
    obtain ⟨hno, htail⟩ := hseg
    have hrest := ih htail
    rw [Run.total_cons, connects_drive]
    cases hc : s.sentConnect with
    | true =>
      -- not cleared, so still requested
      have hc' : (step P s e).sentConnect = true := by
        by_contra hf
        exact hno ⟨hc, by simpa using hf⟩
      rw [if_pos hc'] at hrest
      simpa using hrest
    | false =>
      cases hc' : (step P s e).sentConnect with
      | true =>
        rw [if_pos hc'] at hrest
        simp only [and_self, if_true, Bool.false_eq_true, if_false]
        omega
      | false =>
        rw [if_neg (by simp [hc'])] at hrest
        simpa using hrest

/-- From a requested connection on, a part of a run without a clearing starts no scan. -/
theorem along_no_startScan {P : Platform} {s : Wmi} {seg : List Event} (hs : ConnectsFound s)
    (hc : s.sentConnect = true) (hseg : Run.Along (step P) (fun s e => ¬Clears P s e) s seg) :
    Run.Along (step P) (fun s e => startScans P s e = 0) s seg := by
  refine Run.along_of_inv (I := fun s => ConnectsFound s ∧ s.sentConnect = true) ?_ ?_ ⟨hs, hc⟩ hseg
  · rintro s e ⟨hs, hc⟩ hno
    refine ⟨connectsFound_step P s e hs, ?_⟩
    by_contra hf
    exact hno ⟨hc, by simpa using hf⟩
  · rintro s e ⟨hs, hc⟩ -
    exact startScans_eq_zero hs hc

/-- **One connect for each attempt.** In every run, between two events that clear `sent_connect`
(`seg`) at most one `CONNECT` is sent; each is sent for a found access point with `sent_connect`
clear after at least four rounds; and from then on `seg` starts no scan. -/
theorem one_connect_per_attempt (P : Platform) (pre seg : List Event)
    (hseg : Run.Along (step P) (fun s e => ¬Clears P s e) (runFrom P .init pre) seg) :
    Run.total (step P) (connects P) (runFrom P .init pre) seg ≤ 1 ∧
      ∀ before e after, seg = before ++ e :: after →
        0 < connects P (runFrom P .init (pre ++ before)) e →
          ((runFrom P .init (pre ++ before)).apFound = true ∧
            (runFrom P .init (pre ++ before)).sentConnect = false ∧
            4 ≤ (runFrom P .init (pre ++ before)).numRoundsScanned) ∧
          startScans P (runFrom P .init (pre ++ before)) e = 0 ∧
          Run.Along (step P) (fun s e => startScans P s e = 0)
            (runFrom P .init (pre ++ before ++ [e])) after := by
  constructor
  · have h := total_connects_le hseg
    omega
  · rintro before e after rfl hpos
    obtain ⟨hfound, hscan, hsent⟩ := of_connects_pos hpos
    refine ⟨hfound, hscan, ?_⟩
    have hstep : runFrom P .init (pre ++ before ++ [e]) =
        step P (runFrom P .init (pre ++ before)) e := Run.exec_concat _ _ _
    have hstate : Run.exec (step P) (runFrom P .init pre) before =
        runFrom P .init (pre ++ before) := (Run.exec_append _ _ _).symm
    have hafter := ((Run.along_append _ before _).1 hseg).2.2
    rw [hstate, ← hstep] at hafter
    exact along_no_startScan (connectsFound_runFrom P _) (by rw [hstep]; exact hsent) hafter

/-- Four rounds, the `CONNECT`, and the answer of the card. -/
theorem one_connect_sample :
    0 < connects samplePlatform (runFrom samplePlatform .init scanFourRounds) (.tick 0) ∧
      Run.total (step samplePlatform) (connects samplePlatform)
        (runFrom samplePlatform .init scanFourRounds) [.tick 0, connectEvent, .tick 0] ≤ 1 := by
  refine ⟨by decide +kernel, ?_⟩
  exact (one_connect_per_attempt samplePlatform scanFourRounds [.tick 0, connectEvent, .tick 0]
    (by decide +kernel)).1

end DsiWifi
