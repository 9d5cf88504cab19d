import DsiWifi.Wmi.Attempts
import DsiWifi.Wmi.Channels
import Mathlib.Data.List.GetD

/-!
# Rounds of the scanner

The channel index runs from 0 to the number `n` of channels; at `n` it finds the zero behind the
list, so that tick ends the round without a scan.  What a tick, a `SCAN_COMPLETE` or a beacon does to
the index, the round counter and the scans is said once, by `Sweep`; over a round the scans are the
list up to the index (`take_append_scanned`).

The flag `scanning` is set by `START_SCAN` and cleared by `SCAN_COMPLETE` alone
(`scanning_iff_outstanding`), in every run.  `scan_rounds_visit_all` combines the two.
-/

namespace DsiWifi

/-! ## Scans -/

/-- The frequencies of the `START_SCAN` commands among `out`, each the last one tuned to before. -/
def scanFreqs : ℕ → List Out → List ℕ
  | _, [] => []
  | _, .wmi (.setChannelParams mhz) :: out => scanFreqs mhz out
  | mhz, .wmi .startScan :: out => mhz :: scanFreqs mhz out
  | mhz, _ :: out => scanFreqs mhz out

/-- The frequencies that are scanned in the run `es` from `s`. -/
def scanned (P : Platform) : Wmi → List Event → List ℕ
  | _, [] => []
  | s, e :: es => scanFreqs 0 (drive P s e).2 ++ scanned P (step P s e) es

/-- The event makes the driver emit `START_SCAN`. -/
def StartsScan (P : Platform) (s : Wmi) (e : Event) : Prop := .wmi .startScan ∈ (drive P s e).2

/-- The event is `SCAN_COMPLETE`. -/
def Event.CompletesScan : Event → Prop
  | .wmi pktCmd _ _ => pktCmd = wmiScanCompleteEvent
  | _ => False

/-- A scan was started in the run and not completed since. -/
def Outstanding (P : Platform) (es : List Event) : Prop :=
  Run.Since (step P) (StartsScan P) (fun _ e => e.CompletesScan) .init es

/-- Ticks, `SCAN_COMPLETE` and beacons. -/
def Event.IsScanEvent : Event → Prop
  | .tick _ => True
  | .wmi pktCmd _ _ => pktCmd = wmiScanCompleteEvent ∨ pktCmd = wmiBssInfoEvent
  | _ => False

instance (e : Event) : Decidable e.IsScanEvent :=
  match e with
  | .tick _ => inferInstanceAs (Decidable True)
  | .wmi pktCmd _ _ =>
    inferInstanceAs (Decidable (pktCmd = wmiScanCompleteEvent ∨ pktCmd = wmiBssInfoEvent))
  | .scan | .data .. => inferInstanceAs (Decidable False)

/-- The step increments `num_rounds_scanned`. -/
def Increments (P : Platform) (s : Wmi) (e : Event) : Prop :=
  (step P s e).numRoundsScanned = (s.numRoundsScanned + 1) % 2 ^ 16

instance (P : Platform) (s : Wmi) (e : Event) : Decidable (Increments P s e) :=
  inferInstanceAs
    (Decidable ((step P s e).numRoundsScanned = (s.numRoundsScanned + 1) % 2 ^ 16))

theorem scanFreqs_of_not_mem {out : List Out} (h : .wmi .startScan ∉ out) (mhz : ℕ) :
    scanFreqs mhz out = [] := by
  induction out generalizing mhz with
  | nil => rfl
  | cons o out ih =>
    obtain ⟨hne, hout⟩ := not_or.1 (mt List.mem_cons.2 h)
    cases o with
    | data | ipc => exact ih hout _
    | wmi cmd =>
      cases cmd with
      | startScan => exact absurd rfl hne
      | _ => exact ih hout _

/-! ## The next channel -/

theorem wmiScanNext_numRoundsScanned (s : Wmi) (past : UInt16) :
    (wmiScanNext s past).1.numRoundsScanned =
      if s.deviceNumChannels < (s.deviceCurChannelIdx + 1) % 2 ^ 8 then
        (s.numRoundsScanned + 1) % 2 ^ 16
      else s.numRoundsScanned := by
  unfold wmiScanNext; dsimp only; split_ifs <;> rfl

theorem wmiScanNext_scanning (s : Wmi) (past : UInt16) :
    (wmiScanNext s past).1.scanning = if channelFreqAt s past = 0 then s.scanning else true := by
  unfold wmiScanNext; dsimp only; split_ifs <;> rfl

/-! ## Outstanding scans -/

theorem startScan_not_mem_wmiConnect (ap : Ap) : .wmi .startScan ∉ wmiConnect ap := by
  intro h
  exact List.countP_eq_zero.1 (wmiConnect_startScans ap) _ h rfl

theorem Quiet.startScan_not_mem {out : List Out} (h : Quiet out) : .wmi .startScan ∉ out := by
  intro hmem
  exact absurd (h _ hmem).2 (by decide)

theorem wmiHandlePkt_scanning (P : Platform) (s : Wmi) (pktCmd : ℕ) (pkt : Mem UInt8) (len : ℕ) :
    (wmiHandlePkt P s pktCmd pkt len).1.scanning =
      if pktCmd = wmiScanCompleteEvent then false else s.scanning := by
  by_cases hc : pktCmd = wmiScanCompleteEvent
  · rw [if_pos hc, hc]
    rfl
  rw [if_neg hc]
  unfold wmiHandlePkt
  rw [if_neg hc]
  split_ifs
  · rfl
  · rfl
  · rfl
  · rfl
  · obtain ⟨ap, found, done, out, h, -⟩ := wmiHandleBssInfo_frame P.nvram s pkt len
    rw [h]
  · rfl
  · rw [wmiHandleDisconnect_eq]
    split_ifs <;> rfl
  · unfold wmiHandleTargetError
    split_ifs <;> rfl
  · rfl

/-- The flag after a step. -/
theorem scanning_step (P : Platform) (s : Wmi) (e : Event) :
    (step P s e).scanning = true ↔
      StartsScan P s e ∨ ¬e.CompletesScan ∧ s.scanning = true := by
  unfold StartsScan step
  cases e with
  | tick past =>
    change (wmiTick s past).1.scanning = true ↔ .wmi .startScan ∈ (wmiTick s past).2 ∨ _
    rcases wmiTick_cases s past with ⟨h, -⟩ | ⟨-, -, -, -, h⟩ | ⟨-, h⟩
    · rw [h]
      simp [Event.CompletesScan]
    · rw [h]
      simp [Event.CompletesScan, startScan_not_mem_wmiConnect]
    · rw [h, wmiScanNext_scanning, wmiScanNext_snd]
      split_ifs <;> simp [Event.CompletesScan]
  | scan =>
    unfold drive
    split_ifs <;> simp [Event.CompletesScan, wmiScan, wmiScanCmds]
  | wmi pktCmd pkt len =>
    change (wmiHandlePkt P s pktCmd pkt len).1.scanning = true ↔ _
    have hno := (quiet_wmiHandlePkt P s pktCmd pkt len).startScan_not_mem
    rw [wmiHandlePkt_scanning]
    by_cases hc : pktCmd = wmiScanCompleteEvent
    · rw [if_pos hc]
      exact iff_of_false (by decide) (not_or.2 ⟨hno, fun h => h.1 hc⟩)
    · rw [if_neg hc]
      exact ⟨fun h => Or.inr ⟨hc, h⟩, fun h => (h.resolve_left hno).2⟩
  | data addr pkt len env =>
    obtain ⟨k, hk⟩ := dataHandlePkt_fst P s addr pkt len env
    have hno := (quiet_dataHandlePkt P.crypto s addr pkt len env).startScan_not_mem
    change (dataHandlePkt P.crypto s addr pkt len env).1.scanning = true ↔ _
    rw [hk]
    exact ⟨fun h => Or.inr ⟨fun h => h, h⟩, fun h => (h.resolve_left hno).2⟩

/-- In every run the flag tells whether a scan is outstanding. -/
theorem scanning_iff_outstanding (P : Platform) (es : List Event) :
    (runFrom P .init es).scanning = true ↔ Outstanding P es :=
  Run.since_iff_of_step (f := fun s : Wmi => s.scanning = true) (by decide) (scanning_step P) es

/-- A scan is only started by a tick that finds none outstanding. -/
theorem scanning_of_startsScan {P : Platform} {s : Wmi} {e : Event} (h : StartsScan P s e) :
    s.scanning = false := by
  unfold StartsScan at h
  cases e with
  | tick past =>
    change .wmi .startScan ∈ (wmiTick s past).2 at h
    rcases wmiTick_cases s past with ⟨ht, -⟩ | ⟨-, -, -, -, ht⟩ | ⟨hs, -⟩
    · rw [ht] at h
      exact absurd h List.not_mem_nil
    · rw [ht] at h
      exact absurd h (startScan_not_mem_wmiConnect _)
    · exact hs.2.2.2
  | scan =>
    unfold drive at h
    split_ifs at h <;> simp [wmiScan, wmiScanCmds] at h
  | wmi pktCmd pkt len => exact absurd h (quiet_wmiHandlePkt P s pktCmd pkt len).startScan_not_mem
  | data addr pkt len env =>
    exact absurd h (quiet_dataHandlePkt P.crypto s addr pkt len env).startScan_not_mem

/-! ## Rounds -/

/-- The table holds the list `freqs` of at most 31 channels and a zero behind it, and the index is
on the list or just behind it. -/
structure Sweeps (freqs : List ℕ) (s : Wmi) : Prop where
  short : freqs.length ≤ 31
  num : s.deviceNumChannels = freqs.length
  entry : ∀ i : Fin 32, ∀ h : i.val < freqs.length, s.channelFreqs i = freqs[i.val]
  zero : ∀ i : Fin 32, i.val = freqs.length → s.channelFreqs i = 0
  idx : s.deviceCurChannelIdx ≤ freqs.length

/-- What a step does to index and round counter, and the frequencies it scans. -/
inductive Sweep (freqs : List ℕ) (s s' : Wmi) : List ℕ → Prop
  | rest (idx : s'.deviceCurChannelIdx = s.deviceCurChannelIdx)
      (rounds : s'.numRoundsScanned = s.numRoundsScanned) : Sweep freqs s s' []
  | visit (h : s.deviceCurChannelIdx < freqs.length)
      (idx : s'.deviceCurChannelIdx = s.deviceCurChannelIdx + 1)
      (rounds : s'.numRoundsScanned = s.numRoundsScanned) :
      Sweep freqs s s' [freqs[s.deviceCurChannelIdx]]
  | wrap (h : s.deviceCurChannelIdx = freqs.length) (idx : s'.deviceCurChannelIdx = 0)
      (rounds : s'.numRoundsScanned = (s.numRoundsScanned + 1) % 2 ^ 16) : Sweep freqs s s' []

/-- The frequency at the index: one of the list, or the zero behind it. -/
theorem Sweeps.channelFreqAt {freqs : List ℕ} {s : Wmi} (h : Sweeps freqs s) (past : UInt16) :
    channelFreqAt s past = freqs.getD s.deviceCurChannelIdx 0 := by
  have hidx := h.idx
  have hshort := h.short
  unfold DsiWifi.channelFreqAt
  rw [dif_pos (by omega)]
  by_cases hlt : s.deviceCurChannelIdx < freqs.length
  · rw [h.entry _ hlt, List.getD_eq_getElem _ _ hlt]
  · rw [h.zero _ (by simp only; omega), List.getD_eq_default _ _ (by omega)]

theorem sweep_wmiScanNext {freqs : List ℕ} {s : Wmi} (h : Sweeps freqs s)
    (hfreqs : ∀ f ∈ freqs, f ≠ 0) (past : UInt16) :
    Sweep freqs s (wmiScanNext s past).1 (scanFreqs 0 (wmiScanNext s past).2) := by
  have hidx := h.idx
  have hshort := h.short
  have hmod : (s.deviceCurChannelIdx + 1) % 2 ^ 8 = s.deviceCurChannelIdx + 1 :=
    Nat.mod_eq_of_lt (by omega)
  rw [wmiScanNext_snd, h.channelFreqAt past]
  by_cases hlt : s.deviceCurChannelIdx < freqs.length
  · have hnot : ¬s.deviceNumChannels < s.deviceCurChannelIdx + 1 := by
      rw [h.num]
      omega
    rw [List.getD_eq_getElem _ _ hlt, if_neg (hfreqs _ (List.getElem_mem hlt))]
    refine .visit hlt ?_ ?_
    · rw [wmiScanNext_deviceCurChannelIdx, hmod, if_neg hnot]
    · rw [wmiScanNext_numRoundsScanned, hmod, if_neg hnot]
  · have hgt : s.deviceNumChannels < s.deviceCurChannelIdx + 1 := by
      rw [h.num]
      omega
    rw [List.getD_eq_default _ _ (by omega), if_pos rfl]
    refine .wrap (by omega) ?_ ?_
    · rw [wmiScanNext_deviceCurChannelIdx, hmod, if_pos hgt]
    · rw [wmiScanNext_numRoundsScanned, hmod, if_pos hgt]

/-- Ticks, `SCAN_COMPLETE` and beacons sweep as `Sweep` says. -/
theorem sweep_step (P : Platform) {freqs : List ℕ} {s : Wmi} (h : Sweeps freqs s)
    (hfreqs : ∀ f ∈ freqs, f ≠ 0) {e : Event} (he : e.IsScanEvent) :
    Sweep freqs s (step P s e) (scanFreqs 0 (drive P s e).2) := by
  unfold step
  cases e with
  | tick past =>
    change Sweep freqs s (wmiTick s past).1 (scanFreqs 0 (wmiTick s past).2)
    rcases wmiTick_cases s past with ⟨ht, -⟩ | ⟨-, -, -, -, ht⟩ | ⟨-, ht⟩
    · rw [ht]
      exact .rest rfl rfl
    · rw [ht, scanFreqs_of_not_mem (startScan_not_mem_wmiConnect _)]
      exact .rest rfl rfl
    · rw [ht]
      exact sweep_wmiScanNext h hfreqs past
  | scan => exact absurd he id
  | wmi pktCmd pkt len =>
    change Sweep freqs s (wmiHandlePkt P s pktCmd pkt len).1
      (scanFreqs 0 (wmiHandlePkt P s pktCmd pkt len).2)
    rw [scanFreqs_of_not_mem (quiet_wmiHandlePkt P s pktCmd pkt len).startScan_not_mem]
    rcases he with rfl | rfl
    · exact .rest rfl rfl
    · obtain ⟨ap, found, done, out, hb, -⟩ := wmiHandleBssInfo_frame P.nvram s pkt len
      change Sweep freqs s (wmiHandleBssInfo P.nvram s pkt len).1 []
      rw [hb]
      exact .rest rfl rfl
  | data => exact absurd he id

theorem sweeps_step (P : Platform) {freqs : List ℕ} {s : Wmi} (h : Sweeps freqs s)
    (hfreqs : ∀ f ∈ freqs, f ≠ 0) {e : Event} (he : e.IsScanEvent) : Sweeps freqs (step P s e) := by
  have hidx : (step P s e).deviceCurChannelIdx ≤ freqs.length := by
    have hsweep := sweep_step P h hfreqs he
    generalize step P s e = s' at hsweep ⊢
    generalize scanFreqs 0 (drive P s e).2 = fs at hsweep
    cases hsweep with
    | rest idx => rw [idx]; exact h.idx
    | visit hlt idx => rw [idx]; exact hlt
    | wrap _ idx => rw [idx]; exact Nat.zero_le _
  have ht := tunes_step P s e
  generalize step P s e = s' at ht hidx ⊢
  cases ht with
  | other hnum _ hfreq _ _ =>
    exact ⟨h.short, hnum.trans h.num, hfreq ▸ h.entry, hfreq ▸ h.zero, hidx⟩
  | list pkt len => rcases he with h | h <;> exact absurd h (by decide)
  | scan past _ =>
    exact ⟨h.short, (wmiScanNext_deviceNumChannels s past).trans h.num,
      (wmiScanNext_channelFreqs s past).symm ▸ h.entry,
      (wmiScanNext_channelFreqs s past).symm ▸ h.zero, hidx⟩

theorem sweeps_run (P : Platform) {freqs : List ℕ} {s : Wmi} (h : Sweeps freqs s)
    (hfreqs : ∀ f ∈ freqs, f ≠ 0) {es : List Event} (hes : ∀ e ∈ es, e.IsScanEvent) :
    Sweeps freqs (runFrom P s es) := by
  induction es generalizing s with
  | nil => exact h
  | cons e es ih =>
    exact ih (sweeps_step P h hfreqs (hes e List.mem_cons_self)) fun e' he' =>
      hes e' (List.mem_cons_of_mem _ he')

/-- A step that increments the counter ends a round. -/
theorem wrap_of_increments {P : Platform} {freqs : List ℕ} {s : Wmi} (h : Sweeps freqs s)
    (hfreqs : ∀ f ∈ freqs, f ≠ 0) {e : Event} (he : e.IsScanEvent) (hinc : Increments P s e) :
    s.deviceCurChannelIdx = freqs.length ∧ (step P s e).deviceCurChannelIdx = 0 ∧
      scanFreqs 0 (drive P s e).2 = [] := by
  have hsweep := sweep_step P h hfreqs he
  unfold Increments at hinc
  generalize step P s e = s' at hsweep hinc ⊢
  generalize scanFreqs 0 (drive P s e).2 = fs at hsweep ⊢
  cases hsweep with
  | rest _ rounds => omega
  | visit _ _ rounds => omega
  | wrap hidx idx _ => exact ⟨hidx, idx, rfl⟩

/-- Within a round the scans are the list from the index before to the index after. -/
theorem take_append_scanned (P : Platform) {freqs : List ℕ} {s : Wmi} (h : Sweeps freqs s)
    (hfreqs : ∀ f ∈ freqs, f ≠ 0) {es : List Event} (hes : ∀ e ∈ es, e.IsScanEvent)
    (hround : Run.Along (step P) (fun s e => ¬Increments P s e) s es) :
    freqs.take s.deviceCurChannelIdx ++ scanned P s es =
      freqs.take (runFrom P s es).deviceCurChannelIdx := by
  induction es generalizing s with
  | nil => exact List.append_nil _
  | cons e es ih =>
    have he := hes e List.mem_cons_self
    have hrest := ih (sweeps_step P h hfreqs he)
      (fun e' he' => hes e' (List.mem_cons_of_mem _ he')) hround.2
    have hsweep := sweep_step P h hfreqs he
    have hinc : ¬Increments P s e := hround.1
    unfold Increments at hinc
    rw [runFrom, Run.exec_cons, ← hrest, scanned, ← List.append_assoc]
    congr 1
    generalize step P s e = s' at hsweep hinc ⊢
    generalize scanFreqs 0 (drive P s e).2 = fs at hsweep ⊢
    cases hsweep with
    | rest idx _ => rw [idx, List.append_nil]
    | visit hlt idx _ => rw [idx, List.take_concat_get' _ _ hlt]
    | wrap _ _ rounds => exact absurd rounds hinc

theorem sweeps_list (s : Wmi) (pkt : Mem UInt8) (hn : (pkt 1).toNat ≤ 31)
    (hidx : s.deviceCurChannelIdx = 0)
    (hbeyond : ∀ i : Fin 32, (pkt 1).toNat ≤ i.val → s.channelFreqs i = 0) :
    Sweeps (channelEntries pkt) (wmiHandleGetChannelList s pkt) := by
  have htuned := tuned_list s pkt
  have hlen : (channelEntries pkt).length = (pkt 1).toNat := by simp [channelEntries]
  refine ⟨by omega, htuned.num, htuned.entry, fun i hi => ?_, ?_⟩
  · have hnot : ¬i.val < min (pkt 1).toNat 32 := by omega
    exact (if_neg hnot).trans (hbeyond i (by omega))
  · exact hidx.le.trans (Nat.zero_le _)

/-- **Rounds.** A list of 1 to 31 channels arrives while the index is 0 and the table is clear
behind it.  Then, in every run of ticks, `SCAN_COMPLETE` and beacons, the scans between two
increments of the round counter are the channels of the list, once each and in order, and no scan
is started while one is outstanding. -/
theorem scan_rounds_visit_all (P : Platform) (hist es : List Event) (pkt : Mem UInt8) (len : ℕ)
    (hn : 1 ≤ (pkt 1).toNat ∧ (pkt 1).toNat ≤ 31) (hfreqs : ∀ f ∈ channelEntries pkt, f ≠ 0)
    (hidx : (runFrom P .init hist).deviceCurChannelIdx = 0)
    (hbeyond : ∀ i : Fin 32, (pkt 1).toNat ≤ i.val → (runFrom P .init hist).channelFreqs i = 0)
    (hes : ∀ e ∈ es, e.IsScanEvent) :
    let start := hist ++ [.wmi wmiGetChannelListResp pkt len]
    (∀ pre e₁ mid e₂ post, es = pre ++ e₁ :: (mid ++ e₂ :: post) →
      Increments P (runFrom P .init (start ++ pre)) e₁ →
      Run.Along (step P) (fun s e => ¬Increments P s e)
        (runFrom P .init (start ++ pre ++ [e₁])) mid →
      Increments P (runFrom P .init (start ++ pre ++ [e₁] ++ mid)) e₂ →
      scanned P (runFrom P .init (start ++ pre)) (e₁ :: mid) = channelEntries pkt) ∧
    ∀ pre e post, es = pre ++ e :: post → StartsScan P (runFrom P .init (start ++ pre)) e →
      ¬Outstanding P (start ++ pre) := by
  intro start
  have hstart : Sweeps (channelEntries pkt) (runFrom P .init start) := by
    rw [runFrom, Run.exec_concat]
    exact sweeps_list _ pkt hn.2 hidx hbeyond
  constructor
  · intro pre e₁ mid e₂ post heq hinc₁ hround hinc₂
    have hpre : ∀ e ∈ pre, e.IsScanEvent := fun e he => hes e (by simp [heq, he])
    have he₁ : e₁.IsScanEvent := hes e₁ (by simp [heq])
    have hmid : ∀ e ∈ mid, e.IsScanEvent := fun e he => hes e (by simp [heq, he])
    have he₂ : e₂.IsScanEvent := hes e₂ (by simp [heq])
    rw [runFrom, Run.exec_append] at hinc₁ ⊢
    rw [runFrom, Run.exec_concat, Run.exec_append] at hround
    rw [runFrom, Run.exec_append, Run.exec_concat, Run.exec_append] at hinc₂
    have hs : Sweeps (channelEntries pkt)
        (Run.exec (step P) (Run.exec (step P) .init start) pre) :=
      sweeps_run P hstart hfreqs hpre
    generalize Run.exec (step P) (Run.exec (step P) .init start) pre = s at *
    obtain ⟨-, hzero, hnone⟩ := wrap_of_increments hs hfreqs he₁ hinc₁
    have hs₁ := sweeps_step P hs hfreqs he₁
    obtain ⟨hend, -, -⟩ := wrap_of_increments (sweeps_run P hs₁ hfreqs hmid) hfreqs he₂ hinc₂
    have hvisits := take_append_scanned P hs₁ hfreqs hmid hround
    rw [hzero, hend, List.take_zero, List.take_length, List.nil_append] at hvisits
    rw [scanned, hnone, List.nil_append, hvisits]
  · intro pre e post heq hstarts hout
    have hscanning := (scanning_iff_outstanding P (start ++ pre)).2 hout
    rw [scanning_of_startsScan hstarts] at hscanning
    exact absurd hscanning (by decide)

/-- The channels 1, 6 and 11. -/
def threeChannels : Mem UInt8 := .ofList [0, 3, 0x6C, 0x09, 0x85, 0x09, 0x9E, 0x09] 0

/-- Three scans. -/
def threeScans : List Event := (List.replicate 3 [.tick 0, scanCompleteEvent]).flatten

/-- A round over three channels, behind a beacon. -/
theorem scan_rounds_sample :
    scanned samplePlatform
      (runFrom samplePlatform .init (scanFourRounds.take 2 ++
        [.wmi wmiGetChannelListResp threeChannels 8] ++ wpa2Beacon :: threeScans))
      (.tick 0 :: scanCompleteEvent :: threeScans) = [0x096C, 0x0985, 0x099E] :=
  (scan_rounds_visit_all samplePlatform (scanFourRounds.take 2)
    (wpa2Beacon :: threeScans ++ .tick 0 :: (scanCompleteEvent :: threeScans ++ [.tick 0]))
    threeChannels 8 (by decide) (by decide) (by decide +kernel)
    (by decide +kernel) (by decide)).1 (wpa2Beacon :: threeScans) (.tick 0)
    (scanCompleteEvent :: threeScans) (.tick 0) [] rfl
    (by decide +kernel) (by decide +kernel) (by decide +kernel)

end DsiWifi
