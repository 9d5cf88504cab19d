import DsiWifi.Wmi.Driver

/-!
# What a step of the driver does

What a tick, a WMI event (`Handles`) and an EAPOL-Key frame (`dataHandleAuth_snd`) can do, and, from
that, what a WMI event emits (`mem_wmiHandlePkt`) and what any step does to the selected access
point and the connection flags (`selects_step`).  The results about runs are derived from these.
-/

namespace DsiWifi

open ApSecurityType ApCipherType

variable (P : Platform) (s : Wmi)

/-! ## Handlers -/

/-- The two tests of the `DISCONNECT` branch exclude each other. -/
theorem wmiHandleDisconnect_eq (reason : UInt8) :
    wmiHandleDisconnect s reason =
      if s.apConnected = false ∧ s.sentConnect = true ∨
          s.apConnected = true ∧ (reason = 4 ∨ reason = 1 ∨ reason = 5) then wmiTeardown s
      else (s, []) := by
  unfold wmiHandleDisconnect
  cases hc : s.apConnected with
  | false =>
    cases hs : s.sentConnect with
    | false => simp [hc]
    | true => simp [wmiTeardown, wmiScan]
  | true => simp [hc]

/-- Everything `wmi_handle_pkt` can do for an event.  An event that is only noted changes the address
and the flags of the scan. -/
inductive Handles : ℕ → Mem UInt8 → ℕ → Wmi × List Out → Prop
  | noted {pktCmd : ℕ} {pkt : Mem UInt8} {len : ℕ} {out : List Out} (mac : Bytes 6)
      (ready done scanning : Bool) (notList : pktCmd ≠ wmiGetChannelListResp)
      (notBss : pktCmd ≠ wmiBssInfoEvent)
      (emits : out = [] ∨ out = [.wmi .wmiHandshake7, .wmi .dbgoff] ∨
        out = [.wmi (.targetErrorReportBitmask 0x7F)]) :
      Handles pktCmd pkt len
        ({ s with deviceMac := mac, bIsReady := ready, scanDone := done, scanning := scanning }, out)
  | channelList (pkt : Mem UInt8) (len : ℕ) :
      Handles wmiGetChannelListResp pkt len (wmiHandleGetChannelList s pkt, [])
  | bssInfo (pkt : Mem UInt8) (len : ℕ) :
      Handles wmiBssInfoEvent pkt len (wmiHandleBssInfo P.nvram s pkt len)
  | connect (pkt : Mem UInt8) (len : ℕ) : Handles wmiConnectEvent pkt len (wmiHandleConnect s)
  | teardown {pktCmd : ℕ} {pkt : Mem UInt8} {len : ℕ} {out : List Out}
      (notList : pktCmd ≠ wmiGetChannelListResp) (notBss : pktCmd ≠ wmiBssInfoEvent)
      (emits : out = [] ∨ out = [.wmi (.targetErrorReportBitmask 0x7F)]) :
      Handles pktCmd pkt len ((wmiTeardown s).1, out ++ (wmiTeardown s).2)

theorem handles_wmi (pktCmd : ℕ) (pkt : Mem UInt8) (len : ℕ) :
    Handles P s pktCmd pkt len (wmiHandlePkt P s pktCmd pkt len) := by
  by_cases hl : pktCmd = wmiGetChannelListResp
  · subst hl
    exact .channelList pkt len
  by_cases hb : pktCmd = wmiBssInfoEvent
  · subst hb
    exact .bssInfo pkt len
  by_cases hc : pktCmd = wmiConnectEvent
  · subst hc
    exact .connect pkt len
  unfold wmiHandlePkt
  rw [if_neg hl, if_neg hb, if_neg hc]
  split_ifs
  · exact .noted _ s.bIsReady s.scanDone s.scanning hl hb (Or.inl rfl)
  · exact .noted s.deviceMac _ s.scanDone s.scanning hl hb (Or.inr (Or.inl rfl))
  · exact .noted s.deviceMac s.bIsReady s.scanDone s.scanning hl hb (Or.inr (Or.inr rfl))
  · exact .noted s.deviceMac s.bIsReady _ _ hl hb (Or.inl rfl)
  · rw [wmiHandleDisconnect_eq]
    split_ifs
    · exact .teardown hl hb (Or.inl rfl)
    · exact .noted s.deviceMac s.bIsReady s.scanDone s.scanning hl hb (Or.inl rfl)
  · unfold wmiHandleTargetError
    split_ifs
    · exact .teardown hl hb (Or.inr rfl)
    · exact .noted s.deviceMac s.bIsReady s.scanDone s.scanning hl hb (Or.inr (Or.inr rfl))
  · exact .noted s.deviceMac s.bIsReady s.scanDone s.scanning hl hb (Or.inl rfl)

/-- Frames, and commands that neither connect, scan nor install a key. -/
def Out.IsRoutine : Out → Prop
  | .wmi (.connect _) | .wmi .startScan | .wmi (.addCipherKey _) | .ipc _ => False
  | _ => True

theorem mem_wmiPostHandshake {ap : Ap} {keys : Option PostKeys} {o : Out}
    (ho : o ∈ wmiPostHandshake ap keys) :
    o.IsRoutine ∨ o = .ipc .ready ∨ keys ≠ none ∧ ∃ k, o = .wmi (.addCipherKey k) := by
  unfold wmiPostHandshake at ho
  rcases keys with _ | k
  · simp only [List.append_nil, List.mem_append, List.mem_cons, List.not_mem_nil, or_false] at ho
    rcases ho with (rfl | rfl | rfl) | rfl | rfl <;> simp [Out.IsRoutine]
  · dsimp only at ho
    split_ifs at ho
    · simp only [List.mem_append, List.mem_cons, List.not_mem_nil, or_false] at ho
      rcases ho with ((rfl | rfl | rfl) | rfl | rfl) | rfl | rfl <;> simp [Out.IsRoutine]
    · simp only [List.append_nil, List.mem_append, List.mem_cons, List.not_mem_nil, or_false] at ho
      rcases ho with (rfl | rfl | rfl) | rfl | rfl <;> simp [Out.IsRoutine]

variable {P s} in
/-- A WMI event leads to routine commands; `CONNECT` is also passed on to the ARM9. -/
theorem mem_wmiHandlePkt {pktCmd : ℕ} {pkt : Mem UInt8} {len : ℕ} {o : Out}
    (ho : o ∈ (wmiHandlePkt P s pktCmd pkt len).2) :
    o.IsRoutine ∨ pktCmd = wmiConnectEvent ∧ (o = .ipc .connect ∨ o = .ipc .ready) := by
  have hh := handles_wmi P s pktCmd pkt len
  generalize wmiHandlePkt P s pktCmd pkt len = r at hh ho
  cases hh with
  | noted _ _ _ _ _ _ emits =>
    left
    rcases emits with rfl | rfl | rfl
    · exact absurd ho List.not_mem_nil
    · simp only [List.mem_cons, List.not_mem_nil, or_false] at ho
      rcases ho with rfl | rfl <;> trivial
    · rw [List.mem_singleton.1 ho]
      trivial
  | channelList => exact absurd ho List.not_mem_nil
  | bssInfo =>
    left
    obtain ⟨ap, found, done, out, h, emits⟩ := wmiHandleBssInfo_frame P.nvram s pkt len
    rw [h] at ho
    rcases emits with rfl | rfl
    · exact absurd ho List.not_mem_nil
    · rw [List.mem_singleton.1 ho]
      trivial
  | connect =>
    unfold wmiHandleConnect at ho
    rcases List.mem_cons.1 ho with rfl | ho
    · exact Or.inr ⟨rfl, Or.inl rfl⟩
    · split_ifs at ho
      · rcases mem_wmiPostHandshake ho with h | h | ⟨h, -⟩
        · exact Or.inl h
        · exact Or.inr ⟨rfl, Or.inr h⟩
        · exact absurd rfl h
      · exact absurd ho List.not_mem_nil
  | teardown _ _ emits =>
    left
    rcases List.mem_append.1 ho with ho | ho
    · rcases emits with rfl | rfl
      · exact absurd ho List.not_mem_nil
      · rw [List.mem_singleton.1 ho]
        trivial
    · simp only [wmiTeardown, wmiScan, wmiScanCmds, List.mem_append, List.mem_cons,
        List.not_mem_nil, or_false] at ho
      rcases ho with (rfl | rfl) | rfl | rfl | rfl | rfl | rfl <;> trivial

/-- Message 1 is answered; message 3 and a group message are answered and install the pairwise key
in use with the group key they carry; other frames are ignored. -/
theorem dataHandleAuth_snd (C : Crypto) (pkt : Mem UInt8) (devBssid apBssid : Bytes 6)
    (env : AuthEnv) :
    let out := (dataHandleAuth C s pkt devBssid apBssid env).2
    let keys : PostKeys :=
      ⟨s.keys.devicePtk.tk, carriedGtk C s.keys.devicePtk pkt env, authRsc pkt⟩
    (¬(authKeyinfo pkt = 0x13CA ∨ authKeyinfo pkt = 0x1382) ∧ (out = [] ∨ ∃ f, out = [.data f])) ∨
      (authKeyinfo pkt = 0x13CA ∨ authKeyinfo pkt = 0x1382) ∧
        ∃ f, out = .data f :: wmiPostHandshake s.ap (some keys) := by
  unfold dataHandleAuth
  by_cases h1 : authKeyinfo pkt = 0x008A
  · rw [if_pos h1]
    exact Or.inl ⟨by omega, Or.inr ⟨_, rfl⟩⟩
  rw [if_neg h1]
  by_cases h3 : authKeyinfo pkt = 0x13CA
  · rw [if_pos h3]
    exact Or.inr ⟨Or.inl h3, _, rfl⟩
  rw [if_neg h3]
  by_cases hg : authKeyinfo pkt = 0x1382
  · rw [if_pos hg]
    exact Or.inr ⟨Or.inr hg, _, rfl⟩
  · rw [if_neg hg]
    exact Or.inl ⟨by omega, Or.inl rfl⟩

/-- A data packet only touches the handshake variables. -/
theorem dataHandlePkt_fst (addr : ℕ) (pkt : Mem UInt8) (len : ℕ) (env : AuthEnv) :
    ∃ k, (dataHandlePkt P.crypto s addr pkt len env).1 = { s with keys := k } := by
  unfold dataHandlePkt dataHandleAuth
  split_ifs
  · exact ⟨_, rfl⟩
  · exact ⟨_, rfl⟩
  · exact ⟨_, rfl⟩
  · exact ⟨s.keys, rfl⟩
  · exact ⟨s.keys, rfl⟩

/-- A tick connects, does nothing, or goes to the next channel. -/
theorem wmiTick_cases (past : UInt16) :
    (wmiTick s past = (s, []) ∧ ¬Scans s) ∨
      (s.apFound = true ∧ s.sentConnect = false ∧ 4 ≤ s.numRoundsScanned ∧ ¬Scans s ∧
        wmiTick s past = ({ s with sentConnect := true }, wmiConnect s.ap)) ∨
      (Scans s ∧ wmiTick s past = wmiScanNext s past) := by
  unfold wmiTick wmiScantick
  by_cases hb : s.bScanning = true
  · rw [if_pos hb]
    by_cases hn : s.deviceNumChannels = 0
    · rw [if_pos hn]
      exact Or.inl ⟨rfl, fun h => h.2.1 hn⟩
    · rw [if_neg hn]
      by_cases hf : s.apFound = true ∧ 4 ≤ s.numRoundsScanned
      · have hns : ¬Scans s := fun h => h.2.2.1 hf
        cases hc : s.sentConnect with
        | false => exact Or.inr (Or.inl ⟨hf.1, rfl, hf.2, hns, by simp [hf]⟩)
        | true => exact Or.inl ⟨by simp [hf], hns⟩
      · have hc : ¬(s.apFound = true ∧ s.sentConnect = false ∧ 4 ≤ s.numRoundsScanned) :=
          fun h => hf ⟨h.1, h.2.2⟩
        rw [if_neg hc]
        dsimp only
        rw [if_neg hf]
        by_cases hs : s.scanning = false
        · rw [if_pos hs]
          exact Or.inr (Or.inr ⟨⟨hb, hn, hf, hs⟩, rfl⟩)
        · rw [if_neg hs]
          exact Or.inl ⟨rfl, fun h => hs h.2.2.2⟩
  · rw [if_neg hb]
    exact Or.inl ⟨rfl, fun h => hb h.1⟩

/-- The variables a scanning tick writes. -/
theorem wmiScanNext_fst (past : UInt16) : ∃ idx rounds snr scanDone scanning,
    (wmiScanNext s past).1 = { s with
      deviceCurChannelIdx := idx, numRoundsScanned := rounds, ap := { s.ap with snr := snr },
      scanDone := scanDone, scanning := scanning } := by
  unfold wmiScanNext
  dsimp only
  split_ifs <;> exact ⟨_, _, _, _, _, rfl⟩

/-- The commands it sends. -/
theorem wmiScanNext_snd (past : UInt16) :
    (wmiScanNext s past).2 = if channelFreqAt s past = 0 then [] else
      [.wmi (.setChannelParams (channelFreqAt s past)), .wmi (.setScanParams 1 20 50 0),
        .wmi (.setBssFilter 1 0), .wmi .startScan] := by
  unfold wmiScanNext
  dsimp only
  split_ifs <;> rfl

@[simp] theorem wmiScanNext_apFound (past : UInt16) :
    (wmiScanNext s past).1.apFound = s.apFound := by
  obtain ⟨_, _, _, _, _, h⟩ := wmiScanNext_fst s past
  rw [h]

@[simp] theorem wmiScanNext_sentConnect (past : UInt16) :
    (wmiScanNext s past).1.sentConnect = s.sentConnect := by
  obtain ⟨_, _, _, _, _, h⟩ := wmiScanNext_fst s past
  rw [h]

@[simp] theorem wmiScanNext_keys (past : UInt16) : (wmiScanNext s past).1.keys = s.keys := by
  obtain ⟨_, _, _, _, _, h⟩ := wmiScanNext_fst s past
  rw [h]

theorem wmiScanNext_rounds (past : UInt16) :
    (wmiScanNext s past).1.numRoundsScanned = s.numRoundsScanned ∨
      (wmiScanNext s past).1.numRoundsScanned = (s.numRoundsScanned + 1) % 2 ^ 16 := by
  unfold wmiScanNext
  dsimp only
  split_ifs <;> simp

/-- Only the strength of the selected access point is forgotten, every fifth round. -/
theorem wmiScanNext_ap (past : UInt16) :
    let rounds := (wmiScanNext s past).1.numRoundsScanned
    (wmiScanNext s past).1.ap =
      if rounds ≠ 0 ∧ rounds % 5 = 0 then { s.ap with snr := 0 } else s.ap := by
  unfold wmiScanNext
  dsimp only
  split_ifs <;> simp_all

/-! ## The selection -/

/-- What an event does to the selected access point, `ap_found`, `sent_connect` and
`num_rounds_scanned`. -/
inductive Selects : Event → Wmi → Prop
  | other {e : Event} {s' : Wmi} (ap : s'.ap = s.ap) (apFound : s'.apFound = s.apFound)
      (sentConnect : s'.sentConnect = s.sentConnect)
      (rounds : s'.numRoundsScanned = s.numRoundsScanned)
      (notBss : ∀ pkt len, e ≠ .wmi wmiBssInfoEvent pkt len) : Selects e s'
  | bssInfo (pkt : Mem UInt8) (len : ℕ) :
      Selects (.wmi wmiBssInfoEvent pkt len) (wmiHandleBssInfo P.nvram s pkt len).1
  | teardown (pktCmd : ℕ) (pkt : Mem UInt8) (len : ℕ) (notBss : pktCmd ≠ wmiBssInfoEvent) :
      Selects (.wmi pktCmd pkt len) (wmiTeardown s).1
  | connect (past : UInt16) (apFound : s.apFound = true) (sentConnect : s.sentConnect = false)
      (rounds : 4 ≤ s.numRoundsScanned) :
      Selects (.tick past) { s with sentConnect := true }
  | scan (past : UInt16) (h : Scans s) : Selects (.tick past) (wmiScanNext s past).1

theorem selects_wmi (pktCmd : ℕ) (pkt : Mem UInt8) (len : ℕ) :
    Selects P s (.wmi pktCmd pkt len) (wmiHandlePkt P s pktCmd pkt len).1 := by
  have hne : pktCmd ≠ wmiBssInfoEvent → ∀ pkt' len',
      Event.wmi pktCmd pkt len ≠ .wmi wmiBssInfoEvent pkt' len' := by
    intro hb pkt' len' h
    injection h with h
    exact hb h
  have hh := handles_wmi P s pktCmd pkt len
  generalize wmiHandlePkt P s pktCmd pkt len = r at hh ⊢
  cases hh with
  | noted _ _ _ _ _ hb _ => exact .other rfl rfl rfl rfl (hne hb)
  | channelList => exact .other rfl rfl rfl rfl (hne (by decide))
  | bssInfo => exact .bssInfo pkt len
  | connect => exact .other rfl rfl rfl rfl (hne (by decide))
  | teardown _ hb _ => exact .teardown _ _ _ hb

theorem selects_data (addr : ℕ) (pkt : Mem UInt8) (len : ℕ) (env : AuthEnv) :
    Selects P s (.data addr pkt len env) (dataHandlePkt P.crypto s addr pkt len env).1 := by
  obtain ⟨k, hk⟩ := dataHandlePkt_fst P s addr pkt len env
  rw [hk]
  exact .other rfl rfl rfl rfl (by simp)

/-- Every step selects as `Selects` says. -/
theorem selects_step (e : Event) : Selects P s e (step P s e) := by
  unfold step
  cases e with
  | tick past =>
    change Selects P s (.tick past) (wmiTick s past).1
    rcases wmiTick_cases s past with ⟨h, -⟩ | ⟨hf, hc, hr, -, h⟩ | ⟨hs, h⟩
    · rw [h]
      exact .other rfl rfl rfl rfl (by simp)
    · rw [h]
      exact .connect past hf hc hr
    · rw [h]
      exact .scan past hs
  | scan =>
    unfold drive
    split_ifs
    · exact .other rfl rfl rfl rfl (by simp)
    · exact .other rfl rfl rfl rfl (by simp)
  | wmi pktCmd pkt len => exact selects_wmi P s pktCmd pkt len
  | data addr pkt len env => exact selects_data P s addr pkt len env

end DsiWifi
