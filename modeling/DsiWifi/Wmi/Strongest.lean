import DsiWifi.Wmi.Attempts
import DsiWifi.Wmi.Ciphers

/-!
# The strongest access point

`ap_snr` is a running maximum: a beacon is taken when it is stronger, and nothing else raises or
lowers it, except that every fifth round of scanning without a candidate sets it to zero
(`ForgetsSnr`).  Giving a connection up does not touch it.  So at any time it bounds the strength of
every eligible beacon heard since it was last set to zero (`strongest_since_forgotten`), also of
those heard before the last connection was given up, and not of those heard before it was set to
zero (`strongest_since_teardown_counterexample`).
-/

namespace DsiWifi

open ApSecurityType ApCipherType

/-! ## Beacons -/

/-- The selection with its strength forgotten. -/
def Wmi.forgetSnr (s : Wmi) : Wmi := { s with ap := { s.ap with snr := 0 } }

/-- The event would be accepted if no strength were remembered: it is strong enough to be heard, and a
flash slot takes it or, as long as no access point is found, a legacy slot. -/
def Eligible (nv : Nvram) (s : Wmi) (pkt : Mem UInt8) (len : ℕ) : Prop :=
  AcceptsBss nv s.forgetSnr pkt len

instance (nv : Nvram) (s : Wmi) (pkt : Mem UInt8) (len : ℕ) : Decidable (AcceptsBss nv s pkt len) := by
  unfold AcceptsBss; infer_instance

instance (nv : Nvram) (s : Wmi) (pkt : Mem UInt8) (len : ℕ) : Decidable (Eligible nv s pkt len) := by
  unfold Eligible; infer_instance

section

variable {nv : Nvram} {pkt : Mem UInt8} {len : ℕ}

/-- The slot that accepts depends on the selection only by whether the beacon is stronger. -/
theorem nvramLoop_snd_congr {is : List (Fin 3)} {l : BssLocals} {ap ap' : Ap}
    (h : ap.snr < bssSnr pkt) (h' : ap'.snr < bssSnr pkt) :
    (nvramLoop nv pkt len is l ap).2 = (nvramLoop nv pkt len is l ap').2 := by
  induction is generalizing l ap ap' with
  | nil => rfl
  | cons i is ih =>
    have hm : (nv.configs i).Matches pkt len ap.snr ↔ (nv.configs i).Matches pkt len ap'.snr := by
      unfold NvramCfg.Matches
      simp only [h, h']
    by_cases hi : (nv.configs i).Matches pkt len ap.snr
    · by_cases hr : (nv.configs i).Refuses l
      · rw [nvramLoop_of_refuses hi hr, nvramLoop_of_refuses (hm.1 hi) hr]
        exact ih (by rwa [nvramSlotAp_snr]) (by rwa [nvramSlotAp_snr])
      · rw [nvramLoop_of_accepts hi hr, nvramLoop_of_accepts (hm.1 hi) hr]
    · rw [nvramLoop_of_not_matches hi, nvramLoop_of_not_matches fun hi' => hi (hm.2 hi')]
      exact ih h h'

theorem wepLoop_snd_congr {is : List (Fin 3)} {ap : Ap} (ap' : Ap) (h : ap.snr < bssSnr pkt)
    (h' : ap'.snr < bssSnr pkt) :
    (wepLoop nv pkt len is ap).2 = (wepLoop nv pkt len is ap').2 := by
  induction is with
  | nil => rfl
  | cons i is ih =>
    have hm : (nv.wepConfigs i).Matches pkt len ap.snr ↔
        (nv.wepConfigs i).Matches pkt len ap'.snr := by
      unfold NvramCfgWep.Matches
      simp only [h, h']
    unfold wepLoop
    dsimp only
    by_cases hi : (nv.wepConfigs i).Matches pkt len ap.snr
    · rw [if_pos hi, if_pos (hm.1 hi)]
    · rw [if_neg hi, if_neg (fun hi' => hi (hm.2 hi')), ih]

theorem bssNvram_none_snr {ap : Ap} (h : (bssNvram nv pkt len ap).2 = none) :
    (bssNvram nv pkt len ap).1.snr = ap.snr := by
  rcases hb : bssNvram nv pkt len ap with ⟨ap', slot⟩
  rw [hb] at h
  subst h
  rcases (bssNvram_none hb).2 with rfl | ⟨j, -, -, rfl⟩
  · rfl
  · exact nvramSlotAp_snr _ _ _

/-- An eligible beacon that is stronger than the selection is accepted. -/
theorem acceptsBss_of_eligible {s : Wmi} (h : Eligible nv s pkt len)
    (hsnr : s.ap.snr < bssSnr pkt) : AcceptsBss nv s pkt len := by
  have hz : s.forgetSnr.ap.snr < bssSnr pkt := Nat.zero_lt_of_lt hsnr
  have hsame : (bssNvram nv pkt len s.ap).2 = (bssNvram nv pkt len s.forgetSnr.ap).2 :=
    nvramLoop_snd_congr hsnr hz
  rcases h with ⟨i, hh, hi⟩ | ⟨hh, hf, hn, hw⟩
  · exact Or.inl ⟨i, hh, hsame.trans hi⟩
  · refine Or.inr ⟨hh, hf, hsame.trans hn, ?_⟩
    rwa [wepLoop_snd_congr (bssNvram nv pkt len s.forgetSnr.ap).1
      (by rwa [bssNvram_none_snr (hsame.trans hn)]) (by rwa [bssNvram_none_snr hn])]

/-- An accepted beacon gives its strength to the selection. -/
theorem snr_of_acceptsBss {s : Wmi} (h : AcceptsBss nv s pkt len) :
    (wmiHandleBssInfo nv s pkt len).1.ap.snr = bssSnr pkt := by
  rcases h with ⟨i, hi⟩ | ⟨⟨hlen, hsnr⟩, hfound, hnone, hwep⟩
  · have hb : bssNvram nv pkt len s.ap = ((bssNvram nv pkt len s.ap).1, some i) :=
      Prod.ext rfl hi.2
    obtain ⟨-, -, hap⟩ := bssNvram_some hb
    rw [wmiHandleBssInfo_of_accepts hi, hap]
    rfl
  · unfold wmiHandleBssInfo
    rw [if_neg (by omega), if_neg (by omega)]
    rcases hb : bssNvram nv pkt len s.ap with ⟨ap, slot⟩
    rw [hb] at hnone hwep
    subst hnone
    dsimp only at hwep ⊢
    rw [if_neg (by simp [hfound])]
    rcases @wepLoop_cases nv pkt len [0, 1, 2] ap with ⟨h, -⟩ | ⟨j, -, -, h⟩
    · exact absurd (by rw [h]) hwep
    · rw [h]
      rfl

/-- A beacon never lowers the strength of the selection. -/
theorem snr_le_wmiHandleBssInfo (s : Wmi) :
    s.ap.snr ≤ (wmiHandleBssInfo nv s pkt len).1.ap.snr := by
  rcases wmiHandleBssInfo_cases nv s pkt len with
    ⟨hap, -⟩ | ⟨hh, -, i, hacc⟩ | ⟨-, -, -, j, hm, hap⟩ | ⟨-, -, -, -, j, -, -, hap⟩
  · rw [hap]
  · obtain ⟨hm, -, hap⟩ := bssNvram_some hacc
    rw [hap]
    exact hm.2.2.2.2.le
  · rw [hap]
    exact hm.2.2.2.2.le
  · rw [hap, nvramSlotAp_snr]

/-- After an eligible beacon the selection is at least as strong as it. -/
theorem bssSnr_le_of_eligible {s : Wmi} (h : Eligible nv s pkt len) :
    bssSnr pkt ≤ (wmiHandleBssInfo nv s pkt len).1.ap.snr := by
  by_cases hsnr : s.ap.snr < bssSnr pkt
  · exact (snr_of_acceptsBss (acceptsBss_of_eligible h hsnr)).ge
  · exact (Nat.le_of_not_lt hsnr).trans (snr_le_wmiHandleBssInfo s)

end

/-! ## Runs -/

/-- The tick sets `ap_snr` to zero. -/
def ForgetsSnr (s : Wmi) : Event → Prop
  | .tick past => Scans s ∧ (wmiScanNext s past).1.numRoundsScanned ≠ 0 ∧
      (wmiScanNext s past).1.numRoundsScanned % 5 = 0
  | _ => False

instance (s : Wmi) (e : Event) : Decidable (ForgetsSnr s e) :=
  match e with
  | .tick _ => by unfold ForgetsSnr; infer_instance
  | .scan | .wmi .. | .data .. => inferInstanceAs (Decidable False)

/-- The event gives the connection up. -/
def TearsDown (s : Wmi) : Event → Prop
  | .wmi pktCmd pkt _ =>
    pktCmd = wmiDisconnectEvent ∧ (s.apConnected = false ∧ s.sentConnect = true ∨
        s.apConnected = true ∧ (pkt 8 = 4 ∨ pkt 8 = 1 ∨ pkt 8 = 5)) ∨
      pktCmd = wmiTargetErrorReportEvent ∧ getle32 pkt 0 = 8
  | _ => False

instance (s : Wmi) (e : Event) : Decidable (TearsDown s e) :=
  match e with
  | .wmi .. => by unfold TearsDown; infer_instance
  | .tick _ | .scan | .data .. => inferInstanceAs (Decidable False)

/-- The strength is forgotten only while no access point is selected. -/
theorem apFound_of_forgetsSnr {s : Wmi} {e : Event} (h : ForgetsSnr s e) : s.apFound = false := by
  cases e with
  | tick past =>
    obtain ⟨⟨-, -, hno, -⟩, hne, hfive⟩ := h
    by_contra hf
    have hrounds : ¬4 ≤ s.numRoundsScanned := fun hr => hno ⟨by simpa using hf, hr⟩
    have hlt : s.numRoundsScanned + 1 < 2 ^ 16 := by omega
    rcases wmiScanNext_rounds s past with h | h
    · rw [h] at hne hfive
      omega
    · rw [h, Nat.mod_eq_of_lt hlt] at hne hfive
      omega
  | scan => exact h.elim
  | wmi => exact h.elim
  | data => exact h.elim

/-- Every other step keeps or raises the strength of the selection. -/
theorem snr_le_step {P : Platform} {s : Wmi} {e : Event} (h : ¬ForgetsSnr s e) :
    s.ap.snr ≤ (step P s e).ap.snr := by
  have hsel := selects_step P s e
  generalize step P s e = s' at hsel ⊢
  cases hsel with
  | other hap _ _ _ _ => rw [hap]
  | bssInfo pkt len => exact snr_le_wmiHandleBssInfo s
  | teardown _ _ _ _ => exact le_rfl
  | connect _ _ _ _ => exact le_rfl
  | scan past hs =>
    rw [wmiScanNext_ap, if_neg fun hr => h ⟨hs, hr⟩]

theorem snr_le_run {P : Platform} {s : Wmi} {es : List Event}
    (h : Run.Along (step P) (fun s e => ¬ForgetsSnr s e) s es) :
    s.ap.snr ≤ (runFrom P s es).ap.snr :=
  Run.inv_exec (I := fun s' => s.ap.snr ≤ s'.ap.snr)
    (fun _ _ hle hno => hle.trans (snr_le_step hno)) le_rfl h

/-- **The strongest eligible beacon.** In every state, so whenever `wmi_connect` is called, the
selection is at least as strong as every eligible beacon heard since `ap_snr` was last set to zero,
or since the start; and `ap_snr` is set to zero only while no access point is selected. -/
theorem strongest_since_forgotten (P : Platform) (pre post : List Event) (pkt : Mem UInt8) (len : ℕ)
    (hel : Eligible P.nvram (runFrom P .init pre) pkt len)
    (hkeep : Run.Along (step P) (fun s e => ¬ForgetsSnr s e)
      (runFrom P .init (pre ++ [.wmi wmiBssInfoEvent pkt len])) post) :
    let s := runFrom P .init (pre ++ .wmi wmiBssInfoEvent pkt len :: post)
    bssSnr pkt ≤ s.ap.snr ∧ ∀ e, ForgetsSnr s e → s.apFound = false := by
  have hstep : runFrom P .init (pre ++ [.wmi wmiBssInfoEvent pkt len]) =
      (wmiHandleBssInfo P.nvram (runFrom P .init pre) pkt len).1 := Run.exec_concat _ _ _
  have hrun : runFrom P .init (pre ++ .wmi wmiBssInfoEvent pkt len :: post) =
      runFrom P (runFrom P .init (pre ++ [.wmi wmiBssInfoEvent pkt len])) post := by
    rw [List.append_cons]
    exact Run.exec_append _ _ _
  refine ⟨?_, fun e => apFound_of_forgetsSnr⟩
  calc bssSnr pkt
      ≤ (runFrom P .init (pre ++ [.wmi wmiBssInfoEvent pkt len])).ap.snr := by
        rw [hstep]
        exact bssSnr_le_of_eligible hel
    _ ≤ _ := by
        rw [hrun]
        exact snr_le_run hkeep

/-! ### Sample runs -/

/-- A beacon of the network `ab`, announced with CCMP and PSK. -/
def abBeacon (snr : UInt8) : Mem UInt8 := .ofList (beacon snr 0x10 (ssidAb ++ rsnCcmp 2)) 0

/-- A round of scanning of the one channel. -/
def scanRound : List Event := [.tick 0, scanCompleteEvent, .tick 0, scanCompleteEvent]

/-- A stronger and a weaker beacon, heard before the connection is requested. -/
theorem strongest_since_forgotten_sample :
    bssSnr (abBeacon 0x50) ≤ (runFrom twoSlots .init ((scanHearing (cdBeacon 0x30)) ++
      .wmi wmiBssInfoEvent (abBeacon 0x50) 54 :: [cdBeacon 0x40])).ap.snr :=
  (strongest_since_forgotten twoSlots (scanHearing (cdBeacon 0x30)) [cdBeacon 0x40] (abBeacon 0x50)
    54 (by decide +kernel) (by decide +kernel)).1

/-- Up to the refusal of a connection to an access point of strength `0x50`. -/
def refusedAttempt : List Event :=
  scanHearing (.wmi wmiBssInfoEvent (abBeacon 0x50) 54) ++
    [.tick 0, .wmi wmiDisconnectEvent (fun _ => 0) 9]

/-- After a refused connection an access point of strength `0x40` is passed over, because `ap_snr`
still is `0x50`; five rounds later `ap_snr` is zero, and one of strength `0x30` is joined. -/
theorem strongest_since_teardown_counterexample :
    ¬∀ (P : Platform) (pre post : List Event) (pkt : Mem UInt8) (len : ℕ) (e : Event),
      Eligible P.nvram (runFrom P .init pre) pkt len →
      Run.Along (step P) (fun s e => ¬TearsDown s e)
        (runFrom P .init (pre ++ [.wmi wmiBssInfoEvent pkt len])) post →
      0 < connects P (runFrom P .init (pre ++ .wmi wmiBssInfoEvent pkt len :: post)) e →
      bssSnr pkt ≤ (runFrom P .init (pre ++ .wmi wmiBssInfoEvent pkt len :: post)).ap.snr := by
  intro h
  have hsnr := h twoSlots refusedAttempt
    ((List.replicate 5 scanRound).flatten ++ [.wmi wmiBssInfoEvent (abBeacon 0x30) 54])
    (abBeacon 0x40) 54 (.tick 0) (by decide +kernel) (by decide +kernel) (by decide +kernel)
  revert hsnr
  decide +kernel

end DsiWifi
