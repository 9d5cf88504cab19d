import DsiWifi.Wmi.Pairwise

/-!
# The selected access point over a run

A beacon writes the fields of a matching slot before it is judged, and it is looked at in every
state.  So the selection is stable only as long as the beacons keep it so:

* `selection_frozen_while_connected`: from the tick that connects until the connection is given up,
  the parameters of the connection stay, if every beacon heard meanwhile repeats them (`Repeats`, on
  what the beacon announces and on the flash slot that decides);
* `selection_of_one_beacon_and_slot`: the selection is that of one beacon and one slot, if every
  beacon heard that matches a flash slot is also accepted, or comes from the selected slot.
-/

namespace DsiWifi

open ApSecurityType ApCipherType

/-! ## Flags -/

/-- A connection is requested only for a found access point, after four rounds of scanning. -/
def ConnectsFound (s : Wmi) : Prop :=
  s.sentConnect = true → s.apFound = true ∧ 4 ≤ s.numRoundsScanned

theorem wmiHandleBssInfo_apFound {nv : Nvram} {s : Wmi} {pkt : Mem UInt8} {len : ℕ}
    (h : s.apFound = true) : (wmiHandleBssInfo nv s pkt len).1.apFound = true := by
  rcases wmiHandleBssInfo_cases nv s pkt len with ⟨-, h'⟩ | ⟨-, h', -⟩ | ⟨-, -, h', -⟩ | ⟨-, h', -⟩
  · rw [h', h]
  · exact h'
  · exact h'
  · rw [h', h]

theorem wmiHandleBssInfo_flags (nv : Nvram) (s : Wmi) (pkt : Mem UInt8) (len : ℕ) :
    (wmiHandleBssInfo nv s pkt len).1.sentConnect = s.sentConnect ∧
      (wmiHandleBssInfo nv s pkt len).1.numRoundsScanned = s.numRoundsScanned := by
  obtain ⟨ap, found, done, out, h, -⟩ := wmiHandleBssInfo_frame nv s pkt len
  rw [h]
  exact ⟨rfl, rfl⟩

theorem connectsFound_step (P : Platform) (s : Wmi) (e : Event) (hs : ConnectsFound s) :
    ConnectsFound (step P s e) := by
  have hsel := selects_step P s e
  generalize step P s e = s' at hsel ⊢
  intro hc
  cases hsel with
  | other _ hfound hsent hrounds _ =>
    rw [hsent] at hc
    rw [hfound, hrounds]
    exact hs hc
  | bssInfo pkt len =>
    obtain ⟨hsent, hrounds⟩ := wmiHandleBssInfo_flags P.nvram s pkt len
    rw [hsent] at hc
    exact ⟨wmiHandleBssInfo_apFound (hs hc).1, by rw [hrounds]; exact (hs hc).2⟩
  | teardown _ _ _ _ => exact absurd hc (by simp [wmiTeardown, wmiScan])
  | connect _ hfound _ hrounds => exact ⟨hfound, hrounds⟩
  | scan past h =>
    rw [wmiScanNext_sentConnect] at hc
    exact absurd (hs hc) h.2.2.1

theorem connectsFound_runFrom (P : Platform) (es : List Event) :
    ConnectsFound (runFrom P .init es) :=
  Run.inv_exec' (fun s a => connectsFound_step P s a) (by simp [ConnectsFound, Wmi.init])

/-! ## Frozen parameters -/

/-- The parameters a connection is built from. -/
def Ap.connection (ap : Ap) :
    List UInt8 × Bytes 0x20 × Bytes 6 × ℕ × ApSecurityType × ApCipherType × ApCipherType × UInt8 :=
  (ap.name, ap.pmk, ap.bssid, ap.channel, ap.securityType, ap.groupCryptType, ap.pairCryptType,
    ap.authType)

/-- The beacon announces neither an AKM nor encryption, so a passphrase slot falls back to the flash
values. -/
def BssLocals.Fallback (l : BssLocals) : Prop := l.authType = authNone ∧ l.secTypeEnum = apOpen

instance (l : BssLocals) : Decidable l.Fallback := by unfold BssLocals.Fallback; infer_instance

theorem leak_of_not_fallback {l : BssLocals} (h : ¬l.Fallback) : leak l = l := if_neg h

/-- What a flash slot is joined with, of what a beacon announces to it. -/
def NvramCfg.joins (c : NvramCfg) (l : BssLocals) : BssLocals :=
  if l.CcmpPsk then { l with secTypeEnum := apWpa2 }
  else if c.apPass0 = 0 then { l with secTypeEnum := apOpen }
  else if c.wepMode ≠ 0 then
    { secTypeEnum := apWep, groupCrypto := cryptWep, pairCrypto := cryptWep, authType := authNone }
  else if l.Fallback then
    { secTypeEnum := apWpa2
      groupCrypto := if c.wpaType = wpatypeWpa2Tkip then cryptTkip else cryptAes
      pairCrypto := cryptAes
      authType := authPsk }
  else l

/-- What the beacon announces to flash slot `i`: a beacon without security counts as WPA2 with PSK
behind an earlier slot of the same name, which has given it up. -/
def announcedTo (nv : Nvram) (pkt : Mem UInt8) (len : ℕ) (i : Fin 3) : BssLocals :=
  let l := bssAnnounced pkt len
  if l.Fallback ∧ ∃ j < i, (nv.configs j).InUse ∧ (nv.configs j).name = (nv.configs i).name then
    { l with secTypeEnum := apWpa2, authType := authPsk }
  else l

/-- Flash slot `i` matches the beacon by name and strength, and gives it up. -/
def GivesUp (nv : Nvram) (pkt : Mem UInt8) (len apSnr : ℕ) (i : Fin 3) : Prop :=
  (nv.configs i).Matches pkt len apSnr ∧ (nv.configs i).Refuses (announcedTo nv pkt len i)

/-- Flash slot `i` is the first that matches the beacon and takes it. -/
def Takes (nv : Nvram) (pkt : Mem UInt8) (len apSnr : ℕ) (i : Fin 3) : Prop :=
  (nv.configs i).Matches pkt len apSnr ∧ ¬GivesUp nv pkt len apSnr i ∧
    ∀ j < i, (nv.configs j).Matches pkt len apSnr → GivesUp nv pkt len apSnr j

/-- Every flash slot that matches the beacon gives it up, and `i` is the last of them. -/
def LastGivesUp (nv : Nvram) (pkt : Mem UInt8) (len apSnr : ℕ) (i : Fin 3) : Prop :=
  (nv.configs i).Matches pkt len apSnr ∧
    (∀ j, (nv.configs j).Matches pkt len apSnr → GivesUp nv pkt len apSnr j) ∧
    ∀ j, i < j → ¬(nv.configs j).Matches pkt len apSnr

/-- What a beacon and the flash slots give is what the connection was built from: the name and the
PMK of the slot that takes the beacon, or of the last that gives it up; and of a beacon that is
taken the address, the channel and what the slot is joined with. -/
structure Repeats (nv : Nvram) (pkt : Mem UInt8) (len : ℕ) (ap : Ap) : Prop where
  taken : ∀ i, Takes nv pkt len ap.snr i →
    (nv.configs i).name = ap.name ∧ (nv.configs i).pmk = ap.pmk ∧
      bssBssid pkt = ap.bssid ∧ bssChannel pkt = ap.channel ∧
      (nv.configs i).joins (announcedTo nv pkt len i) =
        ⟨ap.securityType, ap.groupCryptType, ap.pairCryptType, ap.authType⟩
  givenUp : ∀ i, LastGivesUp nv pkt len ap.snr i →
    (nv.configs i).name = ap.name ∧ (nv.configs i).pmk = ap.pmk

instance (nv : Nvram) (pkt : Mem UInt8) (len apSnr : ℕ) (i : Fin 3) :
    Decidable (GivesUp nv pkt len apSnr i) := by unfold GivesUp; infer_instance

instance (nv : Nvram) (pkt : Mem UInt8) (len apSnr : ℕ) (i : Fin 3) :
    Decidable (Takes nv pkt len apSnr i) := by unfold Takes; infer_instance

instance (nv : Nvram) (pkt : Mem UInt8) (len apSnr : ℕ) (i : Fin 3) :
    Decidable (LastGivesUp nv pkt len apSnr i) := by unfold LastGivesUp; infer_instance

instance (nv : Nvram) (pkt : Mem UInt8) (len : ℕ) (ap : Ap) : Decidable (Repeats nv pkt len ap) :=
  decidable_of_iff ((∀ i, Takes nv pkt len ap.snr i →
      (nv.configs i).name = ap.name ∧ (nv.configs i).pmk = ap.pmk ∧
        bssBssid pkt = ap.bssid ∧ bssChannel pkt = ap.channel ∧
        (nv.configs i).joins (announcedTo nv pkt len i) =
          ⟨ap.securityType, ap.groupCryptType, ap.pairCryptType, ap.authType⟩) ∧
      ∀ i, LastGivesUp nv pkt len ap.snr i →
        (nv.configs i).name = ap.name ∧ (nv.configs i).pmk = ap.pmk)
    ⟨fun h => ⟨h.1, h.2⟩, fun h => ⟨h.taken, h.givenUp⟩⟩

/-- While a connection is requested, a beacon that is heard repeats the parameters of the
connection, as far as it matches flash slots. -/
def Undisturbed (nv : Nvram) (s : Wmi) : Event → Prop
  | .wmi pktCmd pkt len => pktCmd = wmiBssInfoEvent → s.sentConnect = true → BssHeard pkt len →
      Repeats nv pkt len s.ap
  | _ => True

instance (nv : Nvram) (s : Wmi) (e : Event) : Decidable (Undisturbed nv s e) :=
  match e with
  | .wmi .. => by unfold Undisturbed; infer_instance
  | .tick _ | .scan | .data .. => inferInstanceAs (Decidable True)

/-- In the fallback a passphrase slot refuses every type but the two of WPA2. -/
theorem refuses_iff_of_fallback {c : NvramCfg} {l : BssLocals} (h : l.Fallback) :
    c.Refuses l ↔ c.wepMode = 0 ∧ c.pass 0 ≠ 0 ∧
      ¬(c.wpaType = wpatypeWpa2Tkip ∨ c.wpaType = wpatypeWpa2Aes) := by
  unfold BssLocals.Fallback at h
  unfold NvramCfg.Refuses
  rw [if_pos h, not_or]

theorem nvramFinish_fst (l : BssLocals) : (nvramFinish l).1 =
    if l.CcmpPsk then { l with secTypeEnum := apWpa2 }
    else if l.secTypeEnum = apWep then
      { l with groupCrypto := cryptWep, pairCrypto := cryptWep, authType := authNone }
    else l := by
  unfold nvramFinish
  dsimp only
  by_cases hp : l.CcmpPsk
  · have hp' : l.pairCrypto = cryptAes ∧ l.authType = authPsk := hp
    rw [if_pos hp, if_pos hp', if_neg (by simp)]
  · have hp' : ¬(l.pairCrypto = cryptAes ∧ l.authType = authPsk) := hp
    rw [if_neg hp, if_neg hp']

/-- A slot that does not refuse a beacon is joined with what the beacon announces. -/
theorem nvramSecurity_of_not_refuses {c : NvramCfg} {l : BssLocals} (hl : l.secTypeEnum ≠ apWep)
    (h : ¬c.Refuses l) : (nvramSecurity c l).1 = c.joins l := by
  unfold NvramCfg.joins
  by_cases h0 : c.apPass0 = 0
  · rw [nvramSecurity_of_empty h0, nvramFinish_fst, if_pos h0]
    exact if_congr Iff.rfl rfl (if_neg (by simp))
  rw [if_neg h0]
  by_cases hw : c.wepMode = 0
  · rw [if_neg (not_not.2 hw)]
    by_cases hf : l.Fallback
    · have hc : ¬l.CcmpPsk := fun hc => absurd (hf.1.symm.trans hc.2) (by decide)
      have hleak : leak l = { l with secTypeEnum := apWpa2, authType := authPsk } := if_pos hf
      have hfin : ∀ g : ApCipherType,
          (nvramFinish { leak l with groupCrypto := g, pairCrypto := cryptAes }).1 =
            { secTypeEnum := apWpa2, groupCrypto := g, pairCrypto := cryptAes
              authType := authPsk } := by
        intro g
        rw [nvramFinish_fst, hleak]
        exact if_pos ⟨rfl, rfl⟩
      rw [nvramSecurity_of_fallback hw h0 hf, if_neg hc, if_pos hf]
      by_cases ht : c.wpaType = wpatypeWpa2Tkip
      · rw [if_neg (by rw [ht]; decide), if_pos ht, if_pos ht, hfin]
      · have ha : c.wpaType = wpatypeWpa2Aes := by
          by_contra ha
          exact h ((refuses_iff_of_fallback hf).2
            ⟨hw, by rwa [← apPass0_of_pass hw], not_or.2 ⟨ht, ha⟩⟩)
        rw [if_neg (by rw [ha]; decide), if_neg ht, if_pos ha, if_neg ht, hfin]
    · rw [nvramSecurity_of_pass hw h0 hf, nvramFinish_fst, if_neg hf, if_neg hl]
  · rw [nvramSecurity_of_wep hw h0, nvramFinish_fst, if_pos hw]
    exact if_congr Iff.rfl rfl (if_pos rfl)

theorem announcedTo_secTypeEnum_ne_wep (nv : Nvram) (pkt : Mem UInt8) (len : ℕ) (i : Fin 3) :
    (announcedTo nv pkt len i).secTypeEnum ≠ apWep := by
  have h := bssLocals_secTypeEnum_ne_wep pkt len
  rw [bssLocals_eq_announced] at h
  unfold announcedTo
  dsimp only
  split_ifs
  · simp
  · exact h

/-- The locals a matching slot sees are what the beacon announces to it. -/
theorem localsAt_eq_announcedTo {nv : Nvram} {pkt : Mem UInt8} {len apSnr : ℕ} {i : Fin 3}
    (hm : (nv.configs i).Matches pkt len apSnr) :
    localsAt nv pkt len apSnr i = announcedTo nv pkt len i := by
  unfold localsAt announcedTo
  simp only [matches_iff_of_matches hm, bssLocals_eq_announced]
  by_cases hf : (bssAnnounced pkt len).Fallback
  · simp only [hf, true_and]
    split_ifs
    · exact if_pos hf
    · rfl
  · simp only [leak_of_not_fallback hf, hf, false_and, if_false, ite_self]

theorem nvramSlotAp_connection (c : NvramCfg) (i : Fin 3) (ap : Ap) :
    (nvramSlotAp c i ap).connection = (c.name, c.pmk, ap.connection.2.2) := by
  unfold nvramSlotAp
  dsimp only
  split_ifs <;> rfl

/-- The slot that accepts a beacon is the first that takes it. -/
theorem takes_of_bssNvram {nv : Nvram} {pkt : Mem UInt8} {len : ℕ} {ap ap' : Ap} {i : Fin 3}
    (h : bssNvram nv pkt len ap = (ap', some i)) : Takes nv pkt len ap.snr i := by
  obtain ⟨hm, hr, -⟩ := bssNvram_some h
  rw [localsAt_eq_announcedTo hm] at hr
  refine ⟨hm, fun hg => hr hg.2, ?_⟩
  intro j hj hmj
  refine ⟨hmj, ?_⟩
  by_contra hrj
  rw [← localsAt_eq_announcedTo hmj] at hrj
  obtain ⟨k, hk, hres⟩ := bssNvram_of_takes hmj hrj
  rw [h, Option.some.injEq] at hres
  exact absurd (hres ▸ hk) (not_le.2 hj)

theorem connection_of_repeats {nv : Nvram} {s : Wmi} {pkt : Mem UInt8} {len : ℕ}
    (hf : s.apFound = true) (h : BssHeard pkt len → Repeats nv pkt len s.ap) :
    (wmiHandleBssInfo nv s pkt len).1.ap.connection = s.ap.connection := by
  rcases wmiHandleBssInfo_cases nv s pkt len with
    ⟨hap, -⟩ | ⟨hh, -, i, hacc⟩ | ⟨-, hf', -⟩ | ⟨hh, -, hnone, -⟩
  · rw [hap]
  · obtain ⟨hm, hr, hap⟩ := bssNvram_some hacc
    rw [localsAt_eq_announcedTo hm] at hr hap
    obtain ⟨hname, hpmk, hbssid, hchannel, htypes⟩ := (h hh).taken i (takes_of_bssNvram hacc)
    have hslot := nvramSlotAp_connection (nv.configs i) i s.ap
    have hname' : (nvramSlotAp (nv.configs i) i s.ap).name = s.ap.name :=
      (congrArg Prod.fst hslot).trans hname
    have hpmk' : (nvramSlotAp (nv.configs i) i s.ap).pmk = s.ap.pmk :=
      (congrArg (fun c => c.2.1) hslot).trans hpmk
    rw [hap, nvramSecurity_of_not_refuses (announcedTo_secTypeEnum_ne_wep _ _ _ _) hr,
      htypes]
    unfold Ap.connection nvramAccept
    dsimp only
    rw [hname', hpmk', hbssid, hchannel]
  · rw [hf] at hf'
    exact absurd hf' (by simp)
  · obtain ⟨hall, hap | ⟨j, hm, hlast, hap⟩⟩ := bssNvram_none hnone
    · rw [hap]
    · have hgive : ∀ k, (nv.configs k).Matches pkt len s.ap.snr →
          GivesUp nv pkt len s.ap.snr k := by
        intro k hk
        have hr := hall k hk
        rw [localsAt_eq_announcedTo hk] at hr
        exact ⟨hk, hr⟩
      obtain ⟨hname, hpmk⟩ := (h hh).givenUp j ⟨hm, hgive, hlast⟩
      rw [hap, nvramSlotAp_connection, hname, hpmk]
      rfl

/-- One step keeps the parameters of the connection. -/
theorem connection_step {P : Platform} {s : Wmi} {e : Event} (hs : ConnectsFound s)
    (hu : Undisturbed P.nvram s e) (hc : s.sentConnect = true)
    (hc' : (step P s e).sentConnect = true) : (step P s e).ap.connection = s.ap.connection := by
  have hsel := selects_step P s e
  generalize step P s e = s' at hsel hc' ⊢
  cases hsel with
  | other hap _ _ _ _ => rw [hap]
  | bssInfo pkt len => exact connection_of_repeats (hs hc).1 (hu rfl hc)
  | teardown _ _ _ _ => exact absurd hc' (by simp [wmiTeardown, wmiScan])
  | connect _ _ hsent _ => exact absurd (hc.symm.trans hsent) (by simp)
  | scan past h => exact absurd (hs hc) h.2.2.1

/-- Every event of the run leaves the connection requested. -/
def StaysConnecting (P : Platform) (s : Wmi) (es : List Event) : Prop :=
  Run.Along (step P) (fun s e => (step P s e).sentConnect = true) s es

theorem connection_run {P : Platform} {s : Wmi} {es : List Event} (hs : ConnectsFound s)
    (hu : Run.Along (step P) (Undisturbed P.nvram) s es) (hc : s.sentConnect = true)
    (hstay : StaysConnecting P s es) :
    (runFrom P s es).ap.connection = s.ap.connection := by
  induction es generalizing s with
  | nil => rfl
  | cons e es ih =>
    rw [runFrom, Run.exec_cons]
    have htail := ih (connectsFound_step P s e hs) hu.2 hstay.1 hstay.2
    rw [runFrom] at htail
    rw [htail, connection_step hs hu.1 hc hstay.1]

/-- A step that requests the connection is a tick that calls `wmi_connect`. -/
theorem drive_of_requests {P : Platform} {s : Wmi} {e : Event} (h : s.sentConnect = false)
    (h' : (step P s e).sentConnect = true) :
    drive P s e = ({ s with sentConnect := true }, wmiConnect s.ap) := by
  have hsel := selects_step P s e
  cases e with
  | tick past =>
    unfold step at h'
    change drive P s (.tick past) = _
    rw [drive] at h' ⊢
    rcases wmiTick_cases s past with ⟨ht, -⟩ | ⟨-, -, -, -, ht⟩ | ⟨-, ht⟩
    · rw [ht, h] at h'
      exact absurd h' (by simp)
    · exact ht
    · rw [ht, wmiScanNext_sentConnect, h] at h'
      exact absurd h' (by simp)
  | scan =>
    generalize step P s .scan = s' at hsel h'
    cases hsel with
    | other _ _ hsent _ _ => rw [hsent, h] at h'; exact absurd h' (by simp)
  | wmi pktCmd pkt len =>
    generalize step P s (.wmi pktCmd pkt len) = s' at hsel h'
    cases hsel with
    | other _ _ hsent _ _ => rw [hsent, h] at h'; exact absurd h' (by simp)
    | bssInfo => rw [(wmiHandleBssInfo_flags _ _ _ _).1, h] at h'; exact absurd h' (by simp)
    | teardown => exact absurd h' (by simp [wmiTeardown, wmiScan])
  | data addr pkt len env =>
    generalize step P s (.data addr pkt len env) = s' at hsel h'
    cases hsel with
    | other _ _ hsent _ _ => rw [hsent, h] at h'; exact absurd h' (by simp)

/-- **Frozen selection.** In a run whose beacons disturb no requested connection, the step `e` that
requests a connection builds it from the selected access point, and until the connection is given
up its parameters do not change. -/
theorem selection_frozen_while_connected (P : Platform) (pre seg : List Event) (e : Event)
    (hu : Run.Along (step P) (Undisturbed P.nvram) .init (pre ++ e :: seg))
    (hbefore : (runFrom P .init pre).sentConnect = false)
    (hafter : (runFrom P .init (pre ++ [e])).sentConnect = true)
    (hstay : StaysConnecting P (runFrom P .init (pre ++ [e])) seg) :
    (drive P (runFrom P .init pre) e).2 = wmiConnect (runFrom P .init pre).ap ∧
      (runFrom P .init (pre ++ e :: seg)).ap.connection =
        (runFrom P .init pre).ap.connection := by
  have hstep : runFrom P .init (pre ++ [e]) = step P (runFrom P .init pre) e :=
    Run.exec_concat _ _ _
  have hreq := drive_of_requests hbefore (by rw [← hstep]; exact hafter)
  have hinv := connectsFound_runFrom P (pre ++ [e])
  refine ⟨by rw [hreq], ?_⟩
  rw [List.append_cons, Run.along_append] at hu
  have hrun := connection_run hinv hu.2 hafter hstay
  have hap : (runFrom P .init (pre ++ [e])).ap = (runFrom P .init pre).ap := by
    rw [hstep, step, hreq]
  calc (runFrom P .init (pre ++ e :: seg)).ap.connection
      = (runFrom P (runFrom P .init (pre ++ [e])) seg).ap.connection := by
        rw [List.append_cons, runFrom, Run.exec_append]
    _ = (runFrom P .init (pre ++ [e])).ap.connection := hrun
    _ = (runFrom P .init pre).ap.connection := by rw [hap]

/-! ### Sample runs -/

/-- The network `cd` with a passphrase for WPA-TKIP, which the driver does not support. -/
def wpaSlot : NvramCfg :=
  { passphraseSlot with ssid := arrayOf [0x63, 0x64] 0x20, slotIdx := 2, wpaType := wpatypeWpaTkip }

/-- The network `cd` with a passphrase for WPA2-AES. -/
def secondSlot : NvramCfg := { wpaSlot with wpaType := wpatypeWpa2Aes }

/-- The networks `ab` and `cd`. -/
def twoSlots : Platform := { samplePlatform with nvram := nvramOf passphraseSlot secondSlot }

/-- A beacon of the network `cd` without an RSN element. -/
def cdBeacon (snr : UInt8) : Event :=
  .wmi wmiBssInfoEvent (.ofList (beacon snr 0 [0, 2, 0x63, 0x64]) 0) 32

def scanCompleteEvent : Event := .wmi wmiScanCompleteEvent (fun _ => 0) 0

/-- The card reports one channel, a beacon is heard, and four rounds of scanning go by. -/
def scanHearing (heard : Event) : List Event :=
  [.wmi wmiRegDomainEvent (fun _ => 0) 4, .scan,
    .wmi wmiGetChannelListResp (.ofList [0, 1, 0x6C, 0x09] 0) 4, heard] ++
    (List.replicate 4 [.tick 0, scanCompleteEvent, .tick 0, scanCompleteEvent]).flatten

def scanFourRounds : List Event := scanHearing wpa2Beacon

/-- The beacon of `ab` once more, stronger. -/
def strongerAb : Event :=
  .wmi wmiBssInfoEvent (.ofList (beacon 0x38 0x10 (ssidAb ++ rsnCcmp 2)) 0) 54

/-- After the connection was requested, a weaker beacon of the other network and a stronger one of
the selected network. -/
theorem selection_frozen_sample :
    (runFrom twoSlots .init (scanFourRounds ++
        .tick 0 :: [connectEvent, cdBeacon 0x2F, strongerAb])).ap.connection =
      (runFrom twoSlots .init scanFourRounds).ap.connection :=
  (selection_frozen_while_connected _ _ _ _ (by decide +kernel) (by decide +kernel)
    (by decide +kernel) (by unfold StaysConnecting; decide +kernel)).2

/-- A stronger beacon of another configured network replaces the parameters of the connection. -/
theorem selection_changed_counterexample :
    ¬∀ (P : Platform) (pre seg : List Event) (e : Event),
      (runFrom P .init pre).sentConnect = false →
      (runFrom P .init (pre ++ [e])).sentConnect = true →
      StaysConnecting P (runFrom P .init (pre ++ [e])) seg →
      (runFrom P .init (pre ++ e :: seg)).ap.connection =
        (runFrom P .init pre).ap.connection := by
  intro h
  have hap := h twoSlots scanFourRounds [connectEvent, cdBeacon 0x40] (.tick 0) (by decide +kernel)
    (by decide +kernel) (by unfold StaysConnecting; decide +kernel)
  have hname : (runFrom twoSlots .init (scanFourRounds ++ [.tick 0, connectEvent, cdBeacon 0x40])).ap.name =
      (runFrom twoSlots .init scanFourRounds).ap.name := congrArg Prod.fst hap
  revert hname
  decide +kernel

/-! ## One beacon and one slot -/

/-- The access point a flash slot and a beacon of its network determine. -/
structure FromNvram (nv : Nvram) (pkt : Mem UInt8) (len : ℕ) (i : Fin 3) (ap : Ap) : Prop where
  sameName : bssName pkt len = (nv.configs i).name
  nvramIdx : ap.nvramIdx = i + 3
  name : ap.name = (nv.configs i).name
  pass : ap.pass = (nv.configs i).apPass
  pmk : ap.pmk = (nv.configs i).pmk
  wep : ap.securityType = apWep →
    ap.wepmode = (nv.configs i).wepMode ∧ ap.wep1 = (nv.configs i).wepKey1 ∧
      ap.wep2 = (nv.configs i).wepKey2 ∧ ap.wep3 = (nv.configs i).wepKey3 ∧
      ap.wep4 = (nv.configs i).wepKey4
  types : (⟨ap.securityType, ap.groupCryptType, ap.pairCryptType, ap.authType⟩ : BssLocals) =
    (nvramSecurity (nv.configs i) (bssLocals pkt len)).1
  snr : ap.snr = bssSnr pkt
  channel : ap.channel = bssChannel pkt
  caps : ap.caps = bssCapability pkt
  bssid : ap.bssid = bssBssid pkt

/-- The access point a legacy slot and a beacon of its network determine. -/
def FromWep (nv : Nvram) (pkt : Mem UInt8) (len : ℕ) (i : Fin 3) (ap : Ap) : Prop :=
  bssName pkt len = (nv.wepConfigs i).name ∧ ap = wepSlotAp (nv.wepConfigs i) i pkt

/-- The access point is that of the beacon and of one slot. -/
def Candidate (nv : Nvram) (pkt : Mem UInt8) (len : ℕ) (ap : Ap) : Prop :=
  ∃ i, FromNvram nv pkt len i ap ∨ FromWep nv pkt len i ap

theorem Candidate.name_snr {nv : Nvram} {pkt : Mem UInt8} {len : ℕ} {ap : Ap}
    (h : Candidate nv pkt len ap) : ap.name = bssName pkt len ∧ ap.snr = bssSnr pkt := by
  obtain ⟨i, h | ⟨hname, rfl⟩⟩ := h
  · exact ⟨h.name.trans h.sameName.symm, h.snr⟩
  · exact ⟨hname.symm, rfl⟩

theorem localsAt_of_leak_eq {nv : Nvram} {pkt : Mem UInt8} {len apSnr : ℕ} {i : Fin 3}
    (h : leak (bssLocals pkt len) = bssLocals pkt len) :
    localsAt nv pkt len apSnr i = bssLocals pkt len := by
  unfold localsAt
  rw [h, ite_self]

/-- The only slot that matches sees the locals of the beacon. -/
theorem localsAt_of_sole {nv : Nvram} {pkt : Mem UInt8} {len apSnr : ℕ} {i : Fin 3}
    (h : (bssLocals pkt len).Fallback → ∀ k, (nv.configs k).Matches pkt len apSnr → k = i) :
    localsAt nv pkt len apSnr i = bssLocals pkt len := by
  by_cases hf : (bssLocals pkt len).Fallback
  · refine if_neg ?_
    rintro ⟨j, hj, hm⟩
    rw [h hf j hm] at hj
    exact absurd hj (lt_irrefl i)
  · exact localsAt_of_leak_eq (leak_of_not_fallback hf)

/-- A beacon that is heard and matches flash slot `j` is accepted by some slot it matches, by the
first of them if it announces no security; or else, if there is no other slot for it to be accepted
by, `j` is the selected slot, or a legacy slot takes the beacon. -/
def Settles (nv : Nvram) (s : Wmi) : Event → Prop
  | .wmi pktCmd pkt len => pktCmd = wmiBssInfoEvent → BssHeard pkt len →
      ∀ j, (nv.configs j).Matches pkt len s.ap.snr →
        (∃ i, (nv.configs i).Matches pkt len s.ap.snr ∧
          ¬(nv.configs i).Refuses (bssLocals pkt len) ∧
          ((bssLocals pkt len).Fallback → ∀ k < i, ¬(nv.configs k).Matches pkt len s.ap.snr)) ∨
        ((bssLocals pkt len).Fallback → ∀ k, (nv.configs k).Matches pkt len s.ap.snr → k = j) ∧
          (s.apFound = true ∧ s.ap.nvramIdx = j + 3 ∨
            s.apFound = false ∧ ∃ k, (nv.wepConfigs k).Matches pkt len s.ap.snr)
  | _ => True

instance (nv : Nvram) (s : Wmi) (e : Event) : Decidable (Settles nv s e) :=
  match e with
  | .wmi .. => by unfold Settles; infer_instance
  | .tick _ | .scan | .data .. => inferInstanceAs (Decidable True)

theorem fromNvram_of_accept {nv : Nvram} {pkt : Mem UInt8} {len : ℕ} {i : Fin 3} {ap : Ap}
    (hm : (nv.configs i).Matches pkt len ap.snr) :
    FromNvram nv pkt len i (nvramAccept pkt (nvramSecurity (nv.configs i) (bssLocals pkt len)).1
      (nvramSlotAp (nv.configs i) i ap)) := by
  have hslot : nvramSlotAp (nv.configs i) i ap =
      if (nv.configs i).wepMode ≠ 0 then
        { ap with
          nvramIdx := i + 3, name := (nv.configs i).name, pass := (nv.configs i).apPass
          pmk := (nv.configs i).pmk, wepmode := (nv.configs i).wepMode
          wep1 := (nv.configs i).wepKey1, wep2 := (nv.configs i).wepKey2
          wep3 := (nv.configs i).wepKey3, wep4 := (nv.configs i).wepKey4 }
      else
        { ap with
          nvramIdx := i + 3, name := (nv.configs i).name, pass := (nv.configs i).apPass
          pmk := (nv.configs i).pmk } := rfl
  have hwep : (nvramSecurity (nv.configs i) (bssLocals pkt len)).1.secTypeEnum = apWep →
      (nv.configs i).wepMode ≠ 0 :=
    wepMode_of_nvramSecurity_wep (bssLocals_secTypeEnum_ne_wep pkt len)
  by_cases hw : (nv.configs i).wepMode = 0
  · rw [hslot, if_neg (by simp [hw])]
    exact ⟨hm.2.2.2.1, rfl, rfl, rfl, rfl, fun h => absurd hw (hwep h), rfl, rfl, rfl, rfl, rfl⟩
  · rw [hslot, if_pos hw]
    exact ⟨hm.2.2.2.1, rfl, rfl, rfl, rfl, fun _ => ⟨rfl, rfl, rfl, rfl, rfl⟩, rfl, rfl, rfl, rfl,
      rfl⟩

/-- A beacon that settles and matches a slot is accepted, with its own locals. -/
theorem bssNvram_of_settles {nv : Nvram} {pkt : Mem UInt8} {len : ℕ} {ap : Ap} {i : Fin 3}
    (hm : (nv.configs i).Matches pkt len ap.snr)
    (hr : ¬(nv.configs i).Refuses (bssLocals pkt len))
    (hfirst : (bssLocals pkt len).Fallback → ∀ k < i, ¬(nv.configs k).Matches pkt len ap.snr) :
    ∃ k, (nv.configs k).Matches pkt len ap.snr ∧ bssNvram nv pkt len ap =
      (nvramAccept pkt (nvramSecurity (nv.configs k) (bssLocals pkt len)).1
        (nvramSlotAp (nv.configs k) k ap), some k) := by
  have hmem : i ∈ ([0, 1, 2] : List (Fin 3)) := mem_slots i
  by_cases hf : (bssLocals pkt len).Fallback
  · obtain ⟨pre, post, hpre⟩ := List.append_of_mem hmem
    have hbefore : ∀ j ∈ pre, ¬(nv.configs j).Matches pkt len ap.snr := fun j hj =>
      hfirst hf j ((mem_pre_iff_lt hpre j).1 hj)
    refine ⟨i, hm, ?_⟩
    rw [bssNvram, hpre]
    exact nvramLoop_of_first hbefore hm hr
  · have hl := leak_of_not_fallback hf
    have hne : (bssNvram nv pkt len ap).2 ≠ none := nvramLoop_ne_none hl hmem hm hr
    obtain ⟨k, hk⟩ := Option.ne_none_iff_exists'.1 hne
    have hb : bssNvram nv pkt len ap = ((bssNvram nv pkt len ap).1, some k) := Prod.ext rfl hk
    obtain ⟨hmk, -, hap⟩ := bssNvram_some hb
    rw [localsAt_of_leak_eq hl] at hap
    exact ⟨k, hmk, by rw [hb, hap]⟩

/-- The selected slot has already written its fields. -/
theorem Candidate.nvramSlotAp_eq {nv : Nvram} {pkt : Mem UInt8} {len : ℕ} {ap : Ap} {j : Fin 3}
    (h : Candidate nv pkt len ap) (hidx : ap.nvramIdx = j + 3) (hw : (nv.configs j).wepMode = 0) :
    nvramSlotAp (nv.configs j) j ap = ap := by
  obtain ⟨i, h | ⟨-, rfl⟩⟩ := h
  · obtain rfl : i = j := Fin.ext (by have := h.nvramIdx; omega)
    unfold nvramSlotAp
    rw [if_neg (by simp [hw]), ← hidx, ← h.name, ← h.pass, ← h.pmk]
  · have : (i : ℕ) = j + 3 := hidx
    omega

/-- The selection comes from one of the beacons `seen`. -/
def SelectedFrom (nv : Nvram) (seen : List Event) (s : Wmi) : Prop :=
  s.apFound = true → ∃ pkt len, .wmi wmiBssInfoEvent pkt len ∈ seen ∧ Candidate nv pkt len s.ap

/-- A beacon that settles selects its own candidate or changes nothing. -/
theorem wmiHandleBssInfo_of_settles {nv : Nvram} {s : Wmi} {seen : List Event} {pkt : Mem UInt8}
    {len : ℕ} (hs : SelectedFrom nv seen s)
    (h : Settles nv s (.wmi wmiBssInfoEvent pkt len)) :
    let s' := (wmiHandleBssInfo nv s pkt len).1
    (s'.ap = s.ap ∧ s'.apFound = s.apFound) ∨ Candidate nv pkt len s'.ap := by
  intro s'
  rcases wmiHandleBssInfo_cases nv s pkt len with
    hsame | ⟨hh, -, i, hacc⟩ | ⟨-, -, -, j, hm, hap⟩ | ⟨hh, hfound, hnone, hwep, j, hm, hw, hap⟩
  · exact Or.inl hsame
  · obtain ⟨hm, -, hap⟩ := bssNvram_some hacc
    rcases h rfl hh i hm with ⟨i', hm', hr', hfirst⟩ | ⟨hsole, -⟩
    · obtain ⟨k, hmk, hb⟩ := bssNvram_of_settles hm' hr' hfirst
      rw [hacc, Prod.mk.injEq] at hb
      refine Or.inr ⟨k, Or.inl ?_⟩
      change FromNvram nv pkt len k (wmiHandleBssInfo nv s pkt len).1.ap
      rw [hb.1]
      exact fromNvram_of_accept hmk
    · rw [localsAt_of_sole hsole] at hap
      refine Or.inr ⟨i, Or.inl ?_⟩
      change FromNvram nv pkt len i (wmiHandleBssInfo nv s pkt len).1.ap
      rw [hap]
      exact fromNvram_of_accept hm
  · exact Or.inr ⟨j, Or.inr ⟨hm.2.2.2.1, hap⟩⟩
  · rcases h rfl hh j hm with ⟨i', hm', hr', hfirst⟩ | ⟨-, ⟨hf, hidx⟩ | ⟨hf, k, hk⟩⟩
    · obtain ⟨k, -, hb⟩ := bssNvram_of_settles hm' hr' hfirst
      rw [hnone] at hb
      simp at hb
    · obtain ⟨pkt', len', -, hc⟩ := hs hf
      exact Or.inl ⟨hap.trans (hc.nvramSlotAp_eq hidx hw), hfound⟩
    · exact absurd hk (hwep hf k)

theorem selectedFrom_step {P : Platform} {s : Wmi} {seen : List Event} {e : Event}
    (hs : SelectedFrom P.nvram seen s) (h : Settles P.nvram s e) :
    SelectedFrom P.nvram (seen ++ [e]) (step P s e) := by
  have hkeep : ∀ s' : Wmi, s'.ap = s.ap → s'.apFound = s.apFound →
      SelectedFrom P.nvram (seen ++ [e]) s' := by
    intro s' hap hfound hf
    obtain ⟨pkt, len, hmem, hc⟩ := hs (by rw [← hfound]; exact hf)
    exact ⟨pkt, len, by simp [hmem], by rw [hap]; exact hc⟩
  have hsel := selects_step P s e
  generalize step P s e = s' at hsel ⊢
  cases hsel with
  | other hap hfound _ _ _ => exact hkeep s' hap hfound
  | bssInfo pkt len =>
    rcases wmiHandleBssInfo_of_settles hs h with ⟨hap, hfound⟩ | hc
    · exact hkeep _ hap hfound
    · exact fun _ => ⟨pkt, len, by simp, hc⟩
  | teardown _ _ _ _ => exact fun hf => absurd hf (by simp [wmiTeardown, wmiScan])
  | connect _ _ _ _ => exact hkeep _ rfl rfl
  | scan past hscan =>
    intro hf
    rw [wmiScanNext_apFound] at hf
    -- the strength is forgotten after five rounds, and a found network is joined after four
    have hrounds : s.numRoundsScanned < 4 := by
      by_contra hn
      exact hscan.2.2.1 ⟨hf, by omega⟩
    have hap : (wmiScanNext s past).1.ap = s.ap := by
      rw [wmiScanNext_ap, if_neg]
      rcases wmiScanNext_rounds s past with hr | hr
      · omega
      · rw [Nat.mod_eq_of_lt (by omega)] at hr
        omega
    exact hkeep _ hap (wmiScanNext_apFound s past) (by rw [wmiScanNext_apFound]; exact hf)

theorem selectedFrom_run {P : Platform} {s : Wmi} {seen es : List Event}
    (hs : SelectedFrom P.nvram seen s) (h : Run.Along (step P) (Settles P.nvram) s es) :
    SelectedFrom P.nvram (seen ++ es) (runFrom P s es) := by
  induction es generalizing s seen with
  | nil => simpa using hs
  | cons e es ih =>
    rw [List.append_cons, runFrom, Run.exec_cons]
    exact ih (selectedFrom_step hs h.1) h.2

/-- **One beacon and one slot.** In a run whose beacons settle, the selected access point is in
every state that of one beacon of the run and of one slot, and each beacon either selects its own
candidate as a whole or leaves the selection unchanged. -/
theorem selection_of_one_beacon_and_slot (P : Platform) (es : List Event)
    (h : Run.Along (step P) (Settles P.nvram) .init es) :
    ((runFrom P .init es).apFound = true →
      ∃ pkt len, .wmi wmiBssInfoEvent pkt len ∈ es ∧
        Candidate P.nvram pkt len (runFrom P .init es).ap) ∧
      ∀ pre pkt len post, es = pre ++ .wmi wmiBssInfoEvent pkt len :: post →
        (runFrom P .init (pre ++ [.wmi wmiBssInfoEvent pkt len])).ap = (runFrom P .init pre).ap ∨
          Candidate P.nvram pkt len
            (runFrom P .init (pre ++ [.wmi wmiBssInfoEvent pkt len])).ap := by
  have hinit : SelectedFrom P.nvram [] .init := fun hf => absurd hf (by simp [Wmi.init])
  refine ⟨selectedFrom_run hinit h, ?_⟩
  intro pre pkt len post hes
  have hset := Run.along_iff_split.1 h pre _ post hes
  rw [hes, Run.along_append] at h
  have hsel := selectedFrom_run hinit h.1
  have hstep : runFrom P .init (pre ++ [.wmi wmiBssInfoEvent pkt len]) =
      (wmiHandleBssInfo P.nvram (runFrom P .init pre) pkt len).1 := Run.exec_concat _ _ _
  rw [hstep]
  exact (wmiHandleBssInfo_of_settles hsel hset).imp_left And.left

/-- Beacons of both networks are heard, and both are supported. -/
theorem selection_of_one_beacon_sample :
    ∃ pkt len, .wmi wmiBssInfoEvent pkt len ∈ [wpa2Beacon, cdBeacon 0x40] ∧
      Candidate twoSlots.nvram pkt len (runFrom twoSlots .init [wpa2Beacon, cdBeacon 0x40]).ap :=
  (selection_of_one_beacon_and_slot twoSlots [wpa2Beacon, cdBeacon 0x40] (by decide +kernel)).1
    (by decide +kernel)

/-- A stronger beacon of a network the driver does not support is refused, and leaves its name,
passphrase and key with the address of the network found before. -/
theorem selection_mixed_counterexample :
    ¬∀ (P : Platform) (es : List Event), (runFrom P .init es).apFound = true →
      ∃ pkt len, .wmi wmiBssInfoEvent pkt len ∈ es ∧
        Candidate P.nvram pkt len (runFrom P .init es).ap := by
  intro h
  obtain ⟨pkt, len, hmem, hc⟩ := h
    { samplePlatform with nvram := nvramOf passphraseSlot wpaSlot } [wpa2Beacon, cdBeacon 0x40]
    (by decide +kernel)
  obtain ⟨hname, hsnr⟩ := hc.name_snr
  rcases List.mem_cons.1 hmem with he | he
  · injection he with _ hpkt hlen
    subst hpkt hlen
    revert hname
    decide +kernel
  · rw [List.mem_singleton] at he
    injection he with _ hpkt hlen
    subst hpkt hlen
    revert hsnr
    decide +kernel

end DsiWifi
