import DsiWifi.Wmi.Announced
import Mathlib.Data.Fin.VecNotation

/-!
# The security type of an accepted beacon

A flash slot that holds a passphrase or a WEP key should never be joined as an open network.  The
code decides by the first byte of the password (`ap_pass[0]`), which is a binary WEP key for WEP
slots, and falls back to the flash values only when the beacon announces no AKM suite at all.
`accepted_security_ne_open_iff` states exactly which slots and beacons this is enough for, on the
bytes of the beacon (`KeepsSecurity`).
-/

namespace DsiWifi

open ApSecurityType ApCipherType

/-- The event is accepted through flash slot `i`. -/
def AcceptsThrough (nv : Nvram) (s : Wmi) (pkt : Mem UInt8) (len : ℕ) (i : Fin 3) : Prop :=
  BssHeard pkt len ∧ (bssNvram nv pkt len s.ap).2 = some i

instance (nv : Nvram) (s : Wmi) (pkt : Mem UInt8) (len : ℕ) (i : Fin 3) :
    Decidable (AcceptsThrough nv s pkt len i) := by unfold AcceptsThrough; infer_instance

/-- The slot holds a passphrase, or a WEP key with some non-zero byte. -/
def NvramCfg.HoldsCredentials (c : NvramCfg) : Prop :=
  c.wepMode = 0 ∧ c.pass 0 ≠ 0 ∨ c.wepMode ≠ 0 ∧ ∃ k, c.wepKey1 k ≠ 0

instance (c : NvramCfg) : Decidable c.HoldsCredentials := by
  unfold NvramCfg.HoldsCredentials; infer_instance

/-- The RSN bodies of the beacon announce CCMP with PSK. -/
def AnnouncesCcmpPsk (pkt : Mem UInt8) (len : ℕ) : Prop :=
  AnnouncesCcmp pkt (rsnBodies pkt len) ∧ AnnouncesPsk pkt (rsnBodies pkt len)

instance (pkt : Mem UInt8) (len : ℕ) : Decidable (AnnouncesCcmpPsk pkt len) := by
  unfold AnnouncesCcmpPsk; infer_instance

/-- The slots and beacons for which an accepted slot with credentials is not taken as open.

For a passphrase: the privacy bit is set, or no AKM suite is announced, or CCMP with PSK is.
For a WEP key: its first byte is not zero, or CCMP with PSK is announced, or CCMP without an AKM
suite and without privacy, when an earlier slot in use has the same name. -/
def KeepsSecurity (nv : Nvram) (pkt : Mem UInt8) (len : ℕ) (i : Fin 3) : Prop :=
  if (nv.configs i).wepMode = 0 then
    bssPrivacy pkt = true ∨ AnnouncesNoAkm pkt (rsnBodies pkt len) ∨ AnnouncesCcmpPsk pkt len
  else
    (nv.configs i).wepKey1 0 ≠ 0 ∨ AnnouncesCcmpPsk pkt len ∨
      AnnouncesCcmp pkt (rsnBodies pkt len) ∧ AnnouncesNoAkm pkt (rsnBodies pkt len) ∧
        bssPrivacy pkt = false ∧
        ∃ j < i, (nv.configs j).InUse ∧ (nv.configs j).name = (nv.configs i).name

/-- The locals say CCMP and PSK. -/
def BssLocals.CcmpPsk (l : BssLocals) : Prop := l.pairCrypto = cryptAes ∧ l.authType = authPsk

instance (l : BssLocals) : Decidable l.CcmpPsk := by unfold BssLocals.CcmpPsk; infer_instance

theorem wmiHandleBssInfo_of_accepts {nv : Nvram} {s : Wmi} {pkt : Mem UInt8} {len : ℕ} {i : Fin 3}
    (h : AcceptsThrough nv s pkt len i) :
    (wmiHandleBssInfo nv s pkt len).1 =
      { s with ap := (bssNvram nv pkt len s.ap).1, apFound := true, scanDone := true } := by
  obtain ⟨⟨hlen, hsnr⟩, hacc⟩ := h
  unfold wmiHandleBssInfo
  rw [if_neg (by omega), if_neg (by omega)]
  rcases hb : bssNvram nv pkt len s.ap with ⟨ap, slot⟩
  rw [hb] at hacc
  subst hacc
  rfl

theorem bssRsn_pairCrypto_eq_aes_iff (pkt : Mem UInt8) (len : ℕ) :
    (bssRsn pkt len).pairCrypto = cryptAes ↔ AnnouncesCcmp pkt (rsnBodies pkt len) := by
  rw [bssRsn_eq_announcedBy, rsnBodies_eq]
  exact announcedPair_eq_aes_iff _ _

theorem bssRsn_authType_eq_none_iff (pkt : Mem UInt8) (len : ℕ) :
    (bssRsn pkt len).authType = authNone ↔ AnnouncesNoAkm pkt (rsnBodies pkt len) := by
  rw [bssRsn_eq_announcedBy, rsnBodies_eq]
  exact announcedAuth_eq_none_iff _ _

theorem ccmpPsk_bssLocals (pkt : Mem UInt8) (len : ℕ) :
    (bssLocals pkt len).CcmpPsk ↔ AnnouncesCcmpPsk pkt len := by
  unfold BssLocals.CcmpPsk AnnouncesCcmpPsk
  rw [bssLocals_pairCrypto, bssLocals_authType, bssRsn_pairCrypto_eq_aes_iff,
    bssRsn_eq_announcedBy, rsnBodies_eq]
  exact and_congr_right' (announcedAuth_eq_psk_iff _ _)

/-- `leak` announces PSK when the beacon announced nothing. -/
theorem ccmpPsk_leak (l : BssLocals) : (leak l).CcmpPsk ↔
    l.CcmpPsk ∨ l.pairCrypto = cryptAes ∧ l.authType = authNone ∧ l.secTypeEnum = apOpen := by
  unfold leak BssLocals.CcmpPsk
  by_cases h : l.authType = authNone ∧ l.secTypeEnum = apOpen
  · rw [if_pos h]
    simp only [h, and_true]
    exact ⟨Or.inr, fun hc => hc.elim (fun hc => hc.1) id⟩
  · rw [if_neg h]
    simp only [h, and_false, or_false]

/-- A leaked type is WPA2, so only the beacon's own locals can be open. -/
theorem leak_open_iff (l : BssLocals) :
    ¬(leak l).CcmpPsk ∧ (leak l).secTypeEnum = apOpen ∧ (leak l).authType ≠ authNone ↔
      ¬l.CcmpPsk ∧ l.secTypeEnum = apOpen ∧ l.authType ≠ authNone := by
  unfold leak
  by_cases h : l.authType = authNone ∧ l.secTypeEnum = apOpen
  · rw [if_pos h]
    simp [h.1]
  · rw [if_neg h]

/-- Beside a slot that matches, the slots that match are those in use with its name. -/
theorem matches_iff_of_matches {c c' : NvramCfg} {pkt : Mem UInt8} {len apSnr : ℕ}
    (h : c.Matches pkt len apSnr) :
    c'.Matches pkt len apSnr ↔ c'.InUse ∧ c'.name = c.name := by
  obtain ⟨-, -, -, hname, hsnr⟩ := h
  unfold NvramCfg.Matches NvramCfg.InUse
  rw [hname]
  constructor
  · rintro ⟨hssid, hmode, hidx, hn, -⟩
    exact ⟨⟨hssid, hmode, hidx⟩, hn.symm⟩
  · rintro ⟨⟨hssid, hmode, hidx⟩, hn⟩
    exact ⟨hssid, hmode, hidx, hn.symm, hsnr⟩

/-- A passphrase slot is taken as open exactly outside `KeepsSecurity`. -/
theorem passphrase_open_iff {nv : Nvram} {pkt : Mem UInt8} {len : ℕ} {i : Fin 3}
    (hw : (nv.configs i).wepMode = 0) (hp : (nv.configs i).pass 0 ≠ 0) {l : BssLocals}
    (hl : l = bssLocals pkt len ∨ l = leak (bssLocals pkt len)) :
    (nvramSecurity (nv.configs i) l).1.secTypeEnum = apOpen ↔ ¬KeepsSecurity nv pkt len i := by
  have h0 : (nv.configs i).apPass0 ≠ 0 := by rwa [apPass0_of_pass hw]
  have hred : ¬l.CcmpPsk ∧ l.secTypeEnum = apOpen ∧ l.authType ≠ authNone ↔
      ¬(bssLocals pkt len).CcmpPsk ∧ (bssLocals pkt len).secTypeEnum = apOpen ∧
        (bssLocals pkt len).authType ≠ authNone := by
    rcases hl with rfl | rfl
    · exact Iff.rfl
    · exact leak_open_iff _
  rw [nvramSecurity_open_iff]
  change ¬l.CcmpPsk ∧ _ ↔ _
  simp only [h0, hw, false_or, true_and]
  rw [hred, ccmpPsk_bssLocals, bssLocals_authType]
  unfold KeepsSecurity
  rw [if_pos hw, ← bssRsn_authType_eq_none_iff]
  simp only [not_or]
  by_cases ha : (bssRsn pkt len).authType = authNone
  · simp [ha]
  · rw [bssLocals_secTypeEnum_eq_open_iff (Or.inr ha)]
    simp only [ha, ne_eq, not_false_eq_true, and_true, true_and, Bool.not_eq_true]
    exact and_comm

/-- A WEP slot is taken as open exactly outside `KeepsSecurity`. -/
theorem wep_open_iff {nv : Nvram} {pkt : Mem UInt8} {len apSnr : ℕ} {i : Fin 3}
    (hw : (nv.configs i).wepMode ≠ 0) (hm : (nv.configs i).Matches pkt len apSnr) {l : BssLocals}
    (hl : l = if ∃ j < i, (nv.configs j).Matches pkt len apSnr then leak (bssLocals pkt len)
      else bssLocals pkt len) :
    (nvramSecurity (nv.configs i) l).1.secTypeEnum = apOpen ↔ ¬KeepsSecurity nv pkt len i := by
  have hpsk : l.CcmpPsk ↔ AnnouncesCcmpPsk pkt len ∨
      AnnouncesCcmp pkt (rsnBodies pkt len) ∧ AnnouncesNoAkm pkt (rsnBodies pkt len) ∧
        bssPrivacy pkt = false ∧
        ∃ j < i, (nv.configs j).InUse ∧ (nv.configs j).name = (nv.configs i).name := by
    simp only [matches_iff_of_matches hm] at hl
    rw [hl, ← bssRsn_pairCrypto_eq_aes_iff, ← bssRsn_authType_eq_none_iff]
    by_cases hj : ∃ j < i, (nv.configs j).InUse ∧ (nv.configs j).name = (nv.configs i).name
    · rw [if_pos hj, ccmpPsk_leak, ccmpPsk_bssLocals, bssLocals_pairCrypto, bssLocals_authType]
      simp only [hj, and_true]
      by_cases ha : (bssRsn pkt len).pairCrypto = cryptAes
      · rw [bssLocals_secTypeEnum_eq_open_iff (Or.inl (by rw [ha]; decide))]
      · simp [ha]
    · rw [if_neg hj, ccmpPsk_bssLocals]
      simp only [hj, and_false, or_false]
  rw [nvramSecurity_open_iff]
  change ¬l.CcmpPsk ∧ _ ↔ _
  rw [hpsk, apPass0_of_wep hw]
  unfold KeepsSecurity
  simp only [hw, if_false, false_and, or_false, not_or, not_not, ne_eq]
  exact and_comm.trans Iff.rfl

/-- A `BSS_INFO` payload of the access point `02:00:00:00:00:01` on channel 1. -/
def beacon (snr capability : UInt8) (elements : List UInt8) : List UInt8 :=
  [0x6C, 0x09, 0, snr, 0, 0] ++ [2, 0, 0, 0, 0, 1] ++ List.replicate 12 0 ++ [100, 0] ++
    [capability, 0] ++ elements

/-- The SSID element of the network `ab`. -/
def ssidAb : List UInt8 := [0, 2, 0x61, 0x62]

/-- An RSN element with CCMP ciphers and one AKM suite of the given type. -/
def rsnCcmp (akm : UInt8) : List UInt8 :=
  [0x30, 20, 1, 0, 0, 0x0F, 0xAC, 4, 1, 0, 0, 0x0F, 0xAC, 4, 1, 0, 0, 0x0F, 0xAC, akm, 0, 0]

/-- A slot that is not in use. -/
def unusedSlot : NvramCfg where
  ssid := zeros 0x20
  wepKey1 := zeros 0x10
  wepKey2 := zeros 0x10
  wepKey3 := zeros 0x10
  wepKey4 := zeros 0x10
  wepMode := 0
  wpaMode := 0xFF
  ssidLen := 0
  slotIdx := 0
  pmk := zeros 0x20
  pass := zeros 0x40
  wpaType := 0

/-- The network `ab` with the passphrase `password` for WPA2-AES. -/
def passphraseSlot : NvramCfg :=
  { unusedSlot with
    ssid := arrayOf [0x61, 0x62] 0x20, ssidLen := 2, wpaMode := 0, slotIdx := 1
    pass := arrayOf [0x70, 0x61, 0x73, 0x73, 0x77, 0x6F, 0x72, 0x64] 0x40
    pmk := fun _ => 0x5A, wpaType := wpatypeWpa2Aes }

def unusedWepSlot : NvramCfgWep where
  ssid := zeros 0x20
  wepKey1 := zeros 0x10
  wepKey2 := zeros 0x10
  wepKey3 := zeros 0x10
  wepKey4 := zeros 0x10
  wepMode := 0
  status := 0xFF
  slotIdx := 0

/-- Flash slots `c₀, c₁` and no legacy slot. -/
def nvramOf (c₀ c₁ : NvramCfg) : Nvram where
  configs := ![c₀, c₁, unusedSlot]
  wepConfigs := fun _ => unusedWepSlot

end DsiWifi
