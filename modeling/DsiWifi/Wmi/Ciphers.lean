import DsiWifi.Wmi.Pairwise
import DsiWifi.Wmi.Selection

/-!
# The ciphers of a WPA2 network

The ciphers of the selected network are announced three times: in the `CONNECT` command, in the
RSN element of handshake message 2, and as key types of the `ADD_CIPHER_KEY` commands.  Message 2 and
the pairwise key always say CCMP, the `CONNECT` command says what the beacon announced, so they agree
for CCMP with a CCMP or TKIP group only (`ciphersAgree_iff`).

A beacon is accepted as WPA2 whatever suites it lists.  `accepted_ciphers_agree_iff` says on the
bytes of the beacon when the announcements agree: by the last RSN elements of version 1
(`RsnCcmp`), or because the ciphers come from flash (`UsesFlash`).
-/

namespace DsiWifi

open ApSecurityType ApCipherType

/-! ## Suites of a beacon -/

/-- The beacon asks for CCMP with a CCMP or TKIP group: the last RSN body of version 1 names one of
these as group suite, and the last one that lists any pairwise suite lists CCMP among them. -/
def RsnCcmp (pkt : Mem UInt8) (bodies : List ℕ) : Prop :=
  (∃ p ∈ bodies.getLast?,
      getbe32 pkt (p + 2) = ieeeCryptAesCcmp ∨ getbe32 pkt (p + 2) = ieeeCryptTkip) ∧
    ∃ p ∈ (bodies.filter (rsnPairwise pkt · ≠ 0)).getLast?, ListsCcmp pkt p

theorem announcedGroup_iff (pkt : Mem UInt8) (bodies : List ℕ) :
    (announcedGroup pkt bodies = cryptAes ∨ announcedGroup pkt bodies = cryptTkip) ↔
      ∃ p ∈ bodies.getLast?,
        getbe32 pkt (p + 2) = ieeeCryptAesCcmp ∨ getbe32 pkt (p + 2) = ieeeCryptTkip := by
  unfold announcedGroup rsnGroup
  rcases bodies.getLast? with _ | p
  · simp
  · simp [wmiIeeeToCrypt_eq_aes, wmiIeeeToCrypt_eq_tkip]

/-- When the parsed ciphers are CCMP with a CCMP or TKIP group. -/
theorem bssRsn_ccmp_iff (pkt : Mem UInt8) (len : ℕ) :
    (bssRsn pkt len).pairCrypto = cryptAes ∧
        ((bssRsn pkt len).groupCrypto = cryptAes ∨ (bssRsn pkt len).groupCrypto = cryptTkip) ↔
      RsnCcmp pkt (rsnBodies pkt len) := by
  rw [bssRsn_eq_announcedBy]
  unfold RsnCcmp announcedBy
  rw [← rsnBodies_eq, announcedPair_eq_aes_iff, announcedGroup_iff]
  exact and_comm

/-! ## Announcements -/

/-- The pairwise and group types of the `CONNECT` commands. -/
def connectCiphers (out : List Out) : List (UInt8 × UInt8) :=
  out.filterMap fun o => match o with
    | .wmi (.connect params) => some (params.getD 3 0, params.getD 5 0)
    | _ => none

/-- The pairwise and group suites of the RSN elements that replies carry as key data. -/
def handshakeCiphers (out : List Out) : List (ApCipherType × ApCipherType) :=
  out.filterMap fun o => match o with
    | .data frame =>
      let rsn := Mem.ofList (frame.drop 123) 0
      some (wmiIeeeToCrypt (getbe32 rsn 10), wmiIeeeToCrypt (getbe32 rsn 4))
    | _ => none

/-- The usages and types of the keys that are installed. -/
def keyCiphers (out : List Out) : List (UInt8 × UInt8) :=
  (cipherKeys out).map fun k => (k.keyUsage, k.keyType)

/-- Connecting, message 2 and the installed keys announce the ciphers `pair` and `group`. -/
structure Announces (ap : Ap) (pair group : ApCipherType) : Prop where
  connect : connectCiphers (wmiConnect ap) = [(pair.val, group.val)]
  handshake2 : ∀ (C : Crypto) (k : Keys) (dstBssid srcBssid : Bytes 6) (replayCnt : ℕ)
    (rand : Bytes 32),
    handshakeCiphers (dataSendWpaHandshake2 C ap k dstBssid srcBssid replayCnt rand).2 =
      [(pair, group)]
  keys : ∀ keys : PostKeys,
    keyCiphers (wmiPostHandshake ap (some keys)) = [(0, pair.val), (1, group.val)]

/-- The announcements for the selected network agree, on CCMP with a CCMP or TKIP group. -/
def CiphersAgree (ap : Ap) : Prop :=
  (∃ pair group, Announces ap pair group) ∧ ap.pairCryptType = cryptAes ∧
    (ap.groupCryptType = cryptAes ∨ ap.groupCryptType = cryptTkip)

theorem connectParams_ciphers (ap : Ap) (dot11AuthMode authMode pairwise group : UInt8) :
    (connectParams ap dot11AuthMode authMode pairwise group).getD 3 0 = pairwise ∧
      (connectParams ap dot11AuthMode authMode pairwise group).getD 5 0 = group := by
  unfold connectParams
  constructor
  · rw [getD_overwrite _ _ (by omega) (by simp [overwrite]),
      getD_overwrite _ _ (by omega) (by simp)]
    rfl
  · rw [getD_overwrite _ _ (by omega) (by simp [overwrite]),
      getD_overwrite _ _ (by omega) (by simp)]
    rfl

section Wpa2

variable {ap : Ap}

theorem connectCiphers_wmiConnect (h : ap.securityType = apWpa2) :
    connectCiphers (wmiConnect ap) = [(ap.pairCryptType.val, ap.groupCryptType.val)] := by
  obtain ⟨h3, h5⟩ := connectParams_ciphers ap 1 5 ap.pairCryptType.val ap.groupCryptType.val
  have hcmd : connectCiphers (wmiConnect ap) = connectCiphers (wmiConnectCmd ap) := rfl
  rw [hcmd, wmiConnectCmd, h]
  change [(_, _)] = _
  rw [h3, h5]

/-- Message 2 announces CCMP, and a TKIP group unless the group cipher is AES. -/
theorem handshakeCiphers_handshake2 (C : Crypto) (k : Keys) (dstBssid srcBssid : Bytes 6)
    (replayCnt : ℕ) (rand : Bytes 32) :
    handshakeCiphers (dataSendWpaHandshake2 C ap k dstBssid srcBssid replayCnt rand).2 =
      [(cryptAes, if ap.groupCryptType = cryptAes then cryptAes else cryptTkip)] := by
  unfold dataSendWpaHandshake2 handshakeCiphers
  simp only [List.filterMap_cons, List.filterMap_nil]
  rw [show (123 : ℕ) = 24 + 99 from rfl, ← List.drop_drop, drop_eapolKeyFrame, drop_eapolKey]
  unfold handshake2Keydata
  split_ifs
  · decide
  · decide

theorem keyCiphers_wmiPostHandshake (h : ap.securityType = apWpa2) (keys : PostKeys) :
    keyCiphers (wmiPostHandshake ap (some keys)) =
      [(0, cryptAes.val), (1, ap.groupCryptType.val)] := by
  unfold wmiPostHandshake keyCiphers
  dsimp only
  rw [if_pos h]
  change [(_, _), (_, _)] = _
  simp [wmiAddCipherKey, h]

/-- The announcements for a WPA2 network agree exactly on the ciphers message 2 can name. -/
theorem ciphersAgree_iff (h : ap.securityType = apWpa2) :
    CiphersAgree ap ↔ ap.pairCryptType = cryptAes ∧
      (ap.groupCryptType = cryptAes ∨ ap.groupCryptType = cryptTkip) := by
  refine ⟨fun ha => ha.2, fun hc => ⟨⟨ap.pairCryptType, ap.groupCryptType, ?_⟩, hc⟩⟩
  obtain ⟨hp, hg⟩ := hc
  refine ⟨connectCiphers_wmiConnect h, ?_, ?_⟩
  · intro C k dstBssid srcBssid replayCnt rand
    rw [handshakeCiphers_handshake2, hp]
    rcases hg with hg | hg
    · simp [hg]
    · simp [hg]
  · intro keys
    rw [keyCiphers_wmiPostHandshake h, hp]

end Wpa2

/-! ## Accepted beacons -/

/-- The event is accepted, through a flash slot or through a legacy slot. -/
def AcceptsBss (nv : Nvram) (s : Wmi) (pkt : Mem UInt8) (len : ℕ) : Prop :=
  (∃ i, AcceptsThrough nv s pkt len i) ∨
    BssHeard pkt len ∧ s.apFound = false ∧ (bssNvram nv pkt len s.ap).2 = none ∧
      (wepLoop nv pkt len [0, 1, 2] (bssNvram nv pkt len s.ap).1).2 ≠ none

/-- The ciphers are taken from flash: the beacon announces no security, and the first slot that
matches it is a passphrase slot for WPA2. -/
def UsesFlash (nv : Nvram) (pkt : Mem UInt8) (len apSnr : ℕ) : Prop :=
  (bssLocals pkt len).Fallback ∧ ∃ i, (nv.configs i).Matches pkt len apSnr ∧
    (∀ j < i, ¬(nv.configs j).Matches pkt len apSnr) ∧
    (nv.configs i).wepMode = 0 ∧ (nv.configs i).pass 0 ≠ 0 ∧
    ((nv.configs i).wpaType = wpatypeWpa2Tkip ∨ (nv.configs i).wpaType = wpatypeWpa2Aes)

/-- A legacy slot is open or WEP. -/
theorem exists_acceptsThrough_of_wpa2 {nv : Nvram} {s : Wmi} {pkt : Mem UInt8} {len : ℕ}
    (hacc : AcceptsBss nv s pkt len)
    (hsec : (wmiHandleBssInfo nv s pkt len).1.ap.securityType = apWpa2) :
    ∃ i, AcceptsThrough nv s pkt len i := by
  rcases hacc with hacc | ⟨⟨hlen, hsnr⟩, hfound, hnone, hwep⟩
  · exact hacc
  · exfalso
    unfold wmiHandleBssInfo at hsec
    rw [if_neg (by omega), if_neg (by omega)] at hsec
    rcases hb : bssNvram nv pkt len s.ap with ⟨ap, slot⟩
    rw [hb] at hnone hwep hsec
    subst hnone
    dsimp only at hwep hsec
    rw [if_neg (by simp [hfound])] at hsec
    rcases @wepLoop_cases nv pkt len [0, 1, 2] ap with ⟨h, -⟩ | ⟨j, -, -, h⟩
    · exact hwep (by rw [h])
    · rw [h] at hsec
      change (wepSlotAp _ _ _).securityType = apWpa2 at hsec
      unfold wepSlotAp at hsec
      dsimp only at hsec
      split_ifs at hsec

@[simp] theorem leak_groupCrypto (l : BssLocals) : (leak l).groupCrypto = l.groupCrypto := by
  unfold leak; split_ifs <;> rfl

@[simp] theorem leak_pairCrypto (l : BssLocals) : (leak l).pairCrypto = l.pairCrypto := by
  unfold leak; split_ifs <;> rfl

theorem leak_authType_of_fallback {l : BssLocals} (h : l.Fallback) :
    (leak l).authType = authPsk := by
  unfold BssLocals.Fallback at h
  unfold leak
  rw [if_pos h]

theorem localsAt_ciphers (nv : Nvram) (pkt : Mem UInt8) (len apSnr : ℕ) (i : Fin 3) :
    (localsAt nv pkt len apSnr i).pairCrypto = (bssRsn pkt len).pairCrypto ∧
      (localsAt nv pkt len apSnr i).groupCrypto = (bssRsn pkt len).groupCrypto := by
  unfold localsAt bssLocals
  constructor
  · split_ifs <;> simp
  · split_ifs <;> simp

/-- After the rewrites of a slot that ends as WPA2 the ciphers are what they were. -/
theorem nvramFinish_ciphers {l : BssLocals} (h : (nvramFinish l).1.secTypeEnum = apWpa2) :
    (nvramFinish l).1.pairCrypto = l.pairCrypto ∧ (nvramFinish l).1.groupCrypto = l.groupCrypto := by
  unfold nvramFinish at h ⊢
  dsimp only at h ⊢
  by_cases hp : l.pairCrypto = cryptAes ∧ l.authType = authPsk
  · simp [hp]
  · rw [if_neg hp] at h ⊢
    by_cases hw : l.secTypeEnum = apWep
    · simp [hw] at h
    · simp [hw]

/-- A slot that takes a beacon as WPA2 keeps its ciphers, outside the fallback. -/
theorem nvramSecurity_ciphers {c : NvramCfg} {l : BssLocals}
    (hf : ¬(c.wepMode = 0 ∧ c.apPass0 ≠ 0 ∧ l.Fallback))
    (h : (nvramSecurity c l).1.secTypeEnum = apWpa2) :
    (nvramSecurity c l).1.pairCrypto = l.pairCrypto ∧
      (nvramSecurity c l).1.groupCrypto = l.groupCrypto := by
  by_cases h0 : c.apPass0 = 0
  · rw [nvramSecurity_of_empty h0] at h ⊢
    exact nvramFinish_ciphers h
  · by_cases hw : c.wepMode = 0
    · have hl : ¬(l.authType = authNone ∧ l.secTypeEnum = apOpen) := fun hl => hf ⟨hw, h0, hl⟩
      rw [nvramSecurity_of_pass hw h0 hl] at h ⊢
      exact nvramFinish_ciphers h
    · rw [nvramSecurity_of_wep hw h0] at h ⊢
      exact nvramFinish_ciphers h

/-- The fallback chooses CCMP with the group cipher of the slot. -/
theorem nvramSecurity_fallback_ciphers {c : NvramCfg} {l : BssLocals} (hw : c.wepMode = 0)
    (h0 : c.apPass0 ≠ 0) (hf : l.Fallback)
    (ht : c.wpaType = wpatypeWpa2Tkip ∨ c.wpaType = wpatypeWpa2Aes) :
    (nvramSecurity c l).1.pairCrypto = cryptAes ∧
      ((nvramSecurity c l).1.groupCrypto = cryptAes ∨
        (nvramSecurity c l).1.groupCrypto = cryptTkip) := by
  have hleak := leak_authType_of_fallback hf
  rw [nvramSecurity_of_fallback hw h0 hf]
  rcases ht with ht | ht
  · rw [if_neg (by rw [ht]; decide), if_pos ht]
    simp [nvramFinish, hleak]
  · rw [if_neg (by rw [ht]; decide), if_neg (by rw [ht]; decide), if_pos ht]
    simp [nvramFinish, hleak]

theorem not_fallback_leak (l : BssLocals) : ¬(leak l).Fallback := by
  by_cases h : l.Fallback
  · intro hf
    exact absurd ((leak_authType_of_fallback h).symm.trans hf.1) (by decide)
  · rwa [leak_of_not_fallback h]

/-- Only the first slot that matches can fall back. -/
theorem localsAt_fallback_iff (nv : Nvram) (pkt : Mem UInt8) (len apSnr : ℕ) (i : Fin 3) :
    (localsAt nv pkt len apSnr i).Fallback ↔
      (bssLocals pkt len).Fallback ∧ ∀ j < i, ¬(nv.configs j).Matches pkt len apSnr := by
  unfold localsAt
  split_ifs with h
  · obtain ⟨j, hj, hm⟩ := h
    exact iff_of_false (not_fallback_leak _) fun hf => hf.2 j hj hm
  · push Not at h
    exact ⟨fun hf => ⟨hf, h⟩, fun hf => hf.1⟩

/-- A beacon that takes its ciphers from flash is accepted by the slot that gives them. -/
theorem bssNvram_of_usesFlash {nv : Nvram} {pkt : Mem UInt8} {len : ℕ} (ap : Ap) {i : Fin 3}
    (hf : (bssLocals pkt len).Fallback) (hm : (nv.configs i).Matches pkt len ap.snr)
    (hfirst : ∀ j < i, ¬(nv.configs j).Matches pkt len ap.snr)
    (ht : (nv.configs i).wpaType = wpatypeWpa2Tkip ∨ (nv.configs i).wpaType = wpatypeWpa2Aes) :
    (bssNvram nv pkt len ap).2 = some i := by
  obtain ⟨pre, post, hpre⟩ := List.append_of_mem (mem_slots i)
  have hr : ¬(nv.configs i).Refuses (bssLocals pkt len) := by
    rw [refuses_iff_of_fallback hf]
    exact fun h => h.2.2 ht
  rw [bssNvram, hpre,
    nvramLoop_of_first (fun j hj => hfirst j ((mem_pre_iff_lt hpre j).1 hj)) hm hr]

/-- **Cipher agreement.** For a beacon accepted as WPA2 the three announcements agree, on CCMP with
a CCMP or TKIP group, if and only if the beacon asks for these or the ciphers come from flash. -/
theorem accepted_ciphers_agree_iff (nv : Nvram) (s : Wmi) (pkt : Mem UInt8) (len : ℕ)
    (hacc : AcceptsBss nv s pkt len)
    (hsec : (wmiHandleBssInfo nv s pkt len).1.ap.securityType = apWpa2) :
    CiphersAgree (wmiHandleBssInfo nv s pkt len).1.ap ↔
      RsnCcmp pkt (rsnBodies pkt len) ∨ UsesFlash nv pkt len s.ap.snr := by
  obtain ⟨i, hi⟩ := exists_acceptsThrough_of_wpa2 hacc hsec
  have hb : bssNvram nv pkt len s.ap = ((bssNvram nv pkt len s.ap).1, some i) :=
    Prod.ext rfl hi.2
  obtain ⟨hm, hr, hap⟩ := bssNvram_some hb
  rw [ciphersAgree_iff hsec]
  rw [wmiHandleBssInfo_of_accepts hi] at hsec ⊢
  dsimp only at hsec ⊢
  rw [hap] at hsec ⊢
  change (nvramSecurity _ _).1.pairCrypto = cryptAes ∧
    ((nvramSecurity _ _).1.groupCrypto = cryptAes ∨
      (nvramSecurity _ _).1.groupCrypto = cryptTkip) ↔ _
  by_cases hf : (nv.configs i).wepMode = 0 ∧ (nv.configs i).apPass0 ≠ 0 ∧
      (localsAt nv pkt len s.ap.snr i).Fallback
  · obtain ⟨hw, h0, hl⟩ := hf
    have hp : (nv.configs i).pass 0 ≠ 0 := by rwa [← apPass0_of_pass hw]
    have ht : (nv.configs i).wpaType = wpatypeWpa2Tkip ∨
        (nv.configs i).wpaType = wpatypeWpa2Aes := by
      by_contra ht
      exact hr ((refuses_iff_of_fallback hl).2 ⟨hw, hp, ht⟩)
    obtain ⟨hfall, hfirst⟩ := (localsAt_fallback_iff ..).1 hl
    exact iff_of_true (nvramSecurity_fallback_ciphers hw h0 hl ht)
      (Or.inr ⟨hfall, i, hm, hfirst, hw, hp, ht⟩)
  · obtain ⟨hp, hg⟩ := nvramSecurity_ciphers hf hsec
    obtain ⟨hlp, hlg⟩ := localsAt_ciphers nv pkt len s.ap.snr i
    rw [hp, hg, hlp, hlg, bssRsn_ccmp_iff]
    refine ⟨Or.inl, fun h => h.elim id ?_⟩
    rintro ⟨hfall, k, hmk, hfirst, hw, hpass, ht⟩
    -- the slot that falls back is the one that accepts
    have hk := bssNvram_of_usesFlash s.ap hfall hmk hfirst ht
    obtain rfl : i = k := Option.some.inj (hi.2.symm.trans hk)
    exact absurd ⟨hw, by rwa [apPass0_of_pass hw], (localsAt_fallback_iff ..).2 ⟨hfall, hfirst⟩⟩ hf

/-- The passphrase network announced with CCMP and PSK. -/
theorem accepted_ciphers_agree_sample :
    CiphersAgree (wmiHandleBssInfo (nvramOf passphraseSlot unusedSlot) .init
      (.ofList (beacon 0x30 0x10 (ssidAb ++ rsnCcmp 2)) 0) 54).1.ap :=
  (accepted_ciphers_agree_iff _ _ _ _ (Or.inl ⟨0, by decide +kernel⟩) (by decide +kernel)).2
    (Or.inl (by unfold RsnCcmp; decide +kernel))

/-- An RSN element with GCMP-256 ciphers and PSK. -/
def rsnGcmp : List UInt8 :=
  [0x30, 20, 1, 0, 0, 0x0F, 0xAC, 9, 1, 0, 0, 0x0F, 0xAC, 9, 1, 0, 0, 0x0F, 0xAC, 2, 0, 0]

/-- The passphrase network announced with GCMP-256 is accepted as WPA2 without a cipher: `CONNECT`
names none, and message 2 announces CCMP. -/
theorem accepted_ciphers_agree_counterexample :
    ¬∀ (nv : Nvram) (s : Wmi) (pkt : Mem UInt8) (len : ℕ), AcceptsBss nv s pkt len →
      (wmiHandleBssInfo nv s pkt len).1.ap.securityType = apWpa2 →
        CiphersAgree (wmiHandleBssInfo nv s pkt len).1.ap := by
  intro h
  obtain ⟨-, hp, -⟩ := h (nvramOf passphraseSlot unusedSlot) .init
    (.ofList (beacon 0x30 0x10 (ssidAb ++ rsnGcmp)) 0) 54 (Or.inl ⟨0, by decide +kernel⟩)
    (by decide +kernel)
  exact absurd hp (by decide +kernel)

end DsiWifi
