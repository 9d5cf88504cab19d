import DsiWifi.Wmi.Elements

/-!
# What `wmi_handle_bss_info` does

One lemma for each part of the handler.  The locals a slot sees are those of the beacon, or, after
a slot was given up in the flash fallback, `leak` of them (`nvramLoop_some`).  A slot that accepts
overwrites everything an earlier rejected slot wrote; when no slot accepts, the last rejected one
stays behind half-written (`nvramLoop_none`).

For a whole event, `wmiHandleBssInfo_frame` says what it can change and emit, and
`wmiHandleBssInfo_cases` what it does to the selection.
-/

namespace DsiWifi

open ApSecurityType ApCipherType

/-! ## Elements -/

/-- The locals `sec_type_enum`, `pair_crypto` and `auth_type` move together: once an RSN element
announced a cipher or an AKM suite, the type is no longer open. -/
def BssLocals.RsnSeen (l : BssLocals) : Prop :=
  l.secTypeEnum = apOpen → l.pairCrypto = cryptNone ∧ l.authType = authNone

theorem rsnElement_secTypeEnum_ne (pkt : Mem UInt8) (p : ℕ) (l : BssLocals) :
    (rsnElement pkt p l).secTypeEnum ≠ apOpen := by
  unfold rsnElement
  dsimp only
  split_ifs <;> simp

theorem bssRsn_rsnSeen (pkt : Mem UInt8) (len : ℕ) : (bssRsn pkt len).RsnSeen := by
  apply bssRsn_induction
  · exact fun _ => ⟨rfl, rfl⟩
  · intro p l _ hopen
    exact absurd hopen (rsnElement_secTypeEnum_ne _ _ _)

/-- No element announces WEP. -/
theorem bssRsn_secTypeEnum_ne_wep (pkt : Mem UInt8) (len : ℕ) :
    (bssRsn pkt len).secTypeEnum ≠ apWep := by
  apply bssRsn_induction (P := fun l => l.secTypeEnum ≠ apWep)
  · decide
  · intro p l _
    unfold rsnElement
    dsimp only
    split_ifs <;> simp

theorem bssLocals_secTypeEnum_ne_wep (pkt : Mem UInt8) (len : ℕ) :
    (bssLocals pkt len).secTypeEnum ≠ apWep := by
  have h := bssRsn_secTypeEnum_ne_wep pkt len
  unfold bssLocals
  split_ifs
  · exact h
  · simp

@[simp] theorem bssLocals_authType (pkt : Mem UInt8) (len : ℕ) :
    (bssLocals pkt len).authType = (bssRsn pkt len).authType := by
  unfold bssLocals; split_ifs <;> rfl

@[simp] theorem bssLocals_pairCrypto (pkt : Mem UInt8) (len : ℕ) :
    (bssLocals pkt len).pairCrypto = (bssRsn pkt len).pairCrypto := by
  unfold bssLocals; split_ifs <;> rfl

/-- When something was announced, the type is open exactly without the privacy bit. -/
theorem bssLocals_secTypeEnum_eq_open_iff {pkt : Mem UInt8} {len : ℕ}
    (h : (bssRsn pkt len).pairCrypto ≠ cryptNone ∨ (bssRsn pkt len).authType ≠ authNone) :
    (bssLocals pkt len).secTypeEnum = apOpen ↔ bssPrivacy pkt = false := by
  have hseen := bssRsn_rsnSeen pkt len
  unfold bssLocals
  cases hp : bssPrivacy pkt with
  | false => simp
  | true =>
    simp only [if_true, Bool.true_eq_false, iff_false]
    intro hopen
    obtain ⟨h₁, h₂⟩ := hseen hopen
    exact h.elim (fun h => h h₁) (fun h => h h₂)

/-! ## The decision of a slot -/

/-- What a rejected slot leaves in the locals: the flash fallback has already claimed WPA2-PSK. -/
def leak (l : BssLocals) : BssLocals :=
  if l.authType = authNone ∧ l.secTypeEnum = apOpen then
    { l with secTypeEnum := apWpa2, authType := authPsk }
  else l

theorem leak_leak (l : BssLocals) : leak (leak l) = leak l := by
  by_cases h : l.authType = authNone ∧ l.secTypeEnum = apOpen
  · simp [leak, h, authPsk, authNone]
  · simp [leak, h]

/-- The beacon is given up by the slot: unsupported WPA, or an unknown flash type. -/
def NvramCfg.Refuses (c : NvramCfg) (l : BssLocals) : Prop :=
  c.wepMode = 0 ∧ c.pass 0 ≠ 0 ∧
    if l.authType = authNone ∧ l.secTypeEnum = apOpen then
      c.wpaType ≠ wpatypeWpa2Tkip ∧ c.wpaType ≠ wpatypeWpa2Aes
    else ¬(l.pairCrypto = cryptAes ∧ l.authType = authPsk) ∧ l.secTypeEnum = apWpa

instance (c : NvramCfg) (l : BssLocals) : Decidable (c.Refuses l) := by
  unfold NvramCfg.Refuses; infer_instance

theorem nvramFinish_snd (l : BssLocals) : (nvramFinish l).2 = true ↔
    (l.pairCrypto = cryptAes ∧ l.authType = authPsk) ∨ l.secTypeEnum ≠ apWpa := by
  unfold nvramFinish
  by_cases h : l.pairCrypto = cryptAes ∧ l.authType = authPsk
  · simp [h]
  · by_cases hw : l.secTypeEnum = apWep <;> simp [h, hw]

theorem nvramFinish_secTypeEnum (l : BssLocals) : (nvramFinish l).1.secTypeEnum =
    if l.pairCrypto = cryptAes ∧ l.authType = authPsk then apWpa2 else l.secTypeEnum := by
  unfold nvramFinish
  by_cases h : l.pairCrypto = cryptAes ∧ l.authType = authPsk
  · simp [h]
  · by_cases hw : l.secTypeEnum = apWep <;> simp [h, hw]

section Security

variable {c : NvramCfg} {l : BssLocals}

/-- A slot with an empty password skips the fallback and takes the beacon as open. -/
theorem nvramSecurity_of_empty (h : c.apPass0 = 0) :
    nvramSecurity c l = nvramFinish { l with secTypeEnum := apOpen } := by
  unfold nvramSecurity
  by_cases hw : c.wepMode = 0 <;> simp [h, hw]

/-- A WEP slot with a key takes the beacon as WEP. -/
theorem nvramSecurity_of_wep (hw : c.wepMode ≠ 0) (h : c.apPass0 ≠ 0) :
    nvramSecurity c l = nvramFinish { l with secTypeEnum := apWep } := by
  unfold nvramSecurity
  simp [h, hw]

/-- A passphrase slot keeps what the beacon announces. -/
theorem nvramSecurity_of_pass (hw : c.wepMode = 0) (h : c.apPass0 ≠ 0)
    (hf : ¬(l.authType = authNone ∧ l.secTypeEnum = apOpen)) :
    nvramSecurity c l = nvramFinish l := by
  unfold nvramSecurity
  simp [h, hw, hf]

/-- A passphrase slot falls back to the flash values when the beacon announces nothing. -/
theorem nvramSecurity_of_fallback (hw : c.wepMode = 0) (h : c.apPass0 ≠ 0)
    (hf : l.authType = authNone ∧ l.secTypeEnum = apOpen) :
    nvramSecurity c l =
      if c.wpaType = wpatypeWpaTkip ∨ c.wpaType = wpatypeWpaAes then (leak l, false)
      else if c.wpaType = wpatypeWpa2Tkip then
        nvramFinish { leak l with groupCrypto := cryptTkip, pairCrypto := cryptAes }
      else if c.wpaType = wpatypeWpa2Aes then
        nvramFinish { leak l with groupCrypto := cryptAes, pairCrypto := cryptAes }
      else (leak l, false) := by
  unfold nvramSecurity leak
  simp [h, hw, hf]

theorem apPass0_of_pass (hw : c.wepMode = 0) : c.apPass0 = c.pass 0 := by
  unfold NvramCfg.apPass0; rw [if_neg (by simp [hw])]

theorem apPass0_of_wep (hw : c.wepMode ≠ 0) : c.apPass0 = c.wepKey1 0 := by
  unfold NvramCfg.apPass0; rw [if_pos hw]

/-- A refused slot gives the beacon up and leaves `leak` of the locals. -/
theorem nvramSecurity_of_refuses (h : c.Refuses l) : nvramSecurity c l = (leak l, false) := by
  obtain ⟨hw, hp, hr⟩ := h
  have hp0 : c.apPass0 ≠ 0 := by rwa [apPass0_of_pass hw]
  by_cases hf : l.authType = authNone ∧ l.secTypeEnum = apOpen
  · rw [if_pos hf] at hr
    rw [nvramSecurity_of_fallback hw hp0 hf, if_neg hr.1, if_neg hr.2, ite_self]
  · rw [if_neg hf] at hr
    rw [nvramSecurity_of_pass hw hp0 hf]
    unfold leak nvramFinish
    simp [hr]

/-- A slot that does not refuse the beacon accepts it. -/
theorem nvramSecurity_snd_of_not_refuses (h : ¬c.Refuses l) : (nvramSecurity c l).2 = true := by
  by_cases h0 : c.apPass0 = 0
  · rw [nvramSecurity_of_empty h0, nvramFinish_snd]
    exact Or.inr (by simp)
  by_cases hw : c.wepMode = 0
  · have hp : c.pass 0 ≠ 0 := by rwa [← apPass0_of_pass hw]
    unfold NvramCfg.Refuses at h
    by_cases hf : l.authType = authNone ∧ l.secTypeEnum = apOpen
    · rw [if_pos hf] at h
      have hfin : ∀ g : ApCipherType, (nvramFinish
          { leak l with groupCrypto := g, pairCrypto := cryptAes }).2 = true := by
        intro g
        rw [nvramFinish_snd]
        exact Or.inl ⟨rfl, by simp [leak, hf]⟩
      rw [nvramSecurity_of_fallback hw h0 hf]
      by_cases ht : c.wpaType = wpatypeWpa2Tkip
      · rw [if_neg (by rw [ht]; decide), if_pos ht]
        exact hfin _
      · have ha : c.wpaType = wpatypeWpa2Aes := by
          by_contra ha
          exact h ⟨hw, hp, ht, ha⟩
        rw [if_neg (by rw [ha]; decide), if_neg ht, if_pos ha]
        exact hfin _
    · rw [if_neg hf] at h
      rw [nvramSecurity_of_pass hw h0 hf, nvramFinish_snd]
      by_contra hn
      obtain ⟨h₁, h₂⟩ := not_or.1 hn
      exact h ⟨hw, hp, h₁, not_not.1 h₂⟩
  · rw [nvramSecurity_of_wep hw h0, nvramFinish_snd]
    exact Or.inr (by simp)

theorem nvramSecurity_snd : (nvramSecurity c l).2 = true ↔ ¬c.Refuses l := by
  constructor
  · intro h hr
    rw [nvramSecurity_of_refuses hr] at h
    exact absurd h (by simp)
  · exact nvramSecurity_snd_of_not_refuses

/-- When the decision of a slot ends as open. -/
theorem nvramSecurity_open_iff :
    (nvramSecurity c l).1.secTypeEnum = apOpen ↔
      ¬(l.pairCrypto = cryptAes ∧ l.authType = authPsk) ∧
        (c.apPass0 = 0 ∨ c.wepMode = 0 ∧ l.secTypeEnum = apOpen ∧ l.authType ≠ authNone) := by
  by_cases h0 : c.apPass0 = 0
  · rw [nvramSecurity_of_empty h0, nvramFinish_secTypeEnum]
    by_cases hp : l.pairCrypto = cryptAes ∧ l.authType = authPsk <;> simp [hp, h0]
  by_cases hw : c.wepMode = 0
  · by_cases hf : l.authType = authNone ∧ l.secTypeEnum = apOpen
    · -- the fallback only accepts as WPA2
      have hfin : ∀ g : ApCipherType, (nvramFinish
          { leak l with groupCrypto := g, pairCrypto := cryptAes }).1.secTypeEnum ≠ apOpen := by
        intro g
        rw [nvramFinish_secTypeEnum]
        simp [leak, hf]
      have hne : (nvramSecurity c l).1.secTypeEnum ≠ apOpen := by
        rw [nvramSecurity_of_fallback hw h0 hf]
        split_ifs
        · simp [leak, hf]
        · exact hfin _
        · exact hfin _
        · simp [leak, hf]
      simp [hne, h0, hf]
    · rw [nvramSecurity_of_pass hw h0 hf, nvramFinish_secTypeEnum]
      by_cases hp : l.pairCrypto = cryptAes ∧ l.authType = authPsk
      · simp [hp]
      · simp only [hp, if_false, not_false_eq_true, true_and, h0, hw, false_or]
        constructor
        · exact fun ho => ⟨ho, fun hn => hf ⟨hn, ho⟩⟩
        · exact fun ho => ho.1
  · rw [nvramSecurity_of_wep hw h0, nvramFinish_secTypeEnum]
    by_cases hp : l.pairCrypto = cryptAes ∧ l.authType = authPsk <;> simp [hp, h0, hw]

/-- Only a WEP slot is taken as WEP. -/
theorem wepMode_of_nvramSecurity_wep (hl : l.secTypeEnum ≠ apWep)
    (h : (nvramSecurity c l).1.secTypeEnum = apWep) : c.wepMode ≠ 0 := by
  intro hw
  by_cases h0 : c.apPass0 = 0
  · rw [nvramSecurity_of_empty h0, nvramFinish_secTypeEnum] at h
    split_ifs at h
  · by_cases hf : l.authType = authNone ∧ l.secTypeEnum = apOpen
    · have hleak : (leak l).secTypeEnum = apWpa2 := by simp [leak, hf]
      rw [nvramSecurity_of_fallback hw h0 hf] at h
      split_ifs at h
      · simp [hleak] at h
      · rw [nvramFinish_secTypeEnum] at h
        split_ifs at h
        simp [hleak] at h
      · rw [nvramFinish_secTypeEnum] at h
        split_ifs at h
        simp [hleak] at h
      · simp [hleak] at h
    · rw [nvramSecurity_of_pass hw h0 hf, nvramFinish_secTypeEnum] at h
      split_ifs at h
      exact hl h

end Security

/-! ## The slot loops -/

section Loops

variable {nv : Nvram} {pkt : Mem UInt8} {len : ℕ}

@[simp] theorem nvramSlotAp_snr (c : NvramCfg) (i : Fin 3) (ap : Ap) :
    (nvramSlotAp c i ap).snr = ap.snr := by
  unfold nvramSlotAp; dsimp only; split_ifs <;> rfl

/-- A slot overwrites what an earlier passphrase slot wrote. -/
theorem nvramSlotAp_nvramSlotAp {c c' : NvramCfg} (i i' : Fin 3) (ap : Ap) (h : c'.wepMode = 0) :
    nvramSlotAp c i (nvramSlotAp c' i' ap) = nvramSlotAp c i ap := by
  unfold nvramSlotAp
  simp [h]

section Slot

variable {j : Fin 3} {is : List (Fin 3)} {l : BssLocals} {ap : Ap}

theorem nvramLoop_of_not_matches (hm : ¬(nv.configs j).Matches pkt len ap.snr) :
    nvramLoop nv pkt len (j :: is) l ap = nvramLoop nv pkt len is l ap := by
  conv_lhs => unfold nvramLoop
  exact if_neg hm

/-- A slot that refuses the beacon has written to the selection and to the locals. -/
theorem nvramLoop_of_refuses (hm : (nv.configs j).Matches pkt len ap.snr)
    (hr : (nv.configs j).Refuses l) : nvramLoop nv pkt len (j :: is) l ap =
      nvramLoop nv pkt len is (leak l) (nvramSlotAp (nv.configs j) j ap) := by
  conv_lhs => unfold nvramLoop
  dsimp only
  rw [if_pos hm, nvramSecurity_of_refuses hr]
  rfl

theorem nvramLoop_of_accepts (hm : (nv.configs j).Matches pkt len ap.snr)
    (hr : ¬(nv.configs j).Refuses l) : nvramLoop nv pkt len (j :: is) l ap =
      (nvramAccept pkt (nvramSecurity (nv.configs j) l).1 (nvramSlotAp (nv.configs j) j ap),
        some j) := by
  conv_lhs => unfold nvramLoop
  dsimp only
  rw [if_pos hm, if_pos (nvramSecurity_snd.2 hr)]

end Slot

/-- The locals the slot after the slots `pre` sees. -/
def slotLocals (nv : Nvram) (pkt : Mem UInt8) (len apSnr : ℕ) (pre : List (Fin 3))
    (l : BssLocals) : BssLocals :=
  if ∃ j ∈ pre, (nv.configs j).Matches pkt len apSnr then leak l else l

/-- The loop ends at the slot that accepts.  The slots before it either do not match or refuse the
beacon; the only trace they leave is `leak` in the locals. -/
theorem nvramLoop_some {is : List (Fin 3)} {l : BssLocals} {ap ap' : Ap} {i : Fin 3}
    (h : nvramLoop nv pkt len is l ap = (ap', some i)) :
    ∃ pre post, is = pre ++ i :: post ∧ (nv.configs i).Matches pkt len ap.snr ∧
      ¬(nv.configs i).Refuses (slotLocals nv pkt len ap.snr pre l) ∧
      ap' = nvramAccept pkt (nvramSecurity (nv.configs i) (slotLocals nv pkt len ap.snr pre l)).1
        (nvramSlotAp (nv.configs i) i ap) := by
  induction is generalizing l ap with
  | nil => simp [nvramLoop] at h
  | cons j is ih =>
    by_cases hm : (nv.configs j).Matches pkt len ap.snr
    · by_cases hr : (nv.configs j).Refuses l
      · rw [nvramLoop_of_refuses hm hr] at h
        obtain ⟨pre, post, rfl, hmi, hri, hap⟩ := ih h
        rw [nvramSlotAp_snr] at hmi hri hap
        have hl : slotLocals nv pkt len ap.snr pre (leak l) =
            slotLocals nv pkt len ap.snr (j :: pre) l := by
          unfold slotLocals
          rw [leak_leak, ite_self, if_pos ⟨j, List.mem_cons_self, hm⟩]
        rw [hl] at hri hap
        rw [nvramSlotAp_nvramSlotAp _ _ _ hr.1] at hap
        exact ⟨j :: pre, post, rfl, hmi, hri, hap⟩
      · rw [nvramLoop_of_accepts hm hr, Prod.mk.injEq, Option.some.injEq] at h
        obtain ⟨rfl, rfl⟩ := h
        exact ⟨[], is, rfl, hm, by simpa [slotLocals] using hr, by simp [slotLocals]⟩
    · rw [nvramLoop_of_not_matches hm] at h
      obtain ⟨pre, post, rfl, hmi, hri, hap⟩ := ih h
      have hl : slotLocals nv pkt len ap.snr (j :: pre) l =
          slotLocals nv pkt len ap.snr pre l := by
        unfold slotLocals
        simp [hm]
      exact ⟨j :: pre, post, rfl, hmi, by rwa [hl], by rwa [hl]⟩

/-- A slot that matches and does not refuse the beacon ends the loop, if no earlier one does. -/
theorem nvramLoop_of_takes {pre post : List (Fin 3)} {i : Fin 3} {l : BssLocals} {ap : Ap}
    (hm : (nv.configs i).Matches pkt len ap.snr)
    (hr : ¬(nv.configs i).Refuses (slotLocals nv pkt len ap.snr pre l)) :
    ∃ k, (k ∈ pre ∨ k = i) ∧ (nvramLoop nv pkt len (pre ++ i :: post) l ap).2 = some k := by
  induction pre generalizing l ap with
  | nil =>
    rw [List.nil_append, nvramLoop_of_accepts hm (by simpa [slotLocals] using hr)]
    exact ⟨i, Or.inr rfl, rfl⟩
  | cons j pre ih =>
    rw [List.cons_append]
    by_cases hmj : (nv.configs j).Matches pkt len ap.snr
    · by_cases hrj : (nv.configs j).Refuses l
      · have hl : slotLocals nv pkt len ap.snr pre (leak l) =
            slotLocals nv pkt len ap.snr (j :: pre) l := by
          unfold slotLocals
          rw [leak_leak, ite_self, if_pos ⟨j, List.mem_cons_self, hmj⟩]
        rw [nvramLoop_of_refuses hmj hrj]
        have hih := @ih (leak l) (nvramSlotAp (nv.configs j) j ap)
        rw [nvramSlotAp_snr, hl] at hih
        obtain ⟨k, hk, hres⟩ := hih hm hr
        exact ⟨k, hk.imp_left (List.mem_cons_of_mem _), hres⟩
      · rw [nvramLoop_of_accepts hmj hrj]
        exact ⟨j, Or.inl List.mem_cons_self, rfl⟩
    · have hl : slotLocals nv pkt len ap.snr (j :: pre) l =
          slotLocals nv pkt len ap.snr pre l := by
        unfold slotLocals
        simp [hmj]
      rw [nvramLoop_of_not_matches hmj]
      obtain ⟨k, hk, hres⟩ := ih hm (by rwa [← hl])
      exact ⟨k, hk.imp_left (List.mem_cons_of_mem _), hres⟩

/-- When no slot accepts, the last slot that refused the beacon stays half-written. -/
theorem nvramLoop_none {is : List (Fin 3)} {l : BssLocals} {ap ap' : Ap}
    (h : nvramLoop nv pkt len is l ap = (ap', none)) :
    (ap' = ap ∧ ∀ j ∈ is, ¬(nv.configs j).Matches pkt len ap.snr) ∨
      ∃ pre j post, is = pre ++ j :: post ∧ (nv.configs j).Matches pkt len ap.snr ∧
        (∀ k ∈ post, ¬(nv.configs k).Matches pkt len ap.snr) ∧ (nv.configs j).wepMode = 0 ∧
        ap' = nvramSlotAp (nv.configs j) j ap := by
  induction is generalizing l ap with
  | nil =>
    simp only [nvramLoop, Prod.mk.injEq, and_true] at h
    exact Or.inl ⟨h.symm, by simp⟩
  | cons j is ih =>
    by_cases hm : (nv.configs j).Matches pkt len ap.snr
    · by_cases hr : (nv.configs j).Refuses l
      · rw [nvramLoop_of_refuses hm hr] at h
        right
        rcases ih h with ⟨rfl, hall⟩ | ⟨pre, k, post, rfl, hmk, hpost, hwk, rfl⟩
        · rw [nvramSlotAp_snr] at hall
          exact ⟨[], j, is, rfl, hm, hall, hr.1, rfl⟩
        · rw [nvramSlotAp_snr] at hmk hpost
          exact ⟨j :: pre, k, post, rfl, hmk, hpost, hwk, nvramSlotAp_nvramSlotAp _ _ _ hr.1⟩
      · rw [nvramLoop_of_accepts hm hr] at h
        exact nomatch congrArg Prod.snd h
    · rw [nvramLoop_of_not_matches hm] at h
      rcases ih h with ⟨rfl, hall⟩ | ⟨pre, k, post, rfl, hmk, hpost, hwk, rfl⟩
      · exact Or.inl ⟨rfl, by simpa using ⟨hm, hall⟩⟩
      · exact Or.inr ⟨j :: pre, k, post, rfl, hmk, hpost, hwk, rfl⟩

/-- The first slot that matches decides with the locals of the beacon. -/
theorem nvramLoop_of_first {pre post : List (Fin 3)} {i : Fin 3} {l : BssLocals} {ap : Ap}
    (hpre : ∀ j ∈ pre, ¬(nv.configs j).Matches pkt len ap.snr)
    (hm : (nv.configs i).Matches pkt len ap.snr) (hr : ¬(nv.configs i).Refuses l) :
    nvramLoop nv pkt len (pre ++ i :: post) l ap =
      (nvramAccept pkt (nvramSecurity (nv.configs i) l).1 (nvramSlotAp (nv.configs i) i ap),
        some i) := by
  induction pre with
  | nil => exact nvramLoop_of_accepts hm hr
  | cons j pre ih =>
    obtain ⟨hj, hpre⟩ := List.forall_mem_cons.1 hpre
    rw [List.cons_append, nvramLoop_of_not_matches hj, ih hpre]

/-- Without the fallback, the loop accepts as soon as some slot does. -/
theorem nvramLoop_ne_none {is : List (Fin 3)} {i : Fin 3} {l : BssLocals} {ap : Ap}
    (hl : leak l = l) (hi : i ∈ is) (hm : (nv.configs i).Matches pkt len ap.snr)
    (hr : ¬(nv.configs i).Refuses l) : (nvramLoop nv pkt len is l ap).2 ≠ none := by
  induction is generalizing ap with
  | nil => simp at hi
  | cons j is ih =>
    by_cases hj : (nv.configs j).Matches pkt len ap.snr
    · by_cases hrj : (nv.configs j).Refuses l
      · rw [nvramLoop_of_refuses hj hrj, hl]
        have hi' : i ∈ is := by
          rcases List.mem_cons.1 hi with rfl | hi
          · exact absurd hrj hr
          · exact hi
        exact ih hi' (by rwa [nvramSlotAp_snr])
      · rw [nvramLoop_of_accepts hj hrj]
        exact Option.some_ne_none j
    · rw [nvramLoop_of_not_matches hj]
      have hi' : i ∈ is := by
        rcases List.mem_cons.1 hi with rfl | hi
        · exact absurd hm hj
        · exact hi
      exact ih hi' hm

/-- The legacy loop takes the first match, or changes nothing. -/
theorem wepLoop_cases (is : List (Fin 3)) (ap : Ap) :
    (wepLoop nv pkt len is ap = (ap, none) ∧
        ∀ j ∈ is, ¬(nv.wepConfigs j).Matches pkt len ap.snr) ∨
      ∃ j ∈ is, (nv.wepConfigs j).Matches pkt len ap.snr ∧
        wepLoop nv pkt len is ap = (wepSlotAp (nv.wepConfigs j) j pkt, some j) := by
  induction is with
  | nil => exact Or.inl ⟨rfl, by simp⟩
  | cons j is ih =>
    unfold wepLoop
    by_cases hm : (nv.wepConfigs j).Matches pkt len ap.snr
    · exact Or.inr ⟨j, List.mem_cons_self, hm, by rw [if_pos hm]⟩
    · dsimp only
      rw [if_neg hm]
      rcases ih with ⟨h, hall⟩ | ⟨k, hk, hmk, h⟩
      · exact Or.inl ⟨h, by simpa using ⟨hm, hall⟩⟩
      · exact Or.inr ⟨k, List.mem_cons_of_mem _ hk, hmk, h⟩

theorem mem_slots (i : Fin 3) : i ∈ ([0, 1, 2] : List (Fin 3)) := by
  revert i
  decide

/-- The slots before and behind slot `i`. -/
theorem mem_split_iff_lt {pre post : List (Fin 3)} {i : Fin 3} (h : [0, 1, 2] = pre ++ i :: post)
    (j : Fin 3) : (j ∈ pre ↔ j < i) ∧ (j ∈ post ↔ i < j) := by
  rcases pre with _ | ⟨a, _ | ⟨b, _ | ⟨c, pre⟩⟩⟩
  · simp only [List.nil_append, List.cons.injEq] at h
    obtain ⟨rfl, rfl⟩ := h
    revert j; decide
  · simp only [List.cons_append, List.nil_append, List.cons.injEq] at h
    obtain ⟨rfl, rfl, rfl⟩ := h
    revert j; decide
  · simp only [List.cons_append, List.nil_append, List.cons.injEq] at h
    obtain ⟨rfl, rfl, rfl, rfl⟩ := h
    revert j; decide
  · simp at h

theorem mem_pre_iff_lt {pre post : List (Fin 3)} {i : Fin 3} (h : [0, 1, 2] = pre ++ i :: post)
    (j : Fin 3) : j ∈ pre ↔ j < i := (mem_split_iff_lt h j).1

theorem mem_post_iff_lt {pre post : List (Fin 3)} {i : Fin 3} (h : [0, 1, 2] = pre ++ i :: post)
    (j : Fin 3) : j ∈ post ↔ i < j := (mem_split_iff_lt h j).2

/-- The locals flash slot `i` sees. -/
def localsAt (nv : Nvram) (pkt : Mem UInt8) (len apSnr : ℕ) (i : Fin 3) : BssLocals :=
  if ∃ j < i, (nv.configs j).Matches pkt len apSnr then leak (bssLocals pkt len)
  else bssLocals pkt len

theorem slotLocals_eq_localsAt {pre post : List (Fin 3)} {i : Fin 3}
    (h : [0, 1, 2] = pre ++ i :: post) (apSnr : ℕ) :
    slotLocals nv pkt len apSnr pre (bssLocals pkt len) = localsAt nv pkt len apSnr i := by
  unfold slotLocals localsAt
  simp only [mem_pre_iff_lt h]

/-- The flash slot that accepts an event, and what it selects. -/
theorem bssNvram_some {ap ap' : Ap} {i : Fin 3} (h : bssNvram nv pkt len ap = (ap', some i)) :
    (nv.configs i).Matches pkt len ap.snr ∧
      ¬(nv.configs i).Refuses (localsAt nv pkt len ap.snr i) ∧
      ap' = nvramAccept pkt (nvramSecurity (nv.configs i) (localsAt nv pkt len ap.snr i)).1
        (nvramSlotAp (nv.configs i) i ap) := by
  obtain ⟨pre, post, hpre, hm, hr, hap⟩ := nvramLoop_some h
  rw [slotLocals_eq_localsAt hpre] at hr hap
  exact ⟨hm, hr, hap⟩

/-- A slot that matches and does not refuse the beacon accepts it, or an earlier one does. -/
theorem bssNvram_of_takes {ap : Ap} {i : Fin 3} (hm : (nv.configs i).Matches pkt len ap.snr)
    (hr : ¬(nv.configs i).Refuses (localsAt nv pkt len ap.snr i)) :
    ∃ k ≤ i, (bssNvram nv pkt len ap).2 = some k := by
  obtain ⟨pre, post, hpre⟩ := List.append_of_mem (mem_slots i)
  rw [← slotLocals_eq_localsAt hpre] at hr
  obtain ⟨k, hk, hres⟩ := nvramLoop_of_takes hm hr
  refine ⟨k, ?_, by rw [bssNvram, hpre]; exact hres⟩
  rcases hk with hk | rfl
  · exact ((mem_pre_iff_lt hpre k).1 hk).le
  · exact le_rfl

/-- When no slot accepts, the last slot that matches stays half-written. -/
theorem bssNvram_none {ap ap' : Ap} (h : bssNvram nv pkt len ap = (ap', none)) :
    (∀ j, (nv.configs j).Matches pkt len ap.snr →
        (nv.configs j).Refuses (localsAt nv pkt len ap.snr j)) ∧
      (ap' = ap ∨ ∃ j, (nv.configs j).Matches pkt len ap.snr ∧
        (∀ k, j < k → ¬(nv.configs k).Matches pkt len ap.snr) ∧
        ap' = nvramSlotAp (nv.configs j) j ap) := by
  constructor
  · intro j hm
    by_contra hr
    obtain ⟨k, -, hk⟩ := bssNvram_of_takes hm hr
    rw [h] at hk
    exact nomatch hk
  · rcases nvramLoop_none h with ⟨rfl, -⟩ | ⟨pre, j, post, hpre, hm, hpost, -, rfl⟩
    · exact Or.inl rfl
    · exact Or.inr ⟨j, hm, fun k hk => hpost k ((mem_post_iff_lt hpre k).2 hk), rfl⟩

end Loops

/-! ## The handler -/

/-- An event writes the selection and the two flags, and at most lifts the filter. -/
theorem wmiHandleBssInfo_frame (nv : Nvram) (s : Wmi) (pkt : Mem UInt8) (len : ℕ) :
    ∃ ap found done out, wmiHandleBssInfo nv s pkt len =
        ({ s with ap := ap, apFound := found, scanDone := done }, out) ∧
      (out = [] ∨ out = [.wmi (.setBssFilter 0 0)]) := by
  unfold wmiHandleBssInfo
  split_ifs
  · exact ⟨_, _, _, _, rfl, Or.inl rfl⟩
  · exact ⟨_, _, _, _, rfl, Or.inl rfl⟩
  · split
    · exact ⟨_, _, _, _, rfl, Or.inr rfl⟩
    · exact ⟨_, _, _, _, rfl, Or.inl rfl⟩
  · split
    · exact ⟨_, _, _, _, rfl, Or.inr rfl⟩
    · split
      · exact ⟨_, _, _, _, rfl, Or.inr rfl⟩
      · exact ⟨_, _, _, _, rfl, Or.inl rfl⟩

/-- What an event does to the selection: nothing; it is accepted through a flash slot or through a
legacy slot; or a flash slot that refused it stays half-written. -/
theorem wmiHandleBssInfo_cases (nv : Nvram) (s : Wmi) (pkt : Mem UInt8) (len : ℕ) :
    let s' := (wmiHandleBssInfo nv s pkt len).1
    (s'.ap = s.ap ∧ s'.apFound = s.apFound) ∨
      (BssHeard pkt len ∧ s'.apFound = true ∧
        ∃ i, bssNvram nv pkt len s.ap = (s'.ap, some i)) ∨
      (BssHeard pkt len ∧ s.apFound = false ∧ s'.apFound = true ∧
        ∃ j, (nv.wepConfigs j).Matches pkt len s.ap.snr ∧
          s'.ap = wepSlotAp (nv.wepConfigs j) j pkt) ∨
      (BssHeard pkt len ∧ s'.apFound = s.apFound ∧ bssNvram nv pkt len s.ap = (s'.ap, none) ∧
        (s.apFound = false → ∀ j, ¬(nv.wepConfigs j).Matches pkt len s.ap.snr) ∧
        ∃ j, (nv.configs j).Matches pkt len s.ap.snr ∧ (nv.configs j).wepMode = 0 ∧
          s'.ap = nvramSlotAp (nv.configs j) j s.ap) := by
  unfold wmiHandleBssInfo
  by_cases hlen : len ≤ 0x1C
  · rw [if_pos hlen]
    exact Or.inl ⟨rfl, rfl⟩
  rw [if_neg hlen]
  by_cases hsnr : bssSnr pkt < 0x20
  · rw [if_pos hsnr]
    exact Or.inl ⟨rfl, rfl⟩
  rw [if_neg hsnr]
  have hh : BssHeard pkt len := ⟨by omega, by omega⟩
  rcases hb : bssNvram nv pkt len s.ap with ⟨ap, _ | i⟩
  · have hap : ap.snr = s.ap.snr := by
      rcases nvramLoop_none hb with ⟨rfl, -⟩ | ⟨-, j, -, -, -, -, -, rfl⟩
      · rfl
      · exact nvramSlotAp_snr _ _ _
    have hrest : (ap = s.ap) ∨ ∃ j, (nv.configs j).Matches pkt len s.ap.snr ∧
        (nv.configs j).wepMode = 0 ∧ ap = nvramSlotAp (nv.configs j) j s.ap := by
      rcases nvramLoop_none hb with ⟨rfl, -⟩ | ⟨-, j, -, -, hm, -, hw, rfl⟩
      · exact Or.inl rfl
      · exact Or.inr ⟨j, hm, hw, rfl⟩
    dsimp only
    cases hf : s.apFound with
    | true =>
      rcases hrest with rfl | ⟨j, hm, hw, rfl⟩
      · exact Or.inl ⟨rfl, rfl⟩
      · exact Or.inr (Or.inr (Or.inr ⟨hh, rfl, rfl, nofun, j, hm, hw, rfl⟩))
    | false =>
      rcases @wepLoop_cases nv pkt len [0, 1, 2] ap with ⟨hwep, hnone⟩ | ⟨j, -, hm, hwep⟩
      · rw [hwep]
        rw [hap] at hnone
        rcases hrest with rfl | ⟨j, hm, hw, rfl⟩
        · exact Or.inl ⟨rfl, rfl⟩
        · have hall : ∀ k, ¬(nv.wepConfigs k).Matches pkt len s.ap.snr :=
            fun k => hnone k (mem_slots k)
          exact Or.inr (Or.inr (Or.inr ⟨hh, rfl, rfl, fun _ => hall, j, hm, hw, rfl⟩))
      · rw [hwep]
        rw [hap] at hm
        exact Or.inr (Or.inr (Or.inl ⟨hh, rfl, rfl, j, hm, rfl⟩))
  · exact Or.inr (Or.inl ⟨hh, rfl, i, rfl⟩)

end DsiWifi
