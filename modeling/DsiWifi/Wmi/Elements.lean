import DsiWifi.Lib.Tlv
import DsiWifi.Wmi.BssInfo

/-!
# The elements of a beacon

The element loop of `wmi_handle_bss_info` is a fold over the elements that the walk by length bytes
finds (`bssElements_eq_foldl`).  Its state is the name buffer and the locals.
-/

namespace DsiWifi

open ApSecurityType ApCipherType

/-! ## The loop -/

/-- One round of the element loop, at the element `p`. -/
def elementStep (pkt : Mem UInt8) (st : List UInt8 × BssLocals) (p : ℕ) : List UInt8 × BssLocals :=
  if pkt p = 0 ∧ (pkt (p + 1)).toNat ≤ 0x20 ∧ pkt (p + 2) ≠ 0 then
    (strncpy st.1 (pkt.read (p + 2) (pkt (p + 1)).toNat), st.2)
  else if pkt p = 0x30 then (st.1, rsnElement pkt (p + 2) st.2)
  else st

/-- The address behind the elements of an event. -/
def bssStop (len : ℕ) : ℕ := 0x1C + (bssDataLeft len).toNat

/-- The elements of an event, by the walk of the handler. -/
def bssWalk (pkt : Mem UInt8) (len : ℕ) : List ℕ := Tlv.walk pkt (bssStop len) 0x1C

theorem bssDataLeft_of_lt {len : ℕ} (h : 0x1C ≤ len) (hlen : len < 2 ^ 31) :
    bssDataLeft len = len - 0x1C := by
  unfold bssDataLeft
  exact Int.bmod_eq_of_le_mul_two (by omega) (by omega)

/-- For every event that fits the memory the elements end with the event. -/
theorem bssStop_of_lt {len : ℕ} (h : 0x1C ≤ len) (hlen : len < 2 ^ 31) : bssStop len = len := by
  unfold bssStop
  rw [bssDataLeft_of_lt h hlen]
  omega

/-- `data_left` after a round. -/
theorem dataLeft_next (pkt : Mem UInt8) (stop p : ℕ) :
    (stop - p : ℤ) - 2 - (pkt (p + 1)).toNat = stop - Tlv.next pkt p := by
  unfold Tlv.next
  push_cast
  omega

theorem elementsLoop_of_le (pkt : Mem UInt8) (fuel : ℕ) {dataLeft : ℤ} (h : dataLeft ≤ 0) (p : ℕ)
    (st : List UInt8 × BssLocals) : elementsLoop pkt fuel dataLeft p st = st := by
  cases fuel with
  | zero => rfl
  | succ fuel =>
    unfold elementsLoop
    rw [if_pos h]

theorem elementsLoop_eq_foldl (pkt : Mem UInt8) (stop fuel : ℕ) (p : ℕ)
    (st : List UInt8 × BssLocals) (hfuel : stop - p ≤ fuel) :
    elementsLoop pkt fuel (stop - p) p st = (Tlv.walk pkt stop p).foldl (elementStep pkt) st := by
  induction fuel generalizing p st with
  | zero =>
    rw [Tlv.walk_of_le (by omega)]
    rfl
  | succ fuel ih =>
    by_cases hp : p < stop
    · have hnext : p + 2 ≤ Tlv.next pkt p := Nat.le_add_right _ _
      rw [Tlv.walk_of_lt hp, List.foldl_cons]
      unfold elementsLoop
      rw [if_neg (by omega)]
      dsimp only
      rw [dataLeft_next]
      exact ih (Tlv.next pkt p) (elementStep pkt st p) (by omega)
    · rw [Tlv.walk_of_le (by omega), elementsLoop_of_le _ _ (by omega)]
      rfl

/-- `data_left` on entry is the distance to the end, or not positive. -/
theorem bssDataLeft_eq (len : ℕ) :
    bssDataLeft len = (bssStop len : ℤ) - (0x1C : ℕ) ∨ bssDataLeft len ≤ 0 ∧ bssStop len = 0x1C := by
  unfold bssStop
  omega

theorem bssElements_eq_foldl (pkt : Mem UInt8) (len : ℕ) : bssElements pkt len =
    (bssWalk pkt len).foldl (elementStep pkt) (List.replicate 33 0, BssLocals.init) := by
  unfold bssElements bssWalk
  rcases bssDataLeft_eq len with h | ⟨h, hstop⟩
  · rw [h, elementsLoop_eq_foldl pkt _ _ _ _ (by omega)]
  · -- a length of 2^31 and more is taken for a negative one
    rw [elementsLoop_of_le _ _ h, Tlv.walk_of_le (by omega), List.foldl_nil]

/-- What a round does to the name. -/
def nameStep (pkt : Mem UInt8) (tmp : List UInt8) (p : ℕ) : List UInt8 :=
  if pkt p = 0 ∧ (pkt (p + 1)).toNat ≤ 0x20 ∧ pkt (p + 2) ≠ 0 then
    strncpy tmp (pkt.read (p + 2) (pkt (p + 1)).toNat)
  else tmp

/-- What a round does to the locals. -/
def rsnStep (pkt : Mem UInt8) (l : BssLocals) (p : ℕ) : BssLocals :=
  if pkt p = 0x30 then rsnElement pkt (p + 2) l else l

theorem elementStep_eq (pkt : Mem UInt8) (st : List UInt8 × BssLocals) (p : ℕ) :
    elementStep pkt st p = (nameStep pkt st.1 p, rsnStep pkt st.2 p) := by
  unfold elementStep nameStep rsnStep
  by_cases hname : pkt p = 0 ∧ (pkt (p + 1)).toNat ≤ 0x20 ∧ pkt (p + 2) ≠ 0
  · have hid : ¬pkt p = 0x30 := by
      rw [hname.1]
      decide
    rw [if_pos hname, if_pos hname, if_neg hid]
  · rw [if_neg hname, if_neg hname]
    split_ifs
    · rfl
    · rfl

theorem foldl_elementStep (pkt : Mem UInt8) (ps : List ℕ) (st : List UInt8 × BssLocals) :
    ps.foldl (elementStep pkt) st =
      (ps.foldl (nameStep pkt) st.1, ps.foldl (rsnStep pkt) st.2) := by
  induction ps generalizing st with
  | nil => rfl
  | cons p ps ih =>
    rw [List.foldl_cons, ih, elementStep_eq]
    rfl

/-- The name and the locals are two folds over the elements. -/
theorem bssElements_eq (pkt : Mem UInt8) (len : ℕ) : bssElements pkt len =
    ((bssWalk pkt len).foldl (nameStep pkt) (List.replicate 33 0),
      (bssWalk pkt len).foldl (rsnStep pkt) BssLocals.init) := by
  rw [bssElements_eq_foldl, foldl_elementStep]

/-- What the RSN elements keep holds of the locals after the loop. -/
theorem bssRsn_induction {P : BssLocals → Prop} (pkt : Mem UInt8) (len : ℕ) (hinit : P .init)
    (hstep : ∀ p l, P l → P (rsnElement pkt p l)) : P (bssRsn pkt len) := by
  unfold bssRsn
  rw [bssElements_eq]
  refine List.foldlRecOn _ _ hinit fun l hl p _ => ?_
  unfold rsnStep
  split_ifs
  · exact hstep _ _ hl
  · exact hl

/-! ## RSN suites -/

theorem wmiIeeeToCrypt_eq_aes (ieee : ℕ) :
    wmiIeeeToCrypt ieee = cryptAes ↔ ieee = ieeeCryptAesCcmp := by
  unfold wmiIeeeToCrypt
  split_ifs with h₁ h₂
  · subst h₁
    decide
  · simp [h₂]
  · simp [h₂]

theorem wmiIeeeToCrypt_eq_tkip (ieee : ℕ) :
    wmiIeeeToCrypt ieee = cryptTkip ↔ ieee = ieeeCryptTkip := by
  unfold wmiIeeeToCrypt
  split_ifs with h₁ h₂
  · simp [h₁]
  · simp [h₁]
  · simp [h₁]

/-- The loop ends with AES when CCMP is among the suites, or when there is none to read. -/
theorem pairwiseLoop_eq_aes (pkt : Mem UInt8) (n p : ℕ) (pairCrypto : ApCipherType) :
    pairwiseLoop pkt n p pairCrypto = cryptAes ↔
      n = 0 ∧ pairCrypto = cryptAes ∨ ∃ k < n, getbe32 pkt (p + 4 * k) = ieeeCryptAesCcmp := by
  induction n generalizing p pairCrypto with
  | zero => simp [pairwiseLoop]
  | succ n ih =>
    unfold pairwiseLoop
    dsimp only
    split_ifs with h
    · have hk : ∃ k < n + 1, getbe32 pkt (p + 4 * k) = ieeeCryptAesCcmp :=
        ⟨0, by omega, (wmiIeeeToCrypt_eq_aes _).1 h⟩
      exact iff_of_true h (Or.inr hk)
    · rw [ih]
      constructor
      · rintro (⟨-, ha⟩ | ⟨k, hk, he⟩)
        · exact absurd ha h
        · refine Or.inr ⟨k + 1, by omega, ?_⟩
          rwa [show p + 4 * (k + 1) = p + 4 + 4 * k by omega]
      · rintro (⟨hn, -⟩ | ⟨k, hk, he⟩)
        · exact hn.elim
        · cases k with
          | zero => exact absurd ((wmiIeeeToCrypt_eq_aes _).2 he) h
          | succ k =>
            refine Or.inr ⟨k, by omega, ?_⟩
            rwa [show p + 4 + 4 * k = p + 4 * (k + 1) by omega]

/-- The number of pairwise suites the handler reads of the RSN body `p`. -/
def rsnPairwise (pkt : Mem UInt8) (p : ℕ) : ℕ := min (getle16 pkt (p + 6)) 4

/-- The number of AKM suites that are read of the RSN body `p`. -/
def rsnAuthkey (pkt : Mem UInt8) (p : ℕ) : ℕ :=
  min (getle16 pkt (p + 8 + 4 * rsnPairwise pkt p)) 4

theorem rsnElement_of_version {pkt : Mem UInt8} {p : ℕ} (hv : getle16 pkt p = 1) (l : BssLocals) :
    let pairCrypto := pairwiseLoop pkt (rsnPairwise pkt p) (p + 8) l.pairCrypto
    rsnElement pkt p l =
      { secTypeEnum := if pairCrypto = cryptTkip then apWpa else apWpa2
        groupCrypto := wmiIeeeToCrypt (getbe32 pkt (p + 2))
        pairCrypto := pairCrypto
        authType :=
          authkeyLoop pkt (rsnAuthkey pkt p) (p + 10 + 4 * rsnPairwise pkt p) l.authType } := by
  have hstart : p + (8 + 4 * rsnPairwise pkt p) + 2 = p + 10 + 4 * rsnPairwise pkt p := by omega
  unfold rsnElement
  dsimp only
  rw [if_neg (not_not.2 hv), ← hstart]
  unfold rsnAuthkey
  rw [Nat.add_assoc p 8]
  rfl

end DsiWifi
