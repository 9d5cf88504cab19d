import DsiWifi.Lib.Reading
import DsiWifi.Wmi.Elements
import DsiWifi.Wmi.SecurityType

/-!
# The bytes the element loop reads

The element loop once more, as a computation that looks at one byte of the event after the other.
A byte of an RSN element is looked at on behalf of the element's body.  The loop computes what the
model says (`run_bssElements`) and always ends, but `data_left` is compared at the top of a round
only, and the length of an RSN element is not looked at: `bss_reads_inside_iff` says for which events
every byte is inside.
-/

namespace DsiWifi

open ApSecurityType ApCipherType Reading

/-- A byte the loop looks at, and the body (start and length) of the RSN element it is taken
from. -/
structure BssRead where
  idx : ℕ
  rsn : Option (ℕ × ℕ)
  deriving DecidableEq

/-- The byte is inside an event of `len` bytes, and inside its RSN element. -/
def BssRead.Inside (len : ℕ) (r : BssRead) : Prop :=
  r.idx < len ∧ ∀ body ∈ r.rsn, body.1 ≤ r.idx ∧ r.idx < body.1 + body.2

abbrev BssReading := Reading BssRead UInt8

/-- What the loop sees. -/
def bssBytes (pkt : Mem UInt8) : BssRead → UInt8 := fun r => pkt r.idx

@[simp] theorem bssBytes_mk (pkt : Mem UInt8) (i : ℕ) (rsn : Option (ℕ × ℕ)) :
    bssBytes pkt ⟨i, rsn⟩ = pkt i := rfl

namespace BssReading

/-! ## The loop -/

def getle16 (rsn : Option (ℕ × ℕ)) (p : ℕ) : BssReading ℕ := do
  let b₀ ← cell ⟨p, rsn⟩
  let b₁ ← cell ⟨p + 1, rsn⟩
  pure (b₀.toNat + 256 * b₁.toNat)

def getbe32 (rsn : Option (ℕ × ℕ)) (p : ℕ) : BssReading ℕ := do
  let b₀ ← cell ⟨p, rsn⟩
  let b₁ ← cell ⟨p + 1, rsn⟩
  let b₂ ← cell ⟨p + 2, rsn⟩
  let b₃ ← cell ⟨p + 3, rsn⟩
  pure (0x10000 * (256 * b₀.toNat + b₁.toNat) + (256 * b₂.toNat + b₃.toNat))

/-- The string at `p`, of at most `n` bytes. -/
def cstr : ℕ → ℕ → BssReading (List UInt8)
  | _, 0 => pure []
  | p, n + 1 => do
    let b ← cell ⟨p, none⟩
    if b = 0 then pure []
    else do
      let bs ← cstr (p + 1) n
      pure (b :: bs)

def strncpy (dst : List UInt8) (p n : ℕ) : BssReading (List UInt8) := do
  let s ← cstr p n
  pure (s ++ List.replicate (n - s.length) 0 ++ dst.drop n)

def pairwiseLoop (rsn : Option (ℕ × ℕ)) : ℕ → ℕ → ApCipherType → BssReading ApCipherType
  | 0, _, pairCrypto => pure pairCrypto
  | n + 1, p, _ => do
    let cipher ← getbe32 rsn p
    if wmiIeeeToCrypt cipher = cryptAes then pure (wmiIeeeToCrypt cipher)
    else pairwiseLoop rsn n (p + 4) (wmiIeeeToCrypt cipher)

def authkeyLoop (rsn : Option (ℕ × ℕ)) : ℕ → ℕ → UInt8 → BssReading UInt8
  | 0, _, authType => pure authType
  | n + 1, p, _ => do
    let auth ← getbe32 rsn p
    if auth = ieeeAuthPsk then pure (.ofNat auth)
    else authkeyLoop rsn n (p + 4) (.ofNat auth)

/-- The RSN branch, for a body of `len` bytes at `p`. -/
def rsnElement (p len : ℕ) (l : BssLocals) : BssReading BssLocals := do
  let rsn := some (p, len)
  let version ← getle16 rsn p
  if version ≠ 1 then pure { l with secTypeEnum := apWpa2 }
  else do
    let groupCipher ← getbe32 rsn (p + 2)
    let numPairwise ← getle16 rsn (p + 6)
    let pairCrypto ← pairwiseLoop rsn (min numPairwise 4) (p + 8) l.pairCrypto
    let readIdx := 8 + 4 * min numPairwise 4
    let numAuthkey ← getle16 rsn (p + readIdx)
    let authType ← authkeyLoop rsn (min numAuthkey 4) (p + readIdx + 2) l.authType
    pure
      { secTypeEnum := if pairCrypto = cryptTkip then apWpa else apWpa2
        groupCrypto := wmiIeeeToCrypt groupCipher
        pairCrypto := pairCrypto
        authType := authType }

/-- One round: the length of the element at `p`, and the state after it. -/
def elementStep (st : List UInt8 × BssLocals) (p : ℕ) :
    BssReading (ℕ × (List UInt8 × BssLocals)) := do
  let id ← cell ⟨p, none⟩
  let len ← cell ⟨p + 1, none⟩
  if id = 0 ∧ len.toNat ≤ 0x20 then do
    let first ← cell ⟨p + 2, none⟩
    if first ≠ 0 then do
      let tmp ← strncpy st.1 (p + 2) len.toNat
      pure (len.toNat, tmp, st.2)
    else pure (len.toNat, st)
  else if id = 0x30 then do
    let l ← rsnElement (p + 2) len.toNat st.2
    pure (len.toNat, st.1, l)
  else pure (len.toNat, st)

/-- The loop; it has no result when it has not ended after `fuel` rounds. -/
def elementsLoop : ℕ → ℤ → ℕ → List UInt8 × BssLocals →
    BssReading (Option (List UInt8 × BssLocals))
  | 0, dataLeft, _, st => pure (if dataLeft ≤ 0 then some st else none)
  | fuel + 1, dataLeft, p, st =>
    if dataLeft ≤ 0 then pure (some st)
    else do
      let r ← elementStep st p
      elementsLoop fuel (dataLeft - 2 - r.1) (p + 2 + r.1) r.2

/-- The handler up to the end of the loop.  A weak beacon is not looked at. -/
def bssElements (len : ℕ) : BssReading (Option (List UInt8 × BssLocals)) := do
  let snr ← cell ⟨3, none⟩
  let st := (List.replicate 33 0, BssLocals.init)
  if snr.toNat < 0x20 then pure (some st)
  else elementsLoop (bssDataLeft len).toNat (bssDataLeft len) 0x1C st

/-! ## Results -/

section Run

variable (pkt : Mem UInt8)

@[simp] theorem run_getle16 (rsn : Option (ℕ × ℕ)) (p : ℕ) :
    (getle16 rsn p).run (bssBytes pkt) = DsiWifi.getle16 pkt p := rfl

@[simp] theorem run_getbe32 (rsn : Option (ℕ × ℕ)) (p : ℕ) :
    (getbe32 rsn p).run (bssBytes pkt) = DsiWifi.getbe32 pkt p := rfl

theorem run_cstr (p n : ℕ) :
    (cstr p n).run (bssBytes pkt) = DsiWifi.cstr (pkt.read p n) := by
  induction n generalizing p with
  | zero => rfl
  | succ n ih =>
    rw [Mem.read_succ]
    unfold cstr
    rw [run_bind, run_cell, bssBytes_mk]
    unfold DsiWifi.cstr at ih ⊢
    by_cases h : pkt p = 0
    · rw [if_pos h, run_pure, List.takeWhile_cons_of_neg (by simpa using h)]
    · rw [if_neg h, run_bind, run_pure, ih, List.takeWhile_cons_of_pos (by simpa using h)]

theorem run_strncpy (dst : List UInt8) (p n : ℕ) :
    (strncpy dst p n).run (bssBytes pkt) = DsiWifi.strncpy dst (pkt.read p n) := by
  unfold strncpy DsiWifi.strncpy
  rw [run_bind, run_pure, run_cstr, Mem.length_read]

theorem run_pairwiseLoop (rsn : Option (ℕ × ℕ)) (n p : ℕ) (pairCrypto : ApCipherType) :
    (pairwiseLoop rsn n p pairCrypto).run (bssBytes pkt) =
      DsiWifi.pairwiseLoop pkt n p pairCrypto := by
  induction n generalizing p pairCrypto with
  | zero => rfl
  | succ n ih =>
    unfold pairwiseLoop DsiWifi.pairwiseLoop
    rw [run_bind, run_getbe32]
    dsimp only
    split_ifs
    · rfl
    · exact ih _ _

theorem ofNat_getbe32 (p : ℕ) : UInt8.ofNat (DsiWifi.getbe32 pkt p) = pkt (p + 3) := by
  rw [UInt8.ofNat_eq_iff_mod_eq_toNat]
  have h := (pkt (p + 3)).toNat_lt
  unfold DsiWifi.getbe32 getbe16
  show (0x10000 * _ + (256 * _ + (pkt (p + 3)).toNat)) % 2 ^ 8 = _
  omega

theorem run_authkeyLoop (rsn : Option (ℕ × ℕ)) (n p : ℕ) (authType : UInt8) :
    (authkeyLoop rsn n p authType).run (bssBytes pkt) =
      DsiWifi.authkeyLoop pkt n p authType := by
  induction n generalizing p authType with
  | zero => rfl
  | succ n ih =>
    unfold authkeyLoop DsiWifi.authkeyLoop
    rw [run_bind, run_getbe32, ofNat_getbe32]
    split_ifs
    · rfl
    · exact ih _ _

theorem run_rsnElement (p len : ℕ) (l : BssLocals) :
    (rsnElement p len l).run (bssBytes pkt) = DsiWifi.rsnElement pkt p l := by
  unfold rsnElement DsiWifi.rsnElement
  dsimp only
  rw [run_bind, run_getle16]
  by_cases hv : DsiWifi.getle16 pkt p ≠ 1
  · rw [if_pos hv, if_pos hv, run_pure]
  · rw [if_neg hv, if_neg hv]
    simp only [run_bind, run_getbe32, run_getle16, run_pairwiseLoop, run_authkeyLoop, run_pure]

theorem run_elementStep (st : List UInt8 × BssLocals) (p : ℕ) :
    (elementStep st p).run (bssBytes pkt) =
      ((pkt (p + 1)).toNat, DsiWifi.elementStep pkt st p) := by
  unfold elementStep DsiWifi.elementStep
  rw [run_bind, run_cell, run_bind, run_cell, bssBytes_mk, bssBytes_mk]
  by_cases hssid : pkt p = 0 ∧ (pkt (p + 1)).toNat ≤ 0x20
  · rw [if_pos hssid, run_bind, run_cell, bssBytes_mk]
    by_cases hfirst : pkt (p + 2) ≠ 0
    · rw [if_pos hfirst, if_pos ⟨hssid.1, hssid.2, hfirst⟩, run_bind, run_strncpy, run_pure]
    · have hid : ¬pkt p = 0x30 := by
        rw [hssid.1]
        decide
      rw [if_neg hfirst, if_neg fun h => hfirst h.2.2, if_neg hid, run_pure]
  · have hname : ¬(pkt p = 0 ∧ (pkt (p + 1)).toNat ≤ 0x20 ∧ pkt (p + 2) ≠ 0) :=
      fun h => hssid ⟨h.1, h.2.1⟩
    rw [if_neg hssid, if_neg hname]
    by_cases hid : pkt p = 0x30
    · rw [if_pos hid, if_pos hid, run_bind, run_rsnElement, run_pure]
    · rw [if_neg hid, if_neg hid, run_pure]

theorem elementsLoop_of_le (fuel : ℕ) {dataLeft : ℤ} (h : dataLeft ≤ 0) (p : ℕ)
    (st : List UInt8 × BssLocals) : elementsLoop fuel dataLeft p st = pure (some st) := by
  cases fuel with
  | zero => rw [elementsLoop, if_pos h]
  | succ fuel => rw [elementsLoop, if_pos h]

/-- The loop ends, with the state that the fold over the elements says. -/
theorem run_elementsLoop (stop fuel p : ℕ) (st : List UInt8 × BssLocals) (hfuel : stop - p ≤ fuel) :
    (elementsLoop fuel (stop - p) p st).run (bssBytes pkt) =
      some ((Tlv.walk pkt stop p).foldl (DsiWifi.elementStep pkt) st) := by
  induction fuel generalizing p st with
  | zero =>
    rw [Tlv.walk_of_le (by omega), elementsLoop_of_le _ (by omega)]
    rfl
  | succ fuel ih =>
    by_cases hp : p < stop
    · have hnext : p + 2 ≤ Tlv.next pkt p := Nat.le_add_right _ _
      rw [Tlv.walk_of_lt hp, List.foldl_cons, elementsLoop, if_neg (by omega), run_bind,
        run_elementStep, dataLeft_next]
      exact ih (Tlv.next pkt p) _ (by omega)
    · rw [Tlv.walk_of_le (by omega), elementsLoop_of_le _ (by omega)]
      rfl

/-- The loop computes the model's elements. -/
theorem run_bssElements {len : ℕ} (hsnr : 0x20 ≤ bssSnr pkt) :
    (bssElements len).run (bssBytes pkt) = some (DsiWifi.bssElements pkt len) := by
  unfold bssElements
  rw [run_bind, run_cell, bssBytes_mk]
  dsimp only
  rw [if_neg (show ¬(pkt 3).toNat < 0x20 from Nat.not_lt.2 hsnr), DsiWifi.bssElements_eq_foldl]
  rcases bssDataLeft_eq len with h | ⟨h, hstop⟩
  · rw [h, run_elementsLoop pkt _ _ _ _ (by omega)]
    rfl
  · rw [elementsLoop_of_le _ h, run_pure, bssWalk, Tlv.walk_of_le (by omega), List.foldl_nil]

end Run

/-! ## Bounds -/

end BssReading

section Fits

variable (pkt : Mem UInt8) (len : ℕ)

/-- The RSN body at `p` has its fields before `stop`: the version, and for version 1 the two counts
and the AKM suites up to the first PSK suite. -/
def RsnFits (stop p : ℕ) : Prop :=
  p + 2 ≤ stop ∧ (getle16 pkt p = 1 →
    p + 10 + 4 * rsnPairwise pkt p ≤ stop ∧
      ∀ j < rsnAuthkey pkt p,
        (∀ k < j, getbe32 pkt (p + 10 + 4 * rsnPairwise pkt p + 4 * k) ≠ ieeeAuthPsk) →
          p + 10 + 4 * rsnPairwise pkt p + 4 * j + 4 ≤ stop)

instance (stop p : ℕ) : Decidable (RsnFits pkt stop p) := by unfold RsnFits; infer_instance

/-- The element at `p` has what is read of it inside an event of `len` bytes: its header, the first
byte of a name and the name up to its first zero, and the fields of an RSN body. -/
structure ElementFits (p : ℕ) : Prop where
  header : p + 1 < len
  ssid : pkt p = 0 → (pkt (p + 1)).toNat ≤ 0x20 → p + 2 < len ∧
    (pkt (p + 2) ≠ 0 → ∀ j < (pkt (p + 1)).toNat, (∀ k < j, pkt (p + 2 + k) ≠ 0) → p + 2 + j < len)
  rsn : pkt p = 0x30 → RsnFits pkt (min len (p + 2 + (pkt (p + 1)).toNat)) (p + 2)

instance (p : ℕ) : Decidable (ElementFits pkt len p) :=
  decidable_of_iff (p + 1 < len ∧
      (pkt p = 0 → (pkt (p + 1)).toNat ≤ 0x20 → p + 2 < len ∧
        (pkt (p + 2) ≠ 0 →
          ∀ j < (pkt (p + 1)).toNat, (∀ k < j, pkt (p + 2 + k) ≠ 0) → p + 2 + j < len)) ∧
      (pkt p = 0x30 → RsnFits pkt (min len (p + 2 + (pkt (p + 1)).toNat)) (p + 2)))
    ⟨fun h => ⟨h.1, h.2.1, h.2.2⟩, fun h => ⟨h.header, h.ssid, h.rsn⟩⟩

end Fits

namespace BssReading

section Within

variable {pkt : Mem UInt8} {len : ℕ}

theorem inside_none (i : ℕ) : BssRead.Inside len ⟨i, none⟩ ↔ i < len := by
  unfold BssRead.Inside
  exact and_iff_left fun body h => absurd h (by simp)

theorem inside_some {b n i : ℕ} (h : b ≤ i) :
    BssRead.Inside len ⟨i, some (b, n)⟩ ↔ i < min len (b + n) := by
  unfold BssRead.Inside
  simp only [Option.mem_some_iff, forall_eq']
  omega

theorem within_getle16 {b n p : ℕ} (h : b ≤ p) :
    Within (bssBytes pkt) (BssRead.Inside len) (getle16 (some (b, n)) p) ↔
      p + 2 ≤ min len (b + n) := by
  unfold getle16
  simp only [within_bind, within_cell, within_pure, and_true]
  rw [inside_some h, inside_some (by omega)]
  omega

theorem within_getbe32 {b n p : ℕ} (h : b ≤ p) :
    Within (bssBytes pkt) (BssRead.Inside len) (getbe32 (some (b, n)) p) ↔
      p + 4 ≤ min len (b + n) := by
  unfold getbe32
  simp only [within_bind, within_cell, within_pure, and_true]
  rw [inside_some h, inside_some (by omega), inside_some (by omega), inside_some (by omega)]
  omega

theorem within_cstr (p n : ℕ) : Within (bssBytes pkt) (BssRead.Inside len) (cstr p n) ↔
    ∀ j < n, (∀ k < j, pkt (p + k) ≠ 0) → p + j < len := by
  induction n generalizing p with
  | zero => exact iff_of_true (within_pure _) fun j hj => absurd hj (Nat.not_lt_zero j)
  | succ n ih =>
    rw [forall_search_succ]
    unfold cstr
    rw [within_bind, within_cell, run_cell, bssBytes_mk, inside_none]
    refine and_congr_right' ?_
    by_cases hz : pkt p = 0
    · rw [if_pos hz]
      exact iff_of_true (within_pure _) fun h => absurd hz h
    · rw [if_neg hz, within_bind, ih,
        forall_prop_of_true (show pkt (p + 0) ≠ 0 from hz)]
      simp only [within_pure, and_true, Nat.add_assoc, Nat.add_comm 1]

/-- The suites a loop may read are inside when all of them are. -/
theorem within_pairwiseLoop {b n m p : ℕ} (hb : b ≤ p) (h : p + 4 * m ≤ min len (b + n))
    (pairCrypto : ApCipherType) : Within (bssBytes pkt) (BssRead.Inside len)
      (pairwiseLoop (some (b, n)) m p pairCrypto) := by
  induction m generalizing p pairCrypto with
  | zero => exact within_pure _
  | succ m ih =>
    unfold pairwiseLoop
    rw [within_bind, within_getbe32 hb]
    refine ⟨by omega, ?_⟩
    split_ifs
    · exact within_pure _
    · exact ih (by omega) (by omega) _

theorem within_authkeyLoop {b n p : ℕ} (m : ℕ) (hb : b ≤ p) (authType : UInt8) :
    Within (bssBytes pkt) (BssRead.Inside len) (authkeyLoop (some (b, n)) m p authType) ↔
      ∀ j < m, (∀ k < j, DsiWifi.getbe32 pkt (p + 4 * k) ≠ ieeeAuthPsk) →
        p + 4 * j + 4 ≤ min len (b + n) := by
  induction m generalizing p authType with
  | zero => exact iff_of_true (within_pure _) fun j hj => absurd hj (Nat.not_lt_zero j)
  | succ m ih =>
    rw [forall_search_succ]
    unfold authkeyLoop
    rw [within_bind, within_getbe32 hb, run_getbe32]
    refine and_congr_right' ?_
    by_cases hpsk : DsiWifi.getbe32 pkt p = ieeeAuthPsk
    · rw [if_pos hpsk]
      exact iff_of_true (within_pure _) fun h => absurd hpsk h
    · rw [if_neg hpsk, ih (by omega),
        forall_prop_of_true (show DsiWifi.getbe32 pkt (p + 4 * 0) ≠ ieeeAuthPsk from hpsk)]
      simp only [Nat.mul_add, Nat.mul_one, Nat.add_assoc, Nat.add_comm 4]

theorem within_rsnElement (p n : ℕ) (l : BssLocals) :
    Within (bssBytes pkt) (BssRead.Inside len) (rsnElement p n l) ↔
      RsnFits pkt (min len (p + n)) p := by
  unfold rsnElement RsnFits
  dsimp only
  rw [within_bind, within_getle16 (Nat.le_refl p), run_getle16]
  refine and_congr_right' ?_
  by_cases hv : DsiWifi.getle16 pkt p = 1
  · rw [if_neg (not_not.2 hv), forall_prop_of_true hv]
    simp only [within_bind, run_getbe32, run_getle16, within_pure, and_true]
    rw [within_getbe32 (by omega), within_getle16 (by omega), within_getle16 (by omega),
      within_authkeyLoop _ (by omega)]
    have hstart : p + (8 + 4 * min (DsiWifi.getle16 pkt (p + 6)) 4) + 2 =
        p + 10 + 4 * rsnPairwise pkt p := by
      unfold rsnPairwise
      omega
    have hcount : min (DsiWifi.getle16 pkt (p + (8 + 4 * min (DsiWifi.getle16 pkt (p + 6)) 4))) 4 =
        rsnAuthkey pkt p := by
      unfold rsnAuthkey rsnPairwise
      rw [Nat.add_assoc]
    rw [hstart, hcount]
    constructor
    · rintro ⟨-, -, -, hakm, hsuites⟩
      exact ⟨hakm, hsuites⟩
    · rintro ⟨hakm, hsuites⟩
      refine ⟨by omega, by omega, within_pairwiseLoop (by omega) ?_ _, hakm, hsuites⟩
      unfold rsnPairwise at hakm
      omega
  · rw [if_pos hv]
    exact iff_of_true (within_pure _) fun h => absurd h hv

theorem within_strncpy (dst : List UInt8) (p n : ℕ) :
    Within (bssBytes pkt) (BssRead.Inside len) (strncpy dst p n) ↔
      ∀ j < n, (∀ k < j, pkt (p + k) ≠ 0) → p + j < len := by
  unfold strncpy
  rw [within_bind, within_cstr]
  exact and_iff_left (within_pure _)

theorem within_elementStep (st : List UInt8 × BssLocals) (p : ℕ) :
    Within (bssBytes pkt) (BssRead.Inside len) (elementStep st p) ↔ ElementFits pkt len p := by
  unfold elementStep
  rw [within_bind, within_cell, run_cell, within_bind, within_cell, run_cell, bssBytes_mk,
    bssBytes_mk, inside_none, inside_none]
  have hheader : ∀ P : Prop, p < len ∧ p + 1 < len ∧ P ↔ p + 1 < len ∧ P := fun P => by
    rw [← and_assoc]
    exact and_congr_left' ⟨fun h => h.2, fun h => ⟨by omega, h⟩⟩
  rw [hheader]
  by_cases hssid : pkt p = 0 ∧ (pkt (p + 1)).toNat ≤ 0x20
  · have hid : pkt p ≠ 0x30 := by
      rw [hssid.1]
      decide
    rw [if_pos hssid, within_bind, within_cell, run_cell, bssBytes_mk, inside_none]
    by_cases hfirst : pkt (p + 2) ≠ 0
    · rw [if_pos hfirst, within_bind, within_strncpy, and_iff_left (within_pure _)]
      constructor
      · rintro ⟨hin, hbyte, hname⟩
        exact ⟨hin, fun _ _ => ⟨hbyte, fun _ => hname⟩, fun h => absurd h hid⟩
      · intro h
        have hname := h.ssid hssid.1 hssid.2
        exact ⟨h.header, hname.1, hname.2 hfirst⟩
    · rw [if_neg hfirst, and_iff_left (within_pure _)]
      constructor
      · rintro ⟨hin, hbyte⟩
        exact ⟨hin, fun _ _ => ⟨hbyte, fun h => absurd h hfirst⟩, fun h => absurd h hid⟩
      · intro h
        exact ⟨h.header, (h.ssid hssid.1 hssid.2).1⟩
  · rw [if_neg hssid]
    by_cases hid : pkt p = 0x30
    · rw [if_pos hid, within_bind, within_rsnElement, and_iff_left (within_pure _)]
      constructor
      · rintro ⟨hin, hrsn⟩
        exact ⟨hin, fun h₀ h₁ => absurd ⟨h₀, h₁⟩ hssid, fun _ => hrsn⟩
      · intro h
        exact ⟨h.header, h.rsn hid⟩
    · rw [if_neg hid, and_iff_left (within_pure _)]
      constructor
      · intro hin
        exact ⟨hin, fun h₀ h₁ => absurd ⟨h₀, h₁⟩ hssid, fun h => absurd h hid⟩
      · intro h
        exact h.header

theorem within_elementsLoop (stop fuel p : ℕ) (st : List UInt8 × BssLocals)
    (hfuel : stop - p ≤ fuel) :
    Within (bssBytes pkt) (BssRead.Inside len) (elementsLoop fuel (stop - p) p st) ↔
      ∀ q ∈ Tlv.walk pkt stop p, ElementFits pkt len q := by
  induction fuel generalizing p st with
  | zero =>
    rw [Tlv.walk_of_le (by omega), elementsLoop_of_le _ (by omega)]
    exact iff_of_true (within_pure _) (List.forall_mem_nil _)
  | succ fuel ih =>
    by_cases hp : p < stop
    · have hnext : p + 2 ≤ Tlv.next pkt p := Nat.le_add_right _ _
      rw [Tlv.walk_of_lt hp, List.forall_mem_cons, elementsLoop, if_neg (by omega), within_bind,
        within_elementStep, run_elementStep, dataLeft_next]
      exact and_congr_right' (ih (Tlv.next pkt p) _ (by omega))
    · rw [Tlv.walk_of_le (by omega), elementsLoop_of_le _ (by omega)]
      exact iff_of_true (within_pure _) (List.forall_mem_nil _)

theorem within_bssElements (hlen : 0x1C < len) :
    Within (bssBytes pkt) (BssRead.Inside len) (bssElements len) ↔
      bssSnr pkt < 0x20 ∨ ∀ p ∈ bssWalk pkt len, ElementFits pkt len p := by
  unfold bssElements
  rw [within_bind, within_cell, run_cell, bssBytes_mk, inside_none, and_iff_right (by omega)]
  dsimp only
  by_cases hsnr : (pkt 3).toNat < 0x20
  · rw [if_pos hsnr]
    exact iff_of_true (within_pure _) (Or.inl hsnr)
  · rw [if_neg hsnr, or_iff_right (show ¬bssSnr pkt < 0x20 from hsnr)]
    unfold bssWalk
    rcases bssDataLeft_eq len with h | ⟨h, hstop⟩
    · rw [h, within_elementsLoop _ _ _ _ (by omega)]
    · rw [elementsLoop_of_le _ h, Tlv.walk_of_le (by omega)]
      exact iff_of_true (within_pure _) (List.forall_mem_nil _)

end Within

end BssReading

/-- **Beacon bounds.** For every event of more than 28 bytes the element loop ends, and it stays
inside the event and inside the RSN elements exactly when the beacon is too weak to be looked at or
each of its elements fits. -/
theorem bss_reads_inside_iff (pkt : Mem UInt8) (len : ℕ) (hlen : 0x1C < len) :
    ((BssReading.bssElements len).run (bssBytes pkt)).isSome ∧
        (∀ r ∈ (BssReading.bssElements len).reads (bssBytes pkt), r.Inside len) ↔
      bssSnr pkt < 0x20 ∨ ∀ p ∈ bssWalk pkt len, ElementFits pkt len p := by
  have hends : ((BssReading.bssElements len).run (bssBytes pkt)).isSome := by
    by_cases hsnr : bssSnr pkt < 0x20
    · unfold BssReading.bssElements
      rw [run_bind, run_cell, bssBytes_mk]
      dsimp only
      rw [if_pos (show (pkt 3).toNat < 0x20 from hsnr)]
      rfl
    · rw [BssReading.run_bssElements pkt (by omega)]
      rfl
  rw [and_iff_right hends]
  exact BssReading.within_bssElements hlen

/-- The network `ab` announced with CCMP and PSK. -/
theorem bss_reads_inside_sample :
    let pkt : Mem UInt8 := .ofList (beacon 0x30 0x10 (ssidAb ++ rsnCcmp 2)) 0
    ((BssReading.bssElements 54).run (bssBytes pkt)).isSome ∧
      ∀ r ∈ (BssReading.bssElements 54).reads (bssBytes pkt), r.Inside 54 :=
  (bss_reads_inside_iff _ 54 (by decide)).2 (Or.inr (by decide +kernel))

/-- The empty name of a hidden network at the end of an event: the byte behind the event is looked
at. -/
theorem bss_reads_inside_counterexample :
    ¬∀ (pkt : Mem UInt8) (len : ℕ), 0x1C < len →
      ((BssReading.bssElements len).run (bssBytes pkt)).isSome ∧
        ∀ r ∈ (BssReading.bssElements len).reads (bssBytes pkt), r.Inside len := by
  intro h
  obtain ⟨-, hreads⟩ := h (.ofList (beacon 0x30 0x10 [0, 0]) 0) 30 (by decide)
  have hlast := hreads ⟨30, none⟩ (by decide +kernel)
  exact absurd hlast.1 (by decide)

end DsiWifi
