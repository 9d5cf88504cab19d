import DsiWifi.Crypto.AesTables
import Mathlib.Tactic.IntervalCases

/-!
# AES meets FIPS 197

The state of the cipher as a matrix of bytes (row, column), the transformations of FIPS 197 on it, and
the key expansion.  A word of the source is a column, so a table lookup for each byte of four words is
`SubBytes`, `ShiftRows` and `MixColumns` at once (`mat_aesFround`), and `AES_RROUND` their inverses
(`mat_aesRround`).
-/

namespace DsiWifi

/-- The state: row, then column. -/
abbrev AesMatrix := Fin 4 → Fin 4 → UInt8

/-- The index `k` places further, around the end. -/
def rot (r : Fin 4) (k : ℕ) : Fin 4 := ⟨(r.val + k) % 4, Nat.mod_lt _ (by decide)⟩

/-! ## The reference -/

namespace Fips197

/-- The S-box as it is printed. -/
def sbox : List UInt8 :=
  [0x63, 0x7C, 0x77, 0x7B, 0xF2, 0x6B, 0x6F, 0xC5, 0x30, 0x01, 0x67, 0x2B, 0xFE, 0xD7, 0xAB, 0x76,
    0xCA, 0x82, 0xC9, 0x7D, 0xFA, 0x59, 0x47, 0xF0, 0xAD, 0xD4, 0xA2, 0xAF, 0x9C, 0xA4, 0x72, 0xC0,
    0xB7, 0xFD, 0x93, 0x26, 0x36, 0x3F, 0xF7, 0xCC, 0x34, 0xA5, 0xE5, 0xF1, 0x71, 0xD8, 0x31, 0x15,
    0x04, 0xC7, 0x23, 0xC3, 0x18, 0x96, 0x05, 0x9A, 0x07, 0x12, 0x80, 0xE2, 0xEB, 0x27, 0xB2, 0x75,
    0x09, 0x83, 0x2C, 0x1A, 0x1B, 0x6E, 0x5A, 0xA0, 0x52, 0x3B, 0xD6, 0xB3, 0x29, 0xE3, 0x2F, 0x84,
    0x53, 0xD1, 0x00, 0xED, 0x20, 0xFC, 0xB1, 0x5B, 0x6A, 0xCB, 0xBE, 0x39, 0x4A, 0x4C, 0x58, 0xCF,
    0xD0, 0xEF, 0xAA, 0xFB, 0x43, 0x4D, 0x33, 0x85, 0x45, 0xF9, 0x02, 0x7F, 0x50, 0x3C, 0x9F, 0xA8,
    0x51, 0xA3, 0x40, 0x8F, 0x92, 0x9D, 0x38, 0xF5, 0xBC, 0xB6, 0xDA, 0x21, 0x10, 0xFF, 0xF3, 0xD2,
    0xCD, 0x0C, 0x13, 0xEC, 0x5F, 0x97, 0x44, 0x17, 0xC4, 0xA7, 0x7E, 0x3D, 0x64, 0x5D, 0x19, 0x73,
    0x60, 0x81, 0x4F, 0xDC, 0x22, 0x2A, 0x90, 0x88, 0x46, 0xEE, 0xB8, 0x14, 0xDE, 0x5E, 0x0B, 0xDB,
    0xE0, 0x32, 0x3A, 0x0A, 0x49, 0x06, 0x24, 0x5C, 0xC2, 0xD3, 0xAC, 0x62, 0x91, 0x95, 0xE4, 0x79,
    0xE7, 0xC8, 0x37, 0x6D, 0x8D, 0xD5, 0x4E, 0xA9, 0x6C, 0x56, 0xF4, 0xEA, 0x65, 0x7A, 0xAE, 0x08,
    0xBA, 0x78, 0x25, 0x2E, 0x1C, 0xA6, 0xB4, 0xC6, 0xE8, 0xDD, 0x74, 0x1F, 0x4B, 0xBD, 0x8B, 0x8A,
    0x70, 0x3E, 0xB5, 0x66, 0x48, 0x03, 0xF6, 0x0E, 0x61, 0x35, 0x57, 0xB9, 0x86, 0xC1, 0x1D, 0x9E,
    0xE1, 0xF8, 0x98, 0x11, 0x69, 0xD9, 0x8E, 0x94, 0x9B, 0x1E, 0x87, 0xE9, 0xCE, 0x55, 0x28, 0xDF,
    0x8C, 0xA1, 0x89, 0x0D, 0xBF, 0xE6, 0x42, 0x68, 0x41, 0x99, 0x2D, 0x0F, 0xB0, 0x54, 0xBB, 0x16]

def subBytes (s : AesMatrix) : AesMatrix := fun r c => sbox.getD (s r c).toNat 0

def shiftRows (s : AesMatrix) : AesMatrix := fun r c => s r (rot c r)

def mixColumns (s : AesMatrix) : AesMatrix := fun r c =>
  xtime (s r c) ^^^ mul3 (s (rot r 1) c) ^^^ s (rot r 2) c ^^^ s (rot r 3) c

def addRoundKey (k s : AesMatrix) : AesMatrix := fun r c => s r c ^^^ k r c

/-- A round with the key `k`. -/
def round (k s : AesMatrix) : AesMatrix := addRoundKey k (mixColumns (shiftRows (subBytes s)))

/-- The state after `i` rounds that mix columns. -/
def rounds (k : ℕ → AesMatrix) (s : AesMatrix) : ℕ → AesMatrix
  | 0 => addRoundKey (k 0) s
  | i + 1 => round (k (i + 1)) (rounds k s i)

/-- The cipher with `nr` rounds; the last one does not mix columns. -/
def cipher (nr : ℕ) (k : ℕ → AesMatrix) (s : AesMatrix) : AesMatrix :=
  addRoundKey (k nr) (shiftRows (subBytes (rounds k s (nr - 1))))

end Fips197

/-- `FSb` is the S-box of FIPS 197. -/
theorem fSb_eq_sbox (b : UInt8) : fSb b = Fips197.sbox.getD b.toNat 0 := by
  have hall : ∀ k ≤ 254, UInt8.ofNat (aesAffine (aesPow (254 - k))) =
      Fips197.sbox.getD (aesPow (k + 1)) 0 := by decide +kernel
  rw [fSb_eq]
  rcases Nat.eq_zero_or_pos b.toNat with hzero | hpos
  · rw [hzero]
    rfl
  · obtain ⟨k, hk, hk', heq⟩ := exists_aesPow hpos (Nat.le_of_lt_succ b.toNat_lt)
    obtain ⟨k, rfl⟩ := Nat.exists_eq_add_of_le' hk
    rw [← heq, aesSboxValue_aesPow hk hk', Nat.add_sub_add_right 254 1 k]
    exact hall k (by omega)

/-! ## Bytes of a word -/

theorem toBitVec_byteOf (w : UInt32) {k : ℕ} (hk : k < 4) :
    (byteOf w k).toBitVec = w.toBitVec.extractLsb' (8 * k) 8 := by
  unfold byteOf
  obtain rfl | rfl | rfl | rfl : k = 0 ∨ k = 1 ∨ k = 2 ∨ k = 3 := by omega
  all_goals
    ext i hi
    simp

theorem byteOf_xor (a b : UInt32) {k : ℕ} (hk : k < 4) :
    byteOf (a ^^^ b) k = byteOf a k ^^^ byteOf b k := by
  rw [← UInt8.toBitVec_inj, UInt8.toBitVec_xor, toBitVec_byteOf _ hk, toBitVec_byteOf _ hk,
    toBitVec_byteOf _ hk, UInt32.toBitVec_xor]
  ext i hi
  simp

/-- A word is determined by its bytes. -/
theorem eq_of_byteOf {a b : UInt32} (h : ∀ k < 4, byteOf a k = byteOf b k) : a = b := by
  rw [← UInt32.toBitVec_inj]
  apply BitVec.eq_of_getLsbD_eq
  intro i hi
  have hk := congrArg UInt8.toBitVec (h (i / 8) (by omega))
  rw [toBitVec_byteOf _ (by omega), toBitVec_byteOf _ (by omega)] at hk
  have hbit := congrArg (fun v => v.getLsbD (i % 8)) hk
  simp only [BitVec.getLsbD_extractLsb', Nat.div_add_mod] at hbit
  simpa [Nat.mod_lt] using hbit

theorem byteOf_packWord (a b c d : UInt8) :
    byteOf (packWord a b c d) 0 = a ∧ byteOf (packWord a b c d) 1 = b ∧
      byteOf (packWord a b c d) 2 = c ∧ byteOf (packWord a b c d) 3 = d := by
  refine ⟨?_, ?_, ?_, ?_⟩ <;>
    rw [← UInt8.toBitVec_inj, toBitVec_byteOf _ (by decide)] <;>
    apply BitVec.eq_of_getLsbD_eq <;> intro i hi <;>
    interval_cases i <;> simp [packWord]

/-- `ROTL8` moves every byte one place up. -/
theorem byteOf_rotl8 (w : UInt32) :
    byteOf (rotl8 w) 0 = byteOf w 3 ∧ byteOf (rotl8 w) 1 = byteOf w 0 ∧
      byteOf (rotl8 w) 2 = byteOf w 1 ∧ byteOf (rotl8 w) 3 = byteOf w 2 := by
  refine ⟨?_, ?_, ?_, ?_⟩ <;>
    rw [← UInt8.toBitVec_inj, toBitVec_byteOf _ (by decide), toBitVec_byteOf _ (by decide)] <;>
    apply BitVec.eq_of_getLsbD_eq <;> intro i hi <;>
    interval_cases i <;> simp [rotl8]

/-! ## The state as a matrix -/

/-- The word of column `c`. -/
def AesState.col (s : AesState) : Fin 4 → UInt32
  | 0 => s.x0
  | 1 => s.x1
  | 2 => s.x2
  | 3 => s.x3

def AesState.mat (s : AesState) : AesMatrix := fun r c => byteOf (s.col c) r

/-- A statement about an index holds once it holds of all four. -/
@[elab_as_elim]
theorem fin4_cases {motive : Fin 4 → Prop} (zero : motive 0) (one : motive 1) (two : motive 2)
    (three : motive 3) (r : Fin 4) : motive r := by
  rcases r with ⟨r, hr⟩
  obtain rfl | rfl | rfl | rfl : r = 0 ∨ r = 1 ∨ r = 2 ∨ r = 3 := by omega
  · exact zero
  · exact one
  · exact two
  · exact three

theorem AesState.mat_injective : Function.Injective AesState.mat := by
  intro s t h
  have hcol : ∀ c, s.col c = t.col c := by
    intro c
    apply eq_of_byteOf
    intro k hk
    exact congrFun (congrFun h ⟨k, hk⟩) c
  exact AesState.ext (hcol 0) (hcol 1) (hcol 2) (hcol 3)

theorem AesState.mat_xor (s t : AesState) : (s.xor t).mat = Fips197.addRoundKey t.mat s.mat := by
  funext r c
  have hcol : (s.xor t).col c = s.col c ^^^ t.col c := by
    cases c using fin4_cases <;> rfl
  show byteOf ((s.xor t).col c) r = byteOf (s.col c) r ^^^ byteOf (t.col c) r
  rw [hcol, byteOf_xor _ _ r.isLt]

theorem AesState.col_forward (f : UInt32 → UInt32 → UInt32 → UInt32 → UInt32) (y : AesState)
    (c : Fin 4) :
    (y.forward f).col c = f (y.col (rot c 0)) (y.col (rot c 1)) (y.col (rot c 2)) (y.col (rot c 3)) := by
  cases c using fin4_cases <;> rfl

theorem AesState.col_backward (f : UInt32 → UInt32 → UInt32 → UInt32 → UInt32) (y : AesState)
    (c : Fin 4) :
    (y.backward f).col c = f (y.col (rot c 4)) (y.col (rot c 3)) (y.col (rot c 2)) (y.col (rot c 1)) := by
  cases c using fin4_cases <;> rfl

/-! ## Rounds -/

theorem val_three : ((3 : Fin 4) : ℕ) = 3 := rfl

/-- The product of every column with the matrix whose rows are the rotations of `m`. -/
def circulant (m : Fin 4 → UInt8 → UInt8) (s : AesMatrix) : AesMatrix := fun r c =>
  m r (s 0 c) ^^^ m (rot r 3) (s 1 c) ^^^ m (rot r 2) (s 2 c) ^^^ m (rot r 1) (s 3 c)

/-- Four tables that are rotations of one another multiply a column with the bytes of the first. -/
theorem byteOf_lookup4 (t : Vector UInt32 256) (a b c d : UInt32) (r : Fin 4) :
    byteOf (lookup4 t (t.map rotl8) ((t.map rotl8).map rotl8) (((t.map rotl8).map rotl8).map rotl8)
      a b c d) r =
    byteOf (t.get (byteOf a 0).toFin) r ^^^ byteOf (t.get (byteOf b 1).toFin) (rot r 3) ^^^
      byteOf (t.get (byteOf c 2).toFin) (rot r 2) ^^^ byteOf (t.get (byteOf d 3).toFin) (rot r 1) := by
  have hmap : ∀ (t : Vector UInt32 256) (i : Fin 256), (t.map rotl8).get i = rotl8 (t.get i) := by
    intro t i
    exact Vector.getElem_map ..
  have hrot : ∀ (w : UInt32) (r : Fin 4), byteOf (rotl8 w) r = byteOf w (rot r 3) := by
    intro w r
    obtain ⟨h0, h1, h2, h3⟩ := byteOf_rotl8 w
    cases r using fin4_cases
    exacts [h0, h1, h2, h3]
  have htwo : rot (rot r 3) 3 = rot r 2 := by cases r using fin4_cases <;> rfl
  have hone : rot (rot r 2) 3 = rot r 1 := by cases r using fin4_cases <;> rfl
  unfold lookup4
  rw [byteOf_xor _ _ r.isLt, byteOf_xor _ _ r.isLt, byteOf_xor _ _ r.isLt]
  simp only [hmap, hrot, htwo, hone]

/-- The bytes of `FT0`: the column `2, 1, 1, 3`. -/
def forwardColumn (r : Fin 4) (b : UInt8) : UInt8 := match r with
  | 0 => xtime b
  | 1 => b
  | 2 => b
  | 3 => mul3 b

/-- The bytes of `RT0`: the column `14, 9, 13, 11`. -/
def inverseColumn (r : Fin 4) (b : UInt8) : UInt8 := match r with
  | 0 => mulE b
  | 1 => mul9 b
  | 2 => mulD b
  | 3 => mulB b

theorem byteOf_aesFT0 (x : UInt8) (r : Fin 4) :
    byteOf (aesFT0.get x.toFin) r = forwardColumn r (fSb x) := by
  obtain ⟨h0, h1, h2, h3⟩ := byteOf_packWord (xtime (fSb x)) (fSb x) (fSb x) (mul3 (fSb x))
  rw [aesFT0_get]
  cases r using fin4_cases
  exacts [h0, h1, h2, h3]

theorem byteOf_aesRT0 (x : UInt8) (r : Fin 4) :
    byteOf (aesRT0.get x.toFin) r = inverseColumn r (rSb x) := by
  obtain ⟨h0, h1, h2, h3⟩ :=
    byteOf_packWord (mulE (rSb x)) (mul9 (rSb x)) (mulD (rSb x)) (mulB (rSb x))
  rw [aesRT0_get]
  cases r using fin4_cases
  exacts [h0, h1, h2, h3]

/-- The product read from the diagonal on. -/
theorem circulant_apply (m : Fin 4 → UInt8 → UInt8) (s : AesMatrix) (r c : Fin 4) :
    circulant m s r c =
      m 0 (s r c) ^^^ m 3 (s (rot r 1) c) ^^^ m 2 (s (rot r 2) c) ^^^ m 1 (s (rot r 3) c) := by
  cases r using fin4_cases with
  | zero => rfl
  | one =>
    show m 1 (s 0 c) ^^^ m 0 (s 1 c) ^^^ m 3 (s 2 c) ^^^ m 2 (s 3 c) =
      m 0 (s 1 c) ^^^ m 3 (s 2 c) ^^^ m 2 (s 3 c) ^^^ m 1 (s 0 c)
    ac_rfl
  | two =>
    show m 2 (s 0 c) ^^^ m 1 (s 1 c) ^^^ m 0 (s 2 c) ^^^ m 3 (s 3 c) =
      m 0 (s 2 c) ^^^ m 3 (s 3 c) ^^^ m 2 (s 0 c) ^^^ m 1 (s 1 c)
    ac_rfl
  | three =>
    show m 3 (s 0 c) ^^^ m 2 (s 1 c) ^^^ m 1 (s 2 c) ^^^ m 0 (s 3 c) =
      m 0 (s 3 c) ^^^ m 3 (s 0 c) ^^^ m 2 (s 1 c) ^^^ m 1 (s 2 c)
    ac_rfl

theorem circulant_forwardColumn (s : AesMatrix) :
    circulant forwardColumn s = Fips197.mixColumns s := by
  funext r c
  exact circulant_apply ..

theorem subBytes_apply (s : AesMatrix) (r c : Fin 4) : Fips197.subBytes s r c = fSb (s r c) :=
  (fSb_eq_sbox _).symm

theorem addRoundKey_comm (k s : AesMatrix) : Fips197.addRoundKey k s = Fips197.addRoundKey s k := by
  funext r c
  exact UInt8.xor_comm ..

/-- A round of the code is a round of FIPS 197. -/
theorem mat_aesFround (rk y : AesState) :
    (aesFround rk y).mat = Fips197.round rk.mat y.mat := by
  have hcol : (y.forward (lookup4 aesFT0 aesFT1 aesFT2 aesFT3)).mat =
      circulant forwardColumn (Fips197.shiftRows (Fips197.subBytes y.mat)) := by
    funext r c
    unfold AesState.mat
    rw [AesState.col_forward, aesFT3, aesFT2, aesFT1, byteOf_lookup4]
    simp only [byteOf_aesFT0, circulant, Fips197.shiftRows, subBytes_apply, Fin.val_zero,
      Fin.val_one, Fin.val_two, val_three]
  unfold aesFround
  rw [AesState.mat_xor, hcol, circulant_forwardColumn, addRoundKey_comm, Fips197.round]

/-- A word of a last round. -/
theorem byteOf_sub4 (t : Vector UInt8 256) (w : Fin 4 → UInt32) (r : Fin 4) :
    byteOf (sub4 t (w 0) (w 1) (w 2) (w 3)) r = t.get (byteOf (w r) r).toFin := by
  obtain ⟨h0, h1, h2, h3⟩ := byteOf_packWord (t.get (byteOf (w 0) 0).toFin)
    (t.get (byteOf (w 1) 1).toFin) (t.get (byteOf (w 2) 2).toFin) (t.get (byteOf (w 3) 3).toFin)
  cases r using fin4_cases
  exacts [h0, h1, h2, h3]

theorem mat_lastForward (rk y : AesState) :
    (rk.xor (y.forward (sub4 aesFSb))).mat =
      Fips197.addRoundKey rk.mat (Fips197.shiftRows (Fips197.subBytes y.mat)) := by
  have hmat : (y.forward (sub4 aesFSb)).mat = Fips197.shiftRows (Fips197.subBytes y.mat) := by
    funext r c
    unfold AesState.mat
    rw [AesState.col_forward, Fips197.shiftRows, subBytes_apply]
    exact byteOf_sub4 aesFSb (fun j => y.col (rot c j)) r
  rw [AesState.mat_xor, hmat, addRoundKey_comm]

/-! ## The inverse cipher -/

namespace Fips197

def invSubBytes (s : AesMatrix) : AesMatrix := fun r c => rSb (s r c)

def invShiftRows (s : AesMatrix) : AesMatrix := fun r c => s r (rot c (4 - r))

def invMixColumns (s : AesMatrix) : AesMatrix := fun r c =>
  mulE (s r c) ^^^ mulB (s (rot r 1) c) ^^^ mulD (s (rot r 2) c) ^^^ mul9 (s (rot r 3) c)

/-- A round of the equivalent inverse cipher. -/
def invRound (dk s : AesMatrix) : AesMatrix :=
  addRoundKey dk (invMixColumns (invShiftRows (invSubBytes s)))

/-- The state after `i` rounds of the equivalent inverse cipher. -/
def invRounds (dk : ℕ → AesMatrix) (s : AesMatrix) : ℕ → AesMatrix
  | 0 => addRoundKey (dk 0) s
  | i + 1 => invRound (dk (i + 1)) (invRounds dk s i)

/-- The equivalent inverse cipher. -/
def eqInvCipher (nr : ℕ) (dk : ℕ → AesMatrix) (s : AesMatrix) : AesMatrix :=
  addRoundKey (dk nr) (invShiftRows (invSubBytes (invRounds dk s (nr - 1))))

end Fips197

theorem circulant_inverseColumn (s : AesMatrix) :
    circulant inverseColumn s = Fips197.invMixColumns s := by
  funext r c
  exact circulant_apply ..

theorem mat_aesRround (rk y : AesState) :
    (aesRround rk y).mat = Fips197.invRound rk.mat y.mat := by
  have hcol : (y.backward (lookup4 aesRT0 aesRT1 aesRT2 aesRT3)).mat =
      circulant inverseColumn (Fips197.invShiftRows (Fips197.invSubBytes y.mat)) := by
    funext r c
    unfold AesState.mat
    rw [AesState.col_backward, aesRT3, aesRT2, aesRT1, byteOf_lookup4]
    simp only [byteOf_aesRT0, circulant, Fips197.invShiftRows, Fips197.invSubBytes, Fin.val_zero,
      Fin.val_one, Fin.val_two, val_three]
  unfold aesRround
  rw [AesState.mat_xor, hcol, circulant_inverseColumn, addRoundKey_comm, Fips197.invRound]

theorem mat_lastBackward (rk y : AesState) :
    (rk.xor (y.backward (sub4 aesRSb))).mat =
      Fips197.addRoundKey rk.mat (Fips197.invShiftRows (Fips197.invSubBytes y.mat)) := by
  have hmat : (y.backward (sub4 aesRSb)).mat = Fips197.invShiftRows (Fips197.invSubBytes y.mat) := by
    funext r c
    unfold AesState.mat
    rw [AesState.col_backward]
    exact byteOf_sub4 aesRSb (fun j => y.col (rot c (4 - j))) r
  rw [AesState.mat_xor, hmat, addRoundKey_comm]

/-- The inverse of a round, without its key. -/
theorem invShiftRows_invSubBytes (s : AesMatrix) :
    Fips197.invShiftRows (Fips197.invSubBytes (Fips197.shiftRows (Fips197.subBytes s))) = s := by
  funext r c
  have hrot : rot (rot c (4 - r)) r = c := by
    cases r using fin4_cases <;> cases c using fin4_cases <;> rfl
  show rSb (Fips197.subBytes s r (rot (rot c (4 - r)) r)) = s r c
  rw [subBytes_apply, rSb_fSb, hrot]

theorem xor_left_comm (a b c : UInt8) : a ^^^ (b ^^^ c) = b ^^^ (a ^^^ c) := by ac_rfl

theorem xor_cancel (a b : UInt8) : a ^^^ (a ^^^ b) = b := by
  rw [← UInt8.xor_assoc, UInt8.xor_self, UInt8.zero_xor]

/-- The product of the two mixing polynomials is 1, coefficient by coefficient. -/
theorem mix_coefficients (a : UInt8) :
    mulE (xtime a) ^^^ mulB a ^^^ mulD a ^^^ mul9 (mul3 a) = a ∧
      mulE (mul3 a) ^^^ mulB (xtime a) ^^^ mulD a ^^^ mul9 a = 0 ∧
      mulE a ^^^ mulB (mul3 a) ^^^ mulD (xtime a) ^^^ mul9 a = 0 ∧
      mulE a ^^^ mulB a ^^^ mulD (mul3 a) ^^^ mul9 (xtime a) = 0 := by
  simp only [mulE, mul9, mulD, mulB, mul3, xtime_xor]
  refine ⟨?_, ?_, ?_, ?_⟩
  all_goals
    simp only [UInt8.xor_comm, xor_left_comm, xor_cancel, UInt8.xor_self, UInt8.xor_zero]

theorem mul_xor (a b : UInt8) :
    mulE (a ^^^ b) = mulE a ^^^ mulE b ∧ mulB (a ^^^ b) = mulB a ^^^ mulB b ∧
      mulD (a ^^^ b) = mulD a ^^^ mulD b ∧ mul9 (a ^^^ b) = mul9 a ^^^ mul9 b := by
  simp only [mulE, mul9, mulD, mulB, xtime_xor]
  refine ⟨?_, ?_, ?_, ?_⟩ <;> ac_rfl

theorem invMixColumns_addRoundKey (k s : AesMatrix) :
    Fips197.invMixColumns (Fips197.addRoundKey k s) =
      Fips197.addRoundKey (Fips197.invMixColumns k) (Fips197.invMixColumns s) := by
  funext r c
  simp only [Fips197.invMixColumns, Fips197.addRoundKey, mul_xor]
  ac_rfl

theorem invMixColumns_mixColumns (s : AesMatrix) :
    Fips197.invMixColumns (Fips197.mixColumns s) = s := by
  funext r c
  have hrot : ∀ j k, rot (rot r j) k = rot r (j + k) := by
    intro j k
    exact Fin.ext (by simp only [rot]; omega)
  have h4 : rot r 4 = r := by cases r using fin4_cases <;> rfl
  have h5 : rot r 5 = rot r 1 := by cases r using fin4_cases <;> rfl
  have h6 : rot r 6 = rot r 2 := by cases r using fin4_cases <;> rfl
  simp only [Fips197.invMixColumns, Fips197.mixColumns, hrot, Nat.reduceAdd, h4, h5, h6, mul_xor]
  generalize s r c = a
  generalize s (rot r 1) c = b
  generalize s (rot r 2) c = d
  generalize s (rot r 3) c = e
  obtain ⟨ha, -, -, -⟩ := mix_coefficients a
  obtain ⟨-, hb, -, -⟩ := mix_coefficients b
  obtain ⟨-, -, hd, -⟩ := mix_coefficients d
  obtain ⟨-, -, -, he⟩ := mix_coefficients e
  calc _ = (mulE (xtime a) ^^^ mulB a ^^^ mulD a ^^^ mul9 (mul3 a)) ^^^
        (mulE (mul3 b) ^^^ mulB (xtime b) ^^^ mulD b ^^^ mul9 b) ^^^
        (mulE d ^^^ mulB (mul3 d) ^^^ mulD (xtime d) ^^^ mul9 d) ^^^
        (mulE e ^^^ mulB e ^^^ mulD (mul3 e) ^^^ mul9 (xtime e)) := by ac_rfl
    _ = a := by rw [ha, hb, hd, he, UInt8.xor_zero, UInt8.xor_zero, UInt8.xor_zero]

/-! ## Blocks -/

/-- The byte of a block in row `r` of column `c`. -/
def blockIndex (r c : Fin 4) : Fin 16 := ⟨4 * c + r, by omega⟩

theorem mat_ofBlock (b : CipherBlock) (r c : Fin 4) :
    (AesState.ofBlock b).mat r c = b.get (blockIndex r c) := by
  have hcol : (AesState.ofBlock b).col c = getUint32Le b c := by cases c using fin4_cases <;> rfl
  obtain ⟨h0, h1, h2, h3⟩ := byteOf_packWord (b.get ⟨4 * c, by omega⟩) (b.get ⟨4 * c + 1, by omega⟩)
    (b.get ⟨4 * c + 2, by omega⟩) (b.get ⟨4 * c + 3, by omega⟩)
  unfold AesState.mat
  rw [hcol]
  cases r using fin4_cases
  exacts [h0, h1, h2, h3]

theorem get_toBlock (s : AesState) (r c : Fin 4) :
    s.toBlock.get (blockIndex r c) = s.mat r c := by
  cases r using fin4_cases <;> cases c using fin4_cases <;> rfl

@[simp] theorem ofBlock_toBlock (s : AesState) : AesState.ofBlock s.toBlock = s := by
  apply AesState.mat_injective
  funext r c
  rw [mat_ofBlock, get_toBlock]

@[simp] theorem toBlock_ofBlock (b : CipherBlock) : (AesState.ofBlock b).toBlock = b := by
  apply Vector.ext
  intro i hi
  have h := get_toBlock (AesState.ofBlock b) ⟨i % 4, Nat.mod_lt _ (by decide)⟩ ⟨i / 4, by omega⟩
  rw [mat_ofBlock] at h
  simp only [blockIndex, Nat.div_add_mod] at h
  exact h

/-! ## The cipher and its inverse -/

/-- Round key `i` of the words `rk`. -/
def keyMatrix (rk : List UInt32) (i : ℕ) : AesMatrix := (roundKey rk (4 * i)).mat

section Rounds

variable {round : AesState → AesState → AesState} {R : AesMatrix → AesMatrix → AesMatrix}
  (hround : ∀ rk y, (round rk y).mat = R rk.mat y.mat) {rk : List UInt32} {seq : ℕ → AesMatrix}
  (hseq : ∀ i, seq (i + 1) = R (keyMatrix rk (i + 1)) (seq i))

include hround hseq

theorem mat_aesLoop (m j : ℕ) (x : AesState) (hx : x.mat = seq j) :
    (aesLoop round rk m (4 * (j + 1)) x).mat = seq (j + 2 * m) := by
  induction m generalizing j x with
  | zero => exact hx
  | succ m ih =>
    have hone : (round (roundKey rk (4 * (j + 1))) x).mat = seq (j + 1) := by
      rw [hround, hx, hseq]
      rfl
    have htwo : (round (roundKey rk (4 * (j + 1) + 4)) (round (roundKey rk (4 * (j + 1))) x)).mat =
        seq (j + 2) := by
      rw [hround, hone, hseq (j + 1)]
      rfl
    have h := ih (j + 2) _ htwo
    rw [show j + 2 * (m + 1) = j + 2 + 2 * m by omega, ← h]
    rfl

/-- All rounds but the last. -/
theorem mat_allRounds {nr m : ℕ} (hnr : nr = 2 * (m + 1)) (x : AesState) (hx : x.mat = seq 0) :
    (round (roundKey rk (4 + 8 * (nr / 2 - 1))) (aesLoop round rk (nr / 2 - 1) 4 x)).mat =
      seq (nr - 1) := by
  have hm : nr / 2 - 1 = m := by omega
  have hloop := mat_aesLoop hround hseq m 0 x hx
  rw [hm, hround, show nr - 1 = 2 * m + 1 by omega, hseq, ← Nat.zero_add (2 * m), ← hloop, keyMatrix,
    show 4 * (0 + 2 * m + 1) = 4 + 8 * m by omega]

end Rounds

theorem mat_encrypt (ctx : AesContext) {m : ℕ} (hnr : ctx.nr = 2 * (m + 1)) (b : CipherBlock) :
    (AesState.ofBlock (mbedtlsInternalAesEncrypt ctx b)).mat =
      Fips197.cipher ctx.nr (keyMatrix ctx.rk) (AesState.ofBlock b).mat := by
  have hseq : ∀ i, Fips197.rounds (keyMatrix ctx.rk) (AesState.ofBlock b).mat (i + 1) =
      Fips197.round (keyMatrix ctx.rk (i + 1)) (Fips197.rounds (keyMatrix ctx.rk) (AesState.ofBlock b).mat i) :=
    fun i => rfl
  have hrounds := mat_allRounds (R := Fips197.round) mat_aesFround hseq hnr
    ((AesState.ofBlock b).xor (roundKey ctx.rk 0)) (AesState.mat_xor ..)
  unfold mbedtlsInternalAesEncrypt Fips197.cipher
  dsimp only
  rw [ofBlock_toBlock, mat_lastForward, hrounds, keyMatrix,
    show 4 * ctx.nr = 4 + 8 * (ctx.nr / 2 - 1) + 4 by omega]

theorem mat_decrypt (ctx : AesContext) {m : ℕ} (hnr : ctx.nr = 2 * (m + 1)) (b : CipherBlock) :
    (AesState.ofBlock (mbedtlsInternalAesDecrypt ctx b)).mat =
      Fips197.eqInvCipher ctx.nr (keyMatrix ctx.rk) (AesState.ofBlock b).mat := by
  have hseq : ∀ i, Fips197.invRounds (keyMatrix ctx.rk) (AesState.ofBlock b).mat (i + 1) =
      Fips197.invRound (keyMatrix ctx.rk (i + 1)) (Fips197.invRounds (keyMatrix ctx.rk) (AesState.ofBlock b).mat i) :=
    fun i => rfl
  have hrounds := mat_allRounds (R := Fips197.invRound) mat_aesRround hseq hnr
    ((AesState.ofBlock b).xor (roundKey ctx.rk 0)) (AesState.mat_xor ..)
  unfold mbedtlsInternalAesDecrypt Fips197.eqInvCipher
  dsimp only
  rw [ofBlock_toBlock, mat_lastBackward, hrounds, keyMatrix,
    show 4 * ctx.nr = 4 + 8 * (ctx.nr / 2 - 1) + 4 by omega]

/-- The round keys of the equivalent inverse cipher. -/
structure IsInverseKey (nr : ℕ) (k dk : ℕ → AesMatrix) : Prop where
  first : dk 0 = k nr
  last : dk nr = k 0
  mid : ∀ i, 1 ≤ i → i < nr → dk i = Fips197.invMixColumns (k (nr - i))

theorem addRoundKey_addRoundKey (k s : AesMatrix) :
    Fips197.addRoundKey k (Fips197.addRoundKey k s) = s := by
  funext r c
  show s r c ^^^ k r c ^^^ k r c = s r c
  rw [UInt8.xor_assoc, UInt8.xor_self, UInt8.xor_zero]

/-- After `i` rounds the inverse cipher is back at the state in which round `nr - i` of the cipher adds
its key. -/
theorem invRounds_cipher {nr : ℕ} {k dk : ℕ → AesMatrix} (h : IsInverseKey nr k dk) (s : AesMatrix)
    (i : ℕ) (hi : i < nr) :
    Fips197.invRounds dk (Fips197.cipher nr k s) i =
      Fips197.shiftRows (Fips197.subBytes (Fips197.rounds k s (nr - 1 - i))) := by
  induction i with
  | zero =>
    rw [Fips197.invRounds, Fips197.cipher, h.first, addRoundKey_addRoundKey, Nat.sub_zero]
  | succ i ih =>
    have hround : nr - 1 - i = nr - 1 - (i + 1) + 1 := by omega
    rw [Fips197.invRounds, Fips197.invRound, ih (by omega), invShiftRows_invSubBytes, h.mid (i + 1) (by omega) hi,
      ← invMixColumns_addRoundKey, show nr - (i + 1) = nr - 1 - i by omega, hround, Fips197.rounds,
      Fips197.round, addRoundKey_addRoundKey, invMixColumns_mixColumns]

theorem eqInvCipher_cipher {nr : ℕ} {k dk : ℕ → AesMatrix} (h : IsInverseKey nr k dk) (hnr : 1 ≤ nr)
    (s : AesMatrix) : Fips197.eqInvCipher nr dk (Fips197.cipher nr k s) = s := by
  rw [Fips197.eqInvCipher, invRounds_cipher h s (nr - 1) (by omega), invShiftRows_invSubBytes, h.last,
    Nat.sub_self, Fips197.rounds, addRoundKey_addRoundKey]

end DsiWifi
