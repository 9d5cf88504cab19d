import DsiWifi.Util
import DsiWifi.Lib.Undo

/-!
# AES key wrap of mbedTLS

`nist_kw.twl.c`, over any block cipher: `mbedtls_nist_kw_wrap` and `mbedtls_nist_kw_unwrap` with their
two modes.  All accesses are to semiblocks of eight bytes, so the buffers are lists of semiblocks and
the pointers `R2` and `R` are indices into them.

For a block cipher with its inverse, `mbedtls_nist_kw_unwrap` accepts exactly what
`mbedtls_nist_kw_wrap` makes, and returns what it was made from (`mbedtlsNistKwUnwrap_eq_ok_iff`).
-/

namespace DsiWifi

/-! ## Semiblocks -/

abbrev Semiblock := Vector UInt8 8

abbrev CipherBlock := Vector UInt8 16

/-- The bytes of a buffer, eight at a time. -/
def toSemiblocks : List UInt8 → List Semiblock
  | a :: b :: c :: d :: e :: f :: g :: h :: l => #v[a, b, c, d, e, f, g, h] :: toSemiblocks l
  | _ => []

def ofSemiblocks (R : List Semiblock) : List UInt8 := R.flatMap Vector.toList

/-- `inbuff`: two semiblocks one behind the other. -/
def joinBlock (a r : Semiblock) : CipherBlock := a ++ r

/-- The first half of `outbuff`. -/
def msb64 (b : CipherBlock) : Semiblock := Vector.ofFn fun i => b.get ⟨i, by omega⟩

/-- The second half of `outbuff`. -/
def lsb64 (b : CipherBlock) : Semiblock := Vector.ofFn fun i => b.get ⟨i + 8, by omega⟩

def calcAXorT (A : Semiblock) (t : ℕ) : Semiblock :=
  Vector.ofFn fun i => A.get i ^^^ .ofNat (t / 2 ^ ((7 - i.val) * 8))

/-! ## The wrapping function and its inverse -/

/-- The buffers and the pointer of the loops: `R2` or `R` is `output + 8 * r`. -/
structure KwState where
  A : Semiblock
  R : List Semiblock
  r : ℕ

/-- One round of the loop in `mbedtls_nist_kw_wrap`. -/
def kwWrapStep (E : CipherBlock → CipherBlock) (t : ℕ) (s : KwState) : KwState :=
  let outbuff := E (joinBlock s.A (s.R.getD s.r (Vector.replicate 8 0)))
  let r := s.r + 1
  { A := calcAXorT (msb64 outbuff) t
    R := s.R.set s.r (lsb64 outbuff)
    r := if s.R.length ≤ r then 0 else r }

/-- One round of the loop in `unwrap`. -/
def kwUnwrapStep (D : CipherBlock → CipherBlock) (t : ℕ) (s : KwState) : KwState :=
  let outbuff := D (joinBlock (calcAXorT s.A t) (s.R.getD s.r (Vector.replicate 8 0)))
  { A := msb64 outbuff
    R := s.R.set s.r (lsb64 outbuff)
    r := if s.r = 0 then s.R.length - 1 else s.r - 1 }

/-- The loop of `mbedtls_nist_kw_wrap`, with `s = 6 * (semiblocks - 1)` rounds. -/
def kwWrapLoop (E : CipherBlock → CipherBlock) (A : Semiblock) (R : List Semiblock) : KwState :=
  Undo.up (kwWrapStep E) (6 * R.length) ⟨A, R, 0⟩

/-- The loop of `unwrap`, which starts at the last semiblock. -/
def kwUnwrapLoop (D : CipherBlock → CipherBlock) (A : Semiblock) (R : List Semiblock) : KwState :=
  Undo.down (kwUnwrapStep D) (6 * R.length) ⟨A, R, R.length - 1⟩

/-! ## The interface -/

inductive KwMode
  | kw
  | kwp

/-- The errors of `cipher.h` that occur. -/
inductive CipherError
  | badInputData
  | authFailed
deriving DecidableEq

def nistKwIcv1 : Semiblock := Vector.replicate 8 0xA6

/-- `NIST_KW_ICV2`, and the length of the plaintext behind it. -/
def kwpHeader (inLen : ℕ) : Semiblock :=
  #v[0xA6, 0x59, 0x59, 0xA6, .ofNat (inLen / 2 ^ 24), .ofNat (inLen / 2 ^ 16),
    .ofNat (inLen / 2 ^ 8), .ofNat inLen]

def mbedtlsNistKwSaferMemcmp (a b : List UInt8) : UInt8 :=
  (List.zipWith (· ^^^ ·) a b).foldl (· ||| ·) 0

/-- `mbedtls_nist_kw_wrap`: the bytes it stores, or the error.  `size_t` has 32 bits. -/
def mbedtlsNistKwWrap (E : CipherBlock → CipherBlock) (mode : KwMode) (input : List UInt8)
    (outSize : ℕ) : Except CipherError (List UInt8) :=
  let inLen := input.length
  match mode with
  | .kw =>
    if outSize < (inLen + 8) % 2 ^ 32 then .error .badInputData
    else if inLen < 16 ∨ inLen % 8 ≠ 0 then .error .badInputData
    else
      let s := kwWrapLoop E nistKwIcv1 (toSemiblocks input)
      .ok (s.A.toList ++ ofSemiblocks s.R)
  | .kwp =>
    let padlen := if inLen % 8 ≠ 0 then 8 - inLen % 8 else 0
    if outSize < (inLen + 8 + padlen) % 2 ^ 32 then .error .badInputData
    else if inLen < 1 then .error .badInputData
    else
      let R := toSemiblocks (input ++ List.replicate padlen 0)
      if inLen ≤ 8 then
        .ok (E (joinBlock (kwpHeader inLen) (R.getD 0 (Vector.replicate 8 0)))).toList
      else if (inLen + padlen) / 8 + 1 < 3 then .error .badInputData
      else
        let s := kwWrapLoop E (kwpHeader inLen) R
        .ok (s.A.toList ++ ofSemiblocks s.R)

/-- `unwrap`: `A` and the bytes of `output`. -/
def kwUnwrap (D : CipherBlock → CipherBlock) (input : List UInt8) (semiblocks : ℕ) :
    Except CipherError (Semiblock × List UInt8) :=
  if semiblocks < 3 then .error .badInputData
  else
    let blocks := toSemiblocks input
    let s := kwUnwrapLoop D (blocks.getD 0 (Vector.replicate 8 0)) (blocks.drop 1)
    .ok (s.A, ofSemiblocks s.R)

/-- The checks of KWP behind the deciphering. -/
def kwpCheck (inLen : ℕ) (A : Semiblock) (output : List UInt8) : Except CipherError (List UInt8) :=
  let Plen := getbe32 (Mem.ofList A.toList 0) 4
  let padlen := (inLen - 8 + 2 ^ 32 - Plen) % 2 ^ 32
  let tooLong := 7 < padlen
  let padlen := if tooLong then padlen % 8 else padlen
  -- `diff` over the bytes of the padding
  let diff := ((output.drop (output.length - 8)).drop (8 - padlen)).foldl (· ||| ·) 0
  if mbedtlsNistKwSaferMemcmp [0xA6, 0x59, 0x59, 0xA6] (A.toList.take 4) ≠ 0 ∨ tooLong ∨ diff ≠ 0
  then .error .authFailed
  else .ok (output.take Plen)

/-- `mbedtls_nist_kw_unwrap`: the bytes that `out_len` counts, or the error, which clears the output.
-/
def mbedtlsNistKwUnwrap (D : CipherBlock → CipherBlock) (mode : KwMode) (input : List UInt8)
    (outSize : ℕ) : Except CipherError (List UInt8) := do
  let inLen := input.length
  if outSize < (inLen + 2 ^ 32 - 8) % 2 ^ 32 then .error .badInputData
  else
    match mode with
    | .kw =>
      if inLen < 24 ∨ inLen % 8 ≠ 0 then .error .badInputData
      else
        let r ← kwUnwrap D input (inLen / 8)
        if mbedtlsNistKwSaferMemcmp nistKwIcv1.toList r.1.toList ≠ 0 then .error .authFailed
        else .ok r.2
    | .kwp =>
      if inLen < 16 ∨ inLen % 8 ≠ 0 then .error .badInputData
      else if inLen = 16 then
        let blocks := toSemiblocks input
        let outbuff := D (joinBlock (blocks.getD 0 (Vector.replicate 8 0))
          (blocks.getD 1 (Vector.replicate 8 0)))
        kwpCheck inLen (msb64 outbuff) (lsb64 outbuff).toList
      else
        let r ← kwUnwrap D input (inLen / 8)
        kwpCheck inLen r.1 r.2

/-! ## Semiblocks: round trips -/

theorem eta_semiblock (v : Semiblock) : #v[v[0], v[1], v[2], v[3], v[4], v[5], v[6], v[7]] = v := by
  apply Vector.ext
  intro i hi
  obtain rfl | rfl | rfl | rfl | rfl | rfl | rfl | rfl :
    i = 0 ∨ i = 1 ∨ i = 2 ∨ i = 3 ∨ i = 4 ∨ i = 5 ∨ i = 6 ∨ i = 7 := by omega
  all_goals rfl

theorem ofSemiblocks_cons (v : Semiblock) (R : List Semiblock) :
    ofSemiblocks (v :: R) = v.toList ++ ofSemiblocks R := List.flatMap_cons

theorem toSemiblocks_append (v : Semiblock) (l : List UInt8) :
    toSemiblocks (v.toList ++ l) = v :: toSemiblocks l := by
  conv_lhs => rw [← eta_semiblock v]
  show #v[v[0], v[1], v[2], v[3], v[4], v[5], v[6], v[7]] :: toSemiblocks l = _
  rw [eta_semiblock]

theorem toSemiblocks_ofSemiblocks (R : List Semiblock) : toSemiblocks (ofSemiblocks R) = R := by
  induction R with
  | nil => rfl
  | cons v R ih => rw [ofSemiblocks_cons, toSemiblocks_append, ih]

theorem ofSemiblocks_toSemiblocks {l : List UInt8} (h : l.length % 8 = 0) :
    ofSemiblocks (toSemiblocks l) = l := by
  induction l using toSemiblocks.induct with
  | case1 a b c d e f g k l ih =>
    have hl : l.length % 8 = 0 := by
      simp only [List.length_cons] at h
      omega
    rw [toSemiblocks, ofSemiblocks_cons, ih hl]
    rfl
  | case2 l hne =>
    rcases l with _ | ⟨a, _ | ⟨b, _ | ⟨c, _ | ⟨d, _ | ⟨e, _ | ⟨f, _ | ⟨g, _ | ⟨k, l⟩⟩⟩⟩⟩⟩⟩⟩
    · rfl
    · exact absurd h (by simp)
    · exact absurd h (by simp)
    · exact absurd h (by simp)
    · exact absurd h (by simp)
    · exact absurd h (by simp)
    · exact absurd h (by simp)
    · exact absurd h (by simp)
    · exact absurd rfl (hne a b c d e f g k l)

theorem length_ofSemiblocks (R : List Semiblock) : (ofSemiblocks R).length = 8 * R.length := by
  induction R with
  | nil => rfl
  | cons v R ih =>
    rw [ofSemiblocks_cons, List.length_append, ih, Vector.length_toList, List.length_cons]
    omega

theorem length_toSemiblocks {l : List UInt8} (h : l.length % 8 = 0) :
    8 * (toSemiblocks l).length = l.length := by
  rw [← length_ofSemiblocks, ofSemiblocks_toSemiblocks h]

theorem joinBlock_msb64_lsb64 (b : CipherBlock) : joinBlock (msb64 b) (lsb64 b) = b := by
  apply Vector.ext
  intro i hi
  unfold joinBlock
  by_cases h : i < 8
  · rw [Vector.getElem_append_left h, msb64, Vector.getElem_ofFn]
    rfl
  · rw [Vector.getElem_append_right (n := 8) (m := 8) hi (by omega), lsb64, Vector.getElem_ofFn]
    show b[i - 8 + 8] = b[i]
    congr 1
    omega

theorem msb64_joinBlock (a r : Semiblock) : msb64 (joinBlock a r) = a := by
  apply Vector.ext
  intro i hi
  rw [msb64, Vector.getElem_ofFn]
  exact Vector.getElem_append_left hi

theorem lsb64_joinBlock (a r : Semiblock) : lsb64 (joinBlock a r) = r := by
  apply Vector.ext
  intro i hi
  rw [lsb64, Vector.getElem_ofFn]
  have h : (a ++ r)[i + 8] = r[i + 8 - 8] :=
    Vector.getElem_append_right (n := 8) (m := 8) (by omega) (by omega)
  exact h

theorem calcAXorT_calcAXorT (A : Semiblock) (t : ℕ) : calcAXorT (calcAXorT A t) t = A := by
  apply Vector.ext
  intro i hi
  have hget : (calcAXorT A t).get ⟨i, hi⟩ = A[i] ^^^ .ofNat (t / 2 ^ ((7 - i) * 8)) :=
    Vector.getElem_ofFn ..
  rw [calcAXorT, Vector.getElem_ofFn, hget, UInt8.xor_assoc, UInt8.xor_self, UInt8.xor_zero]

/-! ## The loops undo each other -/

/-- The pointer stays within the buffer. -/
def KwState.InRange (n : ℕ) (s : KwState) : Prop := s.R.length = n ∧ s.r < n

/-- The pointer one semiblock back, as `unwrap` moves it. -/
def KwState.back (s : KwState) : KwState :=
  { s with r := if s.r = 0 then s.R.length - 1 else s.r - 1 }

/-- `unwrap` moves its pointer behind a round; this is the same round with the move in front. -/
def kwUnwrapBack (D : CipherBlock → CipherBlock) (t : ℕ) (s : KwState) : KwState :=
  let outbuff := D (joinBlock (calcAXorT s.A t) (s.back.R.getD s.back.r (Vector.replicate 8 0)))
  { A := msb64 outbuff
    R := s.R.set s.back.r (lsb64 outbuff)
    r := s.back.r }

variable {E D : CipherBlock → CipherBlock} {n t : ℕ} {s : KwState}

theorem KwState.InRange.back (h : s.InRange n) : s.back.InRange n := by
  refine ⟨h.1, ?_⟩
  have h1 := h.1
  have h2 := h.2
  unfold KwState.back
  dsimp only
  split_ifs <;> omega

theorem kwUnwrapStep_back (t : ℕ) (s : KwState) :
    kwUnwrapStep D t s.back = (kwUnwrapBack D t s).back := by
  unfold kwUnwrapStep kwUnwrapBack KwState.back
  dsimp only
  rw [List.length_set]

theorem inRange_kwWrapStep (t : ℕ) (s : KwState) (h : s.InRange n) : (kwWrapStep E t s).InRange n := by
  have h1 := h.1
  have h2 := h.2
  unfold kwWrapStep KwState.InRange
  dsimp only
  rw [List.length_set]
  refine ⟨h1, ?_⟩
  split_ifs <;> omega

theorem inRange_kwUnwrapBack (t : ℕ) (s : KwState) (h : s.InRange n) :
    (kwUnwrapBack D t s).InRange n := by
  refine ⟨?_, h.back.2⟩
  unfold kwUnwrapBack
  dsimp only
  rw [List.length_set]
  exact h.1

/-- The pointer of `unwrap` comes back to the semiblock that the round of `wrap` was about. -/
theorem back_r_kwWrapStep (t : ℕ) (h : s.InRange n) : (kwWrapStep E t s).back.r = s.r := by
  have h1 := h.1
  have h2 := h.2
  have hlen : (kwWrapStep E t s).R.length = s.R.length := List.length_set ..
  unfold KwState.back
  dsimp only
  by_cases hlast : s.R.length ≤ s.r + 1
  · have hr : (kwWrapStep E t s).r = 0 := if_pos hlast
    rw [if_pos hr, hlen]
    omega
  · have hr : (kwWrapStep E t s).r = s.r + 1 := if_neg hlast
    rw [if_neg (by omega), hr]
    rfl

theorem kwUnwrapBack_kwWrapStep (hDE : ∀ b, D (E b) = b) (t : ℕ) (s : KwState) (h : s.InRange n) :
    kwUnwrapBack D t (kwWrapStep E t s) = s := by
  have hr := back_r_kwWrapStep (E := E) t h
  have hlt : s.r < s.R.length := by
    rw [h.1]
    exact h.2
  have hget : (kwWrapStep E t s).back.R.getD s.r (Vector.replicate 8 0) =
      lsb64 (E (joinBlock s.A (s.R.getD s.r (Vector.replicate 8 0)))) := by
    show (s.R.set s.r _).getD s.r _ = _
    rw [List.getD_eq_getElem?_getD, List.getElem?_set_self hlt, Option.getD_some]
  have hA : calcAXorT (kwWrapStep E t s).A t =
      msb64 (E (joinBlock s.A (s.R.getD s.r (Vector.replicate 8 0)))) := calcAXorT_calcAXorT _ _
  unfold kwUnwrapBack
  dsimp only
  rw [hr, hget, hA, joinBlock_msb64_lsb64, hDE, msb64_joinBlock, lsb64_joinBlock]
  have hset : (kwWrapStep E t s).R.set s.r (s.R.getD s.r (Vector.replicate 8 0)) = s.R := by
    show (s.R.set s.r _).set s.r _ = _
    rw [List.set_set, List.getD_eq_getElem?_getD, List.getElem?_eq_getElem hlt, Option.getD_some,
      List.set_getElem_self]
  rw [hset]

theorem kwWrapStep_kwUnwrapBack (hED : ∀ b, E (D b) = b) (t : ℕ) (s : KwState) (h : s.InRange n) :
    kwWrapStep E t (kwUnwrapBack D t s) = s := by
  have hback := h.back
  have hlt : s.back.r < s.R.length := by
    rw [h.1]
    exact hback.2
  have hget : (kwUnwrapBack D t s).R.getD s.back.r (Vector.replicate 8 0) =
      lsb64 (D (joinBlock (calcAXorT s.A t) (s.R.getD s.back.r (Vector.replicate 8 0)))) := by
    show (s.R.set s.back.r _).getD s.back.r _ = _
    rw [List.getD_eq_getElem?_getD, List.getElem?_set_self hlt, Option.getD_some]
    rfl
  have hr : (kwUnwrapBack D t s).r = s.back.r := rfl
  have hA : (kwUnwrapBack D t s).A =
      msb64 (D (joinBlock (calcAXorT s.A t) (s.R.getD s.back.r (Vector.replicate 8 0)))) := rfl
  unfold kwWrapStep
  dsimp only
  rw [hr, hget, hA, joinBlock_msb64_lsb64, hED, msb64_joinBlock, lsb64_joinBlock, calcAXorT_calcAXorT]
  have hset : (kwUnwrapBack D t s).R.set s.back.r (s.R.getD s.back.r (Vector.replicate 8 0)) = s.R := by
    show (s.R.set s.back.r _).set s.back.r _ = _
    rw [List.set_set, List.getD_eq_getElem?_getD, List.getElem?_eq_getElem hlt, Option.getD_some,
      List.set_getElem_self]
  have hnext : (if (kwUnwrapBack D t s).R.length ≤ s.back.r + 1 then 0 else s.back.r + 1) = s.r := by
    have h1 := h.1
    have h2 := h.2
    unfold kwUnwrapBack KwState.back
    dsimp only
    rw [List.length_set]
    split_ifs <;> omega
  rw [hset, hnext]

/-! ## The pointers over a whole loop -/

theorem r_kwWrapStep (t : ℕ) (h : s.InRange n) : (kwWrapStep E t s).r = (s.r + 1) % n := by
  have h2 := h.2
  show (if s.R.length ≤ s.r + 1 then 0 else s.r + 1) = (s.r + 1) % n
  rw [h.1]
  split_ifs with hlast
  · have : s.r + 1 = n := by omega
    rw [this, Nat.mod_self]
  · rw [Nat.mod_eq_of_lt (by omega)]

theorem r_kwUnwrapBack (t : ℕ) (h : s.InRange n) :
    (kwUnwrapBack D t s).r = (s.r + (n - 1)) % n := by
  have h2 := h.2
  show (if s.r = 0 then s.R.length - 1 else s.r - 1) = (s.r + (n - 1)) % n
  rw [h.1]
  split_ifs with hzero
  · rw [hzero, Nat.zero_add, Nat.mod_eq_of_lt (by omega)]
  · have : s.r + (n - 1) = s.r - 1 + n := by omega
    rw [this, Nat.add_mod_right, Nat.mod_eq_of_lt (by omega)]

theorem r_up_kwWrapStep (h : s.InRange n) (m : ℕ) :
    (Undo.up (kwWrapStep E) m s).r = (s.r + m) % n := by
  induction m with
  | zero => exact (Nat.mod_eq_of_lt h.2).symm
  | succ m ih =>
    rw [Undo.up, r_kwWrapStep _ (Undo.up_inv inRange_kwWrapStep m h), ih, Nat.mod_add_mod]
    rfl

theorem r_down_kwUnwrapBack (h : s.InRange n) (m : ℕ) :
    (Undo.down (kwUnwrapBack D) m s).r = (s.r + m * (n - 1)) % n := by
  induction m generalizing s with
  | zero =>
    rw [Nat.zero_mul]
    exact (Nat.mod_eq_of_lt h.2).symm
  | succ m ih =>
    rw [Undo.down, ih (inRange_kwUnwrapBack _ s h), r_kwUnwrapBack _ h, Nat.mod_add_mod]
    congr 1
    rw [Nat.succ_mul]
    omega

theorem kwUnwrapLoop_eq (A : Semiblock) {R : List Semiblock} (hR : 0 < R.length) :
    kwUnwrapLoop D A R = (Undo.down (kwUnwrapBack D) (6 * R.length) ⟨A, R, 0⟩).back := by
  have hin : KwState.InRange R.length ⟨A, R, 0⟩ := ⟨rfl, hR⟩
  exact Undo.down_conj (φ := KwState.back) inRange_kwUnwrapBack
    (fun t s _ => kwUnwrapStep_back (D := D) t s) (6 * R.length) hin

/-- A state with its pointer at the first semiblock. -/
theorem eq_mk_of_r {s : KwState} (h : s.r = 0) : s = ⟨s.A, s.R, 0⟩ := by
  rw [← h]

theorem length_kwWrapLoop (A : Semiblock) {R : List Semiblock} (hR : 0 < R.length) :
    (kwWrapLoop E A R).R.length = R.length :=
  (Undo.up_inv (P := KwState.InRange R.length) inRange_kwWrapStep _ ⟨rfl, hR⟩).1

theorem length_kwUnwrapLoop (A : Semiblock) {R : List Semiblock} (hR : 0 < R.length) :
    (kwUnwrapLoop D A R).R.length = R.length := by
  rw [kwUnwrapLoop_eq A hR]
  exact (Undo.down_inv (P := KwState.InRange R.length) inRange_kwUnwrapBack _ ⟨rfl, hR⟩).1

/-- `unwrap` undoes the loop of `mbedtls_nist_kw_wrap`. -/
theorem kwUnwrapLoop_kwWrapLoop (hDE : ∀ b, D (E b) = b) (A : Semiblock) {R : List Semiblock}
    (hR : 0 < R.length) :
    (kwUnwrapLoop D (kwWrapLoop E A R).A (kwWrapLoop E A R).R).A = A ∧
      (kwUnwrapLoop D (kwWrapLoop E A R).A (kwWrapLoop E A R).R).R = R := by
  have hin : KwState.InRange R.length ⟨A, R, 0⟩ := ⟨rfl, hR⟩
  have hlen := length_kwWrapLoop (E := E) A hR
  have hr : (kwWrapLoop E A R).r = 0 := by
    rw [kwWrapLoop, r_up_kwWrapStep hin, Nat.zero_add, Nat.mul_mod_left]
  have hundo := Undo.down_up inRange_kwWrapStep (kwUnwrapBack_kwWrapStep hDE) (6 * R.length) hin
  rw [kwUnwrapLoop_eq _ (by omega), hlen, ← eq_mk_of_r hr, kwWrapLoop, hundo]
  exact ⟨rfl, rfl⟩

/-- The loop of `mbedtls_nist_kw_wrap` undoes `unwrap`. -/
theorem kwWrapLoop_kwUnwrapLoop (hED : ∀ b, E (D b) = b) (A : Semiblock) {R : List Semiblock}
    (hR : 0 < R.length) :
    (kwWrapLoop E (kwUnwrapLoop D A R).A (kwUnwrapLoop D A R).R).A = A ∧
      (kwWrapLoop E (kwUnwrapLoop D A R).A (kwUnwrapLoop D A R).R).R = R := by
  have hin : KwState.InRange R.length ⟨A, R, 0⟩ := ⟨rfl, hR⟩
  have hlen := length_kwUnwrapLoop (D := D) A hR
  have hredo := Undo.up_down inRange_kwUnwrapBack (kwWrapStep_kwUnwrapBack hED) (6 * R.length) hin
  have hr : (Undo.down (kwUnwrapBack D) (6 * R.length) ⟨A, R, 0⟩).r = 0 := by
    rw [r_down_kwUnwrapBack hin, Nat.zero_add, Nat.mul_right_comm, Nat.mul_mod_left]
  rw [kwWrapLoop, hlen, kwUnwrapLoop_eq A hR]
  generalize Undo.down (kwUnwrapBack D) (6 * R.length) ⟨A, R, 0⟩ = d at hr hredo
  have hstart : (⟨d.back.A, d.back.R, 0⟩ : KwState) = d := (eq_mk_of_r hr).symm
  rw [hstart, hredo]
  exact ⟨rfl, rfl⟩

/-! ## Bytes -/

/-- The bytes that the loop of `mbedtls_nist_kw_wrap` leaves. -/
def kwWrapBytes (E : CipherBlock → CipherBlock) (A : Semiblock) (P : List UInt8) : List UInt8 :=
  (kwWrapLoop E A (toSemiblocks P)).A.toList ++ ofSemiblocks (kwWrapLoop E A (toSemiblocks P)).R

theorem length_kwWrapBytes (A : Semiblock) {P : List UInt8} (hmod : P.length % 8 = 0)
    (hlen : 16 ≤ P.length) : (kwWrapBytes E A P).length = P.length + 8 := by
  have hsemi := length_toSemiblocks hmod
  rw [kwWrapBytes, List.length_append, Vector.length_toList, length_ofSemiblocks,
    length_kwWrapLoop A (by omega), hsemi, Nat.add_comm]

/-- The first semiblock of a buffer and the others. -/
theorem exists_toSemiblocks {c : List UInt8} (hmod : c.length % 8 = 0) (hlen : 8 ≤ c.length) :
    ∃ A R, toSemiblocks c = A :: R ∧ c = A.toList ++ ofSemiblocks R ∧ 8 * R.length + 8 = c.length := by
  have hsemi := length_toSemiblocks hmod
  have hbytes := ofSemiblocks_toSemiblocks hmod
  generalize toSemiblocks c = blocks at hsemi hbytes
  rcases blocks with _ | ⟨A, R⟩
  · rw [List.length_nil] at hsemi
    omega
  · refine ⟨A, R, rfl, ?_, ?_⟩
    · rw [← hbytes, ofSemiblocks_cons]
    · rw [← hsemi, List.length_cons]
      omega

/-- `unwrap` takes apart exactly what the loop of `mbedtls_nist_kw_wrap` put together. -/
theorem kwUnwrap_eq_ok_iff (hED : ∀ b, E (D b) = b) (hDE : ∀ b, D (E b) = b) {c : List UInt8}
    (hmod : c.length % 8 = 0) (A : Semiblock) (P : List UInt8) :
    kwUnwrap D c (c.length / 8) = .ok (A, P) ↔
      P.length % 8 = 0 ∧ 16 ≤ P.length ∧ kwWrapBytes E A P = c := by
  unfold kwUnwrap
  constructor
  · intro h
    split_ifs at h with hshort
    obtain ⟨B, R, hsemi, hc, hlen⟩ := exists_toSemiblocks hmod (by omega)
    have hpos : 0 < R.length := by omega
    obtain ⟨hA, hR⟩ := Prod.mk.inj (Except.ok.inj h)
    rw [hsemi, List.getD_cons_zero, List.drop_one, List.tail_cons] at hA hR
    have hRlen := length_kwUnwrapLoop (D := D) B hpos
    obtain ⟨hB, hR'⟩ := kwWrapLoop_kwUnwrapLoop hED B hpos
    refine ⟨?_, ?_, ?_⟩
    · rw [← hR, length_ofSemiblocks]
      omega
    · rw [← hR, length_ofSemiblocks, hRlen]
      omega
    · rw [kwWrapBytes, ← hA, ← hR, toSemiblocks_ofSemiblocks, hB, hR', ← hc]
  · rintro ⟨hP, hlen, rfl⟩
    have hsemi := length_toSemiblocks hP
    have hpos : 0 < (toSemiblocks P).length := by omega
    have hout := length_kwWrapBytes (E := E) A hP hlen
    obtain ⟨hA, hR⟩ := kwUnwrapLoop_kwWrapLoop hDE A hpos
    have hblocks : toSemiblocks (kwWrapBytes E A P) =
        (kwWrapLoop E A (toSemiblocks P)).A :: (kwWrapLoop E A (toSemiblocks P)).R := by
      rw [kwWrapBytes, toSemiblocks_append, toSemiblocks_ofSemiblocks]
    rw [if_neg (by omega)]
    dsimp only
    rw [hblocks, List.getD_cons_zero, List.drop_one, List.tail_cons, hA, hR,
      ofSemiblocks_toSemiblocks hP]

/-! ## Comparison -/

theorem foldl_or_eq_zero_iff (l : List UInt8) (b : UInt8) :
    l.foldl (· ||| ·) b = 0 ↔ b = 0 ∧ ∀ x ∈ l, x = 0 := by
  induction l generalizing b with
  | nil => simp
  | cons x l ih =>
    rw [List.foldl_cons, ih, UInt8.or_eq_zero_iff, List.forall_mem_cons, and_assoc]

theorem mbedtlsNistKwSaferMemcmp_eq_zero_iff {a b : List UInt8} (h : a.length = b.length) :
    mbedtlsNistKwSaferMemcmp a b = 0 ↔ a = b := by
  rw [mbedtlsNistKwSaferMemcmp, foldl_or_eq_zero_iff]
  induction a generalizing b with
  | nil =>
    rw [List.length_nil] at h
    rw [List.eq_nil_of_length_eq_zero h.symm]
    simp
  | cons x a ih =>
    rcases b with _ | ⟨y, b⟩
    · simp at h
    · have htail := ih (b := b) (by simpa using h)
      rw [List.zipWith_cons_cons, List.forall_mem_cons, List.cons.injEq, UInt8.xor_eq_zero_iff]
      rw [and_iff_right rfl] at htail ⊢
      rw [htail]

/-! ## Acceptance -/

section Acceptance

variable (hED : ∀ b, E (D b) = b) (hDE : ∀ b, D (E b) = b) {c p : List UInt8} {outSize : ℕ}

/-- When KW makes `c` out of `p`. -/
theorem mbedtlsNistKwWrap_kw_iff (hc : c.length < 2 ^ 32) :
    mbedtlsNistKwWrap E .kw p c.length = .ok c ↔
      p.length % 8 = 0 ∧ 16 ≤ p.length ∧ kwWrapBytes E nistKwIcv1 p = c := by
  unfold mbedtlsNistKwWrap
  dsimp only
  constructor
  · intro h
    split_ifs at h with _ hlen
    exact ⟨by omega, by omega, Except.ok.inj h⟩
  · rintro ⟨hmod, hlen, rfl⟩
    have hout := length_kwWrapBytes (E := E) nistKwIcv1 hmod hlen
    rw [if_neg (by omega), if_neg (by omega)]
    rfl

include hED hDE in
theorem mbedtlsNistKwUnwrap_kw_iff (hc : c.length < 2 ^ 32) (hsize : c.length ≤ outSize + 8) :
    mbedtlsNistKwUnwrap D .kw c outSize = .ok p ↔
      p.length % 8 = 0 ∧ 16 ≤ p.length ∧ kwWrapBytes E nistKwIcv1 p = c := by
  unfold mbedtlsNistKwUnwrap
  dsimp only
  by_cases hlen : c.length < 24 ∨ c.length % 8 ≠ 0
  · -- too short, or not of whole semiblocks: nothing is made like that
    refine iff_of_false ?_ ?_
    · rw [if_pos hlen]
      split_ifs <;> simp
    · rintro ⟨hmod, h16, rfl⟩
      have hout := length_kwWrapBytes (E := E) nistKwIcv1 hmod h16
      omega
  · rw [if_neg (by omega), if_neg hlen]
    have hmod : c.length % 8 = 0 := by omega
    have hiff := kwUnwrap_eq_ok_iff hED hDE hmod
    rcases hr : kwUnwrap D c (c.length / 8) with e | ⟨A, P⟩
    · refine iff_of_false (by simp [bind, Except.bind]) ?_
      intro h
      have hok := (hiff nistKwIcv1 p).2 h
      rw [hr] at hok
      exact absurd hok (by simp)
    · have hA := (hiff A P).1 hr
      have hcmp := mbedtlsNistKwSaferMemcmp_eq_zero_iff (a := nistKwIcv1.toList) (b := A.toList)
        (by rw [Vector.length_toList, Vector.length_toList])
      show (if mbedtlsNistKwSaferMemcmp nistKwIcv1.toList A.toList ≠ 0 then
        Except.error CipherError.authFailed else Except.ok P) = Except.ok p ↔ _
      rw [← hiff nistKwIcv1 p, hr, Except.ok.injEq, Prod.mk.injEq]
      by_cases hicv : A = nistKwIcv1
      · rw [if_neg (not_not.2 (hcmp.2 (by rw [hicv]))), Except.ok.injEq, and_iff_right hicv]
      · have hne : mbedtlsNistKwSaferMemcmp nistKwIcv1.toList A.toList ≠ 0 := fun h =>
          hicv (Vector.toList_inj.1 (hcmp.1 h)).symm
        rw [if_pos hne]
        exact iff_of_false (by simp) fun h => hicv h.1

/-- The zeros behind a plaintext in KWP. -/
def kwpPadlen (n : ℕ) : ℕ := if n % 8 ≠ 0 then 8 - n % 8 else 0

theorem kwpPadlen_spec (n : ℕ) : (n + kwpPadlen n) % 8 = 0 ∧ kwpPadlen n < 8 := by
  unfold kwpPadlen
  split_ifs <;> omega

theorem toList_semiblock (A : Semiblock) :
    A.toList = [A[0], A[1], A[2], A[3], A[4], A[5], A[6], A[7]] := by
  conv_lhs => rw [← eta_semiblock A]
  rfl

/-- The header that KWP accepts. -/
theorem kwpHeader_iff (A : Semiblock) {n : ℕ} (hn : n < 2 ^ 32) :
    A = kwpHeader n ↔
      A.toList.take 4 = [0xA6, 0x59, 0x59, 0xA6] ∧ getbe32 (Mem.ofList A.toList 0) 4 = n := by
  have hget : getbe32 (Mem.ofList A.toList 0) 4 = 0x10000 * (256 * A[4].toNat + A[5].toNat) +
      (256 * A[6].toNat + A[7].toNat) := by
    rw [toList_semiblock]
    rfl
  have h4 := A[4].toNat_lt
  have h5 := A[5].toNat_lt
  have h6 := A[6].toNat_lt
  have h7 := A[7].toNat_lt
  have hbyte : ∀ (b : UInt8) (k : ℕ), b.toNat = k % 256 → b = .ofNat k := by
    intro b k hb
    rw [← UInt8.toNat_inj, UInt8.toNat_ofNat', hb]
  constructor
  · rintro rfl
    refine ⟨rfl, ?_⟩
    rw [hget]
    show 0x10000 * (256 * (UInt8.ofNat (n / 2 ^ 24)).toNat + (UInt8.ofNat (n / 2 ^ 16)).toNat) +
      (256 * (UInt8.ofNat (n / 2 ^ 8)).toNat + (UInt8.ofNat n).toNat) = n
    simp only [UInt8.toNat_ofNat']
    omega
  · rintro ⟨hicv, hlen⟩
    rw [hget] at hlen
    rw [toList_semiblock, List.take_succ_cons, List.take_succ_cons, List.take_succ_cons,
      List.take_succ_cons, List.take_zero] at hicv
    obtain ⟨h0, h1, h2, h3⟩ : A[0] = 0xA6 ∧ A[1] = 0x59 ∧ A[2] = 0x59 ∧ A[3] = 0xA6 := by
      simpa using hicv
    rw [← eta_semiblock A, h0, h1, h2, h3, kwpHeader, hbyte A[4] (n / 2 ^ 24) (by omega),
      hbyte A[5] (n / 2 ^ 16) (by omega), hbyte A[6] (n / 2 ^ 8) (by omega), hbyte A[7] n (by omega)]

theorem getbe32_semiblock_lt (A : Semiblock) : getbe32 (Mem.ofList A.toList 0) 4 < 2 ^ 32 := by
  have hbyte := fun i => (Mem.ofList A.toList 0 i).toNat_lt
  have h4 := hbyte 4
  have h5 := hbyte 5
  have h6 := hbyte 6
  have h7 := hbyte 7
  show 0x10000 * (256 * (Mem.ofList A.toList 0 4).toNat + (Mem.ofList A.toList 0 5).toNat) +
    (256 * (Mem.ofList A.toList 0 6).toNat + (Mem.ofList A.toList 0 7).toNat) < 2 ^ 32
  omega

/-- The three checks of KWP in turn. -/
theorem kwpCheck_eq_ok_iff_checks {inLen : ℕ} (hlen : 16 ≤ inLen) (hlt : inLen < 2 ^ 32)
    (A : Semiblock) {output : List UInt8} (hout : output.length = inLen - 8) :
    kwpCheck inLen A output = .ok p ↔
      A.toList.take 4 = [0xA6, 0x59, 0x59, 0xA6] ∧
        (∃ n, getbe32 (Mem.ofList A.toList 0) 4 = n ∧ n ≤ inLen - 8 ∧ inLen - 8 ≤ n + 7 ∧
          (∀ x ∈ output.drop n, x = 0) ∧ output.take n = p) := by
  have hPlen := getbe32_semiblock_lt A
  have hcmp := mbedtlsNistKwSaferMemcmp_eq_zero_iff (a := [0xA6, 0x59, 0x59, 0xA6])
    (b := A.toList.take 4) (by rw [List.length_take, Vector.length_toList]; rfl)
  unfold kwpCheck
  dsimp only
  generalize getbe32 (Mem.ofList A.toList 0) 4 = n at hPlen ⊢
  by_cases hlong : 7 < (inLen - 8 + 2 ^ 32 - n) % 2 ^ 32
  · rw [if_pos (Or.inr (Or.inl hlong))]
    refine iff_of_false (by simp) ?_
    rintro ⟨-, k, rfl, h₁, h₂, -⟩
    omega
  · have hpad : (inLen - 8 + 2 ^ 32 - n) % 2 ^ 32 = inLen - 8 - n := by omega
    have hzero : ((output.drop (output.length - 8)).drop (8 - (inLen - 8 - n))).foldl (· ||| ·) 0 = 0 ↔
        ∀ x ∈ output.drop n, x = 0 := by
      have hdrop : output.length - 8 + (8 - (inLen - 8 - n)) = n := by omega
      rw [foldl_or_eq_zero_iff, List.drop_drop, hdrop]
      exact and_iff_right rfl
    rw [if_neg hlong, hpad]
    by_cases hbad : mbedtlsNistKwSaferMemcmp [0xA6, 0x59, 0x59, 0xA6] (A.toList.take 4) ≠ 0 ∨
        7 < inLen - 8 - n ∨
        ((output.drop (output.length - 8)).drop (8 - (inLen - 8 - n))).foldl (· ||| ·) 0 ≠ 0
    · rw [if_pos hbad]
      refine iff_of_false (by simp) ?_
      rintro ⟨hicv, k, rfl, -, -, hpadding, -⟩
      rcases hbad with hb | hb | hb
      · exact hb (hcmp.2 hicv.symm)
      · omega
      · exact hb (hzero.2 hpadding)
    · rw [if_neg hbad, Except.ok.injEq]
      rw [not_or, not_or, not_not, not_not, hcmp, hzero] at hbad
      constructor
      · intro hp
        exact ⟨hbad.1.symm, n, rfl, by omega, by omega, hbad.2.2, hp⟩
      · rintro ⟨-, k, rfl, -, -, -, hp⟩
        exact hp

/-- The checks of KWP accept exactly a padded plaintext behind its header. -/
theorem kwpCheck_eq_ok_iff {inLen : ℕ} (hlen : 16 ≤ inLen) (hmod : inLen % 8 = 0)
    (hlt : inLen < 2 ^ 32) (A : Semiblock) {output : List UInt8} (hout : output.length = inLen - 8) :
    kwpCheck inLen A output = .ok p ↔
      A = kwpHeader p.length ∧ output = p ++ List.replicate (kwpPadlen p.length) 0 := by
  rw [kwpCheck_eq_ok_iff_checks hlen hlt A hout]
  constructor
  · rintro ⟨hicv, n, hn, h₁, h₂, hzero, rfl⟩
    have hplen : (output.take n).length = n := List.length_take_of_le (by omega)
    have hpad : kwpPadlen n = inLen - 8 - n := by
      unfold kwpPadlen
      split_ifs <;> omega
    have hdrop : output.drop n = List.replicate (inLen - 8 - n) 0 :=
      List.eq_replicate_iff.2 ⟨by rw [List.length_drop]; omega, hzero⟩
    rw [hplen, hpad, ← hdrop, List.take_append_drop]
    exact ⟨(kwpHeader_iff A (by omega)).2 ⟨hicv, hn⟩, rfl⟩
  · rintro ⟨hA, rfl⟩
    obtain ⟨hround, hsmall⟩ := kwpPadlen_spec p.length
    rw [List.length_append, List.length_replicate] at hout
    obtain ⟨hicv, hn⟩ := (kwpHeader_iff A (by omega)).1 hA
    refine ⟨hicv, p.length, hn, by omega, by omega, ?_, List.take_left⟩
    rw [List.drop_left]
    exact fun x hx => List.eq_of_mem_replicate hx

/-- The plaintext with its padding. -/
def kwpString (p : List UInt8) : List UInt8 := p ++ List.replicate (kwpPadlen p.length) 0

theorem length_kwpString (p : List UInt8) :
    (kwpString p).length = p.length + kwpPadlen p.length := by
  rw [kwpString, List.length_append, List.length_replicate]

/-- What KWP makes out of `p`: one block by itself, or the loop. -/
def kwpBytes (E : CipherBlock → CipherBlock) (p : List UInt8) : List UInt8 :=
  if p.length ≤ 8 then
    (E (joinBlock (kwpHeader p.length)
      ((toSemiblocks (kwpString p)).getD 0 (Vector.replicate 8 0)))).toList
  else kwWrapBytes E (kwpHeader p.length) (kwpString p)

theorem length_kwpBytes (hp : 1 ≤ p.length) :
    (kwpBytes E p).length = p.length + kwpPadlen p.length + 8 := by
  obtain ⟨hround, hsmall⟩ := kwpPadlen_spec p.length
  have hlen := length_kwpString p
  unfold kwpBytes
  split_ifs with h
  · rw [Vector.length_toList]
    omega
  · rw [length_kwWrapBytes _ (by omega) (by omega), hlen]

/-- When KWP makes `c` out of `p`. -/
theorem mbedtlsNistKwWrap_kwp_iff (hc : c.length < 2 ^ 32) :
    mbedtlsNistKwWrap E .kwp p c.length = .ok c ↔ 1 ≤ p.length ∧ kwpBytes E p = c := by
  obtain ⟨hround, hsmall⟩ := kwpPadlen_spec p.length
  have hpad : (if p.length % 8 ≠ 0 then 8 - p.length % 8 else 0) = kwpPadlen p.length := rfl
  unfold mbedtlsNistKwWrap
  dsimp only
  rw [hpad]
  constructor
  · intro h
    unfold kwpBytes
    split_ifs at h ⊢ with _ hpos hone hfew
    · exact ⟨by omega, Except.ok.inj h⟩
    · exact ⟨by omega, Except.ok.inj h⟩
  · rintro ⟨hp, rfl⟩
    have hout := length_kwpBytes (E := E) hp
    rw [if_neg (by omega), if_neg (by omega)]
    unfold kwpBytes
    split_ifs with hone hfew
    · rfl
    · omega
    · rfl

include hED hDE in
/-- One block: deciphered and checked. -/
theorem kwp_one_block_iff (B₀ B₁ : Semiblock) :
    kwpCheck 16 (msb64 (D (joinBlock B₀ B₁))) (lsb64 (D (joinBlock B₀ B₁))).toList = .ok p ↔
      1 ≤ p.length ∧ kwpBytes E p = (joinBlock B₀ B₁).toList := by
  obtain ⟨hround, hsmall⟩ := kwpPadlen_spec p.length
  have hstring := length_kwpString p
  rw [kwpCheck_eq_ok_iff (by decide) (by decide) (by decide) _ (Vector.length_toList ..)]
  constructor
  · rintro ⟨hA, hR⟩
    have hR' : (lsb64 (D (joinBlock B₀ B₁))).toList = kwpString p := hR
    have hlen := congrArg List.length hR'
    rw [Vector.length_toList] at hlen
    have hsemi := toSemiblocks_append (lsb64 (D (joinBlock B₀ B₁))) []
    rw [List.append_nil, hR'] at hsemi
    refine ⟨by omega, ?_⟩
    rw [kwpBytes, if_pos (by omega), hsemi, List.getD_cons_zero, ← hA, joinBlock_msb64_lsb64, hED]
  · rintro ⟨hp, hbytes⟩
    have hout := length_kwpBytes (E := E) hp
    rw [hbytes, Vector.length_toList] at hout
    rw [kwpBytes, if_pos (by omega), Vector.toList_inj] at hbytes
    obtain ⟨R, S, hsemi, heq, hS⟩ := exists_toSemiblocks (c := kwpString p) (by omega) (by omega)
    have hnil : S = [] := List.eq_nil_of_length_eq_zero (by omega)
    rw [hnil] at heq
    rw [hsemi, List.getD_cons_zero] at hbytes
    rw [← hbytes, hDE, msb64_joinBlock, lsb64_joinBlock]
    refine ⟨rfl, ?_⟩
    show R.toList = kwpString p
    rw [heq]
    exact (List.append_nil _).symm

include hED hDE in
theorem mbedtlsNistKwUnwrap_kwp_iff (hc : c.length < 2 ^ 32) (hsize : c.length ≤ outSize + 8) :
    mbedtlsNistKwUnwrap D .kwp c outSize = .ok p ↔ 1 ≤ p.length ∧ kwpBytes E p = c := by
  obtain ⟨hround, hsmall⟩ := kwpPadlen_spec p.length
  have hstring := length_kwpString p
  unfold mbedtlsNistKwUnwrap
  dsimp only
  by_cases hlen : c.length < 16 ∨ c.length % 8 ≠ 0
  · refine iff_of_false ?_ ?_
    · rw [if_pos hlen]
      split_ifs <;> simp
    · rintro ⟨hp, rfl⟩
      have hout := length_kwpBytes (E := E) hp
      omega
  · rw [if_neg (by omega), if_neg hlen]
    by_cases hone : c.length = 16
    · obtain ⟨B₀, R, hsemi, heq, hR⟩ := exists_toSemiblocks (c := c) (by omega) (by omega)
      obtain ⟨B₁, rfl⟩ := List.length_eq_one_iff.1 (show R.length = 1 by omega)
      have hbytes : (joinBlock B₀ B₁).toList = c := by
        rw [heq, joinBlock, Vector.toList_append]
        exact congrArg (B₀.toList ++ ·) (List.append_nil _).symm
      rw [if_pos hone, hone, hsemi, ← hbytes]
      exact kwp_one_block_iff hED hDE B₀ B₁
    · rw [if_neg hone]
      have hmod : c.length % 8 = 0 := by omega
      have hiff := kwUnwrap_eq_ok_iff hED hDE hmod
      -- `kwpBytes` for a plaintext of more than one semiblock
      have hmany : 1 ≤ p.length ∧ kwpBytes E p = c ↔
          kwUnwrap D c (c.length / 8) = .ok (kwpHeader p.length, kwpString p) := by
        rw [hiff]
        constructor
        · rintro ⟨hp, rfl⟩
          have hout := length_kwpBytes (E := E) hp
          refine ⟨by omega, by omega, ?_⟩
          rw [kwpBytes, if_neg (by omega)]
        · rintro ⟨_, h16, h⟩
          refine ⟨by omega, ?_⟩
          rw [kwpBytes, if_neg (by omega), h]
      rw [hmany]
      rcases hr : kwUnwrap D c (c.length / 8) with e | ⟨A, P⟩
      · exact iff_of_false (by simp [bind, Except.bind]) (by simp)
      · obtain ⟨hP, h16, hbytes⟩ := (hiff A P).1 hr
        have hout := length_kwWrapBytes (E := E) A hP h16
        rw [hbytes] at hout
        rw [Except.ok.injEq, Prod.mk.injEq]
        show kwpCheck c.length A P = .ok p ↔ _
        exact kwpCheck_eq_ok_iff (by omega) hmod hc A (by omega)

/-- `mbedtls_nist_kw_unwrap` accepts exactly what `mbedtls_nist_kw_wrap` makes in the same mode, and
returns what it was made from. -/
theorem mbedtlsNistKwUnwrap_eq_ok_iff (hED : ∀ b, E (D b) = b) (hDE : ∀ b, D (E b) = b)
    (mode : KwMode) {c p : List UInt8} {outSize : ℕ} (hc : c.length < 2 ^ 32)
    (hsize : c.length ≤ outSize + 8) :
    mbedtlsNistKwUnwrap D mode c outSize = .ok p ↔ mbedtlsNistKwWrap E mode p c.length = .ok c := by
  cases mode with
  | kw => rw [mbedtlsNistKwUnwrap_kw_iff hED hDE hc hsize, mbedtlsNistKwWrap_kw_iff hc]
  | kwp => rw [mbedtlsNistKwUnwrap_kwp_iff hED hDE hc hsize, mbedtlsNistKwWrap_kwp_iff hc]

/-- A cipher that adds a constant to every byte and reverses the block. -/
def reverseXor (b : CipherBlock) : CipherBlock := (b.map (· ^^^ 0x5A)).reverse

theorem reverseXor_reverseXor (b : CipherBlock) : reverseXor (reverseXor b) = b := by
  unfold reverseXor
  rw [Vector.map_reverse, Vector.reverse_reverse]
  apply Vector.ext
  intro i hi
  rw [Vector.getElem_map, Vector.getElem_map, UInt8.xor_assoc, UInt8.xor_self, UInt8.xor_zero]

/-- Eleven bytes, wrapped with padding. -/
theorem mbedtlsNistKwUnwrap_eq_ok_iff_xor :
    mbedtlsNistKwUnwrap reverseXor .kwp
        [0xA6, 0x59, 0x59, 0xA6, 0, 0, 0, 11, 9, 2, 3, 4, 5, 6, 7, 8, 13, 10, 11, 0, 0, 0, 0, 0] 0x200 =
      .ok [1, 2, 3, 4, 5, 6, 7, 8, 9, 10, 11] := by
  have hwrap : mbedtlsNistKwWrap reverseXor .kwp [1, 2, 3, 4, 5, 6, 7, 8, 9, 10, 11] 24 = .ok
      [0xA6, 0x59, 0x59, 0xA6, 0, 0, 0, 11, 9, 2, 3, 4, 5, 6, 7, 8, 13, 10, 11, 0, 0, 0, 0, 0] := by
    decide +kernel
  exact (mbedtlsNistKwUnwrap_eq_ok_iff reverseXor_reverseXor reverseXor_reverseXor .kwp (by decide)
    (by decide)).2 hwrap

end Acceptance

end DsiWifi
