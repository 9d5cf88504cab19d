import DsiWifi.Crypto.AesCipher
import Mathlib.Data.Finite.Prod

/-!
# The key schedule of AES

The loops of `mbedtls_aes_setkey_enc` append the words of the key expansion of FIPS 197, for each of
the three key sizes (`isKeySchedule_setkey`), and `mbedtls_aes_setkey_dec` turns them into the round
keys of the equivalent inverse cipher (`isInverseKey_inverse`).  So encryption is the cipher of FIPS 197
and decryption undoes it.
-/

namespace DsiWifi

/-! ## The reference -/

namespace Fips197

/-- A word: one byte for each row. -/
abbrev Word := Fin 4 → UInt8

def subWord (w : Word) : Word := fun r => sbox.getD (w r).toNat 0

def rotWord (w : Word) : Word := fun r => w (rot r 1)

/-- The round constants, from the first. -/
def rcon : List UInt8 := [0x01, 0x02, 0x04, 0x08, 0x10, 0x20, 0x40, 0x80, 0x1B, 0x36]

/-- What the previous word `t` becomes before it is added to make word `i`. -/
def temp (nk i : ℕ) (t : Word) : Word := fun r =>
  if i % nk = 0 then
    subWord (rotWord t) r ^^^ (if r.val = 0 then rcon.getD (i / nk - 1) 0 else 0)
  else if 6 < nk ∧ i % nk = 4 then subWord t r
  else t r

/-- `w` is the key expansion of the `nk` words of `key`, for `nr` rounds. -/
structure IsKeySchedule (nk nr : ℕ) (key : List UInt8) (w : ℕ → Word) : Prop where
  init : ∀ i < nk, ∀ r : Fin 4, w i r = key.getD (4 * i + r) 0
  step : ∀ i, nk ≤ i → i < 4 * (nr + 1) → ∀ r, w i r = w (i - nk) r ^^^ temp nk i (w (i - 1)) r

/-- Round key `i`: four words, one for each column. -/
def roundKey (w : ℕ → Word) (i : ℕ) : AesMatrix := fun r c => w (4 * i + c) r

end Fips197

/-! ## Words of the expansion -/

/-- What the loops add to word `i - nk` to make word `i`, the word of place `j` in group `g + 1`. -/
def nextWord (nk g j : ℕ) (t : UInt32) : UInt32 :=
  if j = 0 then .ofNat (aesRcon g) ^^^ subRotWord t
  else if 6 < nk ∧ j = 4 then subWord t
  else t

/-- Every word from the `nk`-th on is the one the expansion asks for. -/
def Scheduled (nk : ℕ) (rk : List UInt32) : Prop :=
  ∀ i, nk ≤ i → i < rk.length →
    rk.getD i 0 = rk.getD (i - nk) 0 ^^^ nextWord nk (i / nk - 1) (i % nk) (rk.getD (i - 1) 0)

/-- A round of the loop appends the next group of `nk` words. -/
def Expands (nk : ℕ) (expand : List UInt32 → ℕ → List UInt32) : Prop :=
  ∀ rk g, ∃ ws, expand rk g = rk ++ ws ∧ ws.length = nk ∧
    ws.getD 0 0 = rk.getD (nk * g) 0 ^^^ nextWord nk g 0 (rk.getD (nk * g + (nk - 1)) 0) ∧
    ∀ j, j + 1 < nk → ws.getD (j + 1) 0 =
      rk.getD (nk * g + (j + 1)) 0 ^^^ nextWord nk g (j + 1) (ws.getD j 0)

theorem expands_expandKey128 : Expands 4 expandKey128 := by
  intro rk g
  refine ⟨_, rfl, rfl, UInt32.xor_assoc .., ?_⟩
  intro j hj
  obtain rfl | rfl | rfl : j = 0 ∨ j = 1 ∨ j = 2 := by omega
  all_goals rfl

theorem expands_expandKey192 : Expands 6 expandKey192 := by
  intro rk g
  refine ⟨_, rfl, rfl, UInt32.xor_assoc .., ?_⟩
  intro j hj
  obtain rfl | rfl | rfl | rfl | rfl : j = 0 ∨ j = 1 ∨ j = 2 ∨ j = 3 ∨ j = 4 := by omega
  all_goals rfl

theorem expands_expandKey256 : Expands 8 expandKey256 := by
  intro rk g
  refine ⟨_, rfl, rfl, UInt32.xor_assoc .., ?_⟩
  intro j hj
  obtain rfl | rfl | rfl | rfl | rfl | rfl | rfl :
    j = 0 ∨ j = 1 ∨ j = 2 ∨ j = 3 ∨ j = 4 ∨ j = 5 ∨ j = 6 := by omega
  all_goals rfl

theorem getD_append_lt {α : Type} (l l' : List α) (d : α) {i : ℕ} (h : i < l.length) :
    (l ++ l').getD i d = l.getD i d := List.getD_append _ _ _ _ h

theorem getD_append_add {α : Type} (l l' : List α) (d : α) (i : ℕ) :
    (l ++ l').getD (l.length + i) d = l'.getD i d := by
  rw [List.getD_append_right _ _ _ _ (Nat.le_add_right ..), Nat.add_sub_cancel_left]

theorem Scheduled.expand {nk g : ℕ} {rk ws : List UInt32} (hnk : 0 < nk) (hs : Scheduled nk rk)
    (hlen : rk.length = nk * (g + 1)) (hws : ws.length = nk)
    (hzero : ws.getD 0 0 = rk.getD (nk * g) 0 ^^^ nextWord nk g 0 (rk.getD (nk * g + (nk - 1)) 0))
    (hsucc : ∀ j, j + 1 < nk → ws.getD (j + 1) 0 =
      rk.getD (nk * g + (j + 1)) 0 ^^^ nextWord nk g (j + 1) (ws.getD j 0)) :
    Scheduled nk (rk ++ ws) := by
  intro i hi hi'
  have hlen' : rk.length = nk * g + nk := by rw [hlen, Nat.mul_succ]
  rcases Nat.lt_or_ge i rk.length with hlt | hge
  · rw [getD_append_lt _ _ _ hlt, getD_append_lt _ _ _ (by omega), getD_append_lt _ _ _ (by omega)]
    exact hs i hi hlt
  · obtain ⟨j, rfl⟩ := Nat.exists_eq_add_of_le hge
    have hj : j < nk := by
      rw [List.length_append] at hi'
      omega
    have hdiv : (rk.length + j) / nk - 1 = g := by
      rw [hlen, Nat.mul_add_div hnk, Nat.div_eq_of_lt hj, Nat.add_zero, Nat.add_sub_cancel]
    have hmod : (rk.length + j) % nk = j := by
      rw [hlen, Nat.mul_add_mod, Nat.mod_eq_of_lt hj]
    rw [hdiv, hmod, getD_append_add, show rk.length + j - nk = nk * g + j by omega,
      getD_append_lt _ _ _ (by omega)]
    cases j with
    | zero =>
      rw [hzero, show rk.length + 0 - 1 = nk * g + (nk - 1) by omega, getD_append_lt _ _ _ (by omega)]
      rfl
    | succ j =>
      rw [hsucc j hj, show rk.length + (j + 1) - 1 = rk.length + j by omega, getD_append_add]

/-- What the loop leaves after `n` rounds. -/
theorem scheduled_foldl {nk : ℕ} {expand : List UInt32 → ℕ → List UInt32} (hnk : 0 < nk)
    (hexp : Expands nk expand) (rk : List UInt32) (hlen : rk.length = nk) (n : ℕ) :
    ∃ ws, (List.range n).foldl expand rk = rk ++ ws ∧ ws.length = nk * n ∧ Scheduled nk (rk ++ ws) := by
  induction n with
  | zero =>
    refine ⟨[], by rw [List.append_nil]; rfl, rfl, ?_⟩
    intro i hi hi'
    rw [List.append_nil] at hi'
    omega
  | succ n ih =>
    obtain ⟨ws, heq, hws, hs⟩ := ih
    obtain ⟨vs, heq', hvs, hzero, hsucc⟩ := hexp (rk ++ ws) n
    refine ⟨ws ++ vs, ?_, ?_, ?_⟩
    · rw [List.range_succ, List.foldl_append, heq, List.foldl_cons, List.foldl_nil, heq',
        List.append_assoc]
    · rw [List.length_append, hws, hvs, Nat.mul_succ]
    · rw [← List.append_assoc]
      refine hs.expand hnk ?_ hvs hzero hsucc
      rw [List.length_append, hlen, hws, Nat.mul_succ]
      omega

/-! ## Bytes of the words -/

theorem toNat_byteOf (w : UInt32) {k : ℕ} (hk : k < 4) :
    (byteOf w k).toNat = w.toNat / 2 ^ (8 * k) % 256 := by
  unfold byteOf
  obtain rfl | rfl | rfl | rfl : k = 0 ∨ k = 1 ∨ k = 2 ∨ k = 3 := by omega
  all_goals
    rw [UInt32.toNat_toUInt8, UInt32.toNat_shiftRight, Nat.shiftRight_eq_div_pow]
    rfl

/-- `GET_UINT32_LE` takes the bytes apart again. -/
theorem byteOf_getle32 (key : List UInt8) (i : ℕ) (r : Fin 4) :
    byteOf (.ofNat (getle32 (Mem.ofList key 0) (4 * i))) r = key.getD (4 * i + r) 0 := by
  have hb : ∀ j, (Mem.ofList key 0 j).toNat < 256 := fun j => UInt8.toNat_lt _
  have h0 := hb (4 * i)
  have h1 := hb (4 * i + 1)
  have h2 := hb (4 * i + 2)
  have h3 := hb (4 * i + 2 + 1)
  rw [← UInt8.toNat_inj, toNat_byteOf _ r.isLt, UInt32.toNat_ofNat']
  unfold getle32 getle16
  cases r using fin4_cases with
  | zero =>
    show _ = (Mem.ofList key 0 (4 * i)).toNat
    simp only [Fin.val_zero, Nat.mul_zero, Nat.pow_zero, Nat.div_one]
    omega
  | one =>
    show _ = (Mem.ofList key 0 (4 * i + 1)).toNat
    simp only [Fin.val_one, Nat.mul_one]
    omega
  | two =>
    show _ = (Mem.ofList key 0 (4 * i + 2)).toNat
    simp only [Fin.val_two]
    omega
  | three =>
    show _ = (Mem.ofList key 0 (4 * i + 2 + 1)).toNat
    simp only [val_three]
    omega

/-- The bytes of a word as FIPS 197 has them. -/
def wordOf (w : UInt32) : Fips197.Word := fun r => byteOf w r

theorem wordOf_subWord (w : UInt32) : wordOf (subWord w) = Fips197.subWord (wordOf w) := by
  funext r
  have hbyte : wordOf (subWord w) r = fSb (byteOf w r) := byteOf_sub4 aesFSb (fun _ => w) r
  rw [hbyte, fSb_eq_sbox]
  rfl

theorem wordOf_subRotWord (w : UInt32) :
    wordOf (subRotWord w) = Fips197.subWord (Fips197.rotWord (wordOf w)) := by
  funext r
  obtain ⟨h0, h1, h2, h3⟩ := byteOf_packWord (fSb (byteOf w 1)) (fSb (byteOf w 2)) (fSb (byteOf w 3))
    (fSb (byteOf w 0))
  have hbyte : wordOf (subRotWord w) r = fSb (byteOf w (rot r 1)) := by
    cases r using fin4_cases
    exacts [h0, h1, h2, h3]
  rw [hbyte, fSb_eq_sbox]
  rfl

theorem wordOf_aesRcon {g : ℕ} (hg : g < 10) (r : Fin 4) :
    wordOf (.ofNat (aesRcon g)) r = if r.val = 0 then Fips197.rcon.getD g 0 else 0 := by
  have hall : ∀ g < 10, ∀ r : Fin 4,
      wordOf (.ofNat (aesRcon g)) r = if r.val = 0 then Fips197.rcon.getD g 0 else 0 := by decide
  exact hall g hg r

theorem wordOf_nextWord {nk i : ℕ} (hi : i / nk ≤ 10) (hi' : 1 ≤ i / nk) (t : UInt32) :
    wordOf (nextWord nk (i / nk - 1) (i % nk) t) = Fips197.temp nk i (wordOf t) := by
  funext r
  unfold nextWord Fips197.temp
  split
  · have hrcon := wordOf_aesRcon (g := i / nk - 1) (by omega) r
    have hxor : wordOf (.ofNat (aesRcon (i / nk - 1)) ^^^ subRotWord t) r =
        wordOf (.ofNat (aesRcon (i / nk - 1))) r ^^^ wordOf (subRotWord t) r := byteOf_xor _ _ r.isLt
    rw [hxor, hrcon, wordOf_subRotWord, UInt8.xor_comm]
  · split
    · rw [wordOf_subWord]
    · rfl

/-- The words of a context. -/
def AesContext.word (ctx : AesContext) (i : ℕ) : Fips197.Word := wordOf (ctx.rk.getD i 0)

theorem keyMatrix_eq (ctx : AesContext) : keyMatrix ctx.rk = Fips197.roundKey ctx.word := by
  funext i r c
  have hcol : (roundKey ctx.rk (4 * i)).col c = ctx.rk.getD (4 * i + c) 0 := by
    cases c using fin4_cases <;> rfl
  unfold keyMatrix AesState.mat
  rw [hcol]
  rfl

/-- The key sizes, in words: 128, 192 and 256 bits. -/
def KeySize (nk : ℕ) : Prop := nk = 4 ∨ nk = 6 ∨ nk = 8

theorem length_keyWords (key : List UInt8) (n : ℕ) : (keyWords key n).length = n := by
  rw [keyWords, List.length_map, List.length_range]

/-- `mbedtls_aes_setkey_enc` is the key expansion. -/
theorem isKeySchedule_setkey {nk : ℕ} (hnk : KeySize nk) (key : List UInt8) :
    ∃ ctx, mbedtlsAesSetkeyEnc key (32 * nk) = some ctx ∧ ctx.nr = nk + 6 ∧
      Fips197.IsKeySchedule nk (nk + 6) key ctx.word := by
  have hinit : ∀ ws i, i < nk → ∀ r : Fin 4,
      byteOf ((keyWords key nk ++ ws).getD i 0) r = key.getD (4 * i + r) 0 := by
    intro ws i hi r
    rw [getD_append_lt _ _ _ (by rwa [length_keyWords]), List.getD_eq_getElem?_getD, keyWords,
      List.getElem?_map, List.getElem?_range hi, Option.map_some, Option.getD_some, byteOf_getle32]
  -- the last word that is needed belongs to group 10 at most
  have hschedule : ∀ n ws, Scheduled nk (keyWords key nk ++ ws) → ws.length = nk * n →
      4 * (nk + 7) ≤ nk * (n + 1) → 4 * (nk + 7) ≤ 11 * nk →
      Fips197.IsKeySchedule nk (nk + 6) key (AesContext.word ⟨nk + 6, keyWords key nk ++ ws⟩) := by
    intro n ws hs hws hfit hten
    have hpos : 0 < nk := by
      rcases hnk with h | h | h <;> omega
    refine ⟨hinit ws, ?_⟩
    intro i hi hi' r
    have hlen : i < (keyWords key nk ++ ws).length := by
      have hmul : nk * (n + 1) = nk * n + nk := Nat.mul_succ ..
      rw [List.length_append, length_keyWords, hws]
      omega
    have hdiv : i / nk < 11 := Nat.div_lt_of_lt_mul (by rw [Nat.mul_comm]; omega)
    have hdiv' : 1 ≤ i / nk := (Nat.one_le_div_iff hpos).2 hi
    show byteOf ((keyWords key nk ++ ws).getD i 0) r = _
    rw [hs i hi hlen, byteOf_xor _ _ r.isLt]
    exact congrArg _ (congrFun (wordOf_nextWord (by omega) hdiv' _) r)
  rcases hnk with rfl | rfl | rfl
  · obtain ⟨ws, heq, hws, hs⟩ :=
      scheduled_foldl (by decide) expands_expandKey128 (keyWords key 4) (length_keyWords ..) 10
    refine ⟨⟨10, keyWords key 4 ++ ws⟩, ?_, rfl, hschedule 10 ws hs hws (by decide) (by decide)⟩
    rw [← heq]
    rfl
  · obtain ⟨ws, heq, hws, hs⟩ :=
      scheduled_foldl (by decide) expands_expandKey192 (keyWords key 6) (length_keyWords ..) 8
    refine ⟨⟨12, keyWords key 6 ++ ws⟩, ?_, rfl, hschedule 8 ws hs hws (by decide) (by decide)⟩
    rw [← heq]
    rfl
  · obtain ⟨ws, heq, hws, hs⟩ :=
      scheduled_foldl (by decide) expands_expandKey256 (keyWords key 8) (length_keyWords ..) 7
    refine ⟨⟨14, keyWords key 8 ++ ws⟩, ?_, rfl, hschedule 7 ws hs hws (by decide) (by decide)⟩
    rw [← heq]
    rfl

/-! ## Round keys for decryption -/

theorem byteOf_subWord (w : UInt32) (r : Fin 4) : byteOf (subWord w) r = fSb (byteOf w r) :=
  byteOf_sub4 aesFSb (fun _ => w) r

/-- The word for decryption is a row of table entries for the word after the S-box. -/
theorem invKeyWord_eq (w : UInt32) :
    invKeyWord w = lookup4 aesRT0 aesRT1 aesRT2 aesRT3 (subWord w) (subWord w) (subWord w)
      (subWord w) := by
  have h0 : byteOf (subWord w) 0 = fSb (byteOf w 0) := byteOf_subWord w 0
  have h1 : byteOf (subWord w) 1 = fSb (byteOf w 1) := byteOf_subWord w 1
  have h2 : byteOf (subWord w) 2 = fSb (byteOf w 2) := byteOf_subWord w 2
  have h3 : byteOf (subWord w) 3 = fSb (byteOf w 3) := byteOf_subWord w 3
  rw [lookup4, h0, h1, h2, h3]
  rfl

/-- A word of a round key for decryption has its columns mixed back. -/
theorem byteOf_invKeyWord (s : AesState) (r c : Fin 4) :
    byteOf (invKeyWord (s.col c)) r = Fips197.invMixColumns s.mat r c := by
  have hentry : ∀ j r : Fin 4, byteOf (aesRT0.get (byteOf (subWord (s.col c)) j).toFin) r =
      inverseColumn r (s.mat j c) := by
    intro j r
    rw [byteOf_aesRT0, byteOf_subWord, rSb_fSb]
    rfl
  rw [invKeyWord_eq, aesRT3, aesRT2, aesRT1, byteOf_lookup4, ← circulant_inverseColumn, circulant,
    ← hentry 0, ← hentry 1, ← hentry 2, ← hentry 3]
  rfl

/-- `f` on every word. -/
def AesState.map (f : UInt32 → UInt32) (s : AesState) : AesState := ⟨f s.x0, f s.x1, f s.x2, f s.x3⟩

theorem mat_map_invKeyWord (s : AesState) : (s.map invKeyWord).mat = Fips197.invMixColumns s.mat := by
  funext r c
  have hcol : (s.map invKeyWord).col c = invKeyWord (s.col c) := by cases c using fin4_cases <;> rfl
  rw [← byteOf_invKeyWord, ← hcol]
  rfl

/-- The keys of the rounds in between, backwards. -/
theorem roundKey_invertKeys (sk l : List UInt32) (n i : ℕ) (hi : i < n) :
    roundKey (invertKeys sk n ++ l) (4 * i) = (roundKey sk (4 * (n - i))).map invKeyWord := by
  induction n generalizing i with
  | zero => omega
  | succ n ih =>
    cases i with
    | zero => rfl
    | succ i =>
      rw [Nat.add_sub_add_right, ← ih i (by omega)]
      rfl

theorem roundKey_invertKeys_end (sk l : List UInt32) (n : ℕ) :
    roundKey (invertKeys sk n ++ l) (4 * n) = roundKey l 0 := by
  induction n with
  | zero => rfl
  | succ n ih =>
    rw [← ih]
    rfl

/-- `mbedtls_aes_setkey_dec` makes the round keys of the equivalent inverse cipher. -/
theorem isInverseKey_inverse (cty : AesContext) (hnr : 1 ≤ cty.nr) :
    IsInverseKey cty.nr (keyMatrix cty.rk) (keyMatrix cty.inverse.rk) := by
  obtain ⟨nr, sk⟩ := cty
  obtain ⟨n, rfl⟩ : ∃ n, nr = n + 1 := Nat.exists_eq_add_of_le' hnr
  unfold AesContext.inverse
  dsimp only
  rw [Nat.add_sub_cancel, List.append_assoc]
  refine ⟨rfl, ?_, ?_⟩
  · exact congrArg AesState.mat (roundKey_invertKeys_end sk (keyGroup sk 0) n)
  · intro i hi hi'
    obtain ⟨i, rfl⟩ := Nat.exists_eq_add_of_le' hi
    have hkey := roundKey_invertKeys sk (keyGroup sk 0) n i (by omega)
    rw [Nat.add_sub_add_right, keyMatrix, keyMatrix, ← mat_map_invKeyWord, ← hkey]
    rfl

/-! ## The whole cipher -/

theorem keySize_even {nk : ℕ} (hnk : KeySize nk) : ∃ m, nk + 6 = 2 * (m + 1) := by
  rcases hnk with rfl | rfl | rfl
  exacts [⟨4, rfl⟩, ⟨5, rfl⟩, ⟨6, rfl⟩]

/-- A block as the state of FIPS 197. -/
def blockMatrix (b : CipherBlock) : AesMatrix := fun r c => b.get (blockIndex r c)

theorem mat_ofBlock_eq (b : CipherBlock) : (AesState.ofBlock b).mat = blockMatrix b := by
  funext r c
  exact mat_ofBlock b r c

/-- `E` is AES with a key of `nk` words. -/
def Fips197.IsAes (nk : ℕ) (key : List UInt8) (E : CipherBlock → CipherBlock) : Prop :=
  ∃ w, IsKeySchedule nk (nk + 6) key w ∧
    ∀ b, blockMatrix (E b) = cipher (nk + 6) (roundKey w) (blockMatrix b)

theorem isAes_setkeyEnc {nk : ℕ} (hnk : KeySize nk) {key : List UInt8} {ctx : AesContext}
    (hctx : mbedtlsAesSetkeyEnc key (32 * nk) = some ctx) :
    Fips197.IsAes nk key (mbedtlsInternalAesEncrypt ctx) := by
  obtain ⟨ctx', heq, hnr, hw⟩ := isKeySchedule_setkey hnk key
  obtain rfl : ctx = ctx' := Option.some.inj (hctx.symm.trans heq)
  obtain ⟨m, hm⟩ := keySize_even hnk
  refine ⟨ctx.word, hw, ?_⟩
  intro b
  rw [← mat_ofBlock_eq, mat_encrypt ctx (hnr.trans hm), mat_ofBlock_eq, keyMatrix_eq, hnr]

theorem blockMatrix_injective : Function.Injective blockMatrix := by
  intro a b h
  rw [← mat_ofBlock_eq, ← mat_ofBlock_eq] at h
  rw [← toBlock_ofBlock a, AesState.mat_injective h, toBlock_ofBlock]

/-- Decryption with the context of `mbedtls_aes_setkey_dec` undoes encryption with the one of
`mbedtls_aes_setkey_enc`. -/
theorem aesDecrypt_aesEncrypt {nk : ℕ} (hnk : KeySize nk) (key : List UInt8) :
    ∃ enc dec, mbedtlsAesSetkeyEnc key (32 * nk) = some enc ∧
      mbedtlsAesSetkeyDec key (32 * nk) = some dec ∧
      ∀ b, mbedtlsInternalAesDecrypt dec (mbedtlsInternalAesEncrypt enc b) = b := by
  obtain ⟨enc, heq, hnr, -⟩ := isKeySchedule_setkey hnk key
  obtain ⟨m, hm⟩ := keySize_even hnk
  have heven := hnr.trans hm
  refine ⟨enc, enc.inverse, heq, by rw [mbedtlsAesSetkeyDec, heq, Option.map_some], ?_⟩
  intro b
  have hinv := eqInvCipher_cipher (isInverseKey_inverse enc (by omega)) (by omega) (blockMatrix b)
  apply blockMatrix_injective
  rw [← mat_ofBlock_eq, mat_decrypt enc.inverse heven, mat_encrypt enc heven, mat_ofBlock_eq]
  exact hinv

/-- The two directions of the cipher undo each other. -/
theorem aes_inverse {nk : ℕ} (hnk : KeySize nk) (key : List UInt8) :
    ∃ enc dec, mbedtlsAesSetkeyEnc key (32 * nk) = some enc ∧
      mbedtlsAesSetkeyDec key (32 * nk) = some dec ∧
      (∀ b, mbedtlsInternalAesDecrypt dec (mbedtlsInternalAesEncrypt enc b) = b) ∧
      ∀ b, mbedtlsInternalAesEncrypt enc (mbedtlsInternalAesDecrypt dec b) = b := by
  obtain ⟨enc, dec, heq, heq', hinv⟩ := aesDecrypt_aesEncrypt hnk key
  refine ⟨enc, dec, heq, heq', hinv, ?_⟩
  intro b
  have : Finite CipherBlock := Finite.of_injective blockMatrix blockMatrix_injective
  -- an injection of the blocks into themselves reaches every block
  obtain ⟨a, rfl⟩ := Finite.injective_iff_surjective.1 (Function.LeftInverse.injective hinv) b
  rw [hinv]

/-- **AES.** For each of the three key sizes and every key, `mbedtls_aes_setkey_enc` and
`mbedtls_internal_aes_encrypt` are the cipher of FIPS 197 under its key expansion, and
`mbedtls_internal_aes_decrypt` with the keys of `mbedtls_aes_setkey_dec` is its inverse. -/
theorem aes_correct {nk : ℕ} (hnk : KeySize nk) (key : List UInt8) :
    ∃ enc dec, mbedtlsAesSetkeyEnc key (32 * nk) = some enc ∧
      mbedtlsAesSetkeyDec key (32 * nk) = some dec ∧
      Fips197.IsAes nk key (mbedtlsInternalAesEncrypt enc) ∧
      (∀ b, mbedtlsInternalAesDecrypt dec (mbedtlsInternalAesEncrypt enc b) = b) ∧
      ∀ b, mbedtlsInternalAesEncrypt enc (mbedtlsInternalAesDecrypt dec b) = b := by
  obtain ⟨enc, dec, heq, heq', hDE, hED⟩ := aes_inverse hnk key
  exact ⟨enc, dec, heq, heq', isAes_setkeyEnc hnk heq, hDE, hED⟩

/-- The key of 256 bits of the example in FIPS 197. -/
theorem aes_correct_256 : KeySize 8 ∧
    ∃ enc dec, mbedtlsAesSetkeyEnc ((List.range 32).map UInt8.ofNat) (32 * 8) = some enc ∧
      mbedtlsAesSetkeyDec ((List.range 32).map UInt8.ofNat) (32 * 8) = some dec ∧
      Fips197.IsAes 8 ((List.range 32).map UInt8.ofNat) (mbedtlsInternalAesEncrypt enc) ∧
      (∀ b, mbedtlsInternalAesDecrypt dec (mbedtlsInternalAesEncrypt enc b) = b) ∧
      ∀ b, mbedtlsInternalAesEncrypt enc (mbedtlsInternalAesDecrypt dec b) = b :=
  ⟨.inr (.inr rfl), aes_correct (.inr (.inr rfl)) _⟩

end DsiWifi
