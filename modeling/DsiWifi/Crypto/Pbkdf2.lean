import DsiWifi.Crypto.Hmac

/-!
# The pairwise master key

`mbedtls_pkcs5_pbkdf2_hmac` of `pkcs5.twl.c` and `wpa_calc_pmk` of `wpa.twl.c`.  The password is put
into the context once; every PRF value after that is one message, with `mbedtls_md_hmac_reset`
behind it.  The block number is a counter of four bytes that is incremented from its last byte.

The reference is PBKDF2 of RFC 8018 (`Rfc8018.pbkdf2`).
-/

namespace DsiWifi

/-- `work[j] ^= md1[j]` for all `j`. -/
def xorBytes (a b : List UInt8) : List UInt8 := List.zipWith (· ^^^ ·) a b

/-- The loop over `i` from 1: `md1` is the last PRF value and `work` the sum so far. -/
def pbkdf2Iterate : ℕ → HmacContext → (md1 work : List UInt8) → HmacContext × List UInt8
  | 0, ctx, _, work => (ctx, work)
  | n + 1, ctx, md1, work =>
    let r := mbedtlsMdHmacFinish (mbedtlsMdHmacUpdate ctx md1)
    pbkdf2Iterate n (mbedtlsMdHmacReset r.1) r.2 (xorBytes work r.2)

/-- `++counter[i - 1]` from the last byte on, until one does not become zero; the bytes are listed
last first. -/
def counterIncr : List UInt8 → List UInt8
  | [] => []
  | b :: bs => if b + 1 ≠ 0 then (b + 1) :: bs else (b + 1) :: counterIncr bs

/-- One round of `while (key_length)` up to the copy: the context it leaves and `work`. -/
def pbkdf2Block (ctx : HmacContext) (salt counter : List UInt8) (iterationCount : ℕ) :
    HmacContext × List UInt8 :=
  let r := mbedtlsMdHmacFinish (mbedtlsMdHmacUpdate (mbedtlsMdHmacUpdate ctx salt) counter)
  pbkdf2Iterate (iterationCount - 1) (mbedtlsMdHmacReset r.1) r.2 r.2

/-- The loop `while (key_length)`; `md_size` of SHA-1 is 20. -/
def pbkdf2Blocks (ctx : HmacContext) (salt counter : List UInt8) (iterationCount keyLength : ℕ) :
    List UInt8 :=
  if keyLength = 0 then []
  else
    let out := pbkdf2Block ctx salt counter iterationCount
    let useLen := if keyLength < 20 then keyLength else 20
    out.2.take useLen ++
      pbkdf2Blocks out.1 salt (counterIncr counter.reverse).reverse iterationCount
        (keyLength - useLen)
termination_by keyLength
decreasing_by
  split_ifs <;> omega

def mbedtlsPkcs5Pbkdf2Hmac (ctx : HmacContext) (password salt : List UInt8)
    (iterationCount keyLength : ℕ) : List UInt8 :=
  pbkdf2Blocks (mbedtlsMdHmacStarts ctx password) salt [0, 0, 0, 1] iterationCount keyLength

/-- `wpa_calc_pmk`: `ssid` and `pass` are C strings, and `mbedtls_md_setup` clears its context. -/
def wpaCalcPmk (ssid pass : List UInt8) : List UInt8 :=
  let ctx : HmacContext := ⟨⟨0, 0, Vector.replicate 5 0, zeros 64⟩, zeros 64, zeros 64⟩
  mbedtlsPkcs5Pbkdf2Hmac ctx (cstr pass) (cstr ssid) 4096 32

/-! ## The reference -/

namespace Rfc8018

variable (prf : List UInt8 → List UInt8)

/-- `U_(n + 1)` of a block that begins with `U_1`. -/
def iterate (u₁ : List UInt8) : ℕ → List UInt8
  | 0 => u₁
  | n + 1 => prf (iterate u₁ n)

/-- The exclusive or of `U_1` up to `U_(n + 1)`. -/
def xorSum (u₁ : List UInt8) : ℕ → List UInt8
  | 0 => u₁
  | n + 1 => xorBytes (xorSum u₁ n) (iterate prf u₁ (n + 1))

/-- The function `F`: block `i` with `c` iterations. -/
def block (salt : List UInt8) (c i : ℕ) : List UInt8 := xorSum prf (prf (salt ++ putbe32 i)) (c - 1)

/-- The first `dkLen` bytes of blocks 1, 2 and so on, which have 20 bytes each. -/
def pbkdf2 (salt : List UInt8) (c dkLen : ℕ) : List UInt8 :=
  ((List.range ((dkLen + 19) / 20)).flatMap fun i => block prf salt c (i + 1)).take dkLen

end Rfc8018

/-! ## The counter -/

/-- The last `k` bytes of a number, the last one first. -/
def leBytes : ℕ → ℕ → List UInt8
  | 0, _ => []
  | k + 1, n => .ofNat n :: leBytes k (n / 256)

theorem counterIncr_leBytes (k n : ℕ) : counterIncr (leBytes k n) = leBytes k (n + 1) := by
  induction k generalizing n with
  | zero => rfl
  | succ k ih =>
    have hbyte : UInt8.ofNat n + 1 = UInt8.ofNat (n + 1) := by
      rw [UInt8.ofNat_add]
      rfl
    have hzero : UInt8.ofNat (n + 1) = 0 ↔ (n + 1) % 256 = 0 := by
      rw [← UInt8.toNat_inj, UInt8.toNat_ofNat']
      rfl
    rw [leBytes, leBytes, counterIncr, hbyte]
    split_ifs with h
    · have hdiv : (n + 1) / 256 = n / 256 := by
        rw [Ne, hzero] at h
        omega
      rw [hdiv]
    · -- the carry goes on
      have hdiv : (n + 1) / 256 = n / 256 + 1 := by
        rw [Ne, not_not, hzero] at h
        omega
      rw [ih, hdiv]

theorem reverse_putbe32 (n : ℕ) : (putbe32 n).reverse = leBytes 4 n := by
  have h : leBytes 4 n =
      [.ofNat n, .ofNat (n / 256), .ofNat (n / 256 / 256), .ofNat (n / 256 / 256 / 256)] := rfl
  rw [h, Nat.div_div_eq_div_mul, Nat.div_div_eq_div_mul]
  rfl

/-- The counter of the next block. -/
theorem reverse_counterIncr (n : ℕ) :
    (counterIncr (putbe32 n).reverse).reverse = putbe32 (n + 1) := by
  rw [reverse_putbe32, counterIncr_leBytes, ← reverse_putbe32, List.reverse_reverse]

/-! ## One block -/

theorem length_hmac (key text : List UInt8) : (Rfc2104.hmac key text).length = 20 := length_sha1 _

variable {ctx : HmacContext} {password : List UInt8}

theorem length_iterate (password u₁ : List UInt8) (h : u₁.length = 20) (n : ℕ) :
    (Rfc8018.iterate (Rfc2104.hmac password) u₁ n).length = 20 := by
  cases n with
  | zero => exact h
  | succ n => exact length_hmac _ _

theorem length_xorSum (password u₁ : List UInt8) (h : u₁.length = 20) (n : ℕ) :
    (Rfc8018.xorSum (Rfc2104.hmac password) u₁ n).length = 20 := by
  induction n with
  | zero => exact h
  | succ n ih =>
    rw [Rfc8018.xorSum, xorBytes, List.length_zipWith, ih, length_iterate password u₁ h]
    rfl

/-- One PRF value and the reset behind it. -/
theorem HmacContext.Holds.prf (h : ctx.Holds password []) {input : List UInt8}
    (hlen : input.length < 2 ^ 32) :
    (mbedtlsMdHmacReset (mbedtlsMdHmacFinish (mbedtlsMdHmacUpdate ctx input)).1).Holds password [] ∧
      (mbedtlsMdHmacFinish (mbedtlsMdHmacUpdate ctx input)).2 = Rfc2104.hmac password input :=
  ⟨(h.update hlen).reset, (h.update hlen).finish⟩

/-- `n` rounds of the inner loop behind `k` of them. -/
theorem pbkdf2Iterate_spec (h : ctx.Holds password []) {u₁ : List UInt8} (hu : u₁.length = 20)
    (n k : ℕ) :
    let r := pbkdf2Iterate n ctx (Rfc8018.iterate (Rfc2104.hmac password) u₁ k)
      (Rfc8018.xorSum (Rfc2104.hmac password) u₁ k)
    r.1.Holds password [] ∧ r.2 = Rfc8018.xorSum (Rfc2104.hmac password) u₁ (k + n) := by
  induction n generalizing ctx k with
  | zero => exact ⟨h, rfl⟩
  | succ n ih =>
    have hlen : (Rfc8018.iterate (Rfc2104.hmac password) u₁ k).length < 2 ^ 32 := by
      rw [length_iterate password u₁ hu]
      decide
    obtain ⟨hnext, hout⟩ := h.prf hlen
    have hstep := ih hnext (k + 1)
    rw [Nat.add_right_comm, Nat.add_assoc] at hstep
    rw [pbkdf2Iterate, hout]
    exact hstep

theorem pbkdf2Block_spec (h : ctx.Holds password []) {salt : List UInt8}
    (hsalt : salt.length < 2 ^ 32) (i iterationCount : ℕ) :
    (pbkdf2Block ctx salt (putbe32 i) iterationCount).1.Holds password [] ∧
      (pbkdf2Block ctx salt (putbe32 i) iterationCount).2 =
        Rfc8018.block (Rfc2104.hmac password) salt iterationCount i := by
  have hcounter : (putbe32 i).length < 2 ^ 32 := by
    rw [length_putbe32]
    decide
  have hfed := (h.update hsalt).update hcounter
  rw [List.nil_append] at hfed
  have hrounds := pbkdf2Iterate_spec hfed.reset (length_hmac password (salt ++ putbe32 i))
    (iterationCount - 1) 0
  rw [Nat.zero_add] at hrounds
  have hfirst : (mbedtlsMdHmacFinish (mbedtlsMdHmacUpdate (mbedtlsMdHmacUpdate ctx salt)
      (putbe32 i))).2 = Rfc2104.hmac password (salt ++ putbe32 i) := hfed.finish
  unfold pbkdf2Block
  dsimp only
  rw [hfirst]
  exact hrounds

theorem length_block (password salt : List UInt8) (c i : ℕ) :
    (Rfc8018.block (Rfc2104.hmac password) salt c i).length = 20 :=
  length_xorSum password _ (length_hmac password _) _

/-! ## All blocks -/

/-- The blocks from number `i` on. -/
theorem pbkdf2Blocks_spec (h : ctx.Holds password []) {salt : List UInt8}
    (hsalt : salt.length < 2 ^ 32) (i iterationCount keyLength : ℕ) :
    pbkdf2Blocks ctx salt (putbe32 i) iterationCount keyLength =
      ((List.range ((keyLength + 19) / 20)).flatMap fun j =>
        Rfc8018.block (Rfc2104.hmac password) salt iterationCount (i + j)).take keyLength := by
  induction keyLength using Nat.strong_induction_on generalizing ctx i with
  | _ keyLength ih =>
    rw [pbkdf2Blocks]
    by_cases hzero : keyLength = 0
    · rw [if_pos hzero, hzero]
      rfl
    obtain ⟨hnext, hblock⟩ := pbkdf2Block_spec h hsalt i iterationCount
    have hlen := length_block password salt iterationCount i
    have hcount : (keyLength + 19) / 20 = (keyLength - 20 + 19) / 20 + 1 := by omega
    rw [if_neg hzero]
    dsimp only
    rw [hblock, reverse_counterIncr, hcount, List.range_succ_eq_map, List.flatMap_cons,
      List.flatMap_map]
    dsimp only [Nat.add_zero]
    split_ifs with hshort
    · -- the last block is cut
      have hdone : keyLength - 20 = 0 := by omega
      rw [Nat.sub_self, pbkdf2Blocks, if_pos rfl, List.append_nil, hdone]
      show _ = List.take keyLength (_ ++ [])
      rw [List.append_nil]
    · rw [ih (keyLength - 20) (by omega) hnext (i + 1)]
      have hall : ∀ n, 20 ≤ n →
          List.take n (Rfc8018.block (Rfc2104.hmac password) salt iterationCount i) =
            Rfc8018.block (Rfc2104.hmac password) salt iterationCount i :=
        fun n hn => List.take_of_length_le (by omega)
      have hj : ∀ j, i + 1 + j = i + (j + 1) := by omega
      rw [hall 20 (Nat.le_refl 20), List.take_append, hlen, hall keyLength (by omega)]
      simp only [hj, Nat.succ_eq_add_one]

/-- The key material is that of RFC 8018 with HMAC-SHA1, for every password and salt, any number of
iterations and every length, whatever the context held before. -/
theorem mbedtlsPkcs5Pbkdf2Hmac_eq (ctx : HmacContext) {password salt : List UInt8}
    (hpass : password.length < 2 ^ 32) (hsalt : salt.length < 2 ^ 32)
    (iterationCount keyLength : ℕ) :
    mbedtlsPkcs5Pbkdf2Hmac ctx password salt iterationCount keyLength =
      Rfc8018.pbkdf2 (Rfc2104.hmac password) salt iterationCount keyLength := by
  have h := pbkdf2Blocks_spec (holds_mbedtlsMdHmacStarts ctx hpass) hsalt 1 iterationCount keyLength
  simp only [Nat.add_comm 1] at h
  exact h

theorem mbedtlsPkcs5Pbkdf2Hmac_eq_home :
    let ctx : HmacContext := ⟨⟨7, 7, sha1Iv, zeros 64⟩, zeros 64, zeros 64⟩
    let pass : List UInt8 := List.replicate 63 0x61
    let ssid : List UInt8 := [0x68, 0x6F, 0x6D, 0x65]
    mbedtlsPkcs5Pbkdf2Hmac ctx pass ssid 4096 32 =
      Rfc8018.pbkdf2 (Rfc2104.hmac pass) ssid 4096 32 :=
  mbedtlsPkcs5Pbkdf2Hmac_eq _ (by decide) (by decide) 4096 32

/-- The pairwise master key of IEEE 802.11i. -/
theorem wpaCalcPmk_eq {ssid pass : List UInt8} (hssid : ssid.length < 2 ^ 32)
    (hpass : pass.length < 2 ^ 32) :
    wpaCalcPmk ssid pass = Rfc8018.pbkdf2 (Rfc2104.hmac (cstr pass)) (cstr ssid) 4096 32 := by
  have hcstr : ∀ l : List UInt8, (cstr l).length ≤ l.length := fun l =>
    (List.takeWhile_prefix _).length_le
  have h := pbkdf2Blocks_spec (holds_mbedtlsMdHmacStarts
    ⟨⟨0, 0, Vector.replicate 5 0, zeros 64⟩, zeros 64, zeros 64⟩ ((hcstr pass).trans_lt hpass))
    ((hcstr ssid).trans_lt hssid) 1 4096 32
  simp only [Nat.add_comm 1] at h
  exact h

end DsiWifi
