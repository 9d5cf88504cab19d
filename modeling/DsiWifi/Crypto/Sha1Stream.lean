import DsiWifi.Crypto.Sha1

/-!
# SHA-1 over a stream

A message may reach `mbedtls_sha1_update` in any number of pieces of any size.  `Sha1Context.Holds`
says what a context remembers of it: the hash value after the whole blocks, the bytes of the block
that was begun, and the number of bytes modulo 2⁶⁴.  `mbedtls_sha1_update` keeps this
(`Sha1Context.Holds.update`) and `mbedtls_sha1_finish` makes the digest of FIPS 180 out of it
(`Sha1Context.Holds.finish`).
-/

namespace DsiWifi

open Blocks

/-! ## Writing to an array -/

/-- The front of an array up to the end of what was copied to it. -/
theorem take_memcpy {n m : ℕ} (b : Bytes n) (off : ℕ) (src : List UInt8) (hm : off + src.length = m)
    (h : m ≤ n) : (b.memcpy off src).toList.take m = b.toList.take off ++ src := by
  apply List.ext_getElem
  · simp only [List.length_take, List.length_ofFn, List.length_append]
    omega
  · intro i h₁ h₂
    rw [List.length_take, List.length_ofFn] at h₁
    rw [List.getElem_take, List.getElem_ofFn, Bytes.memcpy]
    dsimp only
    split_ifs with hoff
    · rw [List.getElem_append_right (by simp only [List.length_take, List.length_ofFn]; omega),
        List.getD_eq_getElem?_getD, List.getElem?_eq_getElem (by omega), Option.getD_some]
      congr 1
      simp only [List.length_take, List.length_ofFn]
      omega
    · rw [List.getElem_append_left (by simp only [List.length_take, List.length_ofFn]; omega),
        List.getElem_take, List.getElem_ofFn]

theorem take_memcpy_zero {n : ℕ} (b : Bytes n) {src : List UInt8} (h : src.length ≤ n) :
    (b.memcpy 0 src).toList.take src.length = src := by
  rw [take_memcpy b 0 src (Nat.zero_add _) h, List.take_zero, List.nil_append]

/-- An array that was filled to its end. -/
theorem toList_memcpy {n : ℕ} (b : Bytes n) (off : ℕ) (src : List UInt8) (h : off + src.length = n) :
    (b.memcpy off src).toList = b.toList.take off ++ src := by
  have htake := take_memcpy b off src h (Nat.le_refl n)
  rw [List.take_of_length_le (by rw [List.length_ofFn])] at htake
  exact htake

/-! ## What a context holds -/

/-- The context has been fed `msg`. -/
structure Sha1Context.Holds (ctx : Sha1Context) (msg : List UInt8) : Prop where
  blocks : absorb 64 Fips180.compress sha1Iv msg =
    (ctx.state, ctx.buffer.toList.take (msg.length % 64))
  total : ctx.total0.toNat + 2 ^ 32 * ctx.total1.toNat = msg.length % 2 ^ 64

theorem absorb_process (s : Vector UInt32 5) (l : List UInt8) :
    absorb 64 mbedtlsInternalSha1Process s l = absorb 64 Fips180.compress s l :=
  absorb_congr (fun s _ hb => mbedtlsInternalSha1Process_eq s hb) s l

theorem process_toList (s : Vector UInt32 5) (b : Bytes 64) :
    mbedtlsInternalSha1Process s b.toList = Fips180.compress s b.toList :=
  mbedtlsInternalSha1Process_eq s (List.length_ofFn ..)

theorem holds_starts (ctx : Sha1Context) : (mbedtlsSha1Starts ctx).Holds [] :=
  ⟨absorb_of_lt (by decide), rfl⟩

variable {ctx : Sha1Context} {msg : List UInt8}

/-- The bytes in the buffer. -/
theorem Sha1Context.Holds.left (h : ctx.Holds msg) : ctx.total0.toNat % 64 = msg.length % 64 := by
  have := h.total
  omega

/-- Whatever comes next is consumed behind the bytes in the buffer. -/
theorem Sha1Context.Holds.absorb_append (h : ctx.Holds msg) (input : List UInt8) :
    absorb 64 Fips180.compress sha1Iv (msg ++ input) =
      absorb 64 Fips180.compress ctx.state
        (ctx.buffer.toList.take (msg.length % 64) ++ input) := by
  rw [Blocks.absorb_append (by decide), h.blocks]

/-- The two counters, with the carry between them. -/
theorem Sha1Context.Holds.add_total (h : ctx.Holds msg) {ilen : ℕ} (hlen : ilen < 2 ^ 32) :
    (ctx.total0 + .ofNat ilen).toNat + 2 ^ 32 *
      (if ctx.total0 + .ofNat ilen < .ofNat ilen then ctx.total1 + 1 else ctx.total1).toNat =
        (msg.length + ilen) % 2 ^ 64 := by
  have htotal := h.total
  have h0 := ctx.total0.toNat_lt
  have h1 := ctx.total1.toNat_lt
  have hadd : (ctx.total0 + .ofNat ilen).toNat = (ctx.total0.toNat + ilen) % 2 ^ 32 := by
    rw [UInt32.toNat_add, UInt32.toNat_ofNat', Nat.mod_eq_of_lt hlen]
  split_ifs with hcarry
  · rw [UInt32.lt_iff_toNat_lt, hadd, UInt32.toNat_ofNat', Nat.mod_eq_of_lt hlen] at hcarry
    have hone : (ctx.total1 + 1).toNat = (ctx.total1.toNat + 1) % 2 ^ 32 := UInt32.toNat_add _ _
    rw [hadd, hone]
    omega
  · rw [UInt32.lt_iff_toNat_lt, hadd, UInt32.toNat_ofNat', Nat.mod_eq_of_lt hlen] at hcarry
    rw [hadd]
    omega

/-- The last copy of `mbedtls_sha1_update`: the bytes that are left over stand at the front of the
buffer. -/
theorem take_memcpy_absorb (b : Bytes 64) (s : Vector UInt32 5) (l : List UInt8) :
    (b.memcpy 0 (absorb 64 Fips180.compress s l).2).toList.take (l.length % 64) =
      (absorb 64 Fips180.compress s l).2 := by
  have hlen := length_absorb (f := Fips180.compress) (n := 64) (by decide) s l
  rw [← hlen]
  apply take_memcpy_zero
  omega

/-- `mbedtls_sha1_update` appends to the message. -/
theorem Sha1Context.Holds.update (h : ctx.Holds msg) {input : List UInt8}
    (hlen : input.length < 2 ^ 32) : (mbedtlsSha1Update ctx input).Holds (msg ++ input) := by
  have htotal := h.add_total hlen
  rw [← List.length_append] at htotal
  unfold mbedtlsSha1Update
  by_cases hnil : input.length = 0
  · rw [if_pos hnil, List.length_eq_zero_iff.1 hnil, List.append_nil]
    exact h
  rw [if_neg hnil]
  dsimp only
  rw [h.left]
  by_cases hfill : msg.length % 64 ≠ 0 ∧ 64 - msg.length % 64 ≤ input.length
  · -- the block in the buffer is completed, the rest starts a new one
    rw [if_pos hfill]
    refine ⟨?_, htotal⟩
    dsimp only
    have htake : (input.take (64 - msg.length % 64)).length = 64 - msg.length % 64 :=
      List.length_take_of_le hfill.2
    have hblock : (ctx.buffer.memcpy (msg.length % 64) (input.take (64 - msg.length % 64))).toList =
        ctx.buffer.toList.take (msg.length % 64) ++ input.take (64 - msg.length % 64) :=
      toList_memcpy _ _ _ (by omega)
    have hmod : (msg ++ input).length % 64 = (input.drop (64 - msg.length % 64)).length % 64 := by
      rw [List.length_append, List.length_drop]
      omega
    rw [h.absorb_append, absorb_process, process_toList, hmod, take_memcpy_absorb]
    conv_lhs => rw [← List.take_append_drop (64 - msg.length % 64) input, ← List.append_assoc,
      ← hblock]
    exact absorb_block_append (by decide) (List.length_ofFn ..)
  · rw [if_neg hfill]
    refine ⟨?_, htotal⟩
    dsimp only
    rw [h.absorb_append, absorb_process]
    by_cases hleft : msg.length % 64 = 0
    · -- the buffer is empty
      have hmod : (msg ++ input).length % 64 = input.length % 64 := by
        rw [List.length_append]
        omega
      rw [hleft, List.take_zero, List.nil_append, hmod, take_memcpy_absorb]
    · -- the block is still not complete
      have hshort : msg.length % 64 + input.length < 64 := by omega
      have hfront : (ctx.buffer.toList.take (msg.length % 64)).length = msg.length % 64 := by
        rw [List.length_take, List.length_ofFn]
        omega
      have hmod : (msg ++ input).length % 64 = msg.length % 64 + input.length := by
        rw [List.length_append]
        omega
      rw [absorb_of_lt (l := input) (by omega), absorb_of_lt, hmod,
        take_memcpy _ _ _ rfl (by omega)]
      rw [List.length_append, hfront]
      exact hshort

theorem Sha1Context.Holds.updates (h : ctx.Holds msg) {inputs : List (List UInt8)}
    (hlen : ∀ input ∈ inputs, input.length < 2 ^ 32) :
    (inputs.foldl mbedtlsSha1Update ctx).Holds (msg ++ inputs.flatten) := by
  induction inputs generalizing ctx msg with
  | nil =>
    rw [List.flatten_nil, List.append_nil]
    exact h
  | cons input inputs ih =>
    have hstep := h.update (hlen input (List.mem_cons_self ..))
    have hrest := ih hstep fun i hi => hlen i (List.mem_cons_of_mem _ hi)
    rw [List.append_assoc] at hrest
    exact hrest

/-! ## The digest -/

/-- The number of bits, in the two words that `mbedtls_sha1_finish` stores. -/
theorem Sha1Context.Holds.putbe64_length (h : ctx.Holds msg) :
    putbe32 (ctx.total0 >>> (29 : UInt32) ||| ctx.total1 <<< (3 : UInt32)).toNat ++
      putbe32 (ctx.total0 <<< (3 : UInt32)).toNat = putbe64 (8 * msg.length) := by
  have htotal := h.total
  have h0 := ctx.total0.toNat_lt
  have h1 := ctx.total1.toNat_lt
  have hhigh : (ctx.total0 >>> (29 : UInt32) ||| ctx.total1 <<< (3 : UInt32)).toNat =
      8 * (msg.length % 2 ^ 64) / 2 ^ 32 % 2 ^ 32 := by
    have hshift : ctx.total1.toNat <<< 3 % 2 ^ 32 = 2 ^ 3 * (ctx.total1.toNat % 2 ^ 29) := by
      rw [Nat.shiftLeft_eq]
      omega
    have hor : (ctx.total0 >>> (29 : UInt32) ||| ctx.total1 <<< (3 : UInt32)).toNat =
        ctx.total0.toNat >>> 29 ||| ctx.total1.toNat <<< 3 % 2 ^ 32 := by
      rw [UInt32.toNat_or, UInt32.toNat_shiftRight, UInt32.toNat_shiftLeft]
      rfl
    rw [hor, hshift, Nat.shiftRight_eq_div_pow, Nat.or_comm,
      ← Nat.two_pow_add_eq_or_of_lt (by omega)]
    omega
  have hlow : (ctx.total0 <<< (3 : UInt32)).toNat = 8 * (msg.length % 2 ^ 64) % 2 ^ 32 := by
    have hshift : (ctx.total0 <<< (3 : UInt32)).toNat = ctx.total0.toNat <<< 3 % 2 ^ 32 := by
      rw [UInt32.toNat_shiftLeft]
      rfl
    rw [hshift, Nat.shiftLeft_eq]
    omega
  have hbyte : ∀ {a b : ℕ}, a % 256 = b % 256 → UInt8.ofNat a = UInt8.ofNat b := by
    intro a b hab
    rw [← UInt8.toNat_inj, UInt8.toNat_ofNat', UInt8.toNat_ofNat']
    exact hab
  rw [hhigh, hlow]
  unfold putbe32 putbe64
  simp only [List.cons_append, List.nil_append, List.cons.injEq, and_true]
  refine ⟨hbyte ?_, hbyte ?_, hbyte ?_, hbyte ?_, hbyte ?_, hbyte ?_, hbyte ?_, hbyte ?_⟩ <;> omega

/-- The last block: whatever stands in its first 56 bytes, and the number of bits. -/
theorem Sha1Context.Holds.last_block (h : ctx.Holds msg) (b : Bytes 64) :
    ((b.memcpy 56 (putbe32 (ctx.total0 >>> (29 : UInt32) ||| ctx.total1 <<< (3 : UInt32)).toNat)).memcpy
      60 (putbe32 (ctx.total0 <<< (3 : UInt32)).toNat)).toList =
        b.toList.take 56 ++ putbe64 (8 * msg.length) := by
  rw [toList_memcpy (n := 64) _ 60 _ (by rw [length_putbe32]),
    take_memcpy (m := 60) b 56 _ (by rw [length_putbe32]) (by decide), List.append_assoc,
    h.putbe64_length]

/-- `mbedtls_sha1_finish` gives the digest of what the context holds. -/
theorem Sha1Context.Holds.finish (h : ctx.Holds msg) :
    (mbedtlsSha1Finish ctx).2 = Fips180.sha1 msg := by
  have hlt := Nat.mod_lt msg.length (show 0 < 64 by decide)
  have hfront : (ctx.buffer.toList.take (msg.length % 64)).length = msg.length % 64 := by
    rw [List.length_take, List.length_ofFn]
    omega
  -- the bytes in the buffer with the one bit behind them
  have hone := take_memcpy ctx.buffer (msg.length % 64) [0x80] rfl (by
    rw [List.length_singleton]
    omega)
  rw [List.length_singleton] at hone
  have hpad : Fips180.pad msg = msg ++ ([0x80] ++
      (List.replicate ((119 - msg.length % 64) % 64) 0 ++ putbe64 (8 * msg.length))) := by
    unfold Fips180.pad
    rw [List.append_assoc, List.append_assoc]
  unfold mbedtlsSha1Finish Fips180.sha1
  dsimp only
  rw [h.left, hpad, h.absorb_append]
  by_cases hroom : msg.length % 64 + 1 ≤ 56
  · rw [if_pos hroom]
    dsimp only
    have hzeros : (119 - msg.length % 64) % 64 = 56 - (msg.length % 64 + 1) := by omega
    have hfill := take_memcpy (m := 56) (ctx.buffer.memcpy (msg.length % 64) [0x80])
      (msg.length % 64 + 1) (List.replicate (56 - (msg.length % 64 + 1)) 0)
      (by rw [List.length_replicate]; omega) (by decide)
    rw [hone] at hfill
    rw [process_toList, h.last_block, hfill, hzeros, absorb_block (by decide)]
    · simp only [List.append_assoc]
    · simp only [List.length_append, hfront, List.length_singleton, List.length_replicate,
        length_putbe64]
      omega
  · -- one block more: the padding reaches into it
    rw [if_neg hroom]
    dsimp only
    have hzeros : List.replicate ((119 - msg.length % 64) % 64) (0 : UInt8) =
        List.replicate (64 - (msg.length % 64 + 1)) 0 ++ List.replicate 56 0 := by
      rw [← List.replicate_add]
      congr 1
      omega
    have hfill := toList_memcpy (ctx.buffer.memcpy (msg.length % 64) [0x80])
      (msg.length % 64 + 1) (List.replicate (64 - (msg.length % 64 + 1)) 0)
      (by rw [List.length_replicate]; omega)
    rw [hone] at hfill
    rw [process_toList, process_toList, h.last_block, take_memcpy (m := 56) (n := 64) _ 0 _
      (by rw [List.length_replicate]) (by decide), hfill, hzeros, List.take_zero, List.nil_append]
    have hsplit : ctx.buffer.toList.take (msg.length % 64) ++ ([0x80] ++
        (List.replicate (64 - (msg.length % 64 + 1)) 0 ++ List.replicate 56 0 ++
          putbe64 (8 * msg.length))) =
        ctx.buffer.toList.take (msg.length % 64) ++ [0x80] ++
          List.replicate (64 - (msg.length % 64 + 1)) 0 ++
          (List.replicate 56 0 ++ putbe64 (8 * msg.length)) := by
      simp only [List.append_assoc]
    rw [hsplit, absorb_block_append (by decide), absorb_block (by decide)]
    · rfl
    · simp only [List.length_append, hfront, List.length_singleton, List.length_replicate]
      omega

/-- However a message is cut into pieces and whatever the context held before, the digest is that of
FIPS 180. -/
theorem mbedtlsSha1Finish_updates (ctx : Sha1Context) {inputs : List (List UInt8)}
    (hlen : ∀ input ∈ inputs, input.length < 2 ^ 32) :
    (mbedtlsSha1Finish (inputs.foldl mbedtlsSha1Update (mbedtlsSha1Starts ctx))).2 =
      Fips180.sha1 inputs.flatten :=
  ((holds_starts ctx).updates hlen).finish

theorem mbedtlsSha1Finish_updates_pieces :
    (mbedtlsSha1Finish ([[1, 2], [], List.replicate 100 3].foldl mbedtlsSha1Update
      (mbedtlsSha1Starts ⟨7, 7, sha1Iv, zeros 64⟩))).2 =
        Fips180.sha1 ([[1, 2], [], List.replicate 100 3].flatten) :=
  mbedtlsSha1Finish_updates _ (by decide)

/-- `mbedtls_sha1`. -/
theorem mbedtlsSha1_eq {input : List UInt8} (hlen : input.length < 2 ^ 32) :
    mbedtlsSha1 input = Fips180.sha1 input :=
  ((holds_starts _).update hlen).finish

end DsiWifi
