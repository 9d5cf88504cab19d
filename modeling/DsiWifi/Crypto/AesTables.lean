import DsiWifi.Crypto.Aes

/-!
# The tables of AES

What `aes_gen_tables` leaves behind: `pow` runs through the nonzero bytes, `log` undoes it, `RSb` undoes
`FSb`, and `MUL` by the coefficients of the mixing step is a combination of doublings (`mulE` and so
on), which makes the tables linear.
-/

namespace DsiWifi

open Table

/-! ## Powers and logarithms -/

set_option maxRecDepth 4000

/-- The powers from the first to the last. -/
def aesPows : List ℕ := (List.range 255).map fun k => aesPow (k + 1)

theorem nodup_aesPows : aesPows.Nodup := by
  apply nodup_of_distinct
  decide +kernel

theorem aesPow_lt (k : ℕ) : aesPow k < 256 := by
  cases k with
  | zero => decide
  | succ k => exact Nat.lt_of_le_of_lt Nat.and_le_right (by decide)

theorem aesPow_pos {k : ℕ} (hk : k ≤ 255) : aesPow k ≠ 0 := by
  have hall : ∀ k ≤ 255, aesPow k ≠ 0 := by decide +kernel
  exact hall k hk

theorem aesPow_inj {j k : ℕ} (hj : 1 ≤ j) (hj' : j ≤ 255) (hk : 1 ≤ k) (hk' : k ≤ 255)
    (h : aesPow j = aesPow k) : j = k := by
  have hget : ∀ i, 1 ≤ i → i ≤ 255 → aesPows[i - 1]? = some (aesPow i) := by
    intro i hi hi'
    rw [aesPows, List.getElem?_map, List.getElem?_range (by omega), Option.map_some,
      Nat.sub_add_cancel hi]
  have hlen : aesPows.length = 255 := by rw [aesPows, List.length_map, List.length_range]
  have heq : aesPows[j - 1]? = aesPows[k - 1]? := by rw [hget j hj hj', hget k hk hk', h]
  have := (List.getElem?_inj (by omega) nodup_aesPows).1 heq
  omega

/-- Every nonzero byte is a power. -/
theorem exists_aesPow {x : ℕ} (hx : 1 ≤ x) (hx' : x ≤ 255) :
    ∃ k, 1 ≤ k ∧ k ≤ 255 ∧ aesPow k = x := by
  have hmem : x ∈ aesPows := by
    refine mem_of_nodup nodup_aesPows (fun y hy => ?_) ?_ hx hx'
    · obtain ⟨k, hk, rfl⟩ := List.mem_map.1 hy
      rw [List.mem_range] at hk
      have hpos := aesPow_pos (k := k + 1) (by omega)
      have hlt := aesPow_lt (k + 1)
      omega
    · rw [aesPows, List.length_map, List.length_range]
  obtain ⟨k, hk, rfl⟩ := List.mem_map.1 hmem
  rw [List.mem_range] at hk
  exact ⟨k + 1, by omega, by omega, rfl⟩

theorem aesLog_aesPow {k : ℕ} (hk : 1 ≤ k) (hk' : k ≤ 255) : aesLog (aesPow k) = k := by
  apply storeAll_apply (f := aesPow) (v := id) (by omega)
  intro j hj hj' h
  have := aesPow_inj (by omega) (by omega) hk hk' h
  omega

/-! ## The S-boxes -/

theorem aesSboxValue_aesPow {k : ℕ} (hk : 1 ≤ k) (hk' : k ≤ 255) :
    aesSboxValue (aesPow k) = aesAffine (aesPow (255 - k)) := by
  rw [aesSboxValue, if_neg (aesPow_pos hk'), aesLog_aesPow hk hk']

/-- The entries of `FSb`, in the order in which the powers reach them. -/
def aesSboxValues : List ℕ := 0x63 :: (List.range 255).map fun k => aesAffine (aesPow (254 - k))

theorem nodup_aesSboxValues : aesSboxValues.Nodup := by
  apply nodup_of_distinct
  decide +kernel

theorem aesSboxValue_lt {i : ℕ} (hi : i < 256) : aesSboxValue i < 256 := by
  have hall : ∀ k ≤ 255, aesAffine (aesPow k) < 256 := by decide +kernel
  rcases Nat.eq_zero_or_pos i with rfl | hpos
  · decide
  · obtain ⟨k, hk, hk', rfl⟩ := exists_aesPow hpos (by omega)
    rw [aesSboxValue_aesPow hk hk']
    exact hall (255 - k) (by omega)

/-- The place of an entry in `aesSboxValues`. -/
theorem exists_aesSboxValues {i : ℕ} (hi : i < 256) :
    ∃ k, k < 256 ∧ (i = if k = 0 then 0 else aesPow k) ∧ aesSboxValues[k]? = some (aesSboxValue i) := by
  rcases Nat.eq_zero_or_pos i with rfl | hpos
  · exact ⟨0, by decide, rfl, rfl⟩
  · obtain ⟨k, hk, hk', rfl⟩ := exists_aesPow hpos (by omega)
    refine ⟨k, by omega, by rw [if_neg (by omega)], ?_⟩
    obtain ⟨k, rfl⟩ := Nat.exists_eq_add_of_le' hk
    rw [aesSboxValues, List.getElem?_cons_succ, List.getElem?_map, List.getElem?_range (by omega),
      Option.map_some, aesSboxValue_aesPow hk hk', Nat.add_sub_add_right 254 1 k]

theorem aesSboxValue_inj {i j : ℕ} (hi : i < 256) (hj : j < 256)
    (h : aesSboxValue i = aesSboxValue j) : i = j := by
  obtain ⟨k, hk, rfl, hki⟩ := exists_aesSboxValues hi
  obtain ⟨l, hl, rfl, hlj⟩ := exists_aesSboxValues hj
  have hlen : aesSboxValues.length = 256 := by
    rw [aesSboxValues, List.length_cons, List.length_map, List.length_range]
  have heq : aesSboxValues[k]? = aesSboxValues[l]? := by rw [hki, hlj, h]
  rw [(List.getElem?_inj (by omega) nodup_aesSboxValues).1 heq]

/-- `FSb[b]`. -/
def fSb (b : UInt8) : UInt8 := aesFSb.get b.toFin

/-- `RSb[b]`. -/
def rSb (b : UInt8) : UInt8 := aesRSb.get b.toFin

theorem fSb_eq (b : UInt8) : fSb b = .ofNat (aesSboxValue b.toNat) := Vector.getElem_ofFn ..

theorem toNat_fSb (b : UInt8) : (fSb b).toNat = aesSboxValue b.toNat := by
  rw [fSb_eq, UInt8.toNat_ofNat', Nat.mod_eq_of_lt (aesSboxValue_lt b.toNat_lt)]

theorem rSb_eq (b : UInt8) :
    rSb b = storeAll aesSboxValue UInt8.ofNat 256 (fun _ => 0) b.toNat := Vector.getElem_ofFn ..

/-- The inverse S-box undoes the S-box. -/
theorem rSb_fSb (b : UInt8) : rSb (fSb b) = b := by
  rw [rSb_eq, toNat_fSb, storeAll_apply b.toNat_lt, UInt8.ofNat_toNat]
  intro j hj hj' h
  have := aesSboxValue_inj hj' b.toNat_lt h
  omega

instance finite_uint8 : Finite UInt8 := Finite.of_injective UInt8.toFin fun _ _ h => UInt8.toFin_inj.1 h

/-! ## Multiplication by the coefficients -/

/-- Doubling in the field of AES. -/
def xtime (b : UInt8) : UInt8 := b <<< 1 ^^^ (if b &&& 0x80 ≠ 0 then 0x1B else 0)

/-- The product with 3. -/
def mul3 (b : UInt8) : UInt8 := xtime b ^^^ b

/-- The product with 9. -/
def mul9 (b : UInt8) : UInt8 := xtime (xtime (xtime b)) ^^^ b

/-- The product with 11. -/
def mulB (b : UInt8) : UInt8 := xtime (xtime (xtime b)) ^^^ xtime b ^^^ b

/-- The product with 13. -/
def mulD (b : UInt8) : UInt8 := xtime (xtime (xtime b)) ^^^ xtime (xtime b) ^^^ b

/-- The product with 14. -/
def mulE (b : UInt8) : UInt8 := xtime (xtime (xtime b)) ^^^ xtime (xtime b) ^^^ xtime b

theorem and_top_bit (b : UInt8) : b &&& 0x80 = 0 ∨ b &&& 0x80 = 0x80 := by
  have hall : ∀ n < 256, UInt8.ofNat n &&& 0x80 = 0 ∨ UInt8.ofNat n &&& 0x80 = 0x80 := by
    decide +kernel
  have h := hall b.toNat b.toNat_lt
  rw [UInt8.ofNat_toNat] at h
  exact h

/-- Doubling is linear. -/
theorem xtime_xor (a b : UInt8) : xtime (a ^^^ b) = xtime a ^^^ xtime b := by
  have hand : (a ^^^ b) &&& 0x80 = (a &&& 0x80) ^^^ (b &&& 0x80) := by
    rw [← UInt8.toBitVec_inj]
    simp only [UInt8.toBitVec_and, UInt8.toBitVec_xor]
    ext i
    simp only [BitVec.getElem_and, BitVec.getElem_xor, Bool.and_xor_distrib_right]
  -- the reduction is added when exactly one of the two needs it
  have hred : (if (a &&& 0x80) ^^^ (b &&& 0x80) ≠ 0 then (0x1B : UInt8) else 0) =
      (if a &&& 0x80 ≠ 0 then 0x1B else 0) ^^^ (if b &&& 0x80 ≠ 0 then 0x1B else 0) := by
    rcases and_top_bit a with ha | ha <;> rcases and_top_bit b with hb | hb <;> rw [ha, hb] <;> rfl
  unfold xtime
  rw [UInt8.shiftLeft_xor, hand, hred]
  ac_rfl

/-- `MUL` by a coefficient, from its logarithm `l`. -/
theorem aesMul_eq {c l : ℕ} {f : UInt8 → UInt8} (hl : 1 ≤ l) (hl' : l ≤ 255) (hc : aesPow l = c)
    (hzero : f 0 = 0)
    (hpow : ∀ k ≤ 255, UInt8.ofNat (aesPow ((l + k) % 255)) = f (.ofNat (aesPow k))) (x : UInt8) :
    UInt8.ofNat (aesMul c x.toNat) = f x := by
  unfold aesMul
  by_cases hx : x.toNat = 0
  · have : x = 0 := UInt8.toNat_inj.1 hx
    rw [if_neg fun h => h.2 hx, this, hzero]
    rfl
  · obtain ⟨k, hk, hk', hkx⟩ := exists_aesPow (x := x.toNat) (by omega) (Nat.le_of_lt_succ x.toNat_lt)
    have hc' : c ≠ 0 := hc ▸ aesPow_pos hl'
    rw [if_pos ⟨hc', hx⟩, ← hc, ← hkx, aesLog_aesPow hl hl', aesLog_aesPow hk hk', hpow k hk', hkx,
      UInt8.ofNat_toNat]

theorem aesMul_coefficients (x : UInt8) :
    UInt8.ofNat (aesMul 0x0E x.toNat) = mulE x ∧ UInt8.ofNat (aesMul 0x09 x.toNat) = mul9 x ∧
      UInt8.ofNat (aesMul 0x0D x.toNat) = mulD x ∧ UInt8.ofNat (aesMul 0x0B x.toNat) = mulB x := by
  refine ⟨?_, ?_, ?_, ?_⟩
  · exact aesMul_eq (l := 223) (by decide) (by decide) (by decide +kernel) rfl (by decide +kernel) x
  · exact aesMul_eq (l := 199) (by decide) (by decide) (by decide +kernel) rfl (by decide +kernel) x
  · exact aesMul_eq (l := 238) (by decide) (by decide) (by decide +kernel) rfl (by decide +kernel) x
  · exact aesMul_eq (l := 104) (by decide) (by decide) (by decide +kernel) rfl (by decide +kernel) x

/-- `XTIME` on `int`, cut to a byte. -/
theorem aesXtime_toNat (x : UInt8) : UInt8.ofNat (aesXtime x.toNat &&& 0xFF) = xtime x := by
  have hall : ∀ n < 256, UInt8.ofNat (aesXtime n &&& 0xFF) = xtime (.ofNat n) := by decide +kernel
  rw [hall x.toNat x.toNat_lt, UInt8.ofNat_toNat]

theorem aesXtime_xor_toNat (x : UInt8) :
    UInt8.ofNat (((aesXtime x.toNat &&& 0xFF) ^^^ x.toNat) &&& 0xFF) = mul3 x := by
  have hall : ∀ n < 256,
      UInt8.ofNat (((aesXtime n &&& 0xFF) ^^^ n) &&& 0xFF) = mul3 (.ofNat n) := by decide +kernel
  rw [hall x.toNat x.toNat_lt, UInt8.ofNat_toNat]

/-! ## Table entries -/

theorem get_ofFn {α : Type} (f : Fin 256 → α) (x : UInt8) : (Vector.ofFn f).get x.toFin = f x.toFin :=
  Vector.getElem_ofFn ..

/-- An entry of `FT0`. -/
theorem aesFT0_get (x : UInt8) :
    aesFT0.get x.toFin = packWord (xtime (fSb x)) (fSb x) (fSb x) (mul3 (fSb x)) := by
  unfold aesFT0
  rw [get_ofFn]
  dsimp only
  rw [← fSb, aesXtime_xor_toNat, aesXtime_toNat, UInt8.ofNat_toNat]

/-- An entry of `RT0`. -/
theorem aesRT0_get (x : UInt8) :
    aesRT0.get x.toFin = packWord (mulE (rSb x)) (mul9 (rSb x)) (mulD (rSb x)) (mulB (rSb x)) := by
  obtain ⟨hE, h9, hD, hB⟩ := aesMul_coefficients (rSb x)
  unfold aesRT0
  rw [get_ofFn]
  dsimp only
  rw [← rSb, hE, h9, hD, hB]

end DsiWifi
