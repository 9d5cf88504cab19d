import DsiWifi.Wmi.Handshake

/-!
# The pairwise key in its buffers

`wpa_calc_ptk` puts the input of HMAC-SHA1 together in a buffer, field behind field, changes the
last byte of it between the calls, and collects the outputs in another buffer, the first 64 bytes of
which are the key.  `PtkBuffer.wpaCalcPtk` follows it write by write; it is the function of the
driver's model (`wpaCalcPtk_buffer`).

`ptk_role_symmetric` states that the key is the one of the standard, with addresses and nonces in
lexicographic order, and so does not depend on which side computes it.
-/

namespace DsiWifi

open Octets

/-! ## The buffers -/

namespace PtkBuffer

/-- A buffer and the position up to which it is filled. -/
structure Filled where
  buf : Mem UInt8
  pos : ℕ

/-- `memcpy` to the position, which moves behind the copy. -/
def Filled.put (f : Filled) (bs : List UInt8) : Filled := ⟨f.buf.write f.pos bs, f.pos + bs.length⟩

/-- `ptk_data` and `ptk_data_pos` before the first call of HMAC-SHA1.  `strcpy` writes the label with
its terminator. -/
def ptkData (devMac apMac : Bytes 6) (devNonce apNonce : Bytes 32) : Filled :=
  let f : Filled := ⟨fun _ => 0, 0⟩
  let f := f.put ptkLabel
  let f := f.put (getArrMin devMac.toList apMac.toList)
  let f := f.put (getArrMax devMac.toList apMac.toList)
  let f := f.put (getArrMin apNonce.toList devNonce.toList)
  let f := f.put (getArrMax apNonce.toList devNonce.toList)
  f.put [0] -- key iteration

/-- `wpa_calc_ptk`; `stack` is what `ptk_out` held before. -/
def wpaCalcPtk (C : Crypto) (stack : Mem UInt8) (devMac apMac : Bytes 6)
    (devNonce apNonce : Bytes 32) (pmk : Bytes 0x20) : PtkKeyinfo :=
  let ptkDataPos := (ptkData devMac apMac devNonce apNonce).pos
  let hmac := fun ptkData : Mem UInt8 => (C.sha1Hmac pmk.toList (ptkData.read 0 ptkDataPos)).toList
  let ptkData := (ptkData devMac apMac devNonce apNonce).buf
  let ptkOut := stack.write 0 (hmac ptkData)
  let ptkData := ptkData.write (ptkDataPos - 1) [1]
  let ptkOut := ptkOut.write 0x14 (hmac ptkData)
  let ptkData := ptkData.write (ptkDataPos - 1) [2]
  let ptkOut := ptkOut.write (0x14 * 2) (hmac ptkData)
  let ptkData := ptkData.write (ptkDataPos - 1) [3]
  let ptkOut := ptkOut.write (0x14 * 3) (hmac ptkData)
  .ofList (ptkOut.read 0 0x40)

theorem Filled.read_put {f : Filled} {bs : List UInt8} (hpos : f.pos = bs.length)
    (h : f.buf.read 0 f.pos = bs) (cs : List UInt8) :
    (f.put cs).pos = (bs ++ cs).length ∧ (f.put cs).buf.read 0 (f.put cs).pos = bs ++ cs := by
  unfold put
  dsimp only
  rw [hpos] at h ⊢
  refine ⟨List.length_append.symm, ?_⟩
  have hbehind := Mem.read_write_behind h cs
  rwa [Nat.zero_add] at hbehind

/-- The input of HMAC-SHA1 before its last byte. -/
theorem exists_ptkData (devMac apMac : Bytes 6) (devNonce apNonce : Bytes 32) :
    ∃ f : Filled, ∃ bs : List UInt8, f.pos = bs.length ∧ f.buf.read 0 f.pos = bs ∧
      ptkData devMac apMac devNonce apNonce = f.put [0] ∧
      ∀ i, DsiWifi.ptkData devMac apMac devNonce apNonce i = bs ++ [i] := by
  have h₀ : (⟨fun _ => 0, 0⟩ : Filled).pos = ([] : List UInt8).length := rfl
  obtain ⟨hpos, hread⟩ := Filled.read_put h₀ rfl ptkLabel
  obtain ⟨hpos, hread⟩ := Filled.read_put hpos hread (getArrMin devMac.toList apMac.toList)
  obtain ⟨hpos, hread⟩ := Filled.read_put hpos hread (getArrMax devMac.toList apMac.toList)
  obtain ⟨hpos, hread⟩ := Filled.read_put hpos hread (getArrMin apNonce.toList devNonce.toList)
  obtain ⟨hpos, hread⟩ := Filled.read_put hpos hread (getArrMax apNonce.toList devNonce.toList)
  exact ⟨_, _, hpos, hread, rfl, fun i => rfl⟩

/-- Changing the last byte of the input, any number of times. -/
theorem read_write_last {m : Mem UInt8} {bs : List UInt8} (h : m.read 0 bs.length = bs)
    (i : UInt8) : (m.write bs.length [i]).read 0 (bs.length + 1) = bs ++ [i] ∧
      (m.write bs.length [i]).read 0 bs.length = bs := by
  constructor
  · have hbehind := Mem.read_write_behind h [i]
    rwa [Nat.zero_add] at hbehind
  · rw [Mem.read_write_of_disjoint m (Or.inl (by omega)), h]

/-- The outputs stand one behind the other in `ptk_out`. -/
theorem read_outputs (stack : Mem UInt8) {a b c d : List UInt8} (ha : a.length = 0x14)
    (hb : b.length = 0x14) (hc : c.length = 0x14) (hd : d.length = 0x14) :
    ((((stack.write 0 a).write 0x14 b).write (0x14 * 2) c).write (0x14 * 3) d).read 0 0x40 =
      (a ++ b ++ c ++ d).take 0x40 := by
  have hab : (a ++ b).length = 0x14 * 2 := by rw [List.length_append, ha, hb]
  have habc : (a ++ b ++ c).length = 0x14 * 3 := by rw [List.length_append, hab, hc]
  have h₁ := Mem.read_write_self stack 0 a
  have h₂ := Mem.read_write_behind h₁ b
  rw [← List.length_append] at h₂
  have h₃ := Mem.read_write_behind h₂ c
  rw [← List.length_append] at h₃
  have h₄ := Mem.read_write_behind h₃ d
  rw [Nat.zero_add, Nat.zero_add, Nat.zero_add, ha, hab, habc, hd,
    show 0x14 * 3 + 0x14 = 0x40 + 0x10 from rfl, Mem.read_add] at h₄
  rw [← h₄, List.take_left' (Mem.length_read _ _ _)]

/-- The key is made of the first 64 bytes. -/
theorem ofList_take (out : List UInt8) : PtkKeyinfo.ofList (out.take 0x40) = .ofList out := by
  unfold PtkKeyinfo.ofList
  simp only [List.drop_take]
  rw [arrayOf_take (by decide), arrayOf_take (by decide), arrayOf_take (by decide),
    arrayOf_take (by decide), arrayOf_take (by decide)]

/-- The function in its buffers is the one of the driver's model. -/
theorem wpaCalcPtk_buffer (C : Crypto) (stack : Mem UInt8) (devMac apMac : Bytes 6)
    (devNonce apNonce : Bytes 32) (pmk : Bytes 0x20) :
    wpaCalcPtk C stack devMac apMac devNonce apNonce pmk =
      DsiWifi.wpaCalcPtk C devMac apMac devNonce apNonce pmk := by
  obtain ⟨f, bs, hpos, hread, hdata, hprf⟩ := exists_ptkData devMac apMac devNonce apNonce
  rw [hpos] at hread
  unfold wpaCalcPtk DsiWifi.wpaCalcPtk
  dsimp only
  simp only [hprf]
  have hlast : (f.put [0]).pos - 1 = bs.length := by rw [← hpos]; rfl
  have hlen : (f.put [0]).pos = bs.length + 1 := by rw [← hpos]; rfl
  have hbuf : (f.put [0]).buf = f.buf.write bs.length [0] := by rw [← hpos]; rfl
  rw [hdata, hlast, hlen, hbuf]
  obtain ⟨h₀, hr₀⟩ := read_write_last hread 0
  obtain ⟨h₁, hr₁⟩ := read_write_last hr₀ 1
  obtain ⟨h₂, hr₂⟩ := read_write_last hr₁ 2
  obtain ⟨h₃, -⟩ := read_write_last hr₂ 3
  rw [h₀, h₁, h₂, h₃, read_outputs stack (by simp) (by simp) (by simp) (by simp), ofList_take]

end PtkBuffer

/-! ## Lexicographic order -/

/-- The comparison of the driver is the lexicographic one. -/
theorem aIsMax_iff_lt {a b : List UInt8} (h : a.length = b.length) :
    aIsMax a b = true ↔ b < a := by
  induction a generalizing b with
  | nil => simp [aIsMax, List.eq_nil_of_length_eq_zero h.symm]
  | cons x a ih =>
    cases b with
    | nil => simp at h
    | cons y b =>
      have hlen : a.length = b.length := by simpa using h
      unfold aIsMax
      rw [List.cons_lt_cons_iff]
      by_cases hxy : x = y
      · subst hxy
        rw [if_pos rfl, ih hlen]
        simp
      · rw [if_neg hxy, decide_eq_true_iff]
        exact ⟨Or.inl, fun h => h.resolve_right fun h => hxy h.1.symm⟩

/-- The lexicographically smaller of two strings. -/
def lexMin (a b : List UInt8) : List UInt8 := if b < a then b else a

/-- The lexicographically larger of two strings. -/
def lexMax (a b : List UInt8) : List UInt8 := if b < a then a else b

theorem getArrMin_eq_lexMin {a b : List UInt8} (h : a.length = b.length) :
    getArrMin a b = lexMin a b := by
  unfold getArrMin lexMin
  simp only [aIsMax_iff_lt h]

theorem getArrMax_eq_lexMax {a b : List UInt8} (h : a.length = b.length) :
    getArrMax a b = lexMax a b := by
  unfold getArrMax lexMax
  simp only [aIsMax_iff_lt h]

/-! ## Both sides derive the same key -/

/-- The bytes of a `ptk_keyinfo`. -/
def PtkKeyinfo.toList (k : PtkKeyinfo) : List UInt8 :=
  k.kck.toList ++ k.kek.toList ++ k.tk.toList ++ k.micTx.toList ++ k.micRx.toList

theorem PtkKeyinfo.toList_ofList {out : List UInt8} (h : 0x40 ≤ out.length) :
    (PtkKeyinfo.ofList out).toList = out.take 0x40 := by
  unfold toList ofList
  dsimp only
  have hdrop : ∀ k n, k + n ≤ 0x40 → n ≤ (out.drop k).length := fun k n hk => by
    rw [List.length_drop]
    omega
  rw [toList_arrayOf (by omega), toList_arrayOf (hdrop _ _ (by decide)),
    toList_arrayOf (hdrop _ _ (by decide)), toList_arrayOf (hdrop _ _ (by decide)),
    toList_arrayOf (hdrop _ _ (by decide)), ← List.take_add, ← List.take_add, ← List.take_add,
    ← List.take_add]

theorem toList_wpaCalcPtk (C : Crypto) (devMac apMac : Bytes 6) (devNonce apNonce : Bytes 32)
    (pmk : Bytes 0x20) :
    (wpaCalcPtk C devMac apMac devNonce apNonce pmk).toList =
      ((List.range 4).flatMap fun i =>
        (C.sha1Hmac pmk.toList (ptkData devMac apMac devNonce apNonce (.ofNat i))).toList).take
          0x40 := by
  unfold wpaCalcPtk
  dsimp only
  rw [PtkKeyinfo.toList_ofList (by simp), flatMap_range_four fun i =>
    (C.sha1Hmac pmk.toList (ptkData devMac apMac devNonce apNonce i)).toList]

/-- The input of HMAC-SHA1 does not depend on the side. -/
theorem ptkData_comm (devMac apMac : Bytes 6) (devNonce apNonce : Bytes 32) (i : UInt8) :
    ptkData devMac apMac devNonce apNonce i = ptkData apMac devMac apNonce devNonce i := by
  have hmac : apMac.toList.length = devMac.toList.length := by simp
  have hnonce : apNonce.toList.length = devNonce.toList.length := by simp
  rw [ptkData_eq, ptkData_eq, lesser_comm hmac, greater_comm hmac, lesser_comm hnonce,
    greater_comm hnonce]

theorem ptkData_eq_lex (devMac apMac : Bytes 6) (devNonce apNonce : Bytes 32) (i : UInt8) :
    ptkData devMac apMac devNonce apNonce i = pairwiseLabel ++ [0] ++
      lexMin devMac.toList apMac.toList ++ lexMax devMac.toList apMac.toList ++
      lexMin apNonce.toList devNonce.toList ++ lexMax apNonce.toList devNonce.toList ++ [i] := by
  have hmac : devMac.toList.length = apMac.toList.length := by simp
  have hnonce : apNonce.toList.length = devNonce.toList.length := by simp
  unfold ptkData
  rw [ptkLabel_eq, getArrMin_eq_lexMin hmac, getArrMax_eq_lexMax hmac, getArrMin_eq_lexMin hnonce,
    getArrMax_eq_lexMax hnonce]

/-- **Pairwise keys.** Whatever its buffers held, the key is the same for both sides and is made of
the first 64 bytes of four HMACs over the label, the addresses, the nonces and a counter, each pair
in lexicographic order; `get_arr_min` and `get_arr_max` yield two arrays of any length in that
order. -/
theorem ptk_role_symmetric (C : Crypto) (stack stack' : Mem UInt8) (devMac apMac : Bytes 6)
    (devNonce apNonce : Bytes 32) (pmk : Bytes 0x20) :
    PtkBuffer.wpaCalcPtk C stack devMac apMac devNonce apNonce pmk =
        PtkBuffer.wpaCalcPtk C stack' apMac devMac apNonce devNonce pmk ∧
      (PtkBuffer.wpaCalcPtk C stack devMac apMac devNonce apNonce pmk).toList =
        ((List.range 4).flatMap fun i => (C.sha1Hmac pmk.toList (pairwiseLabel ++ [0] ++
          lexMin devMac.toList apMac.toList ++ lexMax devMac.toList apMac.toList ++
          lexMin apNonce.toList devNonce.toList ++ lexMax apNonce.toList devNonce.toList ++
          [UInt8.ofNat i])).toList).take 64 ∧
      ∀ a b : List UInt8, a.length = b.length →
        (getArrMin a b, getArrMax a b) = if b < a then (b, a) else (a, b) := by
  rw [PtkBuffer.wpaCalcPtk_buffer, PtkBuffer.wpaCalcPtk_buffer]
  refine ⟨?_, ?_, fun a b h => ?_⟩
  · unfold wpaCalcPtk
    simp only [ptkData_comm devMac]
  · rw [toList_wpaCalcPtk]
    simp only [ptkData_eq_lex]
  · rw [getArrMin_eq_lexMin h, getArrMax_eq_lexMax h]
    unfold lexMin lexMax
    split_ifs <;> rfl

/-- Two arrays with a common first byte. -/
theorem ptk_role_symmetric_sample :
    (getArrMin [1, 2] [1, 1], getArrMax [1, 2] [1, 1]) = ([1, 1], [1, 2]) :=
  ((ptk_role_symmetric samplePlatform.crypto (fun _ => 0) (fun _ => 0) (zeros 6) (zeros 6)
    (zeros 32) (zeros 32) (zeros 0x20)).2.2 [1, 2] [1, 1] rfl).trans (if_pos (by decide))

end DsiWifi
