import DsiWifi.Lib.Mem
import Mathlib.Algebra.GroupWithZero.Nat
import Mathlib.Data.Fintype.Pi
import Mathlib.Data.List.TakeWhile

/-!
# Byte helpers

The getters and setters of `utils.h` over a flat memory of bytes, and the C string functions the
driver calls.  A fixed array `u8 x[n]` is a function `Fin n → UInt8`; a C string is the list of
its bytes before the terminator.
-/

namespace DsiWifi

/-- A fixed array of `n` bytes. -/
abbrev Bytes (n : ℕ) := Fin n → UInt8

-- the sizes whose index literals occur: slots, WEP keys, passphrases
instance neZero_three : NeZero 3 := ⟨by decide⟩

instance neZero_sixteen : NeZero 16 := ⟨by decide⟩

instance neZero_sixtyFour : NeZero 64 := ⟨by decide⟩

/-- The bytes of an array, in order. -/
abbrev Bytes.toList {n : ℕ} (x : Bytes n) : List UInt8 := List.ofFn x

/-- `memcpy` of `n` bytes at address `a` into an array. -/
def arrayAt (m : Mem UInt8) (a n : ℕ) : Bytes n := fun i => m (a + i)

/-- An array holding the first `n` bytes of a list, zero after its end. -/
def arrayOf (bs : List UInt8) (n : ℕ) : Bytes n := fun i => bs.getD i 0

/-- `memset(x, 0, n)`. -/
def zeros (n : ℕ) : Bytes n := fun _ => 0

theorem toList_arrayOf {bs : List UInt8} {n : ℕ} (h : n ≤ bs.length) :
    (arrayOf bs n).toList = bs.take n := by
  apply List.ext_getElem
  · simpa using h
  · intro i h₁ h₂
    have hi : i < bs.length := by
      rw [List.length_take] at h₂
      omega
    simp [arrayOf, hi]

/-! ## `utils.h` -/

def getle16 (m : Mem UInt8) (p : ℕ) : ℕ := (m p).toNat + 256 * (m (p + 1)).toNat

def getbe16 (m : Mem UInt8) (p : ℕ) : ℕ := 256 * (m p).toNat + (m (p + 1)).toNat

def getle32 (m : Mem UInt8) (p : ℕ) : ℕ := getle16 m p + 0x10000 * getle16 m (p + 2)

def getbe32 (m : Mem UInt8) (p : ℕ) : ℕ := 0x10000 * getbe16 m p + getbe16 m (p + 2)

def getbe64 (m : Mem UInt8) (p : ℕ) : ℕ := 0x100000000 * getbe32 m p + getbe32 m (p + 4)

def putle16 (n : ℕ) : List UInt8 := [.ofNat n, .ofNat (n / 256)]

def putle32 (n : ℕ) : List UInt8 := putle16 n ++ putle16 (n / 2 ^ 16)

def putbe16 (n : ℕ) : List UInt8 := [.ofNat (n / 256), .ofNat n]

def putbe64 (n : ℕ) : List UInt8 :=
  [.ofNat (n / 2 ^ 56), .ofNat (n / 2 ^ 48), .ofNat (n / 2 ^ 40), .ofNat (n / 2 ^ 32),
    .ofNat (n / 2 ^ 24), .ofNat (n / 2 ^ 16), .ofNat (n / 2 ^ 8), .ofNat n]

@[simp] theorem length_putle16 (n : ℕ) : (putle16 n).length = 2 := rfl

@[simp] theorem length_putbe16 (n : ℕ) : (putbe16 n).length = 2 := rfl

@[simp] theorem length_putbe64 (n : ℕ) : (putbe64 n).length = 8 := rfl

theorem getle16_of_read {m : Mem UInt8} {p n : ℕ} (h : m.read p 2 = putle16 n) (hn : n < 2 ^ 16) :
    getle16 m p = n := by
  have hread : m.read p 2 = [m p, m (p + 1)] := rfl
  rw [hread, putle16, List.cons.injEq, List.cons.injEq] at h
  unfold getle16
  rw [h.1, h.2.1, UInt8.toNat_ofNat', UInt8.toNat_ofNat']
  omega

theorem getle32_of_read {m : Mem UInt8} {p n : ℕ} (h : m.read p 4 = putle32 n) (hn : n < 2 ^ 32) :
    getle32 m p = n := by
  have hread : m.read p 4 = [m p, m (p + 1), m (p + 2), m (p + 2 + 1)] := rfl
  have hput : putle32 n =
      [.ofNat n, .ofNat (n / 256), .ofNat (n / 2 ^ 16), .ofNat (n / 2 ^ 16 / 256)] := rfl
  rw [hread, hput, List.cons.injEq, List.cons.injEq, List.cons.injEq, List.cons.injEq] at h
  unfold getle32 getle16
  rw [h.1, h.2.1, h.2.2.1, h.2.2.2.1]
  simp only [UInt8.toNat_ofNat']
  omega

/-- The bytes of some words. -/
def wordBytes (ws : List UInt32) : List UInt8 := ws.flatMap fun w => putle32 w.toNat

theorem wordBytes_append (ws vs : List UInt32) :
    wordBytes (ws ++ vs) = wordBytes ws ++ wordBytes vs := List.flatMap_append

theorem length_wordBytes (ws : List UInt32) : (wordBytes ws).length = 4 * ws.length := by
  induction ws with
  | nil => rfl
  | cons w ws ih =>
    unfold wordBytes at ih ⊢
    rw [List.flatMap_cons, List.length_append, ih, List.length_cons]
    show 4 + _ = _
    omega

/-- `round_up(x, n)` for a power of two `n`. -/
def roundUp (x n : ℕ) : ℕ := (x + (n - 1)) / n * n

/-! ## Packet buffers -/

/-- `DATA_BUF_LEN`, the size of a slot of the packet rings. -/
def dataBufLen : ℕ := 0x600

/-- The bytes of `0xF00FF00F` in memory, which mark a slot as free. -/
def marker : List UInt8 := [0x0F, 0xF0, 0x0F, 0xF0]

/-! ## C strings -/

/-- The C string at the start of a buffer. -/
def cstr (buf : List UInt8) : List UInt8 := buf.takeWhile (· ≠ 0)

/-- `strncpy(dst, src, n)` where `src` lists the `n` bytes at the source: the string is copied and
padded with zeros up to `n`; the rest of `dst` stays. -/
def strncpy (dst src : List UInt8) : List UInt8 :=
  cstr src ++ List.replicate (src.length - (cstr src).length) 0 ++ dst.drop src.length

/-- A string ends at the first zero byte, or with the buffer. -/
theorem cstr_eq_iff {buf w : List UInt8} :
    cstr buf = w ↔ 0 ∉ w ∧ (buf = w ∨ ∃ t, buf = w ++ 0 :: t) := by
  constructor
  · rintro rfl
    refine ⟨fun h => by simpa using List.all_eq_true.1 List.all_takeWhile 0 h, ?_⟩
    have hsplit : cstr buf ++ buf.dropWhile (· ≠ 0) = buf := List.takeWhile_append_dropWhile
    have hhead := List.head?_dropWhile_not (fun b : UInt8 => decide (b ≠ 0)) buf
    rcases hrest : buf.dropWhile (· ≠ 0) with _ | ⟨b, t⟩
    · left
      rw [hrest, List.append_nil] at hsplit
      exact hsplit.symm
    · right
      rw [hrest] at hhead
      have hb : b = 0 := by simpa using hhead
      rw [hrest, hb] at hsplit
      exact ⟨t, hsplit.symm⟩
  · rintro ⟨hw, h⟩
    have hpos : ∀ b ∈ w, decide (b ≠ 0) = true := fun b hb => by
      simpa using fun h : b = 0 => hw (h ▸ hb)
    unfold cstr
    rcases h with rfl | ⟨t, rfl⟩
    · exact List.takeWhile_eq_self_iff.2 hpos
    · rw [List.takeWhile_append_of_pos hpos, List.takeWhile_cons_of_neg (by decide),
        List.append_nil]

/-- A terminator behind a buffer. -/
theorem cstr_append_zero (buf : List UInt8) : cstr (buf ++ [0]) = cstr buf := by
  obtain ⟨w, hw⟩ : ∃ w, cstr buf = w := ⟨_, rfl⟩
  rw [hw]
  obtain ⟨hzero, rfl | ⟨t, rfl⟩⟩ := cstr_eq_iff.1 hw
  · exact cstr_eq_iff.2 ⟨hzero, Or.inr ⟨[], rfl⟩⟩
  · exact cstr_eq_iff.2 ⟨hzero, Or.inr ⟨t ++ [0], List.append_assoc _ _ _⟩⟩

/-- A string and its padding. -/
theorem cstr_append_replicate {w : List UInt8} (h : 0 ∉ w) (k : ℕ) :
    cstr (w ++ List.replicate k 0) = w := by
  refine cstr_eq_iff.2 ⟨h, ?_⟩
  cases k with
  | zero => exact Or.inl (List.append_nil _)
  | succ k => exact Or.inr ⟨List.replicate k 0, rfl⟩

/-- A string that is copied to a buffer of zeros can be read back. -/
theorem cstr_strncpy (n : ℕ) (src : List UInt8) :
    cstr (strncpy (List.replicate n 0) src) = cstr src := by
  obtain ⟨hzero, -⟩ := cstr_eq_iff.1 (rfl : cstr src = cstr src)
  unfold strncpy
  rw [List.append_assoc, List.drop_replicate, List.replicate_append_replicate]
  exact cstr_append_replicate hzero _

/-- Overwrite `bs` in a buffer from offset `k` on. -/
def overwrite (buf : List UInt8) (k : ℕ) (bs : List UInt8) : List UInt8 :=
  buf.take k ++ bs ++ buf.drop (k + bs.length)

/-- Overwriting a part of a concatenation. -/
theorem overwrite_append {a b c bs : List UInt8} {k : ℕ} (ha : a.length = k)
    (hb : b.length = bs.length) : overwrite (a ++ (b ++ c)) k bs = a ++ (bs ++ c) := by
  unfold overwrite
  rw [List.take_left' ha, ← ha, ← hb, List.drop_length_add_append, List.drop_left,
    List.append_assoc]

/-- Overwriting behind the first part of a concatenation. -/
theorem overwrite_skip {a l bs : List UInt8} {k n : ℕ} (ha : a.length = n) (hk : n ≤ k) :
    overwrite (a ++ l) k bs = a ++ overwrite l (k - n) bs := by
  unfold overwrite
  rw [List.take_append, List.drop_append, ha, List.take_of_length_le (by omega),
    List.drop_of_length_le (by omega), List.nil_append, List.append_assoc, List.append_assoc,
    List.append_assoc, show k + bs.length - n = k - n + bs.length by omega]

/-- Overwriting the first part of a concatenation. -/
theorem overwrite_zero {b c bs : List UInt8} {n : ℕ} (hb : b.length = n) (hbs : bs.length = n) :
    overwrite (b ++ c) 0 bs = bs ++ c := by
  unfold overwrite
  rw [List.take_zero, List.nil_append, Nat.zero_add, hbs, List.drop_left' hb]

theorem getD_overwrite (buf bs : List UInt8) {k i : ℕ} (hk : i < k) (hi : i < buf.length) :
    (overwrite buf k bs).getD i 0 = buf.getD i 0 := by
  have hlen : i < (buf.take k).length := by
    rw [List.length_take]
    omega
  unfold overwrite
  rw [List.append_assoc, List.getD_eq_getElem?_getD, List.getD_eq_getElem?_getD,
    List.getElem?_append_left hlen, List.getElem?_take_of_lt hk]

end DsiWifi
