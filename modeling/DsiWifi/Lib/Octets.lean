import Mathlib.Data.List.Basic
import Mathlib.Data.Nat.Notation
import Mathlib.Tactic.Ring

/-!
# Byte strings

The number a byte string spells with its first byte most significant, the smaller and the larger of
two strings by that number, and slices of a concatenation.
-/

namespace Octets

/-! ## Numbers -/

/-- The number the bytes spell, the first byte most significant. -/
def value : List UInt8 → ℕ
  | [] => 0
  | b :: bs => b.toNat * 256 ^ bs.length + value bs

theorem value_cons (b : UInt8) (bs : List UInt8) :
    value (b :: bs) = b.toNat * 256 ^ bs.length + value bs := rfl

theorem value_lt (bs : List UInt8) : value bs < 256 ^ bs.length := by
  induction bs with
  | nil => simp [value]
  | cons b bs ih =>
    have hb : b.toNat + 1 ≤ 256 := b.toNat_lt
    calc value (b :: bs) < b.toNat * 256 ^ bs.length + 256 ^ bs.length := by
          rw [value_cons]
          omega
      _ = (b.toNat + 1) * 256 ^ bs.length := by ring
      _ ≤ 256 * 256 ^ bs.length := Nat.mul_le_mul_right _ hb
      _ = 256 ^ (b :: bs).length := by rw [List.length_cons, Nat.pow_succ, Nat.mul_comm]

/-- The first byte decides between strings of the same length. -/
theorem value_cons_lt {a b : UInt8} {as bs : List UInt8} (hlen : as.length = bs.length)
    (h : a < b) : value (a :: as) < value (b :: bs) := by
  have hab : a.toNat + 1 ≤ b.toNat := h
  have hlt := value_lt as
  calc value (a :: as) < a.toNat * 256 ^ as.length + 256 ^ as.length := by
        rw [value_cons]
        omega
    _ = (a.toNat + 1) * 256 ^ bs.length := by rw [hlen]; ring
    _ ≤ b.toNat * 256 ^ bs.length := Nat.mul_le_mul_right _ hab
    _ ≤ value (b :: bs) := Nat.le_add_right _ _

theorem value_cons_lt_iff {b : UInt8} {as bs : List UInt8} (hlen : as.length = bs.length) :
    value (b :: as) < value (b :: bs) ↔ value as < value bs := by
  rw [value_cons, value_cons, hlen]
  omega

/-- Strings of the same length that spell the same number are equal. -/
theorem eq_of_value_eq {as bs : List UInt8} (hlen : as.length = bs.length)
    (h : value as = value bs) : as = bs := by
  induction as generalizing bs with
  | nil => exact (List.eq_nil_of_length_eq_zero hlen.symm).symm
  | cons a as ih =>
    cases bs with
    | nil => simp at hlen
    | cons b bs =>
      have hlen' : as.length = bs.length := by simpa using hlen
      have hab : a = b := by
        by_contra hne
        rcases UInt8.lt_or_lt_of_ne hne with hlt | hlt
        · exact absurd h (value_cons_lt hlen' hlt).ne
        · exact absurd h (value_cons_lt hlen'.symm hlt).ne'
      subst hab
      have htail : value as = value bs := by
        rw [value_cons, value_cons, hlen'] at h
        omega
      rw [ih hlen' htail]

/-- The string that spells the smaller number. -/
def lesser (a b : List UInt8) : List UInt8 := if value a ≤ value b then a else b

/-- The string that spells the larger number. -/
def greater (a b : List UInt8) : List UInt8 := if value a ≤ value b then b else a

theorem lesser_comm {a b : List UInt8} (hlen : a.length = b.length) :
    lesser a b = lesser b a := by
  unfold lesser
  rcases Nat.lt_trichotomy (value a) (value b) with h | h | h
  · rw [if_pos h.le, if_neg (by omega)]
  · rw [eq_of_value_eq hlen h]
  · rw [if_neg (by omega), if_pos h.le]

theorem greater_comm {a b : List UInt8} (hlen : a.length = b.length) :
    greater a b = greater b a := by
  unfold greater
  rcases Nat.lt_trichotomy (value a) (value b) with h | h | h
  · rw [if_pos h.le, if_neg (by omega)]
  · rw [eq_of_value_eq hlen h]
  · rw [if_neg (by omega), if_pos h.le]

/-! ## Slices -/

/-- The `n` bytes from offset `k` on. -/
def slice (bs : List UInt8) (k n : ℕ) : List UInt8 := (bs.drop k).take n

/-- A part of a concatenation, by the lengths of what stands before it. -/
theorem slice_append {a b c : List UInt8} {k n : ℕ} (ha : a.length = k) (hb : b.length = n) :
    slice (a ++ (b ++ c)) k n = b := by
  unfold slice
  rw [List.drop_left' ha, List.take_left' hb]

end Octets
