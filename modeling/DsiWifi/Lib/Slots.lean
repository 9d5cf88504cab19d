import DsiWifi.Lib.Mem

/-!
# Slots of a buffer

A buffer divided into slots of `size` cells, slot `j` at `base + size * j`.  Writes inside a slot
are not seen in other slots, nor in another part of the same slot; a mark is a short write at the
start of a slot.
-/

namespace Slots

variable {β : Type*} {base size : ℕ}

/-- The address of slot `j`. -/
def addr (base size j : ℕ) : ℕ := base + size * j

/-- Slots do not overlap. -/
theorem addr_add_le_of_lt {j k : ℕ} (h : j < k) : addr base size j + size ≤ addr base size k := by
  have hmul : size * (j + 1) ≤ size * k := Nat.mul_le_mul_left size h
  rw [Nat.mul_succ] at hmul
  unfold addr
  omega

/-- A write inside slot `k` is not seen inside slot `j`. -/
theorem read_write_of_ne (m : Mem β) {j k off off' n : ℕ} {bs : List β} (hjk : j ≠ k)
    (hn : off + n ≤ size) (hbs : off' + bs.length ≤ size) :
    (m.write (addr base size k + off') bs).read (addr base size j + off) n =
      m.read (addr base size j + off) n := by
  apply Mem.read_write_of_disjoint
  rcases Nat.lt_or_gt_of_ne hjk with h | h
  · have hle : addr base size j + size ≤ addr base size k := addr_add_le_of_lt h
    omega
  · have hle : addr base size k + size ≤ addr base size j := addr_add_le_of_lt h
    omega

/-- A mark of slot `k` is not seen behind the start of slot `j`. -/
theorem read_write_mark (m : Mem β) {j k off n : ℕ} {bs : List β} (hbs : bs.length ≤ off)
    (hn : off + n ≤ size) :
    (m.write (addr base size k) bs).read (addr base size j + off) n =
      m.read (addr base size j + off) n := by
  by_cases hjk : j = k
  · subst hjk
    exact Mem.read_write_of_disjoint m (Or.inr (by omega))
  · exact read_write_of_ne m hjk hn (show 0 + bs.length ≤ size by omega)

/-- Mark the first `n` slots. -/
def markAll (base size : ℕ) (bs : List β) : ℕ → Mem β → Mem β
  | 0, m => m
  | n + 1, m => (markAll base size bs n m).write (addr base size n) bs

theorem read_markAll (m : Mem β) {j off len : ℕ} {bs : List β} (hbs : bs.length ≤ off)
    (hn : off + len ≤ size) (n : ℕ) :
    (markAll base size bs n m).read (addr base size j + off) len =
      m.read (addr base size j + off) len := by
  induction n with
  | zero => rfl
  | succ n ih => rw [markAll, read_write_mark _ hbs hn, ih]

end Slots
