import Mathlib.Data.List.Basic
import Mathlib.Data.Nat.Notation

/-!
# Consuming a stream in blocks

A function that works on blocks of `n` elements is fed a stream in pieces of any size.  What has been
fed so far determines the state and the elements that wait for the rest of their block (`absorb`);
feeding a piece later, with the waiting elements in front, is feeding the concatenation
(`absorb_append`).
-/

namespace Blocks

variable {S β : Type*} (n : ℕ) (f : S → List β → S)

/-- Consume whole blocks while there are any: the state reached and what is left over. -/
def absorb (s : S) (l : List β) : S × List β :=
  if _h : 0 < n ∧ n ≤ l.length then absorb (f s (l.take n)) (l.drop n) else (s, l)
termination_by l.length
decreasing_by
  rw [List.length_drop]
  omega

variable {n f} {s : S} {l l' : List β}

theorem absorb_of_lt (h : l.length < n) : absorb n f s l = (s, l) := by
  rw [absorb, dif_neg (by omega)]

theorem absorb_of_le (hn : 0 < n) (h : n ≤ l.length) :
    absorb n f s l = absorb n f (f s (l.take n)) (l.drop n) := by
  rw [absorb, dif_pos ⟨hn, h⟩]

theorem absorb_block_append (hn : 0 < n) (h : l.length = n) :
    absorb n f s (l ++ l') = absorb n f (f s l) l' := by
  rw [absorb_of_le hn (by rw [List.length_append]; omega), List.take_left' h, List.drop_left' h]

theorem absorb_block (hn : 0 < n) (h : l.length = n) : absorb n f s l = (f s l, []) := by
  have h' : absorb n f s (l ++ []) = absorb n f (f s l) [] := absorb_block_append hn h
  rw [List.append_nil] at h'
  rw [h', absorb_of_lt hn]

/-- Feeding a stream in two pieces. -/
theorem absorb_append (hn : 0 < n) (s : S) (l l' : List β) :
    absorb n f s (l ++ l') = absorb n f (absorb n f s l).1 ((absorb n f s l).2 ++ l') := by
  induction s, l using absorb.induct n f with
  | case1 s l h ih =>
    have happ : n ≤ (l ++ l').length := by
      rw [List.length_append]
      omega
    rw [absorb_of_le hn h.2, absorb_of_le hn happ, List.take_append_of_le_length h.2,
      List.drop_append_of_le_length h.2]
    exact ih
  | case2 s l h => rw [absorb_of_lt (l := l) (by omega)]

/-- Only what a function does with whole blocks matters. -/
theorem absorb_congr {g : S → List β → S} (h : ∀ s b, b.length = n → f s b = g s b) (s : S)
    (l : List β) : absorb n f s l = absorb n g s l := by
  induction s, l using absorb.induct n f with
  | case1 s l hl ih =>
    have hblock : (l.take n).length = n := List.length_take_of_le hl.2
    rw [absorb_of_le hl.1 hl.2, absorb_of_le hl.1 hl.2, ← h s _ hblock]
    exact ih
  | case2 s l hl =>
    rw [absorb, dif_neg hl, absorb, dif_neg hl]

/-- The elements left over are fewer than a block. -/
theorem length_absorb (hn : 0 < n) (s : S) (l : List β) :
    (absorb n f s l).2.length = l.length % n := by
  induction s, l using absorb.induct n f with
  | case1 s l h ih =>
    rw [absorb_of_le hn h.2, ih, List.length_drop]
    exact (Nat.mod_eq_sub_mod h.2).symm
  | case2 s l h =>
    have hlt : l.length < n := by omega
    rw [absorb_of_lt hlt, Nat.mod_eq_of_lt hlt]

end Blocks
