import Mathlib.Data.Finset.Card
import Mathlib.Data.Nat.Bitwise
import Mathlib.Order.Interval.Finset.Nat

/-!
# Tables filled by a loop

`storeAll f v n t` is the array after `t[f i] = v i` for `i` from 0 to `n - 1`.  An entry that no later
round overwrites keeps its value (`storeAll_apply`).  Whether the places are pairwise different can be
computed in one pass over a set of bits (`nodup_of_distinct`), and a list of different numbers that
fill a range has them all (`mem_of_nodup`).
-/

namespace Table

variable {α : Type*}

/-- `for (i = 0; i < n; i++) t[f i] = v i`. -/
def storeAll (f : ℕ → ℕ) (v : ℕ → α) : ℕ → (ℕ → α) → ℕ → α
  | 0, t => t
  | n + 1, t => fun x => if x = f n then v n else storeAll f v n t x

variable {f : ℕ → ℕ} {v : ℕ → α} {n k : ℕ} {t : ℕ → α}

theorem storeAll_apply (hk : k < n) (hlast : ∀ j, k < j → j < n → f j ≠ f k) :
    storeAll f v n t (f k) = v k := by
  induction n with
  | zero => omega
  | succ n ih =>
    show (if f k = f n then v n else storeAll f v n t (f k)) = v k
    rcases Nat.lt_succ_iff_lt_or_eq.1 hk with hlt | rfl
    · rw [if_neg fun h => hlast n hlt (Nat.lt_succ_self n) h.symm,
        ih hlt fun j hj hjn => hlast j hj (Nat.lt_succ_of_lt hjn)]
    · rw [if_pos rfl]

/-- No number of the list is a bit of `m` or occurs twice. -/
def distinct : ℕ → List ℕ → Bool
  | _, [] => true
  | m, x :: l => !m.testBit x && distinct (m ||| 2 ^ x) l

theorem distinct_spec {m : ℕ} {l : List ℕ} (h : distinct m l = true) :
    l.Nodup ∧ ∀ x ∈ l, m.testBit x = false := by
  induction l generalizing m with
  | nil => exact ⟨List.nodup_nil, fun x hx => absurd hx (List.not_mem_nil)⟩
  | cons x l ih =>
    rw [distinct, Bool.and_eq_true, Bool.not_eq_true'] at h
    obtain ⟨hnodup, hbits⟩ := ih h.2
    have hbits' : ∀ y ∈ l, m.testBit y = false ∧ x ≠ y := by
      intro y hy
      have hy' := hbits y hy
      rw [Nat.testBit_or, Bool.or_eq_false_iff, Nat.testBit_two_pow, decide_eq_false_iff_not] at hy'
      exact hy'
    refine ⟨List.nodup_cons.2 ⟨fun hx => (hbits' x hx).2 rfl, hnodup⟩, ?_⟩
    intro y hy
    rcases List.mem_cons.1 hy with rfl | hy
    · exact h.1
    · exact (hbits' y hy).1

theorem nodup_of_distinct {l : List ℕ} (h : distinct 0 l = true) : l.Nodup := (distinct_spec h).1

/-- Different numbers from 1 to `n`, as many as there are. -/
theorem mem_of_nodup {l : List ℕ} (hl : l.Nodup) (hrange : ∀ x ∈ l, 1 ≤ x ∧ x ≤ n)
    (hlen : l.length = n) {x : ℕ} (hx : 1 ≤ x) (hx' : x ≤ n) : x ∈ l := by
  have hsub : l.toFinset ⊆ Finset.Icc 1 n := fun y hy =>
    Finset.mem_Icc.2 (hrange y (List.mem_toFinset.1 hy))
  have hcard : (Finset.Icc 1 n).card ≤ l.toFinset.card := by
    rw [List.toFinset_card_of_nodup hl, hlen, Nat.card_Icc]
    omega
  have hall := Finset.eq_of_subset_of_card_le hsub hcard
  rw [← List.mem_toFinset, hall]
  exact Finset.mem_Icc.2 ⟨hx, hx'⟩

end Table
