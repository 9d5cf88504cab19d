import Mathlib.Data.Nat.ModEq
import Mathlib.Tactic.Ring

/-!
# One's-complement sums

Sums of two-digit words in which the carry out of the top digit comes back in at the bottom.  Numbers
are compared by `Same N`: congruent modulo `N`, and both zero or neither.  A number at most `N` is
determined by its class (`Same.eq_of_le`), so a computation that folds its carries late gives what
one that adds with `add N` at every word gives.

The base `b` of the digits is arbitrary; a word has two digits and `N` is `b * b - 1`.  Exchanging
the digits of a word multiplies it by `b` (`same_swap`), and doing so twice changes nothing, which is
why the order of the digits and the place where a string is cut do not matter.
-/

namespace OnesComplement

/-! ## Classes -/

/-- The same one's-complement number. -/
structure Same (N a b : ℕ) : Prop where
  zero_iff : a = 0 ↔ b = 0
  modEq : a ≡ b [MOD N]

variable {B N a b c d n w : ℕ}

theorem Same.refl (N a : ℕ) : Same N a a := ⟨Iff.rfl, Nat.ModEq.refl a⟩

theorem Same.symm (h : Same N a b) : Same N b a := ⟨h.zero_iff.symm, h.modEq.symm⟩

theorem Same.trans (h : Same N a b) (h' : Same N b c) : Same N a c :=
  ⟨h.zero_iff.trans h'.zero_iff, h.modEq.trans h'.modEq⟩

theorem Same.add (h : Same N a b) (h' : Same N c d) : Same N (a + c) (b + d) :=
  ⟨by rw [Nat.add_eq_zero_iff, Nat.add_eq_zero_iff, h.zero_iff, h'.zero_iff], h.modEq.add h'.modEq⟩

theorem Same.mul_left (c : ℕ) (h : Same N a b) : Same N (c * a) (c * b) :=
  ⟨by rw [Nat.mul_eq_zero, Nat.mul_eq_zero, h.zero_iff], h.modEq.mul_left c⟩

/-- Numbers that differ by a multiple of `N` and are zero together. -/
theorem same_of_eq_add_mul {k : ℕ} (h : a = b + N * k) (hzero : b = 0 → a = 0) : Same N a b := by
  refine ⟨⟨fun ha => ?_, hzero⟩, ?_⟩
  · omega
  · rw [h]
    exact Nat.add_modulus_mul_modEq_iff.2 rfl

/-- A class has one member from 0 to `N`. -/
theorem Same.eq_of_le (h : Same N a b) (ha : a ≤ N) (hb : b ≤ N) : a = b := by
  rcases Nat.eq_zero_or_pos a with h0 | hpos
  · rw [h0, h.zero_iff.1 h0]
  · have hpos' : 0 < b := Nat.pos_of_ne_zero fun h0 => hpos.ne' (h.zero_iff.2 h0)
    have hpred : a - 1 ≡ b - 1 [MOD N] := by
      apply Nat.ModEq.add_right_cancel' 1
      rw [Nat.sub_add_cancel hpos, Nat.sub_add_cancel hpos']
      exact h.modEq
    have := hpred.eq_of_lt_of_lt (by omega) (by omega)
    omega

/-! ## Addition -/

/-- One's-complement addition. -/
def add (N a b : ℕ) : ℕ := if N < a + b then a + b - N else a + b

theorem add_le (ha : a ≤ N) (hb : b ≤ N) : add N a b ≤ N := by
  unfold add
  split_ifs <;> omega

theorem same_add (N a b : ℕ) : Same N (add N a b) (a + b) := by
  unfold add
  split_ifs with h
  · apply Same.symm
    apply same_of_eq_add_mul (k := 1)
    · omega
    · omega
  · exact Same.refl N _

/-! ## Folding and exchanging digits -/

/-- The part of `n` above one word, added to the part within. -/
def fold (B n : ℕ) : ℕ := n / B + n % B

theorem same_fold (hB : 0 < B) (n : ℕ) : Same (B - 1) (fold B n) n := by
  have hdiv := Nat.div_add_mod n B
  have hB' : B * (n / B) = n / B + (B - 1) * (n / B) := by
    obtain ⟨k, rfl⟩ := Nat.exists_eq_add_of_le' hB
    rw [Nat.add_sub_cancel, Nat.add_one_mul, Nat.add_comm]
  apply Same.symm
  apply same_of_eq_add_mul (k := n / B)
  · unfold fold
    omega
  · intro h
    obtain ⟨hq, hr⟩ := Nat.add_eq_zero_iff.1 h
    rw [← hdiv, hq, hr, Nat.mul_zero]

/-- The two digits of a word exchanged. -/
def swap (b w : ℕ) : ℕ := w % b * b + w / b

theorem same_sq_mul (hb : 0 < b) (n : ℕ) : Same (b * b - 1) (b * (b * n)) n := by
  have hpos : 0 < b * b := Nat.mul_pos hb hb
  apply same_of_eq_add_mul (k := n)
  · rw [← Nat.mul_assoc, Nat.sub_mul, Nat.one_mul]
    have := Nat.le_mul_of_pos_left n hpos
    omega
  · rintro rfl
    rfl

theorem same_swap (hb : 0 < b) (w : ℕ) : Same (b * b - 1) (swap b w) (b * w) := by
  have hsplit : b * w = w % b * b + b * (b * (w / b)) := by
    have hdiv := Nat.div_add_mod w b
    calc b * w = b * (b * (w / b) + w % b) := by rw [hdiv]
      _ = w % b * b + b * (b * (w / b)) := by ring
  rw [hsplit]
  exact (Same.refl _ _).add (same_sq_mul hb _).symm

/-! ## Sums of a string of digits -/

/-- The sum of the words of a string, the first digit of a word least significant.  A digit left
over at the end is a word by itself. -/
def sumLe (b : ℕ) : List ℕ → ℕ
  | [] => 0
  | [x] => x
  | x :: y :: l => x + b * y + sumLe b l

/-- The same with the first digit most significant, added in one's complement. -/
def sumBe (b : ℕ) : List ℕ → ℕ
  | [] => 0
  | [x] => b * x
  | x :: y :: l => add (b * b - 1) (b * x + y) (sumBe b l)

theorem same_sumLe_cons (hb : 0 < b) (x : ℕ) (l : List ℕ) :
    Same (b * b - 1) (sumLe b (x :: l)) (x + b * sumLe b l) := by
  induction l using sumLe.induct generalizing x with
  | case1 => exact Same.refl _ _
  | case2 y => exact Same.refl _ _
  | case3 y z l ih =>
    have htail : b * sumLe b (y :: z :: l) = b * y + (b * (b * z) + b * sumLe b l) := by
      rw [sumLe]
      ring
    have hhead : sumLe b (x :: y :: z :: l) = x + b * y + sumLe b (z :: l) := rfl
    rw [hhead, htail, Nat.add_assoc]
    apply (Same.refl _ x).add
    apply (Same.refl _ (b * y)).add
    exact (ih z).trans ((same_sq_mul hb z).symm.add (Same.refl _ _))

/-- The sum of a concatenation: the second part counts as if its words were exchanged when the first
has an odd number of digits. -/
theorem same_sumLe_append (hb : 0 < b) (l l' : List ℕ) :
    Same (b * b - 1) (sumLe b (l ++ l')) (sumLe b l + b ^ l.length * sumLe b l') := by
  induction l with
  | nil =>
    rw [List.nil_append, List.length_nil, Nat.pow_zero, Nat.one_mul, sumLe, Nat.zero_add]
    exact Same.refl _ _
  | cons x l ih =>
    have hmul : b * (sumLe b l + b ^ l.length * sumLe b l') =
        b * sumLe b l + b ^ (x :: l).length * sumLe b l' := by
      rw [List.length_cons]
      ring
    have h : Same (b * b - 1) (sumLe b (x :: l ++ l'))
        (x + (b * sumLe b l + b ^ (x :: l).length * sumLe b l')) := by
      rw [← hmul]
      exact (same_sumLe_cons hb x (l ++ l')).trans ((Same.refl _ x).add (ih.mul_left b))
    rw [← Nat.add_assoc] at h
    exact h.trans ((same_sumLe_cons hb x l).symm.add (Same.refl _ _))

/-- The sums of the two digit orders differ by the exchange of digits. -/
theorem same_sumBe (hb : 0 < b) (l : List ℕ) :
    Same (b * b - 1) (sumBe b l) (b * sumLe b l) := by
  induction l using sumBe.induct with
  | case1 => exact Same.refl _ _
  | case2 y => exact Same.refl _ _
  | case3 x y l ih =>
    have hmul : b * sumLe b (x :: y :: l) = b * x + b * (b * y) + b * sumLe b l := by
      rw [sumLe]
      ring
    rw [hmul]
    refine (same_add _ _ _).trans (Same.add ?_ ih)
    exact (Same.refl _ _).add (same_sq_mul hb y).symm

theorem sumBe_le (hb : 0 < b) {l : List ℕ} (hl : ∀ x ∈ l, x < b) : sumBe b l ≤ b * b - 1 := by
  have hword : ∀ x < b, ∀ y < b, b * x + y ≤ b * b - 1 := by
    intro x hx y hy
    have : b * (x + 1) ≤ b * b := Nat.mul_le_mul_left b hx
    rw [Nat.mul_add_one] at this
    omega
  induction l using sumBe.induct with
  | case1 => exact Nat.zero_le _
  | case2 x => exact hword x (hl x (List.mem_singleton_self x)) 0 hb
  | case3 x y l ih =>
    apply add_le
    · exact hword x (hl x (by simp)) y (hl y (by simp))
    · exact ih fun z hz => hl z (by simp [hz])

end OnesComplement
