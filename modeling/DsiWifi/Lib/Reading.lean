import DsiWifi.Lib.Mem

/-!
# Reading computations

A `Reading ι β α` looks at cells of type `β`, named by `ι`, one after the other, and each look may
depend on what was seen before.  Given the contents of the cells it has a result (`run`) and a list
of the cells it looked at (`reads`).  `Within m Q x` says that `x` only looks at cells in `Q`; for a
computation in sequence it splits into its parts (`within_bind`).
-/

/-- A computation that looks at cells. -/
inductive Reading (ι β α : Type)
  | done (a : α)
  | look (i : ι) (k : β → Reading ι β α)

namespace Reading

variable {ι β α γ : Type} (m : ι → β)

/-- One computation after the other. -/
def bind : Reading ι β α → (α → Reading ι β γ) → Reading ι β γ
  | done a, f => f a
  | look i k, f => look i fun b => (k b).bind f

instance : Monad (Reading ι β) where
  pure := done
  bind := bind

/-- The contents of one cell. -/
def cell (i : ι) : Reading ι β β := look i done

/-- The result, when the cells hold `m`. -/
def run : Reading ι β α → α
  | done a => a
  | look i k => (k (m i)).run

/-- The cells that are looked at, in order. -/
def reads : Reading ι β α → List ι
  | done _ => []
  | look i k => i :: (k (m i)).reads

@[simp] theorem run_pure (a : α) : (pure a : Reading ι β α).run m = a := rfl

@[simp] theorem run_cell (i : ι) : (cell i).run m = m i := rfl

@[simp] theorem reads_cell (i : ι) : (cell i).reads m = [i] := rfl

@[simp] theorem run_bind (x : Reading ι β α) (f : α → Reading ι β γ) :
    (x >>= f).run m = (f (x.run m)).run m := by
  induction x with
  | done a => rfl
  | look i k ih => exact ih (m i)

@[simp] theorem reads_bind (x : Reading ι β α) (f : α → Reading ι β γ) :
    (x >>= f).reads m = x.reads m ++ (f (x.run m)).reads m := by
  induction x with
  | done a => rfl
  | look i k ih => exact congrArg (List.cons i) (ih (m i))

/-! ## Bounds -/

/-- The computation only looks at cells in `Q`. -/
def Within (Q : ι → Prop) (x : Reading ι β α) : Prop := ∀ i ∈ x.reads m, Q i

variable {m} {Q : ι → Prop}

@[simp] theorem within_pure (a : α) : Within m Q (pure a : Reading ι β α) := by
  intro i hi
  exact absurd hi List.not_mem_nil

@[simp] theorem within_cell (i : ι) : Within m Q (cell i) ↔ Q i := by
  unfold Within
  rw [reads_cell, List.forall_mem_singleton]

@[simp] theorem within_bind (x : Reading ι β α) (f : α → Reading ι β γ) :
    Within m Q (x >>= f) ↔ Within m Q x ∧ Within m Q (f (x.run m)) := by
  unfold Within
  rw [reads_bind, List.forall_mem_append]

/-! ## Blocks -/

/-- The `n` cells from address `a` on. -/
def block (a : ℕ) : ℕ → Reading ℕ β (List β)
  | 0 => pure []
  | n + 1 => do
    let b ← cell a
    let bs ← block (a + 1) n
    pure (b :: bs)

@[simp] theorem run_block (m : Mem β) (a n : ℕ) : (block a n).run m = m.read a n := by
  induction n generalizing a with
  | zero => rfl
  | succ n ih =>
    unfold block
    rw [run_bind, run_cell, run_bind, run_pure, ih, Mem.read_succ]

theorem within_block {m : Mem β} {stop : ℕ} (a n : ℕ) :
    Within m (· < stop) (block a n) ↔ n = 0 ∨ a + n ≤ stop := by
  induction n generalizing a with
  | zero => exact iff_of_true (within_pure _) (Or.inl rfl)
  | succ n ih =>
    unfold block
    rw [within_bind, within_cell, within_bind, ih, and_iff_left (within_pure _)]
    omega

/-- The steps of a search that goes on while `P` holds: the first, and then those behind it. -/
theorem forall_search_succ {P R : ℕ → Prop} {n : ℕ} :
    (∀ j < n + 1, (∀ k < j, P k) → R j) ↔
      R 0 ∧ (P 0 → ∀ j < n, (∀ k < j, P (k + 1)) → R (j + 1)) := by
  constructor
  · intro h
    refine ⟨h 0 (by omega) fun k hk => absurd hk (Nat.not_lt_zero k), fun h₀ j hj hP => ?_⟩
    refine h (j + 1) (by omega) fun k hk => ?_
    cases k with
    | zero => exact h₀
    | succ k => exact hP k (by omega)
  · rintro ⟨h₀, h⟩ j hj hP
    cases j with
    | zero => exact h₀
    | succ j => exact h (hP 0 (by omega)) j (by omega) fun k hk => hP (k + 1) (by omega)

end Reading
