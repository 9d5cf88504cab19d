import Mathlib.Data.Nat.Notation

/-!
# A loop and the loop that undoes it

`up f n` does the steps `f 1` up to `f n`, `down g n` the steps `g n` down to `g 1`.  When each `g t`
undoes `f t` on the states that satisfy an invariant, the second loop undoes the first.
-/

namespace Undo

variable {α β : Type*}

/-- `for (t = 1; t <= n; t++)`. -/
def up (f : ℕ → α → α) : ℕ → α → α
  | 0, x => x
  | n + 1, x => f (n + 1) (up f n x)

/-- `for (t = n; t >= 1; t--)`. -/
def down (g : ℕ → α → α) : ℕ → α → α
  | 0, x => x
  | n + 1, x => down g n (g (n + 1) x)

variable {f g : ℕ → α → α} {P : α → Prop}

theorem up_inv (hf : ∀ t x, P x → P (f t x)) (n : ℕ) {x : α} (hx : P x) : P (up f n x) := by
  induction n with
  | zero => exact hx
  | succ n ih => exact hf (n + 1) _ ih

theorem down_inv (hg : ∀ t x, P x → P (g t x)) (n : ℕ) {x : α} (hx : P x) : P (down g n x) := by
  induction n generalizing x with
  | zero => exact hx
  | succ n ih => exact ih (hg (n + 1) x hx)

theorem down_up (hf : ∀ t x, P x → P (f t x)) (hgf : ∀ t x, P x → g t (f t x) = x) (n : ℕ) {x : α}
    (hx : P x) : down g n (up f n x) = x := by
  induction n with
  | zero => rfl
  | succ n ih => rw [up, down, hgf (n + 1) _ (up_inv hf n hx), ih]

theorem up_down (hg : ∀ t x, P x → P (g t x)) (hfg : ∀ t x, P x → f t (g t x) = x) (n : ℕ) {x : α}
    (hx : P x) : up f n (down g n x) = x := by
  induction n generalizing x with
  | zero => rfl
  | succ n ih => rw [down, up, ih (hg (n + 1) x hx), hfg (n + 1) x hx]

/-- Steps that agree up to a change of the state, on the states of an invariant. -/
theorem down_conj {g' : ℕ → β → β} {φ : α → β} (hg : ∀ t x, P x → P (g t x))
    (h : ∀ t x, P x → g' t (φ x) = φ (g t x)) (n : ℕ) {x : α} (hx : P x) :
    down g' n (φ x) = φ (down g n x) := by
  induction n generalizing x with
  | zero => rfl
  | succ n ih => rw [down, down, h (n + 1) x hx, ih (hg (n + 1) x hx)]

end Undo
