import Mathlib.Data.List.Induction
import Mathlib.Data.Nat.Notation

/-!
# Runs of a state machine

A machine is a step function `step : σ → α → σ`; a run is a list of actions.  `Along step C s as`
says that every action of the run `as` from `s` meets the condition `C` in the state before it.
An invariant kept by the steps that meet `C` holds at the end of such a run (`inv_exec`) and turns
into a property of each of its steps (`along_of_inv`).  `Since step A R s as` says that an action of
the kind `A` happened on the run and none of the kind `R` after it; an invariant may speak of it
(`inv_since`), and a flag that `A` sets and `R` clears tells just that (`since_iff_of_step`).
-/

namespace Run

variable {σ α : Type*} {step : σ → α → σ}

/-- The state after the actions `as`. -/
def exec (step : σ → α → σ) (s : σ) (as : List α) : σ := as.foldl step s

@[simp] theorem exec_nil (s : σ) : exec step s [] = s := rfl

@[simp] theorem exec_cons (s : σ) (a : α) (as : List α) :
    exec step s (a :: as) = exec step (step s a) as := rfl

theorem exec_append (s : σ) (as bs : List α) :
    exec step s (as ++ bs) = exec step (exec step s as) bs := List.foldl_append

theorem exec_concat (s : σ) (as : List α) (a : α) :
    exec step s (as ++ [a]) = step (exec step s as) a := exec_append s as [a]

/-- The run up to an action, the action, and the rest of the run. -/
theorem exec_append_cons (s : σ) (as : List α) (a : α) (bs : List α) :
    exec step s (as ++ a :: bs) = exec step (step (exec step s as) a) bs := exec_append s as _

/-- Runs whose actions a step does not tell apart end in the same state. -/
theorem exec_congr {r : α → α → Prop} (h : ∀ s a b, r a b → step s a = step s b) (s : σ)
    {as bs : List α} (hr : List.Forall₂ r as bs) : exec step s as = exec step s bs := by
  induction hr generalizing s with
  | nil => rfl
  | cons hab _ ih => rw [exec_cons, exec_cons, h s _ _ hab, ih]

/-- Every action of the run meets `C` in the state before it. -/
def Along (step : σ → α → σ) (C : σ → α → Prop) : σ → List α → Prop
  | _, [] => True
  | s, a :: as => C s a ∧ Along step C (step s a) as

@[simp] theorem along_nil {C : σ → α → Prop} (s : σ) : Along step C s [] := trivial

@[simp] theorem along_cons {C : σ → α → Prop} (s : σ) (a : α) (as : List α) :
    Along step C s (a :: as) ↔ C s a ∧ Along step C (step s a) as := Iff.rfl

theorem along_append {C : σ → α → Prop} (s : σ) (as bs : List α) :
    Along step C s (as ++ bs) ↔ Along step C s as ∧ Along step C (exec step s as) bs := by
  induction as generalizing s with
  | nil => simp
  | cons a as ih => simp only [List.cons_append, along_cons, exec_cons, ih, and_assoc]

instance decidableAlong {C : σ → α → Prop} [∀ s a, Decidable (C s a)] :
    ∀ (s : σ) (as : List α), Decidable (Along step C s as)
  | _, [] => inferInstanceAs (Decidable True)
  | s, a :: as =>
    have : Decidable (Along step C (step s a) as) := decidableAlong (step s a) as
    inferInstanceAs (Decidable (C s a ∧ Along step C (step s a) as))

/-- The property of an action that holds in every state the run passes through. -/
theorem along_iff_split {C : σ → α → Prop} {s : σ} {as : List α} :
    Along step C s as ↔ ∀ pre a post, as = pre ++ a :: post → C (exec step s pre) a := by
  constructor
  · rintro h pre a post rfl
    exact ((along_append s pre (a :: post)).1 h).2.1
  · intro h
    induction as generalizing s with
    | nil => trivial
    | cons a as ih =>
      refine ⟨h [] a as rfl, ih fun pre b post e => ?_⟩
      simpa only [exec_cons] using h (a :: pre) b post (by rw [e, List.cons_append])

/-- **Invariant rule.** An invariant kept by the steps that meet `C` holds after a run of them. -/
theorem inv_exec {C : σ → α → Prop} {I : σ → Prop}
    (hstep : ∀ s a, I s → C s a → I (step s a)) {s : σ} {as : List α} (hs : I s)
    (h : Along step C s as) : I (exec step s as) := by
  induction as generalizing s with
  | nil => exact hs
  | cons a as ih => exact ih (hstep s a hs h.1) h.2

/-- The invariant rule without a condition on the steps. -/
theorem inv_exec' {I : σ → Prop} (hstep : ∀ s a, I s → I (step s a)) {s : σ} {as : List α}
    (hs : I s) : I (exec step s as) := by
  induction as generalizing s with
  | nil => exact hs
  | cons a as ih => exact ih (hstep s a hs)

/-- An invariant turns a condition on the steps into a property of the steps. -/
theorem along_of_inv {C P : σ → α → Prop} {I : σ → Prop}
    (hstep : ∀ s a, I s → C s a → I (step s a)) (hP : ∀ s a, I s → C s a → P s a)
    {s : σ} {as : List α} (hs : I s) (h : Along step C s as) : Along step P s as := by
  induction as generalizing s with
  | nil => trivial
  | cons a as ih => exact ⟨hP s a hs h.1, ih (hstep s a hs h.1) h.2⟩

/-! ## What happened last -/

/-- An action of kind `A` happened on the run, and no action of kind `R` after it. -/
def Since (step : σ → α → σ) (A R : σ → α → Prop) (s : σ) (as : List α) : Prop :=
  ∃ pre a post, as = pre ++ a :: post ∧ A (exec step s pre) a ∧
    Along step (fun s a => ¬R s a) (exec step s (pre ++ [a])) post

theorem since_concat {A R : σ → α → Prop} {s : σ} {as : List α} {a : α} :
    Since step A R s (as ++ [a]) ↔
      A (exec step s as) a ∨ ¬R (exec step s as) a ∧ Since step A R s as := by
  constructor
  · rintro ⟨pre, b, post, he, hA, hR⟩
    rcases List.eq_nil_or_concat post with rfl | ⟨post, c, rfl⟩
    · obtain ⟨rfl, hb⟩ := List.append_inj' he rfl
      obtain rfl : a = b := by simpa using hb
      exact Or.inl hA
    · rw [List.concat_eq_append, ← List.cons_append, ← List.append_assoc] at he
      obtain ⟨rfl, hc⟩ := List.append_inj' he rfl
      obtain rfl : a = c := by simpa using hc
      rw [List.concat_eq_append, along_append] at hR
      refine Or.inr ⟨?_, pre, b, post, rfl, hA, hR.1⟩
      have hlast := hR.2.1
      rwa [← exec_append, List.append_assoc, List.singleton_append] at hlast
  · rintro (hA | ⟨hR, pre, b, post, rfl, hA, hpost⟩)
    · exact ⟨as, a, [], rfl, hA, trivial⟩
    · refine ⟨pre, b, post ++ [a], by simp, hA, ?_⟩
      rw [along_append]
      refine ⟨hpost, ?_, trivial⟩
      rwa [← exec_append, List.append_assoc, List.singleton_append]

/-- **Since rule.** An invariant that may speak of what happened last holds at the end of a run. -/
theorem inv_since {A R : σ → α → Prop} {I : Prop → σ → Prop} {s : σ} (hs : I False s)
    (hstep : ∀ p s a, I p s → I (A s a ∨ ¬R s a ∧ p) (step s a)) (as : List α) :
    I (Since step A R s as) (exec step s as) := by
  induction as using List.reverseRecOn with
  | nil =>
    have hnil : Since step A R s [] = False := by simp [Since]
    rw [hnil]
    exact hs
  | append_singleton as a ih =>
    rw [since_concat, exec_concat]
    exact hstep _ _ a ih

/-- **Flag rule.** A flag that is clear at first, set by the actions of kind `A` and cleared by
those of kind `R`, tells whether an `A` happened since the last `R`. -/
theorem since_iff_of_step {A R : σ → α → Prop} {f : σ → Prop} {s : σ} (hs : ¬f s)
    (hstep : ∀ s a, f (step s a) ↔ A s a ∨ ¬R s a ∧ f s) (as : List α) :
    f (exec step s as) ↔ Since step A R s as :=
  inv_since (I := fun p s => f s ↔ p) (iff_of_false hs id)
    (fun p s a hp => (hstep s a).trans (by rw [hp])) as

/-! ## Counting along a run -/

/-- The sum of `f` over the actions of a run, each taken in the state before it. -/
def total (step : σ → α → σ) (f : σ → α → ℕ) : σ → List α → ℕ
  | _, [] => 0
  | s, a :: as => f s a + total step f (step s a) as

@[simp] theorem total_nil (f : σ → α → ℕ) (s : σ) : total step f s [] = 0 := rfl

@[simp] theorem total_cons (f : σ → α → ℕ) (s : σ) (a : α) (as : List α) :
    total step f s (a :: as) = f s a + total step f (step s a) as := rfl

theorem total_append (f : σ → α → ℕ) (s : σ) (as bs : List α) :
    total step f s (as ++ bs) = total step f s as + total step f (exec step s as) bs := by
  induction as generalizing s with
  | nil => simp
  | cons a as ih => rw [List.cons_append, total_cons, total_cons, ih, exec_cons, Nat.add_assoc]

/-- A count is what its steps count. -/
theorem total_congr {f g : σ → α → ℕ} (h : ∀ s a, f s a = g s a) (s : σ) (as : List α) :
    total step f s as = total step g s as := by
  induction as generalizing s with
  | nil => rfl
  | cons a as ih => rw [total_cons, total_cons, h, ih]

end Run
