import Mathlib.Data.List.Basic

/-!
# Order in a queue

`Guarded A B k q` says that every entry of kind `B` in the queue `q` comes after one of kind `A`,
unless `k` holds already.  Entries leave a queue at the head (`guarded_cons`) and arrive at its end
(`guarded_append`).
-/

namespace Queue

variable {α : Type*} {A B : α → Prop}

/-- Every `B` in the queue comes after an `A`, or `k` holds. -/
def Guarded (A B : α → Prop) : Prop → List α → Prop
  | _, [] => True
  | k, a :: q => (B a → k) ∧ Guarded A B (k ∨ A a) q

@[simp] theorem guarded_nil (k : Prop) : Guarded A B k [] := trivial

theorem guarded_cons {k : Prop} {a : α} {q : List α} :
    Guarded A B k (a :: q) ↔ (B a → k) ∧ Guarded A B (k ∨ A a) q := Iff.rfl

theorem Guarded.mono {k k' : Prop} {q : List α} (h : Guarded A B k q) (hk : k → k') :
    Guarded A B k' q := by
  induction q generalizing k k' with
  | nil => trivial
  | cons a q ih => exact ⟨fun hb => hk (h.1 hb), ih h.2 (Or.imp_left hk)⟩

theorem guarded_of_true {k : Prop} {q : List α} (hk : k) : Guarded A B k q := by
  induction q generalizing k with
  | nil => trivial
  | cons a q ih => exact ⟨fun _ => hk, ih (Or.inl hk)⟩

theorem guarded_append {k : Prop} {q q' : List α} :
    Guarded A B k (q ++ q') ↔ Guarded A B k q ∧ Guarded A B (k ∨ ∃ a ∈ q, A a) q' := by
  induction q generalizing k with
  | nil => simp
  | cons a q ih =>
    have hk : ((k ∨ A a) ∨ ∃ b ∈ q, A b) = (k ∨ ∃ b ∈ a :: q, A b) := by
      simp only [List.mem_cons, exists_eq_or_imp, or_assoc]
    rw [List.cons_append, guarded_cons, guarded_cons, ih, hk, and_assoc]

/-- A queue without `B` is in order. -/
theorem guarded_of_forall_not {k : Prop} {q : List α} (h : ∀ a ∈ q, ¬B a) : Guarded A B k q := by
  induction q generalizing k with
  | nil => trivial
  | cons a q ih =>
    obtain ⟨ha, hq⟩ := List.forall_mem_cons.1 h
    exact ⟨fun hb => absurd hb ha, ih hq⟩

/-- Entries that are not `B` may arrive at any time. -/
theorem Guarded.append_of_not {k : Prop} {q q' : List α} (h : Guarded A B k q)
    (h' : ∀ a ∈ q', ¬B a) : Guarded A B k (q ++ q') :=
  guarded_append.2 ⟨h, guarded_of_forall_not h'⟩

end Queue
