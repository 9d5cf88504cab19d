import Mathlib.Data.List.Sort
import Mathlib.Data.List.Perm.Basic

/-!
# Agendas

A list of items with the times they are due, in order.  A new item goes behind those that are due
before it or at the same time, so that equal times keep the order in which the items were entered.
Times are natural numbers; what a machine makes of them is not the concern of this file.
-/

namespace Agenda

variable {α : Type}

/-- The item `a`, due at `d`, in its place. -/
def insert (d : ℕ) (a : α) : List (ℕ × α) → List (ℕ × α)
  | [] => [(d, a)]
  | e :: l => if d < e.1 then (d, a) :: e :: l else e :: insert d a l

/-- The times are in order. -/
def Sorted (l : List (ℕ × α)) : Prop := l.Pairwise fun e f => e.1 ≤ f.1

theorem perm_insert (d : ℕ) (a : α) (l : List (ℕ × α)) : (insert d a l).Perm ((d, a) :: l) := by
  induction l with
  | nil => exact List.Perm.refl _
  | cons e l ih =>
    unfold insert
    split_ifs
    · exact List.Perm.refl _
    · exact (ih.cons e).trans (List.Perm.swap ..)

theorem mem_insert {d : ℕ} {a : α} {l : List (ℕ × α)} {e : ℕ × α} :
    e ∈ insert d a l ↔ e = (d, a) ∨ e ∈ l := by
  rw [(perm_insert d a l).mem_iff, List.mem_cons]

theorem length_insert (d : ℕ) (a : α) (l : List (ℕ × α)) : (insert d a l).length = l.length + 1 :=
  (perm_insert d a l).length_eq

theorem Sorted.insert {l : List (ℕ × α)} (h : Sorted l) (d : ℕ) (a : α) : Sorted (insert d a l) := by
  induction l with
  | nil => exact List.pairwise_singleton _ _
  | cons e l ih =>
    obtain ⟨hhead, htail⟩ := List.pairwise_cons.1 h
    unfold Agenda.insert
    split_ifs with hlt
    · refine List.pairwise_cons.2 ⟨?_, h⟩
      intro f hf
      rcases List.mem_cons.1 hf with rfl | hf
      · exact hlt.le
      · exact hlt.le.trans (hhead f hf)
    · refine List.pairwise_cons.2 ⟨?_, ih htail⟩
      intro f hf
      rcases mem_insert.1 hf with rfl | hf
      · exact Nat.le_of_not_lt hlt
      · exact hhead f hf

end Agenda
