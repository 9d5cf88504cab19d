import Mathlib.Data.List.Basic

/-!
# Flat memory

A memory is a function from addresses to bytes (of any type); a pointer is an address.  Blocks are
read and written as lists.  What a block write changes is said once, by `write_apply_of_lt`,
`write_apply_of_not` and `read_write_of_disjoint`.
-/

/-- A flat memory of bytes `β`. -/
abbrev Mem (β : Type*) := ℕ → β

namespace Mem

variable {β : Type*}

/-- A memory holding the list from address 0 on, and `d` after it. -/
def ofList (bs : List β) (d : β) : Mem β := fun i => bs.getD i d

/-- The `n` bytes from address `a`. -/
def read (m : Mem β) (a n : ℕ) : List β := (List.range n).map fun i => m (a + i)

/-- Write the bytes `bs` from address `a` on. -/
def write (m : Mem β) (a : ℕ) (bs : List β) : Mem β := fun i =>
  if h : a ≤ i ∧ i - a < bs.length then bs[i - a] else m i

@[simp] theorem length_read (m : Mem β) (a n : ℕ) : (m.read a n).length = n := by
  simp [read]

theorem getElem_read (m : Mem β) (a n : ℕ) {i : ℕ} (h : i < (m.read a n).length) :
    (m.read a n)[i] = m (a + i) := by
  simp [read]

theorem ofList_read (m : Mem β) (d : β) {n i : ℕ} (h : i < n) : ofList (m.read 0 n) d i = m i := by
  unfold ofList
  rw [List.getD_eq_getElem?_getD, List.getElem?_eq_getElem (by rwa [length_read]),
    Option.getD_some, getElem_read, Nat.zero_add]

/-- A block in the middle of a list. -/
theorem read_ofList_append (bs cs ds : List β) (d : β) :
    (ofList (bs ++ (cs ++ ds)) d).read bs.length cs.length = cs := by
  apply List.ext_getElem
  · exact length_read _ _ _
  · intro i h₁ h₂
    rw [getElem_read, ofList, List.getD_eq_getElem?_getD,
      List.getElem?_append_right (Nat.le_add_right _ _), Nat.add_sub_cancel_left,
      List.getElem?_append_left h₂, List.getElem?_eq_getElem h₂, Option.getD_some]

/-- Blocks of two memories are equal when their bytes are. -/
theorem read_congr {m m' : Mem β} {a b n : ℕ} (h : ∀ i < n, m (a + i) = m' (b + i)) :
    m.read a n = m'.read b n :=
  List.map_congr_left fun i hi => h i (List.mem_range.1 hi)

theorem apply_of_read_eq {m m' : Mem β} {a b n i : ℕ} (h : m.read a n = m'.read b n) (hi : i < n) :
    m (a + i) = m' (b + i) :=
  List.map_inj_left.1 h i (List.mem_range.2 hi)

theorem write_apply_of_lt (m : Mem β) (a : ℕ) (bs : List β) {i : ℕ} (h : i < bs.length) :
    m.write a bs (a + i) = bs[i] := by
  unfold write
  rw [dif_pos ⟨Nat.le_add_right a i, by omega⟩]
  congr 1
  omega

theorem write_apply_of_not (m : Mem β) (a : ℕ) (bs : List β) {i : ℕ}
    (h : i < a ∨ a + bs.length ≤ i) : m.write a bs i = m i := by
  unfold write
  rw [dif_neg (by omega)]

theorem write_nil (m : Mem β) (a : ℕ) : m.write a [] = m := by
  funext i
  exact write_apply_of_not m a [] (Nat.lt_or_ge i a)

/-- Two neighbouring blocks are one, whichever is written first. -/
theorem write_append (m : Mem β) (a : ℕ) (bs cs : List β) :
    m.write a (bs ++ cs) = (m.write a bs).write (a + bs.length) cs ∧
      m.write a (bs ++ cs) = (m.write (a + bs.length) cs).write a bs := by
  rw [← forall_and.trans (and_congr funext_iff.symm funext_iff.symm)]
  intro i
  rcases Nat.lt_or_ge i a with hlt | hge
  · rw [write_apply_of_not m a _ (Or.inl hlt), write_apply_of_not _ _ cs (Or.inl (by omega)),
      write_apply_of_not _ a bs (Or.inl hlt), write_apply_of_not _ a bs (Or.inl hlt),
      write_apply_of_not _ _ cs (Or.inl (by omega))]
    exact ⟨rfl, rfl⟩
  · obtain ⟨k, rfl⟩ := Nat.exists_eq_add_of_le hge
    rcases Nat.lt_or_ge k bs.length with hk | hk
    · rw [write_apply_of_lt m a _ (by rw [List.length_append]; omega), List.getElem_append_left hk,
        write_apply_of_not _ _ cs (Or.inl (by omega)), write_apply_of_lt _ a bs hk,
        write_apply_of_lt _ a bs hk]
      exact ⟨rfl, rfl⟩
    · obtain ⟨l, rfl⟩ := Nat.exists_eq_add_of_le hk
      rw [write_apply_of_not _ a bs (Or.inr (by omega)), ← Nat.add_assoc]
      rcases Nat.lt_or_ge l cs.length with hl | hl
      · rw [Nat.add_assoc, write_apply_of_lt m a _ (by rw [List.length_append]; omega),
          List.getElem_append_right (Nat.le_add_right _ _), ← Nat.add_assoc,
          write_apply_of_lt _ _ cs hl, write_apply_of_lt _ _ cs hl]
        simp only [Nat.add_sub_cancel_left, and_self]
      · rw [write_apply_of_not m a _ (Or.inr (by rw [List.length_append]; omega)),
          write_apply_of_not _ _ cs (Or.inr (by omega)), write_apply_of_not _ a bs (Or.inr (by omega)),
          write_apply_of_not _ _ cs (Or.inr (by omega))]
        exact ⟨rfl, rfl⟩

/-- A list that was written at address 0. -/
theorem write_zero_apply (m : Mem β) (bs : List β) (d : β) {i : ℕ} (h : i < bs.length) :
    m.write 0 bs i = ofList bs d i := by
  have hi := write_apply_of_lt m 0 bs h
  rw [Nat.zero_add] at hi
  unfold ofList
  rw [hi, List.getD_eq_getElem?_getD, List.getElem?_eq_getElem h, Option.getD_some]

/-- Reading what was just written. -/
theorem read_write_self (m : Mem β) (a : ℕ) (bs : List β) :
    (m.write a bs).read a bs.length = bs := by
  apply List.ext_getElem (by simp)
  intro i h₁ h₂
  rw [getElem_read, write_apply_of_lt _ _ _ h₂]

/-- Reading a part of what was just written. -/
theorem read_write_append (m : Mem β) (a : ℕ) (bs cs ds : List β) :
    (m.write a (bs ++ (cs ++ ds))).read (a + bs.length) cs.length = cs := by
  apply List.ext_getElem (by simp)
  intro i h₁ h₂
  have hi : bs.length + i < (bs ++ (cs ++ ds)).length := by
    rw [List.length_append, List.length_append]
    omega
  rw [getElem_read, Nat.add_assoc, write_apply_of_lt _ _ _ hi,
    List.getElem_append_right (Nat.le_add_right _ _)]
  simp only [Nat.add_sub_cancel_left]
  exact List.getElem_append_left h₂

/-- A read in two parts. -/
theorem read_add (m : Mem β) (a n k : ℕ) : m.read a (n + k) = m.read a n ++ m.read (a + n) k := by
  unfold read
  rw [List.range_add, List.map_append, List.map_map]
  congr 1
  apply List.map_congr_left
  intro i _
  show m (a + (n + i)) = m (a + n + i)
  rw [Nat.add_assoc]

/-- A block that is a concatenation. -/
theorem read_eq_append {m : Mem β} {a : ℕ} {bs cs : List β} :
    m.read a (bs ++ cs).length = bs ++ cs ↔
      m.read a bs.length = bs ∧ m.read (a + bs.length) cs.length = cs := by
  rw [List.length_append, read_add]
  constructor
  · intro h
    exact List.append_inj h (length_read _ _ _)
  · rintro ⟨h, h'⟩
    rw [h, h']

/-- Writing behind a block. -/
theorem read_write_behind {m : Mem β} {a : ℕ} {bs : List β} (h : m.read a bs.length = bs)
    (cs : List β) : (m.write (a + bs.length) cs).read a (bs.length + cs.length) = bs ++ cs := by
  rw [read_add, read_write_self, read_congr fun i hi => write_apply_of_not m _ cs (by omega), h]

theorem read_succ (m : Mem β) (a n : ℕ) : m.read a (n + 1) = m a :: m.read (a + 1) n := by
  rw [Nat.add_comm, read_add]
  rfl

/-- A read inside a block that was copied from another memory. -/
theorem read_write_read (m m' : Mem β) (a b k n len : ℕ) (h : k + n ≤ len) :
    (m.write a (m'.read b len)).read (a + k) n = m'.read (b + k) n := by
  apply List.ext_getElem (by simp)
  intro i h₁ h₂
  have hi : i < n := by simpa using h₁
  have hlen : k + i < (m'.read b len).length := by rw [length_read]; omega
  rw [getElem_read, Nat.add_assoc, write_apply_of_lt _ _ _ hlen, getElem_read, getElem_read,
    Nat.add_assoc]

/-- A read that misses the written block. -/
theorem read_write_of_disjoint (m : Mem β) {a a' n : ℕ} {bs : List β}
    (h : a' + n ≤ a ∨ a + bs.length ≤ a') : (m.write a bs).read a' n = m.read a' n :=
  read_congr fun i hi => write_apply_of_not m a bs (by omega)

end Mem
