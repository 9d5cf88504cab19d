import Mathlib.Data.List.Sort
import Mathlib.Data.Nat.Notation

/-!
# Spans

Items that each cover a range of numbers, from `lo` up to `hi`: collected in order and without overlap,
until they leave no gap.  `insert` puts an item in its place, `Fits` says when there is room for it, and
`Tiles` that nothing is missing.  `eq_of_tiles` recognises a complete collection: it begins at the
beginning, has no gap, and the last item is there.

A string in parts is the example that matters: `cut` gives each part its offset.
-/

namespace Spans

variable {β : Type} (lo hi : β → ℕ)

/-- `x` ends before `y` begins, and they do not begin together. -/
def Apart (x y : β) : Prop := lo x < lo y ∧ hi x ≤ lo y

def Sorted (l : List β) : Prop := l.Pairwise (Apart lo hi)

/-- The item `x` in its place. -/
def insert (x : β) : List β → List β
  | [] => [x]
  | y :: l => if lo x < lo y then x :: y :: l else y :: insert x l

/-- There is room for `x`. -/
def Fits (x : β) (l : List β) : Prop := ∀ y ∈ l, Apart lo hi y x ∨ Apart lo hi x y

/-- The first item begins at `k`, and each of the others where the one before it ends. -/
def Tiles : ℕ → List β → Prop
  | _, [] => True
  | k, x :: l => lo x = k ∧ Tiles (hi x) l

variable {lo hi}

/-! ## Insertion -/

theorem perm_insert (x : β) (l : List β) : (insert lo x l).Perm (x :: l) := by
  induction l with
  | nil => exact List.Perm.refl _
  | cons y l ih =>
    unfold insert
    split_ifs
    · exact List.Perm.refl _
    · exact (ih.cons y).trans (List.Perm.swap ..)

theorem mem_insert {x y : β} {l : List β} : y ∈ insert lo x l ↔ y = x ∨ y ∈ l := by
  rw [(perm_insert x l).mem_iff, List.mem_cons]

theorem Apart.trans {x y z : β} (h : Apart lo hi x y) (h' : Apart lo hi y z) : Apart lo hi x z :=
  ⟨h.1.trans h'.1, h.2.trans h'.1.le⟩

theorem Sorted.insert {x : β} {l : List β} (h : Sorted lo hi l) (hx : Fits lo hi x l) :
    Sorted lo hi (insert lo x l) := by
  induction l with
  | nil => exact List.pairwise_singleton _ _
  | cons y l ih =>
    obtain ⟨hy, hl⟩ := List.pairwise_cons.1 h
    have hxy := hx y List.mem_cons_self
    unfold Spans.insert
    split_ifs with hlt
    · have hapart : Apart lo hi x y := hxy.resolve_left fun hyx => by
        have := hyx.1
        omega
      refine List.pairwise_cons.2 ⟨?_, h⟩
      intro z hz
      rcases List.mem_cons.1 hz with rfl | hz
      · exact hapart
      · exact hapart.trans (hy z hz)
    · refine List.pairwise_cons.2 ⟨?_, ih hl fun z hz => hx z (List.mem_cons_of_mem _ hz)⟩
      intro z hz
      rcases mem_insert.1 hz with rfl | hz
      · exact hxy.resolve_right fun hxy => hlt hxy.1
      · exact hy z hz

/-- An order without equal items leaves only one way to list them. -/
theorem Sorted.eq_of_perm {l l' : List β} (h : Sorted lo hi l) (h' : Sorted lo hi l')
    (hp : l.Perm l') : l = l' :=
  hp.eq_of_pairwise (fun _ _ _ _ hab hba => absurd hab.1 (Nat.not_lt.2 hba.1.le)) h h'

/-- Different items are apart. -/
theorem Sorted.apart_of_ne {l : List β} (h : Sorted lo hi l) {x y : β} (hx : x ∈ l) (hy : y ∈ l)
    (hne : x ≠ y) : Apart lo hi x y ∨ Apart lo hi y x := by
  induction l with
  | nil => exact absurd hx List.not_mem_nil
  | cons z l ih =>
    obtain ⟨hz, hl⟩ := List.pairwise_cons.1 h
    rcases List.mem_cons.1 hx with rfl | hx' <;> rcases List.mem_cons.1 hy with rfl | hy'
    · exact absurd rfl hne
    · exact .inl (hz y hy')
    · exact .inr (hz x hx')
    · exact ih hl hx' hy'

/-- Items that begin together are the same. -/
theorem Sorted.eq_of_lo_eq {l : List β} (h : Sorted lo hi l) {x y : β} (hx : x ∈ l) (hy : y ∈ l)
    (hlo : lo x = lo y) : x = y := by
  by_contra hne
  rcases h.apart_of_ne hx hy hne with hapart | hapart
  · exact absurd hlo hapart.1.ne
  · exact absurd hlo hapart.1.ne'

theorem Sorted.nodup {l : List β} (h : Sorted lo hi l) : l.Nodup :=
  h.imp fun hab hne => absurd hab.1 (by rw [hne]; exact Nat.lt_irrefl _)

/-! ## Completeness -/

/-- A collection from among the items of a complete one, if it begins at the beginning, has no gap and
contains the last item, is the complete one. -/
theorem eq_of_tiles {l full : List β} {k : ℕ} (hfull : Sorted lo hi full) (hk : Tiles lo hi k full)
    (hl : Sorted lo hi l) (hsub : ∀ x ∈ l, x ∈ full) (htiles : Tiles lo hi k l) {e : β}
    (hlast : full.getLast? = some e) (he : e ∈ l) : l = full := by
  induction full generalizing l k with
  | nil => exact absurd hlast (by simp)
  | cons y full ih =>
    obtain ⟨hy, hfull'⟩ := List.pairwise_cons.1 hfull
    cases l with
    | nil => exact absurd he List.not_mem_nil
    | cons x l =>
      obtain ⟨hx, hl'⟩ := List.pairwise_cons.1 hl
      obtain rfl : x = y := hfull.eq_of_lo_eq (hsub x List.mem_cons_self) List.mem_cons_self
        (htiles.1.trans hk.1.symm)
      -- what stands behind the first item begins later, and so is behind it in the other list too
      have hsub' : ∀ z ∈ l, z ∈ full := fun z hz =>
        (List.mem_cons.1 (hsub z (List.mem_cons_of_mem _ hz))).resolve_left fun hzx => by
          have := (hx z hz).1
          rw [hzx] at this
          omega
      rw [List.cons_inj_right]
      rcases hfull_eq : full with _ | ⟨z, zs⟩
      · subst hfull_eq
        exact List.eq_nil_iff_forall_not_mem.2 fun z hz => List.not_mem_nil (hsub' z hz)
      · have hlast' : full.getLast? = some e := by
          rw [hfull_eq] at hlast ⊢
          rwa [List.getLast?_cons_cons] at hlast
        rw [← hfull_eq]
        apply ih hfull' hk.2 hl' hsub' htiles.2 hlast'
        refine (List.mem_cons.1 he).resolve_left ?_
        rintro rfl
        have := (hy e (List.mem_of_getLast? hlast')).1
        omega

/-! ## Strings in parts -/

variable {α : Type}

/-- The parts of a string with their offsets, the first at `k`. -/
def cut : ℕ → List (List α) → List (ℕ × List α)
  | _, [] => []
  | k, x :: xs => (k, x) :: cut (k + x.length) xs

/-- Where a part ends. -/
def cutEnd (x : ℕ × List α) : ℕ := x.1 + x.2.length

theorem tiles_cut (k : ℕ) (parts : List (List α)) : Tiles Prod.fst cutEnd k (cut k parts) := by
  induction parts generalizing k with
  | nil => trivial
  | cons x xs ih => exact ⟨rfl, ih _⟩

theorem le_of_mem_cut {k : ℕ} {parts : List (List α)} {y : ℕ × List α} (h : y ∈ cut k parts) :
    k ≤ y.1 := by
  induction parts generalizing k with
  | nil => exact absurd h List.not_mem_nil
  | cons x xs ih =>
    rcases List.mem_cons.1 h with rfl | h
    · exact Nat.le_refl _
    · exact (Nat.le_add_right _ _).trans (ih h)

theorem cutEnd_le_of_mem_cut {k : ℕ} {parts : List (List α)} {y : ℕ × List α} (h : y ∈ cut k parts) :
    cutEnd y ≤ k + parts.flatten.length := by
  induction parts generalizing k with
  | nil => exact absurd h List.not_mem_nil
  | cons x xs ih =>
    rw [List.flatten_cons, List.length_append]
    rcases List.mem_cons.1 h with rfl | h
    · show k + x.length ≤ _
      omega
    · have := ih h
      omega

theorem mem_of_mem_cut {k : ℕ} {parts : List (List α)} {y : ℕ × List α} (h : y ∈ cut k parts) :
    y.2 ∈ parts := by
  induction parts generalizing k with
  | nil => exact absurd h List.not_mem_nil
  | cons x xs ih =>
    rcases List.mem_cons.1 h with rfl | h
    · exact List.mem_cons_self
    · exact List.mem_cons_of_mem _ (ih h)

theorem sorted_cut (k : ℕ) {parts : List (List α)} (h : ∀ x ∈ parts, x ≠ []) :
    Sorted Prod.fst cutEnd (cut k parts) := by
  induction parts generalizing k with
  | nil => exact List.Pairwise.nil
  | cons x xs ih =>
    have hpos := List.length_pos_iff.2 (h x List.mem_cons_self)
    refine List.pairwise_cons.2 ⟨?_, ih _ fun y hy => h y (List.mem_cons_of_mem _ hy)⟩
    intro y hy
    have hle := le_of_mem_cut hy
    exact ⟨by show k < y.1; omega, hle⟩

theorem length_cut (k : ℕ) (parts : List (List α)) : (cut k parts).length = parts.length := by
  induction parts generalizing k with
  | nil => rfl
  | cons x xs ih => exact congrArg (· + 1) (ih _)

theorem flatMap_cut (k : ℕ) (parts : List (List α)) : (cut k parts).flatMap Prod.snd = parts.flatten := by
  induction parts generalizing k with
  | nil => rfl
  | cons x xs ih => rw [cut, List.flatMap_cons, List.flatten_cons, ih]

theorem cut_concat (k : ℕ) (parts : List (List α)) (x : List α) :
    cut k (parts ++ [x]) = cut k parts ++ [(k + parts.flatten.length, x)] := by
  induction parts generalizing k with
  | nil => rfl
  | cons y ys ih =>
    rw [List.cons_append, cut, cut, ih, List.flatten_cons, List.length_append, Nat.add_assoc]
    rfl

theorem cutEnd_getLast {k : ℕ} {parts : List (List α)} {e : ℕ × List α}
    (h : (cut k parts).getLast? = some e) : cutEnd e = k + parts.flatten.length := by
  induction parts generalizing k with
  | nil => exact absurd h (by simp [cut])
  | cons x xs ih =>
    rw [List.flatten_cons, List.length_append]
    cases xs with
    | nil =>
      have he : (k, x) = e := Option.some.inj h
      rw [← he]
      rfl
    | cons y ys =>
      have hlast : (cut (k + x.length) (y :: ys)).getLast? = some e := by
        rwa [cut, cut, List.getLast?_cons_cons] at h
      rw [ih hlast, Nat.add_assoc]

/-! ### Equal parts -/

/-- Parts of `n` each, and what is left. -/
def chunks (n : ℕ) (l : List α) : List (List α) :=
  if _h : l = [] ∨ n = 0 then [] else l.take n :: chunks n (l.drop n)
termination_by l.length
decreasing_by
  obtain ⟨hl, hn⟩ := not_or.1 _h
  have hpos := List.length_pos_iff.2 hl
  rw [List.length_drop]
  omega

variable {n : ℕ} {l : List α}

theorem chunks_nil (n : ℕ) : chunks n ([] : List α) = [] := by
  rw [chunks, dif_pos (.inl rfl)]

theorem chunks_of_ne_nil (hn : 0 < n) (hl : l ≠ []) : chunks n l = l.take n :: chunks n (l.drop n) := by
  rw [chunks, dif_neg (not_or.2 ⟨hl, hn.ne'⟩)]

theorem flatten_chunks (hn : 0 < n) (l : List α) : (chunks n l).flatten = l := by
  induction l using chunks.induct n with
  | case1 l h =>
    obtain rfl := h.resolve_right hn.ne'
    rw [chunks_nil, List.flatten_nil]
  | case2 l h ih =>
    rw [chunks_of_ne_nil hn (not_or.1 h).1, List.flatten_cons, ih, List.take_append_drop]

theorem ne_nil_of_mem_chunks (hn : 0 < n) {x : List α} (hx : x ∈ chunks n l) : x ≠ [] := by
  induction l using chunks.induct n with
  | case1 l h =>
    obtain rfl := h.resolve_right hn.ne'
    rw [chunks_nil] at hx
    exact absurd hx List.not_mem_nil
  | case2 l h ih =>
    have hl := (not_or.1 h).1
    rw [chunks_of_ne_nil hn hl] at hx
    rcases List.mem_cons.1 hx with rfl | hx
    · intro hnil
      rcases List.take_eq_nil_iff.1 hnil with h0 | h0
      · exact hn.ne' h0
      · exact hl h0
    · exact ih hx

/-- No more parts than needed. -/
theorem length_chunks_mul_lt (hn : 0 < n) (l : List α) : (chunks n l).length * n < l.length + n := by
  induction l using chunks.induct n with
  | case1 l h =>
    obtain rfl := h.resolve_right hn.ne'
    rw [chunks_nil, List.length_nil, Nat.zero_mul]
    exact Nat.add_pos_right _ hn
  | case2 l h ih =>
    have hl := (not_or.1 h).1
    have hpos := List.length_pos_iff.2 hl
    rw [chunks_of_ne_nil hn hl, List.length_cons, Nat.add_mul, Nat.one_mul]
    by_cases hle : l.length ≤ n
    · rw [List.drop_of_length_le hle, chunks_nil, List.length_nil, Nat.zero_mul]
      omega
    · rw [List.length_drop] at ih
      omega

/-- Where the parts lie and how long they are. -/
theorem mem_cut_chunks (hn : 0 < n) {k : ℕ} {x : ℕ × List α} (hx : x ∈ cut k (chunks n l)) :
    (∃ j, x.1 = k + j * n) ∧ x.1 < k + l.length ∧ x.2.length = min n (k + l.length - x.1) := by
  induction l using chunks.induct n generalizing k with
  | case1 l h =>
    obtain rfl := h.resolve_right hn.ne'
    rw [chunks_nil] at hx
    exact absurd hx List.not_mem_nil
  | case2 l h ih =>
    have hl := (not_or.1 h).1
    have hpos := List.length_pos_iff.2 hl
    rw [chunks_of_ne_nil hn hl, cut] at hx
    rcases List.mem_cons.1 hx with rfl | hx
    · refine ⟨⟨0, by rw [Nat.zero_mul, Nat.add_zero]⟩, ?_, ?_⟩
      · show k < _
        omega
      · show (l.take n).length = min n (k + l.length - k)
        rw [List.length_take, Nat.add_sub_cancel_left]
    · by_cases hle : l.length ≤ n
      · rw [List.drop_of_length_le hle, chunks_nil] at hx
        exact absurd hx List.not_mem_nil
      · have htake : (l.take n).length = n := List.length_take_of_le (by omega)
        rw [htake] at hx
        obtain ⟨⟨j, hj⟩, hlt, hlen⟩ := ih hx
        rw [List.length_drop] at hlt hlen
        refine ⟨⟨j + 1, ?_⟩, by omega, ?_⟩
        · rw [hj, Nat.add_mul, Nat.one_mul]
          omega
        · rw [hlen]
          congr 1
          omega

end Spans
