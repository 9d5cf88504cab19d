import Mathlib.Data.Nat.Notation

/-!
# Code that may wait forever

A `Proc σ α` changes a state of type `σ` and returns an `α`, or runs out of fuel in one of its
loops (`repeats`) and leaves the state of the round it could not begin.  `Post p Q s` says that `p`
ends in `Q` when it returns from `s`, and `Ends p Q s` that it returns as well; the rules for them
follow the code.

`Rounds` are the rounds of a loop, also of one that never ends, and `Records q p` says that `q` does
what `p` does and keeps a record of it beside the state.
-/

/-- A state change with a result, or none when a loop ran out of fuel. -/
def Proc (σ α : Type) := σ → Option α × σ

namespace Proc

variable {σ α β : Type}

instance : Monad (Proc σ) where
  pure a s := (some a, s)
  bind p f s :=
    match p s with
    | (some a, s') => f a s'
    | (none, s') => (none, s')

def get : Proc σ σ := fun s => (some s, s)

def modify (f : σ → σ) : Proc σ Unit := fun s => (some (), f s)

/-- The rounds `body`, until one of them leaves the loop with a result. -/
def repeats (body : β → Proc σ (β ⊕ α)) : ℕ → β → Proc σ α
  | 0, _ => fun s => (none, s)
  | fuel + 1, b => do
    match ← body b with
    | .inl b => repeats body fuel b
    | .inr a => pure a

theorem bind_of_some {p : Proc σ β} {f : β → Proc σ α} {s s' : σ} {b : β} (h : p s = (some b, s')) :
    (p >>= f) s = f b s' := by
  simp [bind, h]

theorem bind_of_none {p : Proc σ β} {f : β → Proc σ α} {s s' : σ} (h : p s = (none, s')) :
    (p >>= f) s = (none, s') := by
  simp [bind, h]

/-- Only the run of the first part counts. -/
theorem bind_congr {p p' : Proc σ β} {f : β → Proc σ α} {s s' : σ} (h : p s = p' s') :
    (p >>= f) s = (p' >>= f) s' := by
  simp [bind, h]

theorem bind_bind {γ : Type} (p : Proc σ γ) (f : γ → Proc σ β) (g : β → Proc σ α) :
    (p >>= f) >>= g = p >>= fun c => f c >>= g := by
  funext s
  rcases hp : p s with ⟨_ | c, s'⟩
  · rw [bind_of_none hp, bind_of_none (bind_of_none hp)]
  · rw [bind_of_some hp, bind_congr (bind_of_some hp)]

/-! ## Postconditions -/

/-- When `p` returns from `s`, it does so in `Q`. -/
def Post (p : Proc σ α) (Q : α → σ → Prop) (s : σ) : Prop := ∀ a ∈ (p s).1, Q a (p s).2

variable {Q : α → σ → Prop} {s : σ}

@[simp] theorem post_pure (a : α) : Post (pure a) Q s ↔ Q a s :=
  ⟨fun h => h a rfl, fun h _ hb => Option.some.inj hb ▸ h⟩

@[simp] theorem post_get {Q : σ → σ → Prop} : Post get Q s ↔ Q s s := post_pure s

@[simp] theorem post_modify (f : σ → σ) {Q : Unit → σ → Prop} :
    Post (modify f) Q s ↔ Q () (f s) :=
  ⟨fun h => h () rfl, fun h _ _ => h⟩

@[simp] theorem post_bind (p : Proc σ β) (f : β → Proc σ α) :
    Post (p >>= f) Q s ↔ Post p (fun b s' => Post (f b) Q s') s := by
  unfold Post
  rcases hp : p s with ⟨_ | b, s'⟩
  · simp [bind_of_none hp]
  · simp [bind_of_some hp]

/-- Two procedures that do the same in a state. -/
theorem post_congr {p q : Proc σ α} (h : p s = q s) : Post p Q s ↔ Post q Q s := by
  unfold Post
  rw [h]

theorem post_mono {p : Proc σ α} {P : α → σ → Prop} (hp : Post p P s)
    (h : ∀ a s', P a s' → Q a s') : Post p Q s := fun a ha => h a _ (hp a ha)

/-- **Loop rule.** An invariant that each round keeps or leaves in `Q`. -/
theorem post_repeats {body : β → Proc σ (β ⊕ α)} {I : β → σ → Prop}
    (hbody : ∀ b s, I b s → Post (body b) (fun r s' => r.elim (I · s') (Q · s')) s)
    (fuel : ℕ) {b : β} (h : I b s) : Post (repeats body fuel b) Q s := by
  induction fuel generalizing b s with
  | zero => exact fun a ha => absurd ha (by simp [repeats])
  | succ fuel ih =>
    unfold repeats
    rw [post_bind]
    refine post_mono (hbody b s h) fun r s' hr => ?_
    rcases r with b' | a
    · exact ih hr
    · rwa [post_pure]

/-! ## What a procedure leaves alone -/

/-- Whenever `p` returns, the states before and after it are related by `R`. -/
def Moves (R : σ → σ → Prop) (p : Proc σ α) : Prop := ∀ s, Post p (fun _ s' => R s s') s

section Moves

variable {R : σ → σ → Prop} (hrefl : ∀ s, R s s) (htrans : ∀ s s' s'', R s s' → R s' s'' → R s s'')

include hrefl in
theorem moves_pure (a : α) : Moves R (pure a) := fun s => (post_pure a).2 (hrefl s)

theorem moves_modify {f : σ → σ} (h : ∀ s, R s (f s)) : Moves R (modify f) := fun s =>
  (post_modify f).2 (h s)

theorem moves_ite {c : Prop} [Decidable c] {p q : Proc σ α} (hp : Moves R p) (hq : Moves R q) :
    Moves R (if c then p else q) := by
  split
  · exact hp
  · exact hq

include htrans in
theorem moves_bind {p : Proc σ β} {f : β → Proc σ α} (hp : Moves R p) (hf : ∀ b, Moves R (f b)) :
    Moves R (p >>= f) := by
  intro s
  rw [post_bind]
  refine post_mono (hp s) fun b s' hs => post_mono (hf b s') fun a s'' hs' => ?_
  exact htrans s s' s'' hs hs'

include hrefl htrans in
theorem moves_repeats {body : β → Proc σ (β ⊕ α)} (h : ∀ b, Moves R (body b)) (fuel : ℕ) (b : β) :
    Moves R (repeats body fuel b) := by
  intro s
  refine post_repeats (I := fun _ s' => R s s') (fun b s' hs => ?_) fuel (hrefl s)
  refine post_mono (h b s') fun r s'' hs' => ?_
  cases r with
  | inl b' => exact htrans s s' s'' hs hs'
  | inr a => exact htrans s s' s'' hs hs'

end Moves

/-- A procedure in front of another: what follows may rely on what it left alone. -/
theorem post_bind_of_moves {R : σ → σ → Prop} {p : Proc σ β} {f : β → Proc σ α} (hp : Moves R p)
    (hf : ∀ b s', R s s' → Post (f b) Q s') : Post (p >>= f) Q s :=
  (post_bind p f).2 (post_mono (hp s) hf)

/-! ## Procedures that return -/

/-- `p` returns from `s`, in `Q`. -/
def Ends (p : Proc σ α) (Q : α → σ → Prop) (s : σ) : Prop := ∃ a, (p s).1 = some a ∧ Q a (p s).2

theorem ends_iff {p : Proc σ α} : Ends p Q s ↔ Post p Q s ∧ Ends p (fun _ _ => True) s := by
  constructor
  · rintro ⟨a, ha, hQ⟩
    refine ⟨fun b hb => ?_, a, ha, trivial⟩
    rw [← Option.some.inj (ha.symm.trans hb)]
    exact hQ
  · rintro ⟨hpost, a, ha, -⟩
    exact ⟨a, ha, hpost a ha⟩

@[simp] theorem ends_pure (a : α) : Ends (pure a) Q s ↔ Q a s :=
  ⟨fun ⟨_, hb, h⟩ => Option.some.inj hb ▸ h, fun h => ⟨a, rfl, h⟩⟩

@[simp] theorem ends_get {Q : σ → σ → Prop} : Ends get Q s ↔ Q s s := ends_pure s

@[simp] theorem ends_modify (f : σ → σ) {Q : Unit → σ → Prop} :
    Ends (modify f) Q s ↔ Q () (f s) :=
  ⟨fun ⟨_, _, h⟩ => h, fun h => ⟨(), rfl, h⟩⟩

@[simp] theorem ends_bind (p : Proc σ β) (f : β → Proc σ α) :
    Ends (p >>= f) Q s ↔ Ends p (fun b s' => Ends (f b) Q s') s := by
  unfold Ends
  rcases hp : p s with ⟨_ | b, s'⟩
  · simp [bind_of_none hp]
  · simp [bind_of_some hp]

theorem ends_mono {p : Proc σ α} {P : α → σ → Prop} (hp : Ends p P s)
    (h : ∀ a s', P a s' → Q a s') : Ends p Q s := by
  obtain ⟨a, ha, hP⟩ := hp
  exact ⟨a, ha, h a _ hP⟩

/-- **Loop rule.** An invariant that each round keeps or leaves in `Q`, with a variant that each
round lowers, and fuel for it. -/
theorem ends_repeats {body : β → Proc σ (β ⊕ α)} {I : β → σ → Prop} (v : β → σ → ℕ)
    (hbody : ∀ b s, I b s →
      Ends (body b) (fun r s' => r.elim (fun b' => I b' s' ∧ v b' s' < v b s) (Q · s')) s)
    {fuel : ℕ} {b : β} (h : I b s) (hfuel : v b s < fuel) : Ends (repeats body fuel b) Q s := by
  induction fuel generalizing b s with
  | zero => exact absurd hfuel (Nat.not_lt_zero _)
  | succ fuel ih =>
    unfold repeats
    rw [ends_bind]
    refine ends_mono (hbody b s h) fun r s' hr => ?_
    rcases r with b' | a
    · exact ih hr.1 (Nat.lt_of_lt_of_le hr.2 (Nat.le_of_lt_succ hfuel))
    · rwa [ends_pure]

/-- A procedure that returns in front of another: what follows may rely on what it left alone. -/
theorem ends_bind_of_moves {R : σ → σ → Prop} {p : Proc σ β} {f : β → Proc σ α} (hp : Moves R p)
    (hends : Ends p (fun _ _ => True) s) (hf : ∀ b s', R s s' → Ends (f b) Q s') :
    Ends (p >>= f) Q s :=
  (ends_bind p f).2 (ends_mono (ends_iff.2 ⟨hp s, hends⟩) hf)

/-! ## Rounds of a loop -/

/-- The loop `repeats body`, begun with `b` in `s`, comes to the start of a round with `b'` in `s'`. -/
inductive Rounds (body : β → Proc σ (β ⊕ α)) (b : β) (s : σ) : β → σ → Prop
  | start : Rounds body b s b s
  | round {b' b'' : β} {s' s'' : σ} (h : Rounds body b s b' s')
      (hround : body b' s' = (some (.inl b''), s'')) : Rounds body b s b'' s''

section Rounds

variable {body : β → Proc σ (β ⊕ α)} {b b' : β} {s' : σ}

/-- From the start of a round, the loop goes on with the fuel that is left. -/
theorem repeats_of_rounds (h : Rounds body b s b' s') :
    ∃ n, ∀ fuel, repeats body (n + fuel) b s = repeats body fuel b' s' := by
  induction h with
  | start => exact ⟨0, fun fuel => by rw [Nat.zero_add]⟩
  | @round b' b'' s' s'' _ hround ih =>
    obtain ⟨n, hn⟩ := ih
    refine ⟨n + 1, fun fuel => ?_⟩
    have hbody : repeats body (fuel + 1) b' s' = repeats body fuel b'' s'' := by
      rw [repeats, bind_of_some hround]
    rw [Nat.add_assoc, Nat.add_comm 1 fuel, hn, hbody]

/-- **Invariant rule.** What each round keeps holds at the start of every round. -/
theorem rounds_inv {I : β → σ → Prop}
    (hbody : ∀ b s, I b s → Post (body b) (fun r s' => ∀ b', r = .inl b' → I b' s') s)
    (hstart : I b s) (h : Rounds body b s b' s') : I b' s' := by
  induction h with
  | start => exact hstart
  | round _ hround ih =>
    have hpost := hbody _ _ ih (.inl _) (by rw [hround]; rfl) _ rfl
    rwa [hround] at hpost

end Rounds

/-! ## Records -/

section Records

variable {γ : Type}

/-- `p`, with a record beside the state that it leaves alone. -/
def beside (p : Proc σ α) : Proc (σ × γ) α := fun s => ((p s.1).1, (p s.1).2, s.2)

@[simp] theorem post_beside {p : Proc σ α} {Q : α → σ × γ → Prop} {s : σ × γ} :
    Post (beside p) Q s ↔ Post p (fun a s' => Q a (s', s.2)) s.1 := Iff.rfl

/-- `q` does what `p` does, and keeps a record beside the state. -/
def Records (q : Proc (σ × γ) α) (p : Proc σ α) : Prop :=
  ∀ s, (q s).1 = (p s.1).1 ∧ (q s).2.1 = (p s.1).2

theorem records_beside (p : Proc σ α) : Records (beside p : Proc (σ × γ) α) p := fun _ => ⟨rfl, rfl⟩

theorem records_pure (a : α) : Records (pure a : Proc (σ × γ) α) (pure a) := fun _ => ⟨rfl, rfl⟩

theorem records_bind {q : Proc (σ × γ) β} {p : Proc σ β} {f : β → Proc (σ × γ) α}
    {g : β → Proc σ α} (hp : Records q p) (hf : ∀ b, Records (f b) (g b)) :
    Records (q >>= f) (p >>= g) := by
  intro s
  obtain ⟨hres, hstate⟩ := hp s
  rcases hq : q s with ⟨_ | b, s'⟩
  · have hp' : p s.1 = (none, s'.1) := by
      rw [hq] at hres hstate
      exact Prod.ext hres.symm hstate.symm
    rw [bind_of_none hq, bind_of_none hp']
    exact ⟨rfl, rfl⟩
  · have hp' : p s.1 = (some b, s'.1) := by
      rw [hq] at hres hstate
      exact Prod.ext hres.symm hstate.symm
    rw [bind_of_some hq, bind_of_some hp']
    exact hf b s'

theorem records_ite {c : Prop} [Decidable c] {q q' : Proc (σ × γ) α} {p p' : Proc σ α}
    (h : Records q p) (h' : Records q' p') :
    Records (if c then q else q') (if c then p else p') := by
  split
  · exact h
  · exact h'

theorem records_repeats {q : β → Proc (σ × γ) (β ⊕ α)} {body : β → Proc σ (β ⊕ α)}
    (h : ∀ b, Records (q b) (body b)) (fuel : ℕ) (b : β) :
    Records (repeats q fuel b) (repeats body fuel b) := by
  induction fuel generalizing b with
  | zero => exact fun _ => ⟨rfl, rfl⟩
  | succ fuel ih =>
    unfold repeats
    refine records_bind (h b) fun r => ?_
    cases r with
    | inl b' => exact ih b'
    | inr a => exact records_pure a

/-- What holds of a procedure with its record holds of the procedure, for some record. -/
theorem post_of_records {q : Proc (σ × γ) α} {p : Proc σ α} (h : Records q p) {g : γ}
    {Q : α → σ × γ → Prop} (hq : Post q Q (s, g)) : Post p (fun a s' => ∃ g', Q a (s', g')) s := by
  intro a ha
  obtain ⟨hres, hstate⟩ := h (s, g)
  have hQ := hq a (by rw [hres]; exact ha)
  refine ⟨(q (s, g)).2.2, ?_⟩
  rwa [← hstate]

/-- The rounds of a loop, with their record. -/
theorem rounds_records {q : β → Proc (σ × γ) (β ⊕ α)} {body : β → Proc σ (β ⊕ α)} {b b' : β}
    {s' : σ} (hq : ∀ b, Records (q b) (body b)) (h : Rounds body b s b' s') (g : γ) :
    ∃ g', Rounds q b (s, g) b' (s', g') := by
  induction h with
  | start => exact ⟨g, .start⟩
  | @round b₁ b₂ s₁ s₂ _ hround ih =>
    obtain ⟨g₁, hg⟩ := ih
    obtain ⟨hres, hstate⟩ := hq b₁ (s₁, g₁)
    rw [hround] at hres hstate
    refine ⟨(q b₁ (s₁, g₁)).2.2, .round hg ?_⟩
    exact Prod.ext hres (Prod.ext hstate rfl)

end Records

end Proc
