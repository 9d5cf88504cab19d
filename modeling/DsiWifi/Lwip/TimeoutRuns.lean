import DsiWifi.Lwip.Timeouts

/-!
# Runs of the timeouts

What `sys_check_timeouts` does, whatever the handlers do meanwhile: it calls the handlers of the
elements that are due and of no others, in the order of their times, it loses and repeats none, and it
returns (`sysCheckTimeouts_spec`).  Over whole runs, with any wrap-arounds of the millisecond counter,
the list stays in the order of the unbounded times and no element of the pool is lost
(`timeouts_run`).
-/

namespace DsiWifi

/-! ## The pool -/

section Pool

variable {κ : Type}

/-- The elements of the pool are free or in the list. -/
def Clock.pool (c : Clock κ) : ℕ := c.free + c.list.length

theorem pool_enter (c : Clock κ) (d : ℕ) (k : κ) : (c.enter d k).pool = c.pool := by
  unfold Clock.enter Clock.pool
  split_ifs with h
  · rfl
  · dsimp only
    rw [Agenda.length_insert]
    omega

theorem pool_take {c c' : Clock κ} {now : ℕ} {e : ℕ × κ} (h : c.take now = some (e, c')) :
    c'.pool = c.pool := by
  obtain ⟨hl, -, hc⟩ := take_eq_some h
  unfold Clock.pool
  rw [hc, hl]
  dsimp only
  rw [List.length_cons]
  omega

variable [DecidableEq κ]

theorem pool_apply (c : Clock κ) (op : TimeoutOp κ) : (c.apply op).pool = c.pool := by
  cases op with
  | timeout msecs k => exact pool_enter ..
  | untimeout k =>
    show (c.cancel k).pool = c.pool
    unfold Clock.cancel
    split_ifs with hany
    · obtain ⟨e, he, hek⟩ := List.any_eq_true.1 hany
      have hlen := List.length_eraseP_of_mem (p := fun e => decide (e.2 = k)) he hek
      have hpos := List.length_pos_of_mem he
      unfold Clock.pool
      dsimp only
      omega
    · rfl
  | cyclic interval k => exact pool_enter ..
  | advance amt => rfl

theorem pool_applyOps (c : Clock κ) (ops : List (TimeoutOp κ)) :
    (c.applyOps ops).pool = c.pool := by
  induction ops generalizing c with
  | nil => rfl
  | cons op ops ih => exact (ih (c.apply op)).trans (pool_apply c op)

end Pool

/-! ## What handlers add and take away -/

section Accounts

variable {κ : Type}

/-- What one call puts on the agenda: each that makes a timeout one item, unless the pool is empty. -/
def Clock.entered (c : Clock κ) (op : TimeoutOp κ) : List (ℕ × κ) :=
  if c.free = 0 then []
  else
    match op with
    | .timeout msecs k => [(c.now + msecs.toNat, k)]
    | .cyclic interval k =>
      [(if c.due + interval.toNat < c.now then c.now + interval.toNat else c.due + interval.toNat, k)]
    | .untimeout _ | .advance _ => []

/-- The delays are not zero. -/
def TimeoutOp.Positive : TimeoutOp κ → Prop
  | .timeout msecs _ => 0 < msecs.toNat
  | .cyclic interval _ => 0 < interval.toNat
  | _ => True

theorem now_le_of_entered {c : Clock κ} {op : TimeoutOp κ} {e : ℕ × κ} (h : e ∈ c.entered op) :
    c.now ≤ e.1 := by
  unfold Clock.entered at h
  split_ifs at h with hfree
  · exact absurd h List.not_mem_nil
  cases op with
  | timeout msecs k =>
    rw [List.mem_singleton.1 h]
    exact Nat.le_add_right _ _
  | cyclic interval k =>
    rw [List.mem_singleton.1 h]
    dsimp only
    split_ifs <;> omega
  | _ => exact absurd h List.not_mem_nil

/-- With a delay that is not zero, the time is later than one at which a handler was called. -/
theorem due_lt_of_entered {c : Clock κ} {op : TimeoutOp κ} {e : ℕ × κ} (h : e ∈ c.entered op)
    (hpos : op.Positive) (hdue : c.due ≤ c.now) : c.due < e.1 := by
  unfold Clock.entered at h
  split_ifs at h with hfree
  · exact absurd h List.not_mem_nil
  cases op with
  | timeout msecs k =>
    have hm : 0 < msecs.toNat := hpos
    rw [List.mem_singleton.1 h]
    dsimp only
    omega
  | cyclic interval k =>
    have hm : 0 < interval.toNat := hpos
    rw [List.mem_singleton.1 h]
    dsimp only
    split_ifs <;> omega
  | _ => exact absurd h List.not_mem_nil

/-- The agenda before and after, the items that were put on it, none due before `b`, and the items that
were taken off it balance. -/
structure Accounts (b : ℕ) (before after entered cancelled : List (ℕ × κ)) : Prop where
  perm : (after ++ cancelled).Perm (before ++ entered)
  entered : ∀ e ∈ entered, b ≤ e.1

theorem Accounts.refl (b : ℕ) (l : List (ℕ × κ)) : Accounts b l l [] [] :=
  ⟨List.Perm.refl _, fun _ he => absurd he List.not_mem_nil⟩

theorem Accounts.trans {b : ℕ} {l₁ l₂ l₃ en₁ en₂ ca₁ ca₂ : List (ℕ × κ)}
    (h : Accounts b l₁ l₂ en₁ ca₁) (h' : Accounts b l₂ l₃ en₂ ca₂) :
    Accounts b l₁ l₃ (en₁ ++ en₂) (ca₁ ++ ca₂) := by
  refine ⟨?_, ?_⟩
  · have hfirst : (l₃ ++ (ca₁ ++ ca₂)).Perm (l₃ ++ ca₂ ++ ca₁) := by
      rw [List.append_assoc]
      exact List.perm_append_comm.append_left l₃
    have hmid : (l₂ ++ en₂ ++ ca₁).Perm (l₂ ++ ca₁ ++ en₂) := by
      rw [List.append_assoc, List.append_assoc]
      exact List.perm_append_comm.append_left l₂
    have hlast : (l₂ ++ ca₁ ++ en₂).Perm (l₁ ++ (en₁ ++ en₂)) := by
      rw [← List.append_assoc]
      exact h.perm.append_right en₂
    exact ((hfirst.trans (h'.perm.append_right ca₁)).trans hmid).trans hlast
  · intro e he
    rcases List.mem_append.1 he with he | he
    · exact h.entered e he
    · exact h'.entered e he

theorem Accounts.cons {b : ℕ} {l l' en ca : List (ℕ × κ)} (h : Accounts b l l' en ca) (e : ℕ × κ) :
    Accounts b (e :: l) (e :: l') en ca := ⟨h.perm.cons e, h.entered⟩

theorem Accounts.mem {b : ℕ} {l l' en ca : List (ℕ × κ)} (h : Accounts b l l' en ca) {e : ℕ × κ}
    (he : e ∈ l') : e ∈ l ∨ b ≤ e.1 := by
  rcases List.mem_append.1 (h.perm.subset (List.mem_append_left ca he)) with he | he
  · exact .inl he
  · exact .inr (h.entered e he)

theorem Accounts.countP_le {b : ℕ} {l l' en ca : List (ℕ × κ)} (h : Accounts b l l' en ca)
    {p : ℕ × κ → Bool} (hp : ∀ e, b ≤ e.1 → ¬p e) : l'.countP p ≤ l.countP p := by
  have hcount := h.perm.countP_eq p
  have hentered : en.countP p = 0 := List.countP_eq_zero.2 fun e he => hp e (h.entered e he)
  rw [List.countP_append, List.countP_append, hentered] at hcount
  omega

theorem perm_enter (c : Clock κ) (d : ℕ) (k : κ) :
    (c.enter d k).list.Perm (c.list ++ if c.free = 0 then [] else [(d, k)]) := by
  unfold Clock.enter
  by_cases hfree : c.free = 0
  · rw [if_pos hfree, if_pos hfree, List.append_nil]
  · rw [if_neg hfree, if_neg hfree]
    exact (Agenda.perm_insert d k c.list).trans (List.perm_append_singleton ..).symm

theorem take_eq_none {c : Clock κ} {now : ℕ} (hsorted : Agenda.Sorted c.list)
    (h : c.take now = none) : ∀ e ∈ c.list, now < e.1 := by
  unfold Clock.take at h
  rcases hl : c.list with _ | ⟨f, l⟩
  · exact fun e he => absurd he List.not_mem_nil
  · rw [hl] at h hsorted
    dsimp only at h
    split_ifs at h with hd
    intro e he
    rcases List.mem_cons.1 he with rfl | he
    · exact hd
    · exact hd.trans_le ((List.pairwise_cons.1 hsorted).1 e he)

/-- The first item is the earliest. -/
theorem head_lt {now : ℕ} {e : ℕ × κ} {l : List (ℕ × κ)} (hsorted : Agenda.Sorted (e :: l))
    (h : ¬∀ f ∈ e :: l, now ≤ f.1) : e.1 < now := by
  by_contra hge
  apply h
  intro f hf
  rcases List.mem_cons.1 hf with rfl | hf
  · exact Nat.le_of_not_lt hge
  · exact (Nat.le_of_not_lt hge).trans ((List.pairwise_cons.1 hsorted).1 f hf)

variable [DecidableEq κ]

/-- What one call takes off the agenda: the first item with the handler that it names. -/
def Clock.cancelled (c : Clock κ) : TimeoutOp κ → List (ℕ × κ)
  | .untimeout k => (c.list.find? (·.2 = k)).toList
  | .timeout .. | .cyclic .. | .advance _ => []

/-- What the calls of a handler do by `book`, each in the state in which it is made. -/
def Clock.booked (book : Clock κ → TimeoutOp κ → List (ℕ × κ)) : List (TimeoutOp κ) → Clock κ →
    List (ℕ × κ)
  | [], _ => []
  | op :: ops, c => book c op ++ Clock.booked book ops (c.apply op)

/-- What all the handlers do that a check calls. -/
def Clock.bookedIn (book : Clock κ → TimeoutOp κ → List (ℕ × κ)) (now : ℕ) :
    List (List (TimeoutOp κ)) → Clock κ → List (ℕ × κ)
  | [], _ => []
  | ops :: world, c =>
    match c.take now with
    | none => []
    | some (_, c) => c.booked book ops ++ Clock.bookedIn book now world (c.applyOps ops)

theorem accounts_apply (c : Clock κ) (op : TimeoutOp κ) {b : ℕ} (hb : ∀ e ∈ c.entered op, b ≤ e.1) :
    Accounts b c.list (c.apply op).list (c.entered op) (c.cancelled op) := by
  refine ⟨?_, hb⟩
  have hnone : (if c.free = 0 then ([] : List (ℕ × κ)) else []) = [] := ite_self _
  unfold Clock.entered
  cases op with
  | timeout msecs k =>
    rw [show c.cancelled (.timeout msecs k) = [] from rfl, List.append_nil]
    exact perm_enter c _ k
  | untimeout k =>
    dsimp only
    rw [hnone, List.append_nil]
    show ((c.cancel k).list ++ (c.list.find? (·.2 = k)).toList).Perm c.list
    unfold Clock.cancel
    split_ifs with hany
    · obtain ⟨e, he, hek⟩ := List.any_eq_true.1 hany
      obtain ⟨f, l₁, l₂, hl₁, hf, hl, herase⟩ :=
        List.exists_of_eraseP (p := fun e => decide (e.2 = k)) he hek
      have hfind : c.list.find? (·.2 = k) = some f := by
        rw [hl]
        exact List.find?_eq_some_iff_append.2 ⟨hf, l₁, l₂, rfl, by simpa using hl₁⟩
      rw [hfind]
      dsimp only
      rw [herase, hl, List.append_assoc]
      exact (List.perm_append_singleton ..).append_left l₁
    · have hfind : c.list.find? (·.2 = k) = none := by
        rw [List.find?_eq_none]
        intro e he hek
        exact hany (List.any_eq_true.2 ⟨e, he, hek⟩)
      rw [hfind, Option.toList_none, List.append_nil]
  | cyclic interval k =>
    rw [show c.cancelled (.cyclic interval k) = [] from rfl, List.append_nil]
    exact perm_enter c _ k
  | advance amt =>
    dsimp only
    rw [hnone]
    exact List.Perm.refl _

theorem due_apply (c : Clock κ) (op : TimeoutOp κ) : (c.apply op).due = c.due := by
  cases op with
  | timeout msecs k =>
    show (c.enter _ k).due = c.due
    unfold Clock.enter
    split_ifs <;> rfl
  | untimeout k =>
    show (c.cancel k).due = c.due
    unfold Clock.cancel
    split_ifs <;> rfl
  | cyclic interval k =>
    show (c.enter _ k).due = c.due
    unfold Clock.enter
    split_ifs <;> rfl
  | advance amt => rfl

/-- A whole handler. -/
theorem accounts_applyOps (c : Clock κ) (ops : List (TimeoutOp κ)) {b : ℕ}
    (hb : ∀ c' : Clock κ, c.now ≤ c'.now → c'.due = c.due → ∀ op ∈ ops, ∀ e ∈ c'.entered op,
      b ≤ e.1) :
    Accounts b c.list (c.applyOps ops).list (c.booked Clock.entered ops)
      (c.booked Clock.cancelled ops) := by
  induction ops generalizing c with
  | nil => exact .refl ..
  | cons op ops ih =>
    have hfirst := accounts_apply c op (hb c (Nat.le_refl _) rfl op List.mem_cons_self)
    refine hfirst.trans (ih (c.apply op) ?_)
    intro c' hnow hdue op' hop'
    refine hb c' ((now_apply_le c op).trans hnow) ?_ op' (List.mem_cons_of_mem op hop')
    rw [hdue, due_apply]

end Accounts

/-! ## What a check does -/

section Check

variable {κ : Type} [DecidableEq κ]

/-- A check that has returned. -/
structure Checked (now : ℕ) (world : List (List (TimeoutOp κ))) (c c' : Clock κ)
    (fired : List (ℕ × κ)) : Prop where
  /-- The handlers are called in the order of their times, -/
  order : Agenda.Sorted fired
  /-- none before its time, -/
  none_early : ∀ e ∈ fired, e.1 ≤ now
  /-- and nothing that is due is left. -/
  none_left : ∀ e ∈ c'.list, now < e.1
  /-- What was on the agenda and what the calls of the handlers put there has been called, has been
  cancelled by one of these calls, or is on the agenda, each item once. -/
  accounts : Accounts now c.list (fired ++ c'.list) (Clock.bookedIn Clock.entered now world c)
    (Clock.bookedIn Clock.cancelled now world c)
  /-- The elements of the pool are free or in the list as before. -/
  pool : c'.pool = c.pool

theorem bookedIn_of_take_none {now : ℕ} {c : Clock κ} (h : c.take now = none)
    (book : Clock κ → TimeoutOp κ → List (ℕ × κ)) (world : List (List (TimeoutOp κ))) :
    Clock.bookedIn book now world c = [] := by
  cases world with
  | nil => rfl
  | cons ops world =>
    unfold Clock.bookedIn
    rw [h]

/-- Nothing is due: the loop returns at once. -/
theorem checked_done {now : ℕ} {c c' : Clock κ} {fired : List (ℕ × κ)} (hinv : c.Inv)
    (world : List (List (TimeoutOp κ))) (htake : c.take now = none)
    (h : some (c, []) = some (c', fired)) : c'.Inv ∧ Checked now world c c' fired := by
  obtain ⟨rfl, rfl⟩ := Prod.mk.inj (Option.some.inj h)
  refine ⟨hinv, List.Pairwise.nil, fun e he => absurd he List.not_mem_nil,
    take_eq_none hinv.sorted htake, ?_, rfl⟩
  rw [bookedIn_of_take_none htake, bookedIn_of_take_none htake]
  exact .refl ..

/-- A handler of the loop, whatever it enters. -/
theorem accounts_handler {now : ℕ} {c : Clock κ} (hnow : now ≤ c.now) (ops : List (TimeoutOp κ)) :
    Accounts now c.list (c.applyOps ops).list (c.booked Clock.entered ops)
      (c.booked Clock.cancelled ops) := by
  apply accounts_applyOps
  intro c' hle _ op _ e he
  exact (hnow.trans hle).trans (now_le_of_entered he)

theorem checked_of_check {now : ℕ} {world : List (List (TimeoutOp κ))} {c c' : Clock κ}
    {fired : List (ℕ × κ)} (hinv : c.Inv) (hnow : now ≤ c.now)
    (htimely : Clock.TimelyCheck now world c) (h : Clock.check now world c = some (c', fired)) :
    c'.Inv ∧ Checked now world c c' fired := by
  induction world generalizing c fired with
  | nil =>
    unfold Clock.check at h
    split_ifs at h with hnone
    exact checked_done hinv [] (Option.isNone_iff_eq_none.1 hnone) h
  | cons ops world ih =>
    unfold Clock.check at h
    unfold Clock.TimelyCheck at htimely
    rcases htake : c.take now with _ | ⟨e, c₀⟩
    · rw [htake] at h
      exact checked_done hinv _ htake h
    · rw [htake] at h htimely
      obtain ⟨hops, -, hworld⟩ := htimely
      obtain ⟨hlist, hle, hc₀⟩ := take_eq_some htake
      have hinv₀ := inv_take hinv hnow htake
      have hnow₀ : now ≤ c₀.now := by
        rw [hc₀]
        exact hnow
      obtain ⟨⟨c₁, fired₁⟩, hrest, heq⟩ := Option.map_eq_some_iff.1 h
      obtain ⟨rfl, rfl⟩ := Prod.mk.inj heq
      have hinv₁ := (applyOps_wrap hinv₀ hops).2
      have hnow₁ := hnow₀.trans (now_applyOps_le c₀ ops)
      obtain ⟨hinv', hrun⟩ := ih hinv₁ hnow₁ hworld hrest
      have hacc := (accounts_handler hnow₀ ops).trans hrun.accounts
      have hsorted := hinv.sorted
      rw [hlist] at hsorted
      refine ⟨hinv', ?_, ?_, hrun.none_left, ?_, ?_⟩
      · -- what is called later was on the agenda behind `e`, or is not due before `now`
        refine List.pairwise_cons.2 ⟨?_, hrun.order⟩
        intro f hf
        rcases hacc.mem (List.mem_append_left _ hf) with hf | hf
        · exact (List.pairwise_cons.1 hsorted).1 f hf
        · exact hle.trans hf
      · intro f hf
        rcases List.mem_cons.1 hf with rfl | hf
        · exact hle
        · exact hrun.none_early f hf
      · unfold Clock.bookedIn
        rw [htake, hlist]
        exact hacc.cons e
      · exact (hrun.pool.trans (pool_applyOps c₀ ops)).trans (pool_take htake)

/-! ### It returns -/

theorem map_range_succ {β : Type} (w : ℕ → β) (n : ℕ) :
    (List.range (n + 1)).map w = w 0 :: (List.range n).map fun i => w (i + 1) := by
  rw [List.range_succ_eq_map, List.map_cons, List.map_map]
  rfl

/-- The check of a world in which the `i`-th handler that is called makes the calls `w i` returns. -/
def CheckReturns (now : ℕ) (w : ℕ → List (TimeoutOp κ)) (c : Clock κ) : Prop :=
  ∃ r, Clock.check now ((List.range r.2.length).map w) c = some r

section Returns

variable {now : ℕ} {c c₀ : Clock κ} {e : ℕ × κ} {w : ℕ → List (TimeoutOp κ)}

/-- What holds of the state behind the first handler. -/
theorem timely_next (hinv : c.Inv) (hnow : now ≤ c.now) (htake : c.take now = some (e, c₀))
    (htimely : ∀ n, Clock.TimelyCheck now ((List.range n).map w) c) :
    (c₀.applyOps (w 0)).Inv ∧ now ≤ (c₀.applyOps (w 0)).now ∧
      ∀ n, Clock.TimelyCheck now ((List.range n).map fun i => w (i + 1)) (c₀.applyOps (w 0)) := by
  have hnext : ∀ n, c₀.TimelyOps (w 0) ∧
      Clock.TimelyCheck now ((List.range n).map fun i => w (i + 1)) (c₀.applyOps (w 0)) := by
    intro n
    have h := htimely (n + 1)
    rw [map_range_succ, Clock.TimelyCheck, htake] at h
    exact ⟨h.1, h.2.2⟩
  have hnow₀ : now ≤ c₀.now := by
    rw [(take_eq_some htake).2.2]
    exact hnow
  exact ⟨(applyOps_wrap (inv_take hinv hnow htake) (hnext 0).1).2,
    hnow₀.trans (now_applyOps_le ..), fun n => (hnext n).2⟩

theorem check_of_next (htake : c.take now = some (e, c₀))
    (h : CheckReturns now (fun i => w (i + 1)) (c₀.applyOps (w 0))) : CheckReturns now w c := by
  obtain ⟨r, h⟩ := h
  refine ⟨(r.1, e :: r.2), ?_⟩
  rw [List.length_cons, map_range_succ, Clock.check, htake]
  show (Clock.check _ _ _).map _ = _
  rw [h]
  rfl

theorem check_of_take_none (htake : c.take now = none) : CheckReturns now w c := by
  refine ⟨(c, []), ?_⟩
  rw [List.length_nil, List.range_zero, List.map_nil, Clock.check, htake]
  rfl

/-- Everything that is due is due exactly now: no handler adds to it. -/
theorem exists_check_now (m : ℕ) (hm : c.list.countP (·.1 = now) ≤ m) (hinv : c.Inv)
    (hnow : now ≤ c.now) (hlist : ∀ f ∈ c.list, now ≤ f.1) (hpos : ∀ i, ∀ op ∈ w i, op.Positive)
    (htimely : ∀ n, Clock.TimelyCheck now ((List.range n).map w) c) :
    CheckReturns now w c := by
  induction m generalizing c w with
  | zero =>
    apply check_of_take_none
    rcases htake : c.take now with _ | ⟨e, c₀⟩
    · rfl
    · obtain ⟨hl, hle, -⟩ := take_eq_some htake
      have hmem : e ∈ c.list := by
        rw [hl]
        exact List.mem_cons_self
      have hne := List.countP_eq_zero.1 (Nat.le_zero.1 hm) e hmem
      exact absurd (Nat.le_antisymm hle (hlist e hmem)) (by simpa using hne)
  | succ m ih =>
    rcases htake : c.take now with _ | ⟨e, c₀⟩
    · exact check_of_take_none htake
    · obtain ⟨hl, hle, hc₀⟩ := take_eq_some htake
      have hexact : e.1 = now := Nat.le_antisymm hle (hlist e (by rw [hl]; exact List.mem_cons_self))
      obtain ⟨hinv₁, hnow₁, htimely₁⟩ := timely_next hinv hnow htake htimely
      have hdue₀ : c₀.due = now := by
        rw [hc₀]
        exact hexact
      have hlater : ∀ c' : Clock κ, c₀.now ≤ c'.now → c'.due = c₀.due → ∀ op ∈ w 0,
          ∀ f ∈ c'.entered op, now + 1 ≤ f.1 := by
        intro c' hle' hdue op hop f hf
        rw [hdue₀] at hdue
        rw [hc₀] at hle'
        have hlt := due_lt_of_entered hf (hpos 0 op hop) (by rw [hdue]; exact hnow.trans hle')
        omega
      have hacc := accounts_applyOps c₀ (w 0) hlater
      apply check_of_next htake
      apply ih
      · have hcount := hacc.countP_le (p := fun f => decide (f.1 = now)) (by
          intro f hf
          simp only [decide_eq_true_eq]
          omega)
        rw [hl, List.countP_cons_of_pos (by simpa using hexact)] at hm
        exact hcount.trans (Nat.le_of_succ_le_succ hm)
      · exact hinv₁
      · exact hnow₁
      · intro f hf
        rcases hacc.mem hf with hf | hf
        · exact hlist f (by rw [hl]; exact List.mem_cons_of_mem e hf)
        · omega
      · exact fun i => hpos (i + 1)
      · exact htimely₁

/-- The delays are not zero: the loop returns, whatever else the handlers do.  A handler can enter
something that is due at once only while there are items due before `now`, and of those it adds none.
-/
theorem exists_check (m : ℕ) (hm : c.list.countP (·.1 < now) ≤ m) (hinv : c.Inv)
    (hnow : now ≤ c.now) (hpos : ∀ i, ∀ op ∈ w i, op.Positive)
    (htimely : ∀ n, Clock.TimelyCheck now ((List.range n).map w) c) :
    CheckReturns now w c := by
  induction m generalizing c w with
  | zero =>
    refine exists_check_now _ (Nat.le_refl _) hinv hnow ?_ hpos htimely
    intro f hf
    simpa using List.countP_eq_zero.1 (Nat.le_zero.1 hm) f hf
  | succ m ih =>
    by_cases hlist : ∀ f ∈ c.list, now ≤ f.1
    · exact exists_check_now _ (Nat.le_refl _) hinv hnow hlist hpos htimely
    · rcases htake : c.take now with _ | ⟨e, c₀⟩
      · exact check_of_take_none htake
      · obtain ⟨hl, -, hc₀⟩ := take_eq_some htake
        have hsorted := hinv.sorted
        rw [hl] at hsorted hlist
        have hearly := head_lt hsorted hlist
        rw [hl, List.countP_cons_of_pos (by simpa using hearly)] at hm
        obtain ⟨hinv₁, hnow₁, htimely₁⟩ := timely_next hinv hnow htake htimely
        have hnow₀ : now ≤ c₀.now := by
          rw [hc₀]
          exact hnow
        have hacc := accounts_handler hnow₀ (w 0)
        have hcount := hacc.countP_le (p := fun f => decide (f.1 < now)) (by
          intro f hf
          simp only [decide_eq_true_eq]
          omega)
        apply check_of_next htake
        exact ih (hcount.trans (Nat.le_of_succ_le_succ hm)) hinv₁ hnow₁ (fun i => hpos (i + 1)) htimely₁

end Returns

/-- **`sys_check_timeouts`.** From every state in which the times are close together, whatever the
handlers do that keeps them so and has no delay of zero: the call returns; it has called, in the order
of their times, the handlers of elements that were due and of no others; nothing that is due is left;
and of the elements that were in the list and those that the calls of the handlers entered, each has
been called, was cancelled by one of these calls, or is in the list. -/
theorem sysCheckTimeouts_spec {c : Clock κ} (hinv : c.Inv) {w : ℕ → List (TimeoutOp κ)}
    (hpos : ∀ i, ∀ op ∈ w i, op.Positive)
    (htimely : ∀ n, Clock.TimelyCheck c.now ((List.range n).map w) c) :
    ∃ c' fired, let world := (List.range fired.length).map w
      sysCheckTimeouts world c.wrap = some (c'.wrap, fired.map wrapItem) ∧ c'.Inv ∧
        Checked c.now world c c' fired := by
  obtain ⟨⟨c', fired⟩, hcheck⟩ := exists_check _ (Nat.le_refl _) hinv (Nat.le_refl _) hpos htimely
  obtain ⟨hinv', hchecked⟩ := checked_of_check hinv (Nat.le_refl _) (htimely _) hcheck
  refine ⟨c', fired, ?_, hinv', hchecked⟩
  have hwrap := checkLoop_wrap hinv (Nat.le_refl _) (Nat.le_add_right _ _) (htimely fired.length)
  dsimp only at hcheck
  rw [hcheck] at hwrap
  exact hwrap

/-- Just before the counter wraps around, a cyclic timer is one millisecond late and another timeout is
due four milliseconds behind it. -/
def sampleClock : Clock Bool := ⟨[(2 ^ 32 - 2, true), (2 ^ 32 + 3, false)], 0, 6, 2 ^ 32 - 1⟩

/-- The handler of the cyclic timer takes five milliseconds. -/
def sampleWorld (i : ℕ) : List (TimeoutOp Bool) := if i = 0 then [.advance 5, .cyclic 100 true] else []

theorem timelyCheck_idle {now : ℕ} {w : List (List (TimeoutOp κ))} (hw : ∀ ops ∈ w, ops = [])
    {c : Clock κ} (hnow : c.now ≤ now + 2 ^ 30) : Clock.TimelyCheck now w c := by
  induction w generalizing c with
  | nil => trivial
  | cons ops w ih =>
    unfold Clock.TimelyCheck
    rcases htake : c.take now with _ | ⟨e, c₀⟩
    · trivial
    · rw [hw ops List.mem_cons_self]
      have hnow₀ : c₀.now ≤ now + 2 ^ 30 := by
        rw [(take_eq_some htake).2.2]
        exact hnow
      exact ⟨trivial, hnow₀, ih (fun ops h => hw ops (List.mem_cons_of_mem _ h)) hnow₀⟩

theorem sysCheckTimeouts_spec_wrapping :
    ∃ c' fired, let world := (List.range fired.length).map sampleWorld
      sysCheckTimeouts world sampleClock.wrap = some (c'.wrap, fired.map wrapItem) ∧ c'.Inv ∧
        Checked sampleClock.now world sampleClock c' fired := by
  apply sysCheckTimeouts_spec
  · exact ⟨by unfold Agenda.Sorted; decide, by decide, by decide, by decide⟩
  · intro i op hop
    unfold sampleWorld at hop
    split_ifs at hop
    · rcases List.mem_cons.1 hop with rfl | hop
      · trivial
      · rw [List.mem_singleton.1 hop]
        exact show 0 < 100 by decide
    · exact absurd hop List.not_mem_nil
  · intro n
    cases n with
    | zero => trivial
    | succ n =>
      rw [map_range_succ]
      have hidle : ∀ ops ∈ (List.range n).map fun i => sampleWorld (i + 1), ops = [] := by
        intro ops hops
        obtain ⟨i, -, rfl⟩ := List.mem_map.1 hops
        rfl
      exact ⟨⟨by decide, by decide, trivial⟩, by decide, timelyCheck_idle hidle (by decide)⟩

end Check

/-! ## Runs -/

section Runs

variable {κ : Type}

/-- What happens to the timeouts: a call of the interface, or a call of `sys_check_timeouts` together
with what its handlers do. -/
inductive TimeoutAct (κ : Type)
  | op (op : TimeoutOp κ)
  | check (world : List (List (TimeoutOp κ)))

/-- `n` elements in the pool, at time `t`. -/
def Clock.init (n t : ℕ) : Clock κ := ⟨[], 0, n, t⟩

/-- The time until the first item. -/
theorem sysTimeoutsSleeptime_wrap {c : Clock κ} (hinv : c.Inv) :
    sysTimeoutsSleeptime c.wrap =
      match c.list with
      | [] => 0xFFFFFFFF
      | e :: _ => .ofNat (e.1 - c.now) := by
  unfold sysTimeoutsSleeptime
  rw [show c.wrap.list = c.list.map wrapItem from rfl]
  rcases hl : c.list with _ | ⟨e, l⟩
  · rfl
  · have hlate := hinv.late e (by rw [hl]; exact List.mem_cons_self)
    have hsoon := hinv.soon e (by rw [hl]; exact List.mem_cons_self)
    have hless : timeLessThan (wrapItem e).time c.wrap.now = decide (e.1 < c.now) :=
      timeLessThan_ofNat (by omega) (by omega)
    show (if timeLessThan (wrapItem e).time c.wrap.now then 0 else (wrapItem e).time - c.wrap.now) = _
    rw [hless]
    by_cases hd : e.1 < c.now
    · rw [if_pos (decide_eq_true hd)]
      show 0 = UInt32.ofNat (e.1 - c.now)
      rw [Nat.sub_eq_zero_of_le hd.le]
      rfl
    · rw [if_neg (by simpa using hd)]
      show UInt32.ofNat e.1 - UInt32.ofNat c.now = UInt32.ofNat (e.1 - c.now)
      rw [UInt32.ofNat_sub (Nat.le_of_not_lt hd)]

variable [DecidableEq κ]

def Timeouts.run : List (TimeoutAct κ) → Timeouts κ → Option (Timeouts κ)
  | [], s => some s
  | .op op :: acts, s => Timeouts.run acts (op.apply s)
  | .check world :: acts, s =>
    match sysCheckTimeouts world s with
    | none => none
    | some (s, _) => Timeouts.run acts s

def Clock.run : List (TimeoutAct κ) → Clock κ → Option (Clock κ)
  | [], c => some c
  | .op op :: acts, c => Clock.run acts (c.apply op)
  | .check world :: acts, c =>
    match Clock.check c.now world c with
    | none => none
    | some (c, _) => Clock.run acts c

def Clock.TimelyRun : List (TimeoutAct κ) → Clock κ → Prop
  | [], _ => True
  | .op op :: acts, c => c.Timely op ∧ Clock.TimelyRun acts (c.apply op)
  | .check world :: acts, c =>
    Clock.TimelyCheck c.now world c ∧
      match Clock.check c.now world c with
      | none => True
      | some (c, _) => Clock.TimelyRun acts c

instance Clock.decTimelyRun : (acts : List (TimeoutAct κ)) → (c : Clock κ) → Decidable (c.TimelyRun acts)
  | [], _ => .isTrue trivial
  | .op op :: acts, c =>
    have := Clock.decTimelyRun acts (c.apply op)
    inferInstanceAs (Decidable (c.Timely op ∧ (c.apply op).TimelyRun acts))
  | .check world :: acts, c =>
    match h : Clock.check c.now world c with
    | none => decidable_of_iff (Clock.TimelyCheck c.now world c)
        (by rw [Clock.TimelyRun, h, and_iff_left trivial])
    | some (c', _) =>
      have := Clock.decTimelyRun acts c'
      decidable_of_iff (Clock.TimelyCheck c.now world c ∧ c'.TimelyRun acts)
        (by rw [Clock.TimelyRun, h])

/-- A run of the code is the run of the reference, as long as that is timely. -/
theorem run_wrap {acts : List (TimeoutAct κ)} {c : Clock κ} (hinv : c.Inv)
    (htimely : c.TimelyRun acts) :
    Timeouts.run acts c.wrap = (Clock.run acts c).map Clock.wrap ∧
      ∀ c', Clock.run acts c = some c' → c'.Inv ∧ c'.pool = c.pool := by
  induction acts generalizing c with
  | nil =>
    refine ⟨rfl, ?_⟩
    intro c' h
    rw [← Option.some.inj h]
    exact ⟨hinv, rfl⟩
  | cons act acts ih =>
    cases act with
    | op op =>
      obtain ⟨hop, hacts⟩ := htimely
      obtain ⟨hrun, hafter⟩ := ih (hinv.apply hop) hacts
      refine ⟨?_, ?_⟩
      · show Timeouts.run acts (op.apply c.wrap) = _
        rw [apply_wrap hinv hop]
        exact hrun
      · intro c' h
        obtain ⟨hinv', hpool⟩ := hafter c' h
        exact ⟨hinv', hpool.trans (pool_apply c op)⟩
    | check world =>
      obtain ⟨hcheck, hacts⟩ := htimely
      have hwrap := checkLoop_wrap hinv (Nat.le_refl _) (Nat.le_add_right _ _) hcheck
      have hwrap' : sysCheckTimeouts world c.wrap =
          (Clock.check c.now world c).map fun r => (r.1.wrap, r.2.map wrapItem) := hwrap
      unfold Timeouts.run Clock.run
      rw [hwrap']
      rcases hres : Clock.check c.now world c with _ | ⟨c₁, fired⟩
      · exact ⟨rfl, fun c' h => absurd h (by simp)⟩
      · rw [hres] at hacts
        obtain ⟨hinv₁, hchecked⟩ := checked_of_check hinv (Nat.le_refl _) hcheck hres
        obtain ⟨hrun, hafter⟩ := ih hinv₁ hacts
        refine ⟨hrun, ?_⟩
        intro c' h
        obtain ⟨hinv', hpool⟩ := hafter c' h
        exact ⟨hinv', hpool.trans hchecked.pool⟩

/-- **Runs.** From an empty list, with `n` elements in the pool and whatever the counter shows, every
timely run leaves the list in the order of the unbounded times, first come first served, with every
element of the pool free or in the list; and `sys_timeouts_sleeptime` is the time to the first of
them. -/
theorem timeouts_run {n t : ℕ} {acts : List (TimeoutAct κ)}
    (htimely : (Clock.init n t).TimelyRun acts) :
    Timeouts.run acts (Clock.init n t).wrap = (Clock.run acts (Clock.init n t)).map Clock.wrap ∧
      ∀ c, Clock.run acts (Clock.init n t) = some c → c.Inv ∧ c.free + c.list.length = n ∧
        sysTimeoutsSleeptime c.wrap =
          match c.list with
          | [] => 0xFFFFFFFF
          | e :: _ => .ofNat (e.1 - c.now) := by
  have hinit : (Clock.init n t : Clock κ).Inv :=
    ⟨List.Pairwise.nil, fun e he => absurd he List.not_mem_nil,
      fun e he => absurd he List.not_mem_nil, Nat.zero_le _⟩
  obtain ⟨hrun, hafter⟩ := run_wrap hinit htimely
  refine ⟨hrun, ?_⟩
  intro c h
  obtain ⟨hinv, hpool⟩ := hafter c h
  exact ⟨hinv, hpool, sysTimeoutsSleeptime_wrap hinv⟩

/-- Three timeouts around the wrap of the counter; the one that is cancelled and the one that is not due
yet do not run. -/
theorem timeouts_run_wrapping :
    let acts : List (TimeoutAct ℕ) :=
      [.op (.timeout 10 1), .op (.timeout 3 2), .op (.timeout 3 3), .op (.untimeout 2),
        .op (.advance 7), .check [[]]]
    Timeouts.run acts (Clock.init 8 (2 ^ 32 - 5)).wrap =
      some (Clock.wrap ⟨[(2 ^ 32 + 5, 1)], 2 ^ 32 - 2, 7, 2 ^ 32 + 2⟩) := by
  intro acts
  have htimely : (Clock.init 8 (2 ^ 32 - 5)).TimelyRun acts := by decide
  exact (timeouts_run htimely).1

end Runs

end DsiWifi
