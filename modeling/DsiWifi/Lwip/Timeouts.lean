import DsiWifi.Lib.Agenda
import Mathlib.Algebra.GroupWithZero.Nat

/-!
# The timeouts of lwIP

`timeouts.c` over the millisecond counter of `sys_arch.c`, which wraps around.  A handler may do
anything that the interface allows while `sys_check_timeouts` runs: the effects of the calls it makes
are given to the loop from outside (`world`), one list for each handler that is called.

The reference keeps the times as natural numbers in an agenda (`Clock`).  As long as nothing is due
more than `2 ^ 30` ms ago and no delay is longer than the assertion in `sys_timeout` allows
(`Clock.Timely`), the list of the code is that agenda modulo `2 ^ 32`.
-/

namespace DsiWifi

/-! ## The code -/

def timeLessThan (t compareTo : UInt32) : Bool := 0x7FFFFFFF < t - compareTo

/-- `struct sys_timeo`; `h` is the handler together with its argument. -/
structure SysTimeo (κ : Type) where
  time : UInt32
  h : κ
deriving DecidableEq

/-- `next_timeout` and the list behind it, `current_timeout_due_time`, the number of elements left in
the pool `MEMP_SYS_TIMEOUT`, and `val` of `sys_now`. -/
@[ext]
structure Timeouts (κ : Type) where
  list : List (SysTimeo κ)
  dueTime : UInt32
  free : ℕ
  now : UInt32
deriving DecidableEq

/-- The loop of `sys_timeout_abs` from the element `t` on, which is not later than `timeout`. -/
def insertAfter {κ : Type} (timeout : SysTimeo κ) : List (SysTimeo κ) → List (SysTimeo κ)
  | [] => []
  | [t] => [t, timeout]
  | t :: u :: l =>
    if timeLessThan timeout.time u.time then t :: timeout :: u :: l
    else t :: insertAfter timeout (u :: l)

/-- How `sys_timeout_abs` links the element. -/
def linkTimeout {κ : Type} (timeout : SysTimeo κ) : List (SysTimeo κ) → List (SysTimeo κ)
  | [] => [timeout]
  | t :: l =>
    if timeLessThan timeout.time t.time then timeout :: t :: l else insertAfter timeout (t :: l)

section Code

variable {κ : Type} (s : Timeouts κ)

/-- `sys_timeout_abs`; an empty pool drops the timeout, behind a message. -/
def sysTimeoutAbs (absTime : UInt32) (handler : κ) : Timeouts κ :=
  if s.free = 0 then s
  else { s with list := linkTimeout ⟨absTime, handler⟩ s.list, free := s.free - 1 }

def sysTimeout (msecs : UInt32) (handler : κ) : Timeouts κ := sysTimeoutAbs s (s.now + msecs) handler

/-- `lwip_cyclic_timer` behind the call of its own handler. -/
def lwipCyclicTimer (intervalMs : UInt32) (arg : κ) : Timeouts κ :=
  let nextTimeoutTime := s.dueTime + intervalMs
  if timeLessThan nextTimeoutTime s.now then sysTimeoutAbs s (s.now + intervalMs) arg
  else sysTimeoutAbs s nextTimeoutTime arg

/-- `sys_untimeout`: the first match goes back to the pool. -/
def sysUntimeout [DecidableEq κ] (handler : κ) : Timeouts κ :=
  if s.list.any (·.h = handler) then
    { s with list := s.list.eraseP (·.h = handler), free := s.free + 1 }
  else s

def sysNowInc (amt : UInt32) : Timeouts κ := { s with now := s.now + amt }

def sysTimeoutsSleeptime : UInt32 :=
  match s.list with
  | [] => 0xFFFFFFFF
  | t :: _ => if timeLessThan t.time s.now then 0 else t.time - s.now

end Code

/-- What a handler, or anything else, can do to the timeouts. -/
inductive TimeoutOp (κ : Type)
  | timeout (msecs : UInt32) (handler : κ)
  | untimeout (handler : κ)
  | cyclic (intervalMs : UInt32) (arg : κ)
  | advance (amt : UInt32)

section Run

variable {κ : Type} [DecidableEq κ]

def TimeoutOp.apply : TimeoutOp κ → Timeouts κ → Timeouts κ
  | .timeout msecs handler, s => sysTimeout s msecs handler
  | .untimeout handler, s => sysUntimeout s handler
  | .cyclic intervalMs arg, s => lwipCyclicTimer s intervalMs arg
  | .advance amt, s => sysNowInc s amt

def applyOps (ops : List (TimeoutOp κ)) (s : Timeouts κ) : Timeouts κ :=
  ops.foldl (fun s op => op.apply s) s

/-- The element that has expired, unlinked and given back to the pool. -/
def takeExpired (now : UInt32) (s : Timeouts κ) : Option (SysTimeo κ × Timeouts κ) :=
  match s.list with
  | [] => none
  | t :: l =>
    if timeLessThan now t.time then none
    else some (t, { s with list := l, dueTime := t.time, free := s.free + 1 })

/-- The loop of `sys_check_timeouts`: the state at its return and the elements whose handlers were
called.  `world` is what each of these handlers does; `none` means that it holds too few. -/
def checkLoop (now : UInt32) : List (List (TimeoutOp κ)) → Timeouts κ →
    Option (Timeouts κ × List (SysTimeo κ))
  | [], s => if (takeExpired now s).isNone then some (s, []) else none
  | ops :: world, s =>
    match takeExpired now s with
    | none => some (s, [])
    | some (t, s) => (checkLoop now world (applyOps ops s)).map fun r => (r.1, t :: r.2)

def sysCheckTimeouts (world : List (List (TimeoutOp κ))) (s : Timeouts κ) :
    Option (Timeouts κ × List (SysTimeo κ)) := checkLoop s.now world s

end Run

/-! ## The reference -/

/-- The timeouts with unbounded times. -/
@[ext]
structure Clock (κ : Type) where
  list : List (ℕ × κ)
  due : ℕ
  free : ℕ
  now : ℕ

section Reference

variable {κ : Type} [DecidableEq κ]

/-- The item goes on the agenda if the pool has an element for it. -/
def Clock.enter (c : Clock κ) (d : ℕ) (k : κ) : Clock κ :=
  if c.free = 0 then c else { c with list := Agenda.insert d k c.list, free := c.free - 1 }

/-- The first item `k` leaves the agenda. -/
def Clock.cancel (c : Clock κ) (k : κ) : Clock κ :=
  if c.list.any (·.2 = k) then { c with list := c.list.eraseP (·.2 = k), free := c.free + 1 } else c

def Clock.apply : TimeoutOp κ → Clock κ → Clock κ
  | .timeout msecs k, c => c.enter (c.now + msecs.toNat) k
  | .untimeout k, c => c.cancel k
  | .cyclic interval k, c =>
    c.enter (if c.due + interval.toNat < c.now then c.now + interval.toNat
      else c.due + interval.toNat) k
  | .advance amt, c => { c with now := c.now + amt.toNat }

def Clock.applyOps (ops : List (TimeoutOp κ)) (c : Clock κ) : Clock κ :=
  ops.foldl (fun c op => c.apply op) c

/-- The first item, if it is due by `now`. -/
def Clock.take (now : ℕ) (c : Clock κ) : Option ((ℕ × κ) × Clock κ) :=
  match c.list with
  | [] => none
  | e :: l => if now < e.1 then none else some (e, { c with list := l, due := e.1, free := c.free + 1 })

/-- All items due by `now`, one after the other. -/
def Clock.check (now : ℕ) : List (List (TimeoutOp κ)) → Clock κ → Option (Clock κ × List (ℕ × κ))
  | [], c => if (c.take now).isNone then some (c, []) else none
  | ops :: world, c =>
    match c.take now with
    | none => some (c, [])
    | some (e, c) => (Clock.check now world (c.applyOps ops)).map fun r => (r.1, e :: r.2)

/-- The times that matter are close together: nothing has been due for longer than `2 ^ 30` ms, and
nothing is further ahead. -/
structure Clock.Inv (c : Clock κ) : Prop where
  sorted : Agenda.Sorted c.list
  late : ∀ e ∈ c.list, c.now ≤ e.1 + 2 ^ 30
  soon : ∀ e ∈ c.list, e.1 < c.now + 2 ^ 30
  due : c.due ≤ c.now

/-- What keeps them there.  The bound of a delay is that of the assertion in `sys_timeout`. -/
def Clock.Timely : TimeoutOp κ → Clock κ → Prop
  | .timeout msecs _, _ => msecs.toNat < 2 ^ 30
  | .untimeout _, _ => True
  | .cyclic interval _, c => interval.toNat < 2 ^ 30 ∧ c.now ≤ c.due + 2 ^ 30
  | .advance amt, c => ∀ e ∈ c.list, c.now + amt.toNat ≤ e.1 + 2 ^ 30

instance Clock.decTimely (op : TimeoutOp κ) (c : Clock κ) : Decidable (c.Timely op) := by
  cases op <;> unfold Clock.Timely <;> infer_instance

def Clock.TimelyOps : List (TimeoutOp κ) → Clock κ → Prop
  | [], _ => True
  | op :: ops, c => c.Timely op ∧ Clock.TimelyOps ops (c.apply op)

instance Clock.decTimelyOps : (ops : List (TimeoutOp κ)) → (c : Clock κ) → Decidable (c.TimelyOps ops)
  | [], _ => .isTrue trivial
  | op :: ops, c =>
    have := Clock.decTimelyOps ops (c.apply op)
    inferInstanceAs (Decidable (c.Timely op ∧ (c.apply op).TimelyOps ops))

/-- Every handler is timely, and the call does not last longer than `2 ^ 30` ms. -/
def Clock.TimelyCheck (now : ℕ) : List (List (TimeoutOp κ)) → Clock κ → Prop
  | [], _ => True
  | ops :: world, c =>
    match c.take now with
    | none => True
    | some (_, c) => c.TimelyOps ops ∧ (c.applyOps ops).now ≤ now + 2 ^ 30 ∧
        Clock.TimelyCheck now world (c.applyOps ops)

instance Clock.decTimelyCheck (now : ℕ) : (world : List (List (TimeoutOp κ))) → (c : Clock κ) →
    Decidable (Clock.TimelyCheck now world c)
  | [], _ => .isTrue trivial
  | ops :: world, c =>
    match h : c.take now with
    | none => .isTrue (by rw [Clock.TimelyCheck, h]; trivial)
    | some (e, c') =>
      have := Clock.decTimelyCheck now world (c'.applyOps ops)
      decidable_of_iff (c'.TimelyOps ops ∧ (c'.applyOps ops).now ≤ now + 2 ^ 30 ∧
        Clock.TimelyCheck now world (c'.applyOps ops)) (by rw [Clock.TimelyCheck, h])

end Reference

/-! ## Refinement -/

/-- An item as the code stores it. -/
def wrapItem {κ : Type} (e : ℕ × κ) : SysTimeo κ := ⟨.ofNat e.1, e.2⟩

/-- The state as the code stores it. -/
def Clock.wrap {κ : Type} (c : Clock κ) : Timeouts κ where
  list := c.list.map wrapItem
  dueTime := .ofNat c.due
  free := c.free
  now := .ofNat c.now

/-- The comparison is right as long as the times are less than half the range apart. -/
theorem timeLessThan_ofNat {a b : ℕ} (ha : a < b + 2 ^ 31) (hb : b ≤ a + 2 ^ 31) :
    timeLessThan (.ofNat a) (.ofNat b) = decide (a < b) := by
  unfold timeLessThan
  rw [decide_eq_decide, UInt32.lt_iff_toNat_lt, UInt32.toNat_sub, UInt32.toNat_ofNat',
    UInt32.toNat_ofNat']
  show 0x7FFFFFFF < _ ↔ _
  omega

section Refinement

variable {κ : Type}

/-- The two ways in which `sys_timeout_abs` links an element are one scan. -/
theorem insertAfter_cons (x t : SysTimeo κ) (l : List (SysTimeo κ)) :
    insertAfter x (t :: l) = t :: linkTimeout x l := by
  cases l with
  | nil => rfl
  | cons u l =>
    show (if timeLessThan x.time u.time then t :: x :: u :: l else t :: insertAfter x (u :: l)) =
      t :: (if timeLessThan x.time u.time then x :: u :: l else insertAfter x (u :: l))
    split_ifs <;> rfl

theorem linkTimeout_map (d : ℕ) (k : κ) (l : List (ℕ × κ))
    (h : ∀ e ∈ l, d < e.1 + 2 ^ 31 ∧ e.1 ≤ d + 2 ^ 31) :
    linkTimeout (wrapItem (d, k)) (l.map wrapItem) = (Agenda.insert d k l).map wrapItem := by
  induction l with
  | nil => rfl
  | cons e l ih =>
    obtain ⟨hlo, hhi⟩ := h e List.mem_cons_self
    have hless : timeLessThan (wrapItem (d, k)).time (wrapItem e).time = decide (d < e.1) :=
      timeLessThan_ofNat hlo hhi
    rw [List.map_cons, linkTimeout, insertAfter_cons, hless, Agenda.insert,
      ih fun f hf => h f (List.mem_cons_of_mem e hf)]
    by_cases hd : d < e.1
    · rw [if_pos (decide_eq_true hd), if_pos hd]
      rfl
    · rw [if_neg (by simpa using hd), if_neg hd]
      rfl

theorem sysTimeoutAbs_wrap {c : Clock κ} {d : ℕ} (k : κ) (hinv : c.Inv)
    (hlo : c.now ≤ d) (hhi : d < c.now + 2 ^ 30) :
    sysTimeoutAbs c.wrap (.ofNat d) k = (c.enter d k).wrap := by
  have hlink := linkTimeout_map d k c.list fun e he => by
    have hlate := hinv.late e he
    have hsoon := hinv.soon e he
    omega
  unfold sysTimeoutAbs Clock.enter
  by_cases hfree : c.free = 0
  · rw [if_pos hfree, if_pos (show c.wrap.free = 0 from hfree)]
  · rw [if_neg hfree, if_neg (show c.wrap.free ≠ 0 from hfree)]
    unfold Clock.wrap
    rw [← hlink]
    rfl

/-- The time at which the reference enters a cyclic timer again. -/
theorem cyclic_bounds {c : Clock κ} {n : ℕ} (hdue : c.due ≤ c.now) (hn : n < 2 ^ 30) :
    c.now ≤ (if c.due + n < c.now then c.now + n else c.due + n) ∧
      (if c.due + n < c.now then c.now + n else c.due + n) < c.now + 2 ^ 30 := by
  split_ifs <;> omega

theorem ofNat_add_toNat (n : ℕ) (u : UInt32) : UInt32.ofNat (n + u.toNat) = .ofNat n + u := by
  rw [UInt32.ofNat_add, UInt32.ofNat_toNat]

theorem mem_enter {c : Clock κ} {d : ℕ} {k : κ} {e : ℕ × κ} (he : e ∈ (c.enter d k).list) :
    e = (d, k) ∨ e ∈ c.list := by
  unfold Clock.enter at he
  split_ifs at he
  · exact .inr he
  · exact Agenda.mem_insert.1 he

theorem inv_enter {c : Clock κ} {d : ℕ} (k : κ) (hinv : c.Inv) (hlo : c.now ≤ d)
    (hhi : d < c.now + 2 ^ 30) : (c.enter d k).Inv := by
  have hnow : (c.enter d k).now = c.now := by
    unfold Clock.enter
    split_ifs <;> rfl
  refine ⟨?_, ?_, ?_, ?_⟩
  · unfold Clock.enter
    split_ifs
    · exact hinv.sorted
    · exact hinv.sorted.insert d k
  · intro e he
    rw [hnow]
    rcases mem_enter he with rfl | he
    · exact Nat.le_add_right_of_le hlo
    · exact hinv.late e he
  · intro e he
    rw [hnow]
    rcases mem_enter he with rfl | he
    · exact hhi
    · exact hinv.soon e he
  · have hdue : (c.enter d k).due = c.due := by
      unfold Clock.enter
      split_ifs <;> rfl
    rw [hnow, hdue]
    exact hinv.due

/-- The expired element, as long as the call does not last too long. -/
theorem takeExpired_wrap {c : Clock κ} {now : ℕ} (hinv : c.Inv) (hlo : now ≤ c.now)
    (hhi : c.now ≤ now + 2 ^ 30) :
    takeExpired (.ofNat now) c.wrap = (c.take now).map fun r => (wrapItem r.1, r.2.wrap) := by
  unfold takeExpired Clock.take
  rw [show c.wrap.list = c.list.map wrapItem from rfl]
  rcases hl : c.list with _ | ⟨e, l⟩
  · rfl
  · have hlate := hinv.late e (by rw [hl]; exact List.mem_cons_self)
    have hsoon := hinv.soon e (by rw [hl]; exact List.mem_cons_self)
    have hless : timeLessThan (.ofNat now) (wrapItem e).time = decide (now < e.1) :=
      timeLessThan_ofNat (by omega) (by omega)
    show (if timeLessThan (.ofNat now) (wrapItem e).time then none else _) =
      (if now < e.1 then none else _).map _
    rw [hless]
    by_cases hd : now < e.1
    · rw [if_pos (decide_eq_true hd), if_pos hd]
      rfl
    · rw [if_neg (by simpa using hd), if_neg hd]
      rfl

theorem take_eq_some {c c' : Clock κ} {now : ℕ} {e : ℕ × κ} (h : c.take now = some (e, c')) :
    c.list = e :: c'.list ∧ e.1 ≤ now ∧
      c' = { c with list := c'.list, due := e.1, free := c.free + 1 } := by
  unfold Clock.take at h
  rcases hl : c.list with _ | ⟨f, l⟩
  · rw [hl] at h
    exact absurd h (by simp)
  · rw [hl] at h
    dsimp only at h
    split_ifs at h with hd
    obtain ⟨rfl, rfl⟩ := Prod.mk.inj (Option.some.inj h)
    exact ⟨rfl, Nat.le_of_not_lt hd, rfl⟩

theorem inv_take {c c' : Clock κ} {now : ℕ} {e : ℕ × κ} (hinv : c.Inv) (hnow : now ≤ c.now)
    (h : c.take now = some (e, c')) : c'.Inv := by
  obtain ⟨hl, hle, hc⟩ := take_eq_some h
  have hsub : ∀ f ∈ c'.list, f ∈ c.list := by
    intro f hf
    rw [hl]
    exact List.mem_cons_of_mem e hf
  have hsorted := hinv.sorted
  rw [hl] at hsorted
  rw [hc]
  exact ⟨(List.pairwise_cons.1 hsorted).2, fun f hf => hinv.late f (hsub f hf),
    fun f hf => hinv.soon f (hsub f hf), hle.trans hnow⟩

variable [DecidableEq κ]

/-- One operation. -/
theorem apply_wrap {c : Clock κ} {op : TimeoutOp κ} (hinv : c.Inv) (htimely : c.Timely op) :
    op.apply c.wrap = (c.apply op).wrap := by
  cases op with
  | timeout msecs k =>
    have hm : msecs.toNat < 2 ^ 30 := htimely
    have h := sysTimeoutAbs_wrap (d := c.now + msecs.toNat) k hinv (by omega) (by omega)
    rw [ofNat_add_toNat] at h
    exact h
  | untimeout k =>
    show sysUntimeout c.wrap k = (c.cancel k).wrap
    have hany : c.wrap.list.any (·.h = k) = c.list.any (·.2 = k) := List.any_map ..
    have herase : c.wrap.list.eraseP (·.h = k) = (c.list.eraseP (·.2 = k)).map wrapItem :=
      List.eraseP_map ..
    unfold sysUntimeout Clock.cancel
    rw [hany, herase]
    split_ifs <;> rfl
  | cyclic interval k =>
    obtain ⟨hn, hlate⟩ : interval.toNat < 2 ^ 30 ∧ c.now ≤ c.due + 2 ^ 30 := htimely
    obtain ⟨hlo, hhi⟩ := cyclic_bounds hinv.due hn
    have h := sysTimeoutAbs_wrap k hinv hlo hhi
    have hdue := hinv.due
    have hless := timeLessThan_ofNat (a := c.due + interval.toNat) (b := c.now) (by omega) (by omega)
    rw [ofNat_add_toNat] at hless
    show lwipCyclicTimer c.wrap interval k = (c.enter _ k).wrap
    unfold lwipCyclicTimer
    dsimp only
    rw [← h, show c.wrap.dueTime = .ofNat c.due from rfl, show c.wrap.now = .ofNat c.now from rfl,
      hless]
    by_cases hover : c.due + interval.toNat < c.now
    · rw [if_pos (decide_eq_true hover), if_pos hover, ofNat_add_toNat]
    · rw [if_neg (by simpa using hover), if_neg hover, ofNat_add_toNat]
  | advance amt =>
    show sysNowInc c.wrap amt = _
    unfold sysNowInc Clock.apply Clock.wrap
    rw [ofNat_add_toNat]

theorem Clock.Inv.apply {c : Clock κ} {op : TimeoutOp κ} (hinv : c.Inv) (htimely : c.Timely op) :
    (c.apply op).Inv := by
  cases op with
  | timeout msecs k =>
    have hm : msecs.toNat < 2 ^ 30 := htimely
    exact inv_enter k hinv (by omega) (by omega)
  | untimeout k =>
    show (c.cancel k).Inv
    unfold Clock.cancel
    split_ifs
    · have hsub := List.eraseP_sublist (p := fun e : ℕ × κ => decide (e.2 = k)) (l := c.list)
      exact ⟨hinv.sorted.sublist hsub, fun e he => hinv.late e (hsub.subset he),
        fun e he => hinv.soon e (hsub.subset he), hinv.due⟩
    · exact hinv
  | cyclic interval k =>
    obtain ⟨hlo, hhi⟩ := cyclic_bounds hinv.due htimely.1
    exact inv_enter k hinv hlo hhi
  | advance amt =>
    refine ⟨hinv.sorted, htimely, ?_, Nat.le_add_right_of_le hinv.due⟩
    intro e he
    have hsoon := hinv.soon e he
    show e.1 < c.now + amt.toNat + 2 ^ 30
    omega

theorem applyOps_wrap {c : Clock κ} {ops : List (TimeoutOp κ)} (hinv : c.Inv)
    (htimely : c.TimelyOps ops) :
    applyOps ops c.wrap = (c.applyOps ops).wrap ∧ (c.applyOps ops).Inv := by
  induction ops generalizing c with
  | nil => exact ⟨rfl, hinv⟩
  | cons op ops ih =>
    obtain ⟨hop, hops⟩ := htimely
    obtain ⟨hwrap, hinv'⟩ := ih (hinv.apply hop) hops
    refine ⟨?_, hinv'⟩
    show applyOps ops (op.apply c.wrap) = _
    rw [apply_wrap hinv hop, hwrap]
    rfl

/-! ### `sys_check_timeouts` -/

theorem now_apply_le (c : Clock κ) (op : TimeoutOp κ) : c.now ≤ (c.apply op).now := by
  cases op with
  | timeout msecs k =>
    show c.now ≤ (c.enter _ k).now
    unfold Clock.enter
    split_ifs <;> exact Nat.le_refl _
  | untimeout k =>
    show c.now ≤ (c.cancel k).now
    unfold Clock.cancel
    split_ifs <;> exact Nat.le_refl _
  | cyclic interval k =>
    show c.now ≤ (c.enter _ k).now
    unfold Clock.enter
    split_ifs <;> exact Nat.le_refl _
  | advance amt => exact Nat.le_add_right _ _

theorem now_applyOps_le (c : Clock κ) (ops : List (TimeoutOp κ)) : c.now ≤ (c.applyOps ops).now := by
  induction ops generalizing c with
  | nil => exact Nat.le_refl _
  | cons op ops ih => exact (now_apply_le c op).trans (ih (c.apply op))

theorem checkLoop_wrap {c : Clock κ} {now : ℕ} {world : List (List (TimeoutOp κ))} (hinv : c.Inv)
    (hlo : now ≤ c.now) (hhi : c.now ≤ now + 2 ^ 30) (htimely : Clock.TimelyCheck now world c) :
    checkLoop (.ofNat now) world c.wrap =
      (Clock.check now world c).map fun r => (r.1.wrap, r.2.map wrapItem) := by
  induction world generalizing c with
  | nil =>
    unfold checkLoop Clock.check
    rw [takeExpired_wrap hinv hlo hhi, Option.isNone_map]
    split_ifs <;> rfl
  | cons ops world ih =>
    unfold checkLoop Clock.check
    rw [takeExpired_wrap hinv hlo hhi]
    unfold Clock.TimelyCheck at htimely
    rcases htake : c.take now with _ | ⟨e, c'⟩
    · rfl
    · rw [htake] at htimely
      obtain ⟨hops, hnow, hworld⟩ := htimely
      have hinv' := inv_take hinv hlo htake
      have hlo' : now ≤ c'.now := by
        rw [(take_eq_some htake).2.2]
        exact hlo
      obtain ⟨hwrap, hinv''⟩ := applyOps_wrap hinv' hops
      have h := ih hinv'' (hlo'.trans (now_applyOps_le c' ops)) hnow hworld
      show (checkLoop (.ofNat now) world (applyOps ops c'.wrap)).map _ = _
      rw [hwrap, h, Option.map_map, Option.map_map]
      rfl

end Refinement

end DsiWifi
