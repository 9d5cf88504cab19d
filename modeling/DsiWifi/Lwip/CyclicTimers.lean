import DsiWifi.Lwip.Timeouts

/-!
# The cyclic timers of the stack

Every cyclic timer of lwIP takes itself off the list when it expires and enters itself again at the
end of its handler; the timer of TCP is entered when a connection needs it and enters itself again as
long as there are any.  The pool has exactly one element for each of them.  Whatever the handlers do
meanwhile, and whenever `sys_check_timeouts` is called, no timer is ever lost or doubled, and no
timeout is refused for want of an element (`stack_timers_run`).
-/

namespace DsiWifi

/-! ## The code -/

/-- The timers as the stack is configured: the entries of `lwip_cyclic_timers`. -/
inductive LwipTimer
  | tcp
  | ipReass
  | etharp
  | dhcpCoarse
  | dhcpFine
  | acd
  | igmp
  | dns
deriving DecidableEq

def LwipTimer.intervalMs : LwipTimer → UInt32
  | .tcp => 250
  | .ipReass => 1000
  | .etharp => 1000
  | .dhcpCoarse => 60000
  | .dhcpFine => 500
  | .acd => 100
  | .igmp => 100
  | .dns => 1000

/-- The timers that `sys_timeouts_init` starts: all but the first. -/
def cyclicTimers : List LwipTimer :=
  [.ipReass, .etharp, .dhcpCoarse, .dhcpFine, .acd, .igmp, .dns]

/-- `MEMP_NUM_SYS_TIMEOUT`, which is `LWIP_NUM_SYS_TIMEOUT_INTERNAL`. -/
def mempNumSysTimeout : ℕ := 8

/-- The timeouts, and `tcpip_tcp_timer_active`. -/
structure StackTimers where
  timeouts : Timeouts LwipTimer
  tcpActive : Bool

def sysTimeoutsInit (s : Timeouts LwipTimer) : Timeouts LwipTimer :=
  cyclicTimers.foldl (fun s k => sysTimeout s k.intervalMs k) s

/-- `tcp_timer_needed`; `pcbs` is `tcp_active_pcbs || tcp_tw_pcbs`. -/
def tcpTimerNeeded (pcbs : Bool) (s : StackTimers) : StackTimers :=
  if !s.tcpActive && pcbs then ⟨sysTimeout s.timeouts LwipTimer.tcp.intervalMs .tcp, true⟩ else s

/-- What the code that a handler calls can do to the timers: time passes, or a connection needs the
timer of TCP. -/
inductive StackAct
  | advance (amt : UInt32)
  | tcpTimerNeeded (pcbs : Bool)

def StackAct.apply (s : StackTimers) : StackAct → StackTimers
  | .advance amt => { s with timeouts := sysNowInc s.timeouts amt }
  | .tcpTimerNeeded pcbs => DsiWifi.tcpTimerNeeded pcbs s

/-- `tcpip_tcp_timer` for the timer of TCP and `lwip_cyclic_timer` for the others; `body` is what
`tcp_tmr()` or `cyclic->handler()` does, `pcbs` whether there are connections behind it. -/
def stackHandler (k : LwipTimer) (body : List StackAct) (pcbs : Bool) (s : StackTimers) :
    StackTimers :=
  let s := body.foldl StackAct.apply s
  if k = .tcp then
    if pcbs then { s with timeouts := sysTimeout s.timeouts LwipTimer.tcp.intervalMs .tcp }
    else { s with tcpActive := false }
  else { s with timeouts := lwipCyclicTimer s.timeouts k.intervalMs k }

/-- The loop of `sys_check_timeouts` with these handlers; `none` means that `world` holds too few. -/
def stackCheckLoop (now : UInt32) : List (List StackAct × Bool) → StackTimers → Option StackTimers
  | [], s => if (takeExpired now s.timeouts).isNone then some s else none
  | (body, pcbs) :: world, s =>
    match takeExpired now s.timeouts with
    | none => some s
    | some (t, ts) => stackCheckLoop now world (stackHandler t.h body pcbs ⟨ts, s.tcpActive⟩)

inductive StackEvent
  | act (a : StackAct)
  | check (world : List (List StackAct × Bool))

def StackTimers.run : List StackEvent → StackTimers → Option StackTimers
  | [], s => some s
  | .act a :: es, s => StackTimers.run es (a.apply s)
  | .check world :: es, s =>
    match stackCheckLoop s.timeouts.now world s with
    | none => none
    | some s => StackTimers.run es s

/-- The state behind `sys_timeouts_init`, at time `t`. -/
def StackTimers.init (t : UInt32) : StackTimers := ⟨sysTimeoutsInit ⟨[], 0, mempNumSysTimeout, t⟩, false⟩

/-! ## The invariant -/

/-- The timers that are running. -/
def StackTimers.running (s : StackTimers) : List LwipTimer :=
  if s.tcpActive then .tcp :: cyclicTimers else cyclicTimers

/-- The timers in the list. -/
def Timeouts.timers (s : Timeouts LwipTimer) : List LwipTimer := s.list.map SysTimeo.h

/-- The timers in the list, and `pending`, whose handler is at work, are those that are running; every
element of the pool is free or in the list. -/
structure StackTimers.Inv (pending : List LwipTimer) (s : StackTimers) : Prop where
  timers : (pending ++ s.timeouts.timers).Perm s.running
  pool : s.timeouts.free + s.timeouts.list.length = mempNumSysTimeout

theorem perm_linkTimeout {κ : Type} (x : SysTimeo κ) (l : List (SysTimeo κ)) :
    (linkTimeout x l).Perm (x :: l) := by
  induction l with
  | nil => exact List.Perm.refl _
  | cons t l ih =>
    rw [linkTimeout, insertAfter_cons]
    split_ifs
    · exact List.Perm.refl _
    · exact (ih.cons t).trans (List.Perm.swap ..)

/-- A timeout that the pool has an element for. -/
theorem sysTimeoutAbs_timers {s : Timeouts LwipTimer} (hfree : s.free ≠ 0) (t : UInt32)
    (k : LwipTimer) :
    (sysTimeoutAbs s t k).timers.Perm (k :: s.timers) ∧
      (sysTimeoutAbs s t k).free + (sysTimeoutAbs s t k).list.length = s.free + s.list.length := by
  have hperm := perm_linkTimeout ⟨t, k⟩ s.list
  have hlen := hperm.length_eq
  rw [sysTimeoutAbs, if_neg hfree]
  refine ⟨hperm.map SysTimeo.h, ?_⟩
  dsimp only
  rw [hlen, List.length_cons]
  omega

theorem sysTimeoutsInit_timers (ks : List LwipTimer) (s : Timeouts LwipTimer)
    (hfree : ks.length ≤ s.free) :
    let s' := ks.foldl (fun s k => sysTimeout s k.intervalMs k) s
    s'.timers.Perm (ks ++ s.timers) ∧ s'.free + s'.list.length = s.free + s.list.length := by
  induction ks generalizing s with
  | nil => exact ⟨List.Perm.refl _, rfl⟩
  | cons k ks ih =>
    rw [List.length_cons] at hfree
    obtain ⟨hperm, hpool⟩ := sysTimeoutAbs_timers (s := s) (by omega) (s.now + k.intervalMs) k
    have hlen : (sysTimeout s k.intervalMs k).list.length = s.list.length + 1 := by
      have h := hperm.length_eq
      rw [List.length_cons, Timeouts.timers, Timeouts.timers, List.length_map, List.length_map] at h
      exact h
    have hpool' : (sysTimeout s k.intervalMs k).free + (sysTimeout s k.intervalMs k).list.length =
        s.free + s.list.length := hpool
    obtain ⟨hperm', hpool''⟩ := ih (sysTimeout s k.intervalMs k) (by omega)
    refine ⟨?_, hpool''.trans hpool'⟩
    exact hperm'.trans ((hperm.append_left ks).trans List.perm_middle)

theorem inv_init (t : UInt32) : (StackTimers.init t).Inv [] := by
  have hfree : cyclicTimers.length ≤ mempNumSysTimeout := by decide
  obtain ⟨hperm, hpool⟩ := sysTimeoutsInit_timers cyclicTimers ⟨[], 0, mempNumSysTimeout, t⟩ hfree
  have hnil : (⟨[], 0, mempNumSysTimeout, t⟩ : Timeouts LwipTimer).timers = [] := rfl
  rw [hnil, List.append_nil] at hperm
  unfold StackTimers.init sysTimeoutsInit
  refine ⟨?_, hpool⟩
  rw [List.nil_append, StackTimers.running, if_neg Bool.false_ne_true]
  exact hperm

section Steps

variable {s : StackTimers} {pending : List LwipTimer}

/-- Every timer that is not in the list has an element of the pool. -/
theorem StackTimers.Inv.free_eq (h : s.Inv pending) :
    s.timeouts.free + s.running.length = mempNumSysTimeout + pending.length := by
  have hlen := h.timers.length_eq
  have hpool := h.pool
  rw [List.length_append, Timeouts.timers, List.length_map] at hlen
  omega

/-- A timer that is running and whose handler is at work enters itself again. -/
theorem StackTimers.Inv.reenter {k : LwipTimer} (h : s.Inv [k]) (t : UInt32) :
    StackTimers.Inv [] ⟨sysTimeoutAbs s.timeouts t k, s.tcpActive⟩ := by
  have hfree : s.timeouts.free ≠ 0 := by
    have hfree := h.free_eq
    have hrunning : s.running.length ≤ 8 := by
      unfold StackTimers.running
      split_ifs <;> decide
    rw [List.length_singleton, mempNumSysTimeout] at hfree
    omega
  obtain ⟨hperm, hpool⟩ := sysTimeoutAbs_timers hfree t k
  exact ⟨hperm.trans h.timers, hpool.trans h.pool⟩

theorem StackTimers.Inv.act (h : s.Inv pending) (a : StackAct) : (a.apply s).Inv pending := by
  cases a with
  | advance amt => exact ⟨h.timers, h.pool⟩
  | tcpTimerNeeded pcbs =>
    show (DsiWifi.tcpTimerNeeded pcbs s).Inv pending
    unfold DsiWifi.tcpTimerNeeded
    split_ifs with hneeded
    · have hactive : s.tcpActive = false := by
        rw [Bool.and_eq_true, Bool.not_eq_true'] at hneeded
        exact hneeded.1
      have hrunning : s.running = cyclicTimers := by
        rw [StackTimers.running, hactive]
        rfl
      have hfree := h.free_eq
      rw [hrunning] at hfree
      obtain ⟨hperm, hpool⟩ := sysTimeoutAbs_timers (s := s.timeouts) (by
        intro h0
        rw [h0] at hfree
        exact absurd hfree (by simp [cyclicTimers, mempNumSysTimeout]; omega))
        (s.timeouts.now + LwipTimer.tcp.intervalMs) .tcp
      have htimers := h.timers
      rw [hrunning] at htimers
      exact ⟨((hperm.append_left pending).trans List.perm_middle).trans (htimers.cons .tcp),
        hpool.trans h.pool⟩
    · exact h

theorem StackTimers.Inv.acts (h : s.Inv pending) (body : List StackAct) :
    (body.foldl StackAct.apply s).Inv pending := by
  induction body generalizing s with
  | nil => exact h
  | cons a body ih => exact ih (h.act a)

theorem StackTimers.Inv.handler {k : LwipTimer} (h : s.Inv [k]) (body : List StackAct) (pcbs : Bool) :
    (stackHandler k body pcbs s).Inv [] := by
  have hbody := h.acts body
  unfold stackHandler
  dsimp only
  generalize body.foldl StackAct.apply s = s at hbody
  split_ifs with htcp hpcbs
  · subst htcp
    exact hbody.reenter _
  · subst htcp
    -- the timer was running, and stops
    have hactive : s.tcpActive = true := by
      by_contra hne
      have hmem : LwipTimer.tcp ∈ s.running :=
        hbody.timers.subset (List.mem_append_left _ (List.mem_singleton_self _))
      rw [StackTimers.running, if_neg hne] at hmem
      exact absurd hmem (by decide)
    have htimers := hbody.timers
    rw [StackTimers.running, if_pos hactive] at htimers
    exact ⟨htimers.cons_inv, hbody.pool⟩
  · unfold lwipCyclicTimer
    dsimp only
    split_ifs
    · exact hbody.reenter _
    · exact hbody.reenter _

theorem StackTimers.Inv.take {now : UInt32} {t : SysTimeo LwipTimer} {ts : Timeouts LwipTimer}
    (h : s.Inv []) (htake : takeExpired now s.timeouts = some (t, ts)) :
    StackTimers.Inv [t.h] ⟨ts, s.tcpActive⟩ := by
  have htimers := h.timers
  have hpool := h.pool
  unfold takeExpired at htake
  unfold Timeouts.timers at htimers
  rcases hl : s.timeouts.list with _ | ⟨u, l⟩
  · rw [hl] at htake
    exact absurd htake (by simp)
  · rw [hl] at htake htimers hpool
    dsimp only at htake
    split_ifs at htake
    obtain ⟨rfl, rfl⟩ := Prod.mk.inj (Option.some.inj htake)
    refine ⟨htimers, ?_⟩
    rw [List.length_cons] at hpool
    dsimp only
    omega

end Steps

theorem inv_stackCheckLoop {now : UInt32} {world : List (List StackAct × Bool)} {s s' : StackTimers}
    (h : s.Inv []) (hcheck : stackCheckLoop now world s = some s') : s'.Inv [] := by
  induction world generalizing s with
  | nil =>
    unfold stackCheckLoop at hcheck
    split_ifs at hcheck
    rw [← Option.some.inj hcheck]
    exact h
  | cons w world ih =>
    unfold stackCheckLoop at hcheck
    rcases htake : takeExpired now s.timeouts with _ | ⟨t, ts⟩
    · rw [htake] at hcheck
      rw [← Option.some.inj hcheck]
      exact h
    · rw [htake] at hcheck
      exact ih ((h.take htake).handler w.1 w.2) hcheck

theorem inv_run {es : List StackEvent} {s s' : StackTimers} (h : s.Inv [])
    (hrun : StackTimers.run es s = some s') : s'.Inv [] := by
  induction es generalizing s with
  | nil =>
    rw [← Option.some.inj hrun]
    exact h
  | cons e es ih =>
    cases e with
    | act a => exact ih (h.act a) hrun
    | check world =>
      unfold StackTimers.run at hrun
      rcases hcheck : stackCheckLoop s.timeouts.now world s with _ | s₁
      · rw [hcheck] at hrun
        exact absurd hrun (by simp)
      · rw [hcheck] at hrun
        exact ih (inv_stackCheckLoop h hcheck) hrun

/-- **The timers of the stack.** After `sys_timeouts_init` at any time and any events, with any
handlers, each of the seven cyclic timers is in the list exactly once, the timer of TCP exactly when it
is active, and nothing else; one element of the pool is left for the timer of TCP while it is not
active. -/
theorem stack_timers_run (t : UInt32) (es : List StackEvent) (s : StackTimers)
    (hrun : StackTimers.run es (.init t) = some s) :
    s.timeouts.timers.Perm (if s.tcpActive then .tcp :: cyclicTimers else cyclicTimers) ∧
      s.timeouts.free = if s.tcpActive then 0 else 1 := by
  have hinv := inv_run (inv_init t) hrun
  refine ⟨hinv.timers, ?_⟩
  have hfree := hinv.free_eq
  unfold StackTimers.running at hfree
  split_ifs at hfree ⊢
  · rw [show (LwipTimer.tcp :: cyclicTimers).length = 8 from rfl, mempNumSysTimeout,
      List.length_nil] at hfree
    omega
  · rw [show cyclicTimers.length = 7 from rfl, mempNumSysTimeout, List.length_nil] at hfree
    omega

/-- Just before the counter wraps around, the handler of ACD opens a connection, and the timer of IGMP
expires. -/
theorem stack_timers_run_wrapping :
    ∃ s, StackTimers.run [.act (.advance 100), .check [([.tcpTimerNeeded true], true), ([], true)]]
        (.init 0xFFFFFFC0) = some s ∧ s.tcpActive = true ∧
      s.timeouts.timers.Perm (.tcp :: cyclicTimers) := by
  refine ⟨_, rfl, rfl, ?_⟩
  exact (stack_timers_run 0xFFFFFFC0
    [.act (.advance 100), .check [([.tcpTimerNeeded true], true), ([], true)]] _ rfl).1

end DsiWifi
