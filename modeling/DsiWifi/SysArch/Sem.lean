import Mathlib.Logic.Function.Basic
import DsiWifi.SysArch.Mutex

/-!
# lwIP semaphores

A semaphore of `sys_arch.c` is one word: signalled or not.  `sys_arch_sem_wait` looks at it once per
millisecond, and once more when its rounds are over; a wait without a time-out has 1000 rounds like
any other.  The word is cleared in a step of its own, behind the last look at it.

Every context runs the same code, part by part; the clock and the signals come from other contexts.
`waits_match_signals_iff` states what has to hold of the order of these parts for each wait to take
a signal of its own and for a wait without a time-out to end with a signal.
-/

namespace DsiWifi

def semSignal : UInt32 := 0x12345678
def semClear : UInt32 := 0xFFFFFFFF
def sysArchTimeout : UInt32 := 0xFFFFFFFF

/-! ## The code of a wait -/

/-- Where a wait stands. -/
inductive SemPc
  /-- At the head of the loop. -/
  | poll
  /-- At the call of `sys_msleep(1)`. -/
  | sleep
  /-- Behind the first line of `sys_msleep`. -/
  | check (target : UInt32)
  /-- In the loop of `sys_msleep`. -/
  | spin (target : UInt32)
  /-- Behind the loop. -/
  | close
  /-- At the write of the semaphore. -/
  | clear
  deriving DecidableEq

/-- A call of `sys_arch_sem_wait` in some processor mode, with the rounds it has left. -/
structure SemCall where
  mode : ℕ
  timeout : UInt32
  left : ℕ
  pc : SemPc

def SemCall.enter (mode : ℕ) (timeout : UInt32) : SemCall where
  mode := mode
  timeout := timeout
  left := if timeout = 0 then 1000 else timeout.toNat
  pc := .poll

def SemCall.next (c : SemCall) : SemCall := { c with left := c.left - 1, pc := .poll }

/-- The next part of a wait: the semaphore after it, and the rest of the call or what it returns. -/
def semWaitPart (sem val : UInt32) (c : SemCall) : UInt32 × (SemCall ⊕ UInt32) :=
  match c.pc with
  | .poll =>
    (sem, .inl { c with
      pc := if c.left = 0 then .close else if sem = semSignal then .close else .sleep })
  | .sleep => (sem, .inl { c with pc := .check (val + 1) })
  | .check target =>
    (sem, .inl
      -- edge case, overflow
      (if val > target then c.next
      -- Don't do this in an IRQ
      else if c.mode = systemMode then { c with pc := .spin target }
      else c.next))
  | .spin target => (sem, .inl (if val < target then c else c.next))
  | .close => (sem, if sem ≠ semSignal then .inr sysArchTimeout else .inl { c with pc := .clear })
  | .clear => (semClear, .inr 1)

/-! ## Interleavings -/

structure SemState where
  sem : UInt32
  val : UInt32
  calls : ℕ → Option SemCall

def SemState.init : SemState := ⟨semClear, 0, fun _ => none⟩

/-- A signal, a clock interrupt, a call of a wait, or the next part of the wait of a context. -/
inductive SemAction
  | signal
  | tick (amt : UInt32)
  | wait (i mode : ℕ) (timeout : UInt32)
  | run (i : ℕ)

def semStep (s : SemState) : SemAction → SemState
  | .signal => { s with sem := semSignal }
  | .tick amt => { s with val := s.val + amt }
  | .wait i mode timeout =>
    match s.calls i with
    | none => { s with calls := Function.update s.calls i (some (.enter mode timeout)) }
    | some _ => s
  | .run i =>
    match s.calls i with
    | none => s
    | some c =>
      let (sem, r) := semWaitPart s.sem s.val c
      { s with sem := sem, calls := Function.update s.calls i (r.elim some fun _ => none) }

abbrev semRun (as : List SemAction) : SemState := Run.exec semStep .init as

def Returns (s : SemState) (a : SemAction) (i : ℕ) (c : SemCall) (v : UInt32) : Prop :=
  a = .run i ∧ s.calls i = some c ∧ (semWaitPart s.sem s.val c).2 = .inr v

def Signals (_ : SemState) (a : SemAction) : Prop := a = .signal

def Succeeds (s : SemState) (a : SemAction) : Prop :=
  ∃ i c v, Returns s a i c v ∧ v ≠ sysArchTimeout

def AtClear (s : SemState) (i : ℕ) : Prop := ∃ c, s.calls i = some c ∧ c.pc = .clear

def SignalledSince (as : List SemAction) : Prop := Run.Since semStep Signals Succeeds .init as

/-- Another wait took the signal of a wait that has passed its last test, and no signal was issued
since. -/
def TakenMeanwhile (i : ℕ) (as : List SemAction) : Prop :=
  Run.Since semStep (fun s a => AtClear s i ∧ Succeeds s a ∧ a ≠ .run i) Signals .init as

/-- Each successful wait takes a signal that was issued since the one before, and a wait without a
time-out does not time out. -/
def MatchesSignals (as : List SemAction) : Prop :=
  ∀ pre a post, as = pre ++ a :: post → ∀ i c v, Returns (semRun pre) a i c v →
    (v ≠ sysArchTimeout → SignalledSince pre) ∧ (c.timeout = 0 → v ≠ sysArchTimeout)

/-- What has to hold of the action `a` after `pre`: a wait that clears the semaphore was not robbed
of its signal, and a wait without a time-out is signalled before its rounds are over. -/
def SignalInTime (pre : List SemAction) (a : SemAction) : Prop :=
  ∀ i c, a = .run i → (semRun pre).calls i = some c →
    (c.pc = .clear → ¬TakenMeanwhile i pre) ∧
      (c.pc = .close → c.timeout = 0 → SignalledSince pre)

/-! ## What a step does -/

theorem returns_iff {s : SemState} {a : SemAction} {i : ℕ} {c : SemCall} {v : UInt32} :
    Returns s a i c v ↔ a = .run i ∧ s.calls i = some c ∧
      (c.pc = .clear ∧ v = 1 ∨ c.pc = .close ∧ s.sem ≠ semSignal ∧ v = sysArchTimeout) := by
  refine and_congr_right fun _ => and_congr_right fun _ => ?_
  unfold semWaitPart
  rcases hpc : c.pc with _ | _ | target | target | _ | _
  · simp
  · simp
  · simp
  · simp
  · by_cases hsem : s.sem = semSignal
    · simp [hsem]
    · simp [hsem, eq_comm]
  · simp [eq_comm]

theorem succeeds_iff {s : SemState} {a : SemAction} :
    Succeeds s a ↔ ∃ i, a = .run i ∧ AtClear s i := by
  constructor
  · rintro ⟨i, c, v, hret, hne⟩
    obtain ⟨ha, hc, ⟨hpc, -⟩ | ⟨-, -, htimeout⟩⟩ := returns_iff.1 hret
    · exact ⟨i, ha, c, hc, hpc⟩
    · exact absurd htimeout hne
  · rintro ⟨i, ha, c, hc, hpc⟩
    exact ⟨i, c, 1, returns_iff.2 ⟨ha, hc, Or.inl ⟨hpc, rfl⟩⟩, by decide⟩

/-- What an action does to the semaphore and to those that are about to clear it. -/
inductive SemActs (s : SemState) (a : SemAction) (s' : SemState) : Prop
  | signal (signals : Signals s a) (noClear : ¬Succeeds s a) (sem : s'.sem = semSignal)
  | clear (i : ℕ) (runs : a = .run i) (passed : AtClear s i) (sem : s'.sem = semClear)
      (gone : ¬AtClear s' i) (others : ∀ j, AtClear s' j → AtClear s j)
  | quiet (noSignal : ¬Signals s a) (noClear : ¬Succeeds s a) (sem : s'.sem = s.sem)
      (passes : ∀ j, AtClear s' j → AtClear s j ∨ s.sem = semSignal)

theorem atClear_update {s : SemState} {i j : ℕ} {sem val : UInt32} {r : Option SemCall} :
    AtClear ⟨sem, val, Function.update s.calls i r⟩ j ↔
      if j = i then ∃ c, r = some c ∧ c.pc = .clear else AtClear s j := by
  unfold AtClear
  by_cases hj : j = i
  · subst hj
    rw [if_pos rfl]
    simp only [Function.update_self]
  · rw [if_neg hj]
    simp only [Function.update_of_ne hj]

/-- A part other than the write leaves the semaphore, and passes the last test of a signalled
semaphore only. -/
theorem semWaitPart_of_ne_clear (sem val : UInt32) {c : SemCall} (h : c.pc ≠ .clear) :
    (semWaitPart sem val c).1 = sem ∧
      ∀ c', (semWaitPart sem val c).2 = .inl c' → c'.pc = .clear → sem = semSignal := by
  unfold semWaitPart
  rcases hpc : c.pc with _ | _ | target | target | _ | _
  · refine ⟨rfl, ?_⟩
    rintro c' ⟨⟩ hc'
    revert hc'
    split_ifs <;> simp
  · refine ⟨rfl, ?_⟩
    rintro c' ⟨⟩ hc'
    exact absurd hc' (by simp)
  · refine ⟨rfl, ?_⟩
    rintro c' ⟨⟩ hc'
    revert hc'
    split_ifs <;> simp [SemCall.next]
  · refine ⟨rfl, ?_⟩
    rintro c' ⟨⟩ hc'
    revert hc'
    split_ifs <;> simp [SemCall.next, hpc]
  · refine ⟨rfl, fun c' hc' _ => ?_⟩
    by_contra hsem
    rw [if_pos hsem] at hc'
    exact absurd hc' (by simp)
  · exact absurd hpc h

theorem acts_run {s : SemState} {i : ℕ} {c : SemCall} (hc : s.calls i = some c) :
    SemActs s (.run i) (semStep s (.run i)) := by
  unfold semStep
  simp only [hc]
  by_cases hpc : c.pc = .clear
  · have hpart : semWaitPart s.sem s.val c = (semClear, .inr 1) := by
      unfold semWaitPart
      rw [hpc]
    rw [hpart]
    refine .clear i rfl ⟨c, hc, hpc⟩ rfl ?_ fun j hj => ?_
    · rw [atClear_update, if_pos rfl]
      rintro ⟨c', hc', -⟩
      exact absurd hc' (by simp)
    · rw [atClear_update] at hj
      by_cases hji : j = i
      · rw [hji]
        exact ⟨c, hc, hpc⟩
      · rwa [if_neg hji] at hj
  · obtain ⟨hsem, hpass⟩ := semWaitPart_of_ne_clear s.sem s.val hpc
    refine .quiet (by simp [Signals]) ?_ hsem fun j hj => ?_
    · rw [succeeds_iff]
      rintro ⟨k, hk, c', hc', hpc'⟩
      cases hk
      rw [hc] at hc'
      cases hc'
      exact hpc hpc'
    · rw [atClear_update] at hj
      by_cases hji : j = i
      · rw [if_pos hji] at hj
        obtain ⟨c', hc', hpc'⟩ := hj
        rcases hr : (semWaitPart s.sem s.val c).2 with d | v
        · rw [hr] at hc'
          cases hc'
          exact Or.inr (hpass _ hr hpc')
        · rw [hr] at hc'
          exact absurd hc' (by simp)
      · rw [if_neg hji] at hj
        exact Or.inl hj

theorem acts_semStep (s : SemState) (a : SemAction) : SemActs s a (semStep s a) := by
  have hno : ∀ {a}, (∀ i, a ≠ .run i) → ¬Succeeds s a := by
    intro a ha hs
    obtain ⟨i, h, -⟩ := succeeds_iff.1 hs
    exact ha i h
  cases a with
  | signal => exact .signal rfl (hno (by simp)) rfl
  | tick amt => exact .quiet (by simp [Signals]) (hno (by simp)) rfl fun j hj => Or.inl hj
  | wait i mode timeout =>
    rcases hc : s.calls i with _ | c
    · unfold semStep
      simp only [hc]
      refine .quiet (by simp [Signals]) (hno (by simp)) rfl fun j hj => ?_
      rw [atClear_update] at hj
      by_cases hji : j = i
      · rw [if_pos hji] at hj
        obtain ⟨c, hc, hpc⟩ := hj
        cases hc
        exact absurd hpc (by simp [SemCall.enter])
      · rw [if_neg hji] at hj
        exact Or.inl hj
    · unfold semStep
      simp only [hc]
      exact .quiet (by simp [Signals]) (hno (by simp)) rfl fun j hj => Or.inl hj
  | run i =>
    rcases hc : s.calls i with _ | c
    · have hstay : semStep s (.run i) = s := by
        unfold semStep
        simp only [hc]
      rw [hstay]
      refine .quiet (by simp [Signals]) ?_ rfl fun j hj => Or.inl hj
      rw [succeeds_iff]
      rintro ⟨k, hk, c', hc', -⟩
      cases hk
      exact absurd (hc.symm.trans hc') (by simp)
    · exact acts_run hc

/-! ## What the semaphore tells -/

/-- The semaphore reads as signalled if a signal was issued since the last successful wait. -/
theorem sem_iff_signalledSince (as : List SemAction) :
    (semRun as).sem = semSignal ↔ SignalledSince as := by
  refine Run.since_iff_of_step (f := fun s : SemState => s.sem = semSignal) (by decide) (fun s a => ?_) as
  have hacts := acts_semStep s a
  generalize semStep s a = s' at hacts ⊢
  cases hacts with
  | signal signals noClear sem => exact iff_of_true sem (Or.inl signals)
  | clear i runs passed sem gone others =>
    have hsucceeds : Succeeds s a := succeeds_iff.2 ⟨i, runs, passed⟩
    have hno : ¬Signals s a := by simp [Signals, runs]
    rw [sem, or_iff_right hno]
    exact iff_of_false (by decide) fun h => h.1 hsucceeds
  | quiet noSignal noClear sem passes =>
    rw [sem, or_iff_right noSignal, and_iff_right noClear]

/-- What the semaphore reads as for the wait of context `i`; `p` says that its signal was taken. -/
structure TakenInv (i : ℕ) (p : Prop) (s : SemState) : Prop where
  taken : p → s.sem ≠ semSignal
  kept : AtClear s i → ¬p → s.sem = semSignal

theorem takenInv_init (i : ℕ) : TakenInv i False .init where
  taken := False.elim
  kept := fun ⟨_, hc, _⟩ => absurd hc (by simp [SemState.init])

theorem takenInv_step (i : ℕ) (p : Prop) (s : SemState) (a : SemAction) (hs : TakenInv i p s) :
    TakenInv i ((AtClear s i ∧ Succeeds s a ∧ a ≠ .run i) ∨ ¬Signals s a ∧ p) (semStep s a) := by
  have hacts := acts_semStep s a
  generalize semStep s a = s' at hacts ⊢
  cases hacts with
  | signal signals noClear sem =>
    refine ⟨?_, fun _ _ => sem⟩
    rintro (⟨-, h, -⟩ | ⟨h, -⟩)
    · exact absurd h noClear
    · exact absurd signals h
  | clear j runs passed sem gone others =>
    refine ⟨fun _ => ?_, fun hat hnot => ?_⟩
    · rw [sem]
      decide
    · -- if the wait of `i` is still there, another one was served
      have hji : j ≠ i := by
        rintro rfl
        exact gone hat
      refine absurd (Or.inl ⟨others i hat, succeeds_iff.2 ⟨j, runs, passed⟩, ?_⟩) hnot
      rw [runs]
      simpa using hji
  | quiet noSignal noClear sem passes =>
    have hp : ((AtClear s i ∧ Succeeds s a ∧ a ≠ .run i) ∨ ¬Signals s a ∧ p) ↔ p := by
      rw [or_iff_right fun h => noClear h.2.1, and_iff_right noSignal]
    rw [hp]
    refine ⟨?_, fun hat hnot => ?_⟩
    · rw [sem]
      exact hs.taken
    · rw [sem]
      exact (passes i hat).elim (fun h => hs.kept h hnot) id

/-- A wait that is about to clear the semaphore finds its signal, unless it was taken. -/
theorem signalledSince_iff_of_atClear {i : ℕ} {as : List SemAction} (h : AtClear (semRun as) i) :
    SignalledSince as ↔ ¬TakenMeanwhile i as := by
  have hinv : TakenInv i (TakenMeanwhile i as) (semRun as) :=
    Run.inv_since (takenInv_init i) (takenInv_step i) as
  rw [← sem_iff_signalledSince]
  exact ⟨fun hsem htaken => hinv.taken htaken hsem, hinv.kept h⟩

/-! ## Waits and signals -/

theorem returns_match_iff (pre : List SemAction) (a : SemAction) :
    (∀ i c v, Returns (semRun pre) a i c v →
        (v ≠ sysArchTimeout → SignalledSince pre) ∧ (c.timeout = 0 → v ≠ sysArchTimeout)) ↔
      SignalInTime pre a := by
  constructor
  · intro h i c ha hc
    refine ⟨fun hpc => ?_, fun hpc hforever => ?_⟩
    · rw [← signalledSince_iff_of_atClear ⟨c, hc, hpc⟩]
      exact (h i c 1 (returns_iff.2 ⟨ha, hc, Or.inl ⟨hpc, rfl⟩⟩)).1 (by decide)
    · by_contra hnot
      have hsem : (semRun pre).sem ≠ semSignal := fun hsem =>
        hnot ((sem_iff_signalledSince pre).1 hsem)
      have hret := returns_iff.2 ⟨ha, hc, Or.inr ⟨hpc, hsem, rfl⟩⟩
      exact (h i c sysArchTimeout hret).2 hforever rfl
  · intro h i c v hret
    obtain ⟨ha, hc, hv⟩ := returns_iff.1 hret
    obtain ⟨hclear, hclose⟩ := h i c ha hc
    rcases hv with ⟨hpc, rfl⟩ | ⟨hpc, hsem, rfl⟩
    · refine ⟨fun _ => ?_, fun _ => by decide⟩
      rw [signalledSince_iff_of_atClear ⟨c, hc, hpc⟩]
      exact hclear hpc
    · refine ⟨fun hne => absurd rfl hne, fun hforever => ?_⟩
      exact absurd ((sem_iff_signalledSince pre).2 (hclose hpc hforever)) hsem

/-- **Semaphores.** In a run of signals, clock interrupts and waits, each successful wait takes a
signal that was issued since the one before, and no wait without a time-out times out, exactly when
no wait loses its signal to another one between its last test and its write, unless there is
another signal, and every wait without a time-out is signalled before its 1000 rounds are over. -/
theorem waits_match_signals_iff (as : List SemAction) :
    MatchesSignals as ↔ ∀ pre a post, as = pre ++ a :: post → SignalInTime pre a :=
  forall_congr' fun pre => forall_congr' fun a => forall_congr' fun _ => forall_congr' fun _ =>
    returns_match_iff pre a

/-! ### A wait that is never signalled -/

/-- A wait without a time-out of the main thread, at the head of its loop with `n` rounds left. -/
def loneWait (val : UInt32) (n : ℕ) : SemState :=
  ⟨semClear, val, Function.update (fun _ => none) 0 (some ⟨systemMode, 0, n, .poll⟩)⟩

def quietRound : List SemAction := [.run 0, .run 0, .run 0, .tick 1, .run 0]

theorem exec_quietRound {val : UInt32} (h : val.toNat + 1 < 0x100000000) (n : ℕ) :
    Run.exec semStep (loneWait val (n + 1)) quietRound = loneWait (val + 1) n := by
  have hnot : ¬val > val + 1 := by
    rw [gt_iff_lt, UInt32.lt_iff_toNat_lt, UInt32.toNat_add]
    have hone : (1 : UInt32).toNat = 1 := rfl
    omega
  have hne : semClear ≠ semSignal := by decide
  simp [quietRound, loneWait, semStep, semWaitPart, SemCall.next, hnot, hne]

theorem exec_quietRounds (n : ℕ) {val : UInt32} (h : val.toNat + n < 0x100000000) :
    ∃ val', Run.exec semStep (loneWait val n) (List.replicate n quietRound).flatten =
      loneWait val' 0 := by
  induction n generalizing val with
  | zero => exact ⟨val, rfl⟩
  | succ n ih =>
    have hnext : (val + 1).toNat + n < 0x100000000 := by
      rw [UInt32.toNat_add]
      have hone : (1 : UInt32).toNat = 1 := rfl
      omega
    obtain ⟨val', hval'⟩ := ih hnext
    refine ⟨val', ?_⟩
    rw [List.replicate_succ, List.flatten_cons, Run.exec_append, exec_quietRound (by omega), hval']

/-- Once its rounds are over, a wait without a time-out times out. -/
theorem not_matchesSignals_of_exec {val : UInt32} {rounds : List SemAction}
    (h : Run.exec semStep (loneWait 0 1000) rounds = loneWait val 0) :
    ¬MatchesSignals (.wait 0 systemMode 0 :: rounds ++ [.run 0] ++ [.run 0]) := by
  intro hmatch
  have hpre : semRun (.wait 0 systemMode 0 :: rounds ++ [.run 0]) =
      semStep (loneWait val 0) (.run 0) := by
    unfold semRun
    rw [Run.exec_concat, Run.exec_cons]
    exact congrArg (semStep · (.run 0)) h
  have hreturns : Returns (semRun (.wait 0 systemMode 0 :: rounds ++ [.run 0])) (.run 0) 0
      ⟨systemMode, 0, 0, .close⟩ sysArchTimeout := by
    rw [hpre]
    exact ⟨rfl, rfl, rfl⟩
  exact (hmatch _ (.run 0) [] rfl _ _ _ hreturns).2 rfl rfl

/-- A second without a signal: a wait without a time-out returns `SYS_ARCH_TIMEOUT`. -/
theorem waits_match_signals_counterexample : ¬∀ as, MatchesSignals as := by
  intro h
  obtain ⟨val, hrounds⟩ := exec_quietRounds 1000 (show (0 : UInt32).toNat + 1000 < 0x100000000 by decide)
  exact not_matchesSignals_of_exec hrounds (h _)

end DsiWifi
