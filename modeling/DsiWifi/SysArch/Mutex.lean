import DsiWifi.Lib.Run

/-!
# lwIP mutexes

`sys_mutex_lock` waits in system mode only: a handler that waited for the thread it interrupted
would wait forever.  So the lock keeps the main thread out of a held section, and no handler.

The main thread and the handlers that interrupt it, and each other, run the same code in their own
modes; only the innermost handler runs.  `lock_gates_main_thread` states what the lock still
guarantees: the main thread takes a mutex that reads as unlocked, handlers pass at once, and a main
thread that resumes inside its section finds the mutex locked if and only if no handler took it.
-/

namespace DsiWifi

def mtxLocked : UInt32 := 0x12345678
def mtxUnlocked : UInt32 := 0xFFFFFFFF

/-- The mode bits of `CPSR` in system mode. -/
def systemMode : ℕ := 0x1F

/-! ## The code of a context -/

/-- Where a context stands in its lock/unlock pairs. -/
inductive LockPc
  | idle
  | entered
  | granted
  | holding
  deriving DecidableEq

/-- The parts of a pair between which an interrupt can come. -/
inductive LockAction
  | enter
  | poll
  | write
  | unlock
  deriving DecidableEq

/-- The test of `sys_mutex_lock`: a round of the loop in system mode, nothing in other modes. -/
def lockPasses (mode : ℕ) (mutex : UInt32) : Bool :=
  if mode = systemMode then mutex = mtxUnlocked else true

/-- A part of `sys_mutex_lock` or `sys_mutex_unlock`. -/
def lockStep (mode : ℕ) (mutex : UInt32) : LockPc → LockAction → UInt32 × LockPc
  | .idle, .enter => (if mutex = 0 then mtxUnlocked else mutex, .entered)
  | .entered, .poll => (mutex, if lockPasses mode mutex then .granted else .entered)
  | .granted, .write => (mtxLocked, .holding)
  | .holding, .unlock => (mtxUnlocked, .idle)
  | pc, _ => (mutex, pc)

/-! ## Interrupts -/

/-- A handler runs in a mode other than system mode. -/
structure Handler where
  mode : ℕ
  pc : LockPc
  notSystem : mode ≠ systemMode

/-- The mutex, the main thread and the handlers, the innermost first. -/
structure MutexState where
  mutex : UInt32
  main : LockPc
  handlers : List Handler

/-- After `sys_mutex_new`. -/
def MutexState.init : MutexState := ⟨mtxUnlocked, .idle, []⟩

/-- An interrupt in some mode, the return of the innermost handler, or a part of a pair of the
context that runs. -/
inductive MutexAction
  | interrupt (mode : {mode : ℕ // mode ≠ systemMode})
  | ret
  | run (a : LockAction)

/-- A handler returns after its pairs are complete. -/
def mutexStep (s : MutexState) : MutexAction → MutexState
  | .interrupt mode => { s with handlers := ⟨mode, .idle, mode.2⟩ :: s.handlers }
  | .ret =>
    match s.handlers with
    | [] => s
    | h :: hs => if h.pc = .idle then { s with handlers := hs } else s
  | .run a =>
    match s.handlers with
    | [] =>
      let (mutex, main) := lockStep systemMode s.mutex s.main a
      { s with mutex := mutex, main := main }
    | h :: hs =>
      let (mutex, pc) := lockStep h.mode s.mutex h.pc a
      { s with mutex := mutex, handlers := { h with pc := pc } :: hs }

/-- The state after a run from `sys_mutex_new`. -/
abbrev mutexRun (as : List MutexAction) : MutexState := Run.exec mutexStep .init as

/-- A handler passes `sys_mutex_lock`. -/
def HandlerPasses (s : MutexState) (a : MutexAction) : Prop :=
  a = .run .write ∧ ∃ h ∈ s.handlers.head?, h.pc = .granted

/-- The main thread passes `sys_mutex_lock`. -/
def MainPasses (s : MutexState) (a : MutexAction) : Prop :=
  a = .run .write ∧ s.handlers = [] ∧ s.main = .granted

/-! ## What a step does -/

/-- No handler is between its lock and its unlock. -/
def NoneHolding (hs : List Handler) : Prop := ∀ h ∈ hs, h.pc ≠ .holding

theorem noneHolding_cons (h : Handler) (hs : List Handler) :
    NoneHolding (h :: hs) ↔ h.pc ≠ .holding ∧ NoneHolding hs := List.forall_mem_cons

/-- What an action does to the mutex and to those that hold it. -/
inductive MutexActs (s : MutexState) (a : MutexAction) (s' : MutexState) : Prop
  | quiet (noMain : ¬MainPasses s a) (noHandler : ¬HandlerPasses s a) (mutex : s'.mutex = s.mutex)
      (main : s'.main = .holding ↔ s.main = .holding)
      (handlers : NoneHolding s'.handlers ↔ NoneHolding s.handlers)
  | mainLocks (passes : MainPasses s a) (noHandler : ¬HandlerPasses s a)
      (mutex : s'.mutex = mtxLocked) (main : s'.main = .holding) (handlers : s'.handlers = [])
  | mainUnlocks (mutex : s'.mutex = mtxUnlocked) (main : s'.main ≠ .holding)
  | handlerLocks (noMain : ¬MainPasses s a) (passes : HandlerPasses s a)
      (mutex : s'.mutex = mtxLocked) (main : s'.main = s.main)
      (handlers : ¬NoneHolding s'.handlers)
  | handlerUnlocks (noMain : ¬MainPasses s a) (mutex : s'.mutex = mtxUnlocked)
      (main : s'.main = s.main) (handlers : ¬NoneHolding s.handlers)

/-- A part of a pair writes the mutex when it passes the lock or unlocks, and not otherwise. -/
theorem lockStep_cases (mode : ℕ) {mutex : UInt32} (hmutex : mutex ≠ 0) (pc : LockPc)
    (a : LockAction) :
    (pc = .granted ∧ a = .write ∧ lockStep mode mutex pc a = (mtxLocked, .holding)) ∨
      (pc = .holding ∧ lockStep mode mutex pc a = (mtxUnlocked, .idle)) ∨
      (¬(pc = .granted ∧ a = .write) ∧ (lockStep mode mutex pc a).1 = mutex ∧
        ((lockStep mode mutex pc a).2 = .holding ↔ pc = .holding)) := by
  cases pc <;> cases a <;> simp [lockStep, hmutex]
  split_ifs <;> simp

theorem acts_run_main {s : MutexState} (hmutex : s.mutex ≠ 0) (hs : s.handlers = [])
    (a : LockAction) : MutexActs s (.run a) (mutexStep s (.run a)) := by
  have hno : ¬HandlerPasses s (.run a) := by
    rintro ⟨-, h, hh, -⟩
    rw [hs] at hh
    exact absurd hh (by simp)
  unfold mutexStep
  simp only [hs]
  rcases lockStep_cases systemMode hmutex s.main a with
    ⟨hpc, ha, h⟩ | ⟨-, h⟩ | ⟨hnot, h1, h2⟩
  · rw [h]
    exact .mainLocks ⟨by rw [ha], hs, hpc⟩ hno rfl rfl rfl
  · rw [h]
    exact .mainUnlocks rfl (by simp)
  · refine .quiet ?_ hno h1 h2 (by rw [hs])
    rintro ⟨ha, -, hpc⟩
    exact hnot ⟨hpc, by injection ha⟩

theorem acts_run_handler {s : MutexState} (hmutex : s.mutex ≠ 0) {h : Handler} {hs : List Handler}
    (hhs : s.handlers = h :: hs) (a : LockAction) :
    MutexActs s (.run a) (mutexStep s (.run a)) := by
  have hno : ¬MainPasses s (.run a) := by
    rintro ⟨-, hnil, -⟩
    exact absurd (hhs.symm.trans hnil) (by simp)
  unfold mutexStep
  simp only [hhs]
  rcases lockStep_cases h.mode hmutex h.pc a with ⟨hpc, ha, hl⟩ | ⟨hpc, hl⟩ | ⟨hnot, h1, h2⟩
  · rw [hl]
    refine .handlerLocks hno ⟨by rw [ha], h, by rw [hhs]; rfl, hpc⟩ rfl rfl ?_
    exact fun hnone => ((noneHolding_cons _ _).1 hnone).1 rfl
  · rw [hl]
    refine .handlerUnlocks hno rfl rfl ?_
    rw [hhs]
    exact fun hnone => ((noneHolding_cons _ _).1 hnone).1 hpc
  · refine .quiet hno ?_ h1 Iff.rfl ?_
    · rintro ⟨ha, h', hh', hpc⟩
      rw [hhs, List.head?_cons, Option.mem_some_iff] at hh'
      subst hh'
      exact hnot ⟨hpc, by injection ha⟩
    · rw [hhs, noneHolding_cons, noneHolding_cons]
      exact and_congr_left' (not_congr h2)

/-- Every action acts as `MutexActs` says. -/
theorem acts_mutexStep {s : MutexState} (hmutex : s.mutex ≠ 0) (a : MutexAction) :
    MutexActs s a (mutexStep s a) := by
  cases a with
  | interrupt mode =>
    refine .quiet (fun h => ?_) (fun h => ?_) rfl Iff.rfl ?_
    · exact absurd h.1 (by simp)
    · exact absurd h.1 (by simp)
    · show NoneHolding (_ :: s.handlers) ↔ NoneHolding s.handlers
      rw [noneHolding_cons]
      exact and_iff_right (by simp)
  | ret =>
    have hmain : ¬MainPasses s .ret := fun h => absurd h.1 (by simp)
    have hhandler : ¬HandlerPasses s .ret := fun h => absurd h.1 (by simp)
    unfold mutexStep
    rcases hhs : s.handlers with _ | ⟨h, hs⟩
    · exact .quiet hmain hhandler rfl Iff.rfl Iff.rfl
    · by_cases hidle : h.pc = .idle
      · simp only [if_pos hidle]
        refine .quiet hmain hhandler rfl Iff.rfl ?_
        rw [hhs, noneHolding_cons, hidle]
        exact (and_iff_right (by simp)).symm
      · simp only [if_neg hidle]
        exact .quiet hmain hhandler rfl Iff.rfl Iff.rfl
  | run a =>
    rcases hhs : s.handlers with _ | ⟨h, hs⟩
    · exact acts_run_main hmutex hhs a
    · exact acts_run_handler hmutex hhs a

/-! ## What the lock guarantees -/

/-- The mutex reads as unlocked unless a handler is inside a section. -/
def Released (s : MutexState) : Prop := NoneHolding s.handlers → s.mutex = mtxUnlocked

/-- What the mutex reads as; `p` says that the main thread passed the lock and no handler after
it. -/
structure SectionInv (p : Prop) (s : MutexState) : Prop where
  nonzero : s.mutex ≠ 0
  outside : s.main ≠ .holding → Released s
  kept : s.main = .holding → p → s.mutex = mtxLocked ∧ NoneHolding s.handlers
  lost : s.main = .holding → ¬p → Released s

theorem sectionInv_init : SectionInv False .init where
  nonzero := by decide
  outside := fun _ _ => rfl
  kept := fun h => absurd h (by decide)
  lost := fun h => absurd h (by decide)

theorem sectionInv_step (p : Prop) (s : MutexState) (a : MutexAction) (hs : SectionInv p s) :
    SectionInv (MainPasses s a ∨ ¬HandlerPasses s a ∧ p) (mutexStep s a) := by
  have hacts := acts_mutexStep hs.nonzero a
  generalize mutexStep s a = s' at hacts ⊢
  cases hacts with
  | quiet noMain noHandler mutex main handlers =>
    have hp : (MainPasses s a ∨ ¬HandlerPasses s a ∧ p) ↔ p := by
      rw [or_iff_right noMain, and_iff_right noHandler]
    have hreleased : Released s' ↔ Released s := by
      unfold Released
      rw [handlers, mutex]
    constructor
    · rw [mutex]
      exact hs.nonzero
    · rw [hreleased, ne_eq, main]
      exact hs.outside
    · rw [main, hp, mutex, handlers]
      exact hs.kept
    · rw [main, hp, hreleased]
      exact hs.lost
  | mainLocks passes noHandler mutex main handlers =>
    constructor
    · rw [mutex]
      decide
    · exact fun h => absurd main h
    · intro _ _
      rw [handlers]
      exact ⟨mutex, List.forall_mem_nil _⟩
    · exact fun _ h => absurd (Or.inl passes) h
  | mainUnlocks mutex main =>
    constructor
    · rw [mutex]
      decide
    · exact fun _ _ => mutex
    · exact fun h => absurd h main
    · exact fun h => absurd h main
  | handlerLocks noMain passes mutex main handlers =>
    constructor
    · rw [mutex]
      decide
    · exact fun _ h => absurd h handlers
    · rintro - (h | h)
      · exact absurd h noMain
      · exact absurd passes h.1
    · exact fun _ _ h => absurd h handlers
  | handlerUnlocks noMain mutex main handlers =>
    constructor
    · rw [mutex]
      decide
    · exact fun _ _ => mutex
    · rintro hmain (h | h)
      · exact absurd h noMain
      · exact absurd (hs.kept (main.symm.trans hmain) h.2).2 handlers
    · exact fun _ _ _ => mutex

/-- What the mutex reads as at the end of a run. -/
theorem sectionInv_mutexRun (as : List MutexAction) :
    SectionInv (Run.Since mutexStep MainPasses HandlerPasses .init as) (mutexRun as) :=
  Run.inv_since sectionInv_init sectionInv_step as

/-- The main thread passes the lock of a mutex that reads as unlocked. -/
theorem mutex_of_mainPasses (pre : List MutexAction) {a : MutexAction}
    (ha : MainPasses (mutexRun pre) a) : (mutexRun pre).mutex = mtxUnlocked := by
  obtain ⟨-, hhandlers, hmain⟩ := ha
  refine (sectionInv_mutexRun pre).outside ?_ ?_
  · rw [hmain]
    decide
  · rw [hhandlers]
    exact List.forall_mem_nil _

/-- A main thread that resumes inside its section finds the mutex locked if and only if no handler
took it since. -/
theorem mutex_of_resumes (as : List MutexAction) (hmain : (mutexRun as).main = .holding)
    (hhandlers : (mutexRun as).handlers = []) :
    (mutexRun as).mutex = mtxLocked ↔ Run.Since mutexStep MainPasses HandlerPasses .init as := by
  have hinv := sectionInv_mutexRun as
  constructor
  · intro hlocked
    by_contra hnot
    have hunlocked : (mutexRun as).mutex = mtxUnlocked := by
      apply hinv.lost hmain hnot
      rw [hhandlers]
      exact List.forall_mem_nil _
    exact absurd (hlocked.symm.trans hunlocked) (by decide)
  · exact fun hsince => (hinv.kept hmain hsince).1

/-- A handler passes the test at once. -/
theorem handler_granted {s : MutexState} {h : Handler} {hs : List Handler}
    (hhs : s.handlers = h :: hs) (hpc : h.pc = .entered) :
    (mutexStep s (.run .poll)).handlers = { h with pc := .granted } :: hs := by
  have hpass : lockPasses h.mode s.mutex = true := if_neg h.notSystem
  unfold mutexStep
  simp only [hhs, hpc, lockStep, hpass, if_true]

/-- **The core lock.** In every run, the main thread passes the lock of a mutex that reads as
unlocked; a handler passes the test in its first round, whatever the mutex reads as; and when the
main thread resumes inside its section, the mutex still reads as locked if and only if no handler
passed the lock since the main thread did. -/
theorem lock_gates_main_thread (as : List MutexAction) :
    Run.Along mutexStep (fun s a => MainPasses s a → s.mutex = mtxUnlocked) .init as ∧
      Run.Along mutexStep (fun s a => ∀ h hs, s.handlers = h :: hs → h.pc = .entered →
        a = .run .poll → (mutexStep s a).handlers = { h with pc := .granted } :: hs) .init as ∧
      ((mutexRun as).main = .holding → (mutexRun as).handlers = [] →
        ((mutexRun as).mutex = mtxLocked ↔
          Run.Since mutexStep MainPasses HandlerPasses .init as)) := by
  refine ⟨?_, ?_, mutex_of_resumes as⟩
  · rw [Run.along_iff_split]
    rintro pre a post -
    exact mutex_of_mainPasses pre
  · rw [Run.along_iff_split]
    rintro pre a post - h hs hhs hpc rfl
    exact handler_granted hhs hpc

/-- An interrupt that takes nothing leaves the section of the main thread locked. -/
theorem lock_gates_main_thread_sample :
    (mutexRun [.run .enter, .run .poll, .run .write, .interrupt ⟨0x12, by decide⟩, .ret]).mutex =
        mtxLocked ∧
      Run.Since mutexStep MainPasses HandlerPasses .init
        [.run .enter, .run .poll, .run .write, .interrupt ⟨0x12, by decide⟩, .ret] :=
  ⟨rfl, ((lock_gates_main_thread _).2.2 rfl rfl).1 rfl⟩

/-- A handler takes the mutex while the main thread holds it, and leaves it unlocked. -/
theorem lock_excludes_handlers_counterexample :
    (¬∀ as : List MutexAction,
      Run.Along mutexStep (fun s a => s.main = .holding → ¬HandlerPasses s a) .init as) ∧
    ¬∀ as : List MutexAction, (mutexRun as).main = .holding → (mutexRun as).handlers = [] →
      (mutexRun as).mutex = mtxLocked := by
  constructor
  · intro h
    have hrun := h [.run .enter, .run .poll, .run .write, .interrupt ⟨0x12, by decide⟩,
      .run .enter, .run .poll, .run .write]
    obtain ⟨-, -, -, -, -, -, hlast, -⟩ := hrun
    exact hlast rfl ⟨rfl, _, rfl, rfl⟩
  · intro h
    have hrun := h [.run .enter, .run .poll, .run .write, .interrupt ⟨0x12, by decide⟩,
      .run .enter, .run .poll, .run .write, .run .unlock, .ret] rfl rfl
    exact absurd hrun (by decide)

end DsiWifi
