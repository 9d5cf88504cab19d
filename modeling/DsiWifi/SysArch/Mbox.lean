import Mathlib.Logic.Function.Basic
import DsiWifi.Lib.Run

/-!
# lwIP mailboxes

A mailbox of `sys_arch.c` is one word: empty, invalid, or the message it holds.  The calls look at it
and write it in accesses of their own, and nothing keeps an interrupt out between two of them.  So each
context runs its call access by access; `sys_msleep` in the loop of a fetch is only one more place where
others may run.

A call does not notice when the word changes between its last look at it and its write, and a fetch that
waits takes the invalid value of a mailbox that was freed meanwhile for a message.
`mailbox_in_order_iff` states that these are the only ways in which messages are lost, invented or
reordered, or a freed mailbox becomes valid again.
-/

namespace DsiWifi

def mboxValEmpty : UInt32 := 0x12345678
def mboxValInvalid : UInt32 := 0x12345679

/-- A message: a pointer that is neither of the two values. -/
abbrev MboxMsg := {msg : UInt32 // msg ≠ mboxValEmpty ∧ msg ≠ mboxValInvalid}

/-! ## The functions

Each function takes the word and gives it back as the access leaves it, with the place of the next access
or the result of the call. -/

def sysMboxValid (mbox : UInt32) : Bool := mbox ≠ mboxValInvalid

/-- The accesses of a post: the test for the invalid value, the test for the empty value, the write. -/
inductive PostPc
  | enter
  | test
  | write

/-- The result tells whether the message was posted. -/
def sysMboxPost (mbox msg : UInt32) : PostPc → UInt32 × (PostPc ⊕ Bool)
  | .enter => (mbox, if mbox = mboxValInvalid then .inr false else .inl .test)
  | .test => (mbox, .inl (if mbox ≠ mboxValEmpty then .test else .write))
  | .write => (msg, .inr true)

def sysMboxTrypost (mbox msg : UInt32) : PostPc → UInt32 × (PostPc ⊕ Bool)
  | .enter => (mbox, if mbox = mboxValInvalid then .inr false else .inl .test)
  | .test => (mbox, if mbox ≠ mboxValEmpty then .inr false else .inl .write)
  | .write => (msg, .inr true)

def sysMboxTrypostFromisr (mbox msg : UInt32) : PostPc → UInt32 × (PostPc ⊕ Bool) :=
  sysMboxTrypost mbox msg

/-- The accesses of a fetch: the test for the invalid value, a round of the loop with the time-out that
is left, the test for the empty value, the read of the message, and the write. -/
inductive FetchPc
  | enter
  | loop (left : ℕ)
  | test
  | read
  | clear (msg : UInt32)

/-- No message stands for `SYS_ARCH_TIMEOUT`. -/
def sysArchMboxFetch (timeout : ℕ) (mbox : UInt32) : FetchPc → UInt32 × (FetchPc ⊕ Option UInt32)
  | .enter => (mbox, if mbox = mboxValInvalid then .inr none else .inl (.loop timeout))
  | .loop left =>
    (mbox, .inl
      (if timeout = 0 then if mbox = mboxValEmpty then .loop left else .read
      else if left = 0 then .test
      else if mbox ≠ mboxValEmpty then .test
      else .loop (left - 1)))
  | .test => (mbox, if mbox = mboxValEmpty then .inr none else .inl .read)
  | .read => (mbox, .inl (.clear mbox))
  | .clear msg => (mboxValEmpty, .inr (some msg))

/-- No message stands for `SYS_MBOX_EMPTY`.  Behind the first test it does what a fetch does behind its
loop. -/
def sysArchMboxTryfetch (mbox : UInt32) : FetchPc → UInt32 × (FetchPc ⊕ Option UInt32)
  | .enter => (mbox, if mbox = mboxValInvalid then .inr none else .inl .test)
  | pc => sysArchMboxFetch 0 mbox pc

/-! ## Interleavings -/

inductive MboxCall
  | post (msg : MboxMsg) (pc : PostPc)
  | trypost (msg : MboxMsg) (pc : PostPc)
  | trypostFromisr (msg : MboxMsg) (pc : PostPc)
  | fetch (timeout : ℕ) (pc : FetchPc)
  | tryfetch (pc : FetchPc)

/-- A call before its first access. -/
inductive MboxOp
  | post (msg : MboxMsg)
  | trypost (msg : MboxMsg)
  | trypostFromisr (msg : MboxMsg)
  | fetch (timeout : ℕ)
  | tryfetch

def MboxOp.enter : MboxOp → MboxCall
  | .post msg => .post msg .enter
  | .trypost msg => .trypost msg .enter
  | .trypostFromisr msg => .trypostFromisr msg .enter
  | .fetch timeout => .fetch timeout .enter
  | .tryfetch => .tryfetch .enter

/-- What an access does: the word behind it, the rest of the call, and the messages that are now posted
and fetched. -/
structure MboxAccess where
  mbox : UInt32
  call : Option MboxCall
  posted : List UInt32
  fetched : List UInt32

def MboxAccess.ofPost (msg : UInt32) (call : PostPc → MboxCall) :
    UInt32 × (PostPc ⊕ Bool) → MboxAccess
  | (mbox, .inl pc) => ⟨mbox, some (call pc), [], []⟩
  | (mbox, .inr ok) => ⟨mbox, none, if ok then [msg] else [], []⟩

def MboxAccess.ofFetch (call : FetchPc → MboxCall) :
    UInt32 × (FetchPc ⊕ Option UInt32) → MboxAccess
  | (mbox, .inl pc) => ⟨mbox, some (call pc), [], []⟩
  | (mbox, .inr msg) => ⟨mbox, none, [], msg.toList⟩

/-- The next access of a call. -/
def MboxCall.access (mbox : UInt32) : MboxCall → MboxAccess
  | .post msg pc => .ofPost msg (.post msg) (sysMboxPost mbox msg pc)
  | .trypost msg pc => .ofPost msg (.trypost msg) (sysMboxTrypost mbox msg pc)
  | .trypostFromisr msg pc => .ofPost msg (.trypostFromisr msg) (sysMboxTrypostFromisr mbox msg pc)
  | .fetch timeout pc => .ofFetch (.fetch timeout) (sysArchMboxFetch timeout mbox pc)
  | .tryfetch pc => .ofFetch .tryfetch (sysArchMboxTryfetch mbox pc)

/-- The mailbox, the call of each context, the messages posted and fetched since the latest
`sys_mbox_new`, and whether the mailbox was freed since then. -/
structure MboxState where
  mbox : UInt32
  calls : ℕ → Option MboxCall
  posted : List UInt32
  fetched : List UInt32
  freed : Bool

/-- After `sys_mbox_new`. -/
def MboxState.init : MboxState := ⟨mboxValEmpty, fun _ => none, [], [], false⟩

/-- What any context can do: a call of a function that only writes, the start of another call, or the
next access of its call. -/
inductive MboxAction
  | new
  | free
  | setInvalid
  | call (i : ℕ) (op : MboxOp)
  | run (i : ℕ)

def mboxStep (s : MboxState) : MboxAction → MboxState
  | .new => { s with mbox := mboxValEmpty, posted := [], fetched := [], freed := false }
  | .free => { s with mbox := mboxValInvalid, freed := true }
  | .setInvalid => { s with mbox := mboxValInvalid, freed := true }
  | .call i op =>
    match s.calls i with
    | none => { s with calls := Function.update s.calls i (some op.enter) }
    | some _ => s
  | .run i =>
    match s.calls i with
    | none => s
    | some c =>
      let a := c.access s.mbox
      { s with
        mbox := a.mbox
        calls := Function.update s.calls i a.call
        posted := s.posted ++ a.posted
        fetched := s.fetched ++ a.fetched }

/-- The next access writes a message. -/
def MboxCall.Posts : MboxCall → Prop
  | .post _ .write | .trypost _ .write | .trypostFromisr _ .write => True
  | _ => False

/-- The next access clears the mailbox, from which `msg` was read. -/
def MboxCall.Clears (msg : UInt32) : MboxCall → Prop
  | .fetch _ (.clear msg') | .tryfetch (.clear msg') => msg' = msg
  | _ => False

/-- A call that writes finds the word as it should be: empty, as the post saw it, or still the message
that the fetch read. -/
def WritesInTime (s : MboxState) (a : MboxAction) : Prop :=
  ∀ i c, a = .run i → s.calls i = some c →
    (c.Posts → s.mbox = mboxValEmpty) ∧
      ∀ msg, c.Clears msg → s.mbox = msg ∧ msg ≠ mboxValEmpty ∧ msg ≠ mboxValInvalid

/-! ## What a step does -/

/-- An access looks at the word, writes a message and ends a post, or clears the word and ends a
fetch. -/
inductive AccessActs (mbox : UInt32) (c : MboxCall) : MboxAccess → Prop
  | look (rest : Option MboxCall) (noPost : ¬c.Posts) (noClear : ∀ msg, ¬c.Clears msg) :
      AccessActs mbox c ⟨mbox, rest, [], []⟩
  | write (msg : MboxMsg) (posts : c.Posts) (noClear : ∀ msg, ¬c.Clears msg) :
      AccessActs mbox c ⟨msg, none, [msg.val], []⟩
  | clear (msg : UInt32) (noPost : ¬c.Posts) (clears : ∀ msg', c.Clears msg' ↔ msg = msg') :
      AccessActs mbox c ⟨mboxValEmpty, none, [], [msg]⟩

section Access

variable {mbox : UInt32} {c : MboxCall}

/-- A post that does not end with a message posted only looks. -/
theorem look_ofPost {msg : UInt32} {call : PostPc → MboxCall} {r : PostPc ⊕ Bool} (h : r ≠ .inr true)
    (noPost : ¬c.Posts) (noClear : ∀ msg, ¬c.Clears msg) :
    AccessActs mbox c (.ofPost msg call (mbox, r)) := by
  rcases r with pc | _ | _
  · exact .look _ noPost noClear
  · exact .look none noPost noClear
  · exact absurd rfl h

theorem look_ofFetch {call : FetchPc → MboxCall} {r : FetchPc ⊕ Option UInt32}
    (h : ∀ msg, r ≠ .inr (some msg)) (noPost : ¬c.Posts) (noClear : ∀ msg, ¬c.Clears msg) :
    AccessActs mbox c (.ofFetch call (mbox, r)) := by
  rcases r with pc | _ | msg
  · exact .look _ noPost noClear
  · exact .look none noPost noClear
  · exact absurd rfl (h msg)

end Access

theorem access_acts (mbox : UInt32) (c : MboxCall) : AccessActs mbox c (c.access mbox) := by
  have hno : ∀ msg : UInt32, ¬False := fun _ => id
  cases c with
  | post msg pc =>
    cases pc with
    | enter => exact look_ofPost (by split_ifs <;> simp) id hno
    | test => exact .look _ id hno
    | write => exact .write msg trivial hno
  | trypost msg pc =>
    cases pc with
    | enter => exact look_ofPost (by split_ifs <;> simp) id hno
    | test => exact look_ofPost (by split_ifs <;> simp) id hno
    | write => exact .write msg trivial hno
  | trypostFromisr msg pc =>
    cases pc with
    | enter => exact look_ofPost (by split_ifs <;> simp) id hno
    | test => exact look_ofPost (by split_ifs <;> simp) id hno
    | write => exact .write msg trivial hno
  | fetch timeout pc =>
    cases pc with
    | enter => exact look_ofFetch (by split_ifs <;> simp) id hno
    | loop left => exact .look _ id hno
    | test => exact look_ofFetch (by split_ifs <;> simp) id hno
    | read => exact .look _ id hno
    | clear msg => exact .clear msg id fun _ => Iff.rfl
  | tryfetch pc =>
    cases pc with
    | enter => exact look_ofFetch (by split_ifs <;> simp) id hno
    | loop left => exact .look _ id hno
    | test => exact look_ofFetch (by split_ifs <;> simp) id hno
    | read => exact .look _ id hno
    | clear msg => exact .clear msg id fun _ => Iff.rfl

/-- What an action does to the mailbox and the messages. -/
inductive MboxActs (s : MboxState) (a : MboxAction) (s' : MboxState) : Prop
  | quiet (keeps : WritesInTime s a) (mbox : s'.mbox = s.mbox) (posted : s'.posted = s.posted)
      (fetched : s'.fetched = s.fetched) (freed : s'.freed = s.freed)
  | new (keeps : WritesInTime s a) (mbox : s'.mbox = mboxValEmpty) (posted : s'.posted = [])
      (fetched : s'.fetched = []) (freed : s'.freed = false)
  | free (keeps : WritesInTime s a) (mbox : s'.mbox = mboxValInvalid)
      (posted : s'.posted = s.posted) (fetched : s'.fetched = s.fetched) (freed : s'.freed = true)
  | accept (msg : MboxMsg) (cause : WritesInTime s a ↔ s.mbox = mboxValEmpty)
      (mbox : s'.mbox = msg) (posted : s'.posted = s.posted ++ [msg.val])
      (fetched : s'.fetched = s.fetched) (freed : s'.freed = s.freed)
  | take (msg : UInt32)
      (cause : WritesInTime s a ↔ s.mbox = msg ∧ msg ≠ mboxValEmpty ∧ msg ≠ mboxValInvalid)
      (mbox : s'.mbox = mboxValEmpty) (posted : s'.posted = s.posted)
      (fetched : s'.fetched = s.fetched ++ [msg]) (freed : s'.freed = s.freed)

/-- What the call of a context has to find. -/
theorem writesInTime_run_iff {s : MboxState} {i : ℕ} {c : MboxCall} (hc : s.calls i = some c) :
    WritesInTime s (.run i) ↔ (c.Posts → s.mbox = mboxValEmpty) ∧
      ∀ msg, c.Clears msg → s.mbox = msg ∧ msg ≠ mboxValEmpty ∧ msg ≠ mboxValInvalid := by
  constructor
  · intro h
    exact h i c rfl hc
  · intro h j c' hj hc'
    cases hj
    rw [hc] at hc'
    cases hc'
    exact h

theorem acts_mbox_run {s : MboxState} {i : ℕ} {c : MboxCall} (hc : s.calls i = some c) :
    MboxActs s (.run i) (mboxStep s (.run i)) := by
  have hcause := writesInTime_run_iff hc
  have hacts := access_acts s.mbox c
  unfold mboxStep
  simp only [hc]
  generalize c.access s.mbox = a at hacts ⊢
  cases hacts with
  | look rest noPost noClear =>
    refine .quiet (hcause.2 ⟨fun h => absurd h noPost, fun msg h => absurd h (noClear msg)⟩) rfl ?_ ?_ rfl
    · exact List.append_nil _
    · exact List.append_nil _
  | write msg posts noClear =>
    refine .accept msg (hcause.trans ?_) rfl rfl (List.append_nil _) rfl
    exact ⟨fun h => h.1 posts, fun h => ⟨fun _ => h, fun msg h' => absurd h' (noClear msg)⟩⟩
  | clear msg noPost clears =>
    refine .take msg (hcause.trans ?_) rfl (List.append_nil _) rfl rfl
    constructor
    · intro h
      exact h.2 msg ((clears msg).2 rfl)
    · intro h
      refine ⟨fun h' => absurd h' noPost, fun msg' h' => ?_⟩
      rwa [← (clears msg').1 h']

/-- Every action acts as `MboxActs` says. -/
theorem acts_mboxStep (s : MboxState) (a : MboxAction) : MboxActs s a (mboxStep s a) := by
  have hno : ∀ {a : MboxAction}, (∀ i, a ≠ .run i) → WritesInTime s a :=
    fun ha i _ hi _ => absurd hi (ha i)
  cases a with
  | new => exact .new (hno (by simp)) rfl rfl rfl rfl
  | free => exact .free (hno (by simp)) rfl rfl rfl rfl
  | setInvalid => exact .free (hno (by simp)) rfl rfl rfl rfl
  | call i op =>
    have hkeeps : WritesInTime s (.call i op) := hno (by simp)
    unfold mboxStep
    dsimp only
    rcases s.calls i with _ | c
    · exact .quiet hkeeps rfl rfl rfl rfl
    · exact .quiet hkeeps rfl rfl rfl rfl
  | run i =>
    rcases hc : s.calls i with _ | c
    · have hstay : mboxStep s (.run i) = s := by
        unfold mboxStep
        simp only [hc]
      rw [hstay]
      refine .quiet (fun j c hj hc' => ?_) rfl rfl rfl rfl
      cases hj
      exact absurd (hc.symm.trans hc') (by simp)
    · exact acts_mbox_run hc

/-! ## Order -/

/-- What a mailbox promises: messages are fetched in the order they were posted, at most one is
outstanding, none is made up, and a mailbox that was freed is invalid. -/
structure InOrder (s : MboxState) : Prop where
  fetchedFirst : s.fetched <+: s.posted
  outstanding : s.posted.length ≤ s.fetched.length + 1
  returned : ∀ msg ∈ s.fetched, msg ∈ s.posted
  invalid : s.freed = true → sysMboxValid s.mbox = false

/-- The word tells what is outstanding: nothing when it is empty, itself when it is a message, and
at most one message after a free. -/
structure Consistent (s : MboxState) : Prop where
  freed : s.freed = true ↔ s.mbox = mboxValInvalid
  empty : s.mbox = mboxValEmpty → s.posted = s.fetched
  full : s.mbox ≠ mboxValEmpty → s.mbox ≠ mboxValInvalid → s.posted = s.fetched ++ [s.mbox]
  left : ∃ rest, s.posted = s.fetched ++ rest ∧ rest.length ≤ 1

theorem inOrder_of_consistent {s : MboxState} (hs : Consistent s) : InOrder s := by
  obtain ⟨rest, hrest, hlen⟩ := hs.left
  refine ⟨⟨rest, hrest.symm⟩, ?_, ?_, ?_⟩
  · rw [hrest, List.length_append]
    omega
  · intro msg hmsg
    rw [hrest]
    exact List.mem_append_left _ hmsg
  · intro hf
    rw [hs.freed.1 hf]
    decide

theorem consistent_init : Consistent .init where
  freed := by decide
  empty := fun _ => rfl
  full := fun h => absurd rfl h
  left := ⟨[], rfl, by decide⟩

/-- One action keeps the mailbox consistent, if it writes in time. -/
theorem consistent_step {s : MboxState} {a : MboxAction} (hs : Consistent s)
    (ha : WritesInTime s a) : Consistent (mboxStep s a) := by
  have hacts := acts_mboxStep s a
  generalize mboxStep s a = s' at hacts ⊢
  cases hacts with
  | quiet _ mbox posted fetched freed =>
    constructor
    · rw [freed, mbox]
      exact hs.freed
    · rw [mbox, posted, fetched]
      exact hs.empty
    · rw [mbox, posted, fetched]
      exact hs.full
    · rw [posted, fetched]
      exact hs.left
  | new _ mbox posted fetched freed =>
    constructor
    · rw [freed, mbox]
      decide
    · intro _
      rw [posted, fetched]
    · exact fun h => absurd mbox h
    · exact ⟨[], by rw [posted, fetched, List.append_nil], by decide⟩
  | free _ mbox posted fetched freed =>
    constructor
    · exact iff_of_true freed mbox
    · intro he
      exact absurd (mbox.symm.trans he) (by decide)
    · exact fun _ h => absurd mbox h
    · rw [posted, fetched]
      exact hs.left
  | accept msg cause mbox posted fetched freed =>
    have hempty := cause.1 ha
    have hnot : s.freed ≠ true := fun hf =>
      absurd (hempty.symm.trans (hs.freed.1 hf)) (by decide)
    have hposted : s'.posted = s'.fetched ++ [msg.val] := by rw [posted, fetched, hs.empty hempty]
    constructor
    · rw [freed, mbox]
      exact iff_of_false hnot msg.2.2
    · rw [mbox]
      exact fun he => absurd he msg.2.1
    · intro _ _
      rw [hposted, mbox]
    · exact ⟨_, hposted, Nat.le_refl 1⟩
  | take msg cause mbox posted fetched freed =>
    obtain ⟨rfl, hfull, hvalid⟩ := cause.1 ha
    have hposted : s'.posted = s'.fetched := by rw [posted, fetched, hs.full hfull hvalid]
    constructor
    · rw [freed, mbox, hs.freed]
      exact iff_of_false hvalid (by decide)
    · exact fun _ => hposted
    · exact fun h => absurd mbox h
    · exact ⟨[], by rw [hposted, List.append_nil], by decide⟩

/-- A write over something else loses or invents a message, or makes a freed mailbox valid. -/
theorem writesInTime_of_inOrder {s : MboxState} {a : MboxAction} (hs : Consistent s)
    (ho : InOrder (mboxStep s a)) : WritesInTime s a := by
  have hacts := acts_mboxStep s a
  generalize mboxStep s a = s' at hacts ho
  cases hacts with
  | quiet keeps => exact keeps
  | new keeps => exact keeps
  | free keeps => exact keeps
  | accept msg cause mbox posted fetched freed =>
    rw [cause]
    by_contra hempty
    by_cases hinvalid : s.mbox = mboxValInvalid
    · have hval := ho.invalid (freed.trans (hs.freed.2 hinvalid))
      rw [mbox] at hval
      exact absurd hval (by simpa [sysMboxValid] using msg.2.2)
    · -- the message before is lost
      have hlen := ho.outstanding
      rw [posted, fetched, hs.full hempty hinvalid, List.length_append, List.length_append] at hlen
      exact absurd hlen (by simp)
  | take msg cause mbox posted fetched freed =>
    have hvalid : s.mbox ≠ mboxValInvalid := by
      intro hinvalid
      have hval := ho.invalid (freed.trans (hs.freed.2 hinvalid))
      rw [mbox] at hval
      exact absurd hval (by decide)
    have hprefix := ho.fetchedFirst
    rw [posted, fetched] at hprefix
    have hfull : s.mbox ≠ mboxValEmpty := by
      intro hempty
      have hlen := hprefix.length_le
      rw [hs.empty hempty, List.length_append] at hlen
      exact absurd hlen (by simp)
    rw [hs.full hfull hvalid, List.prefix_append_right_inj] at hprefix
    obtain rfl : msg = s.mbox := by simpa using hprefix
    exact cause.2 ⟨rfl, hfull, hvalid⟩

theorem along_inOrder_iff {s : MboxState} (hs : Consistent s) (as : List MboxAction) :
    Run.Along mboxStep (fun s a => InOrder (mboxStep s a)) s as ↔
      Run.Along mboxStep WritesInTime s as := by
  induction as generalizing s with
  | nil => exact Iff.rfl
  | cons a as ih =>
    rw [Run.along_cons, Run.along_cons]
    by_cases ha : WritesInTime s a
    · have hstep := consistent_step hs ha
      rw [ih hstep]
      exact and_congr_left' (iff_of_true (inOrder_of_consistent hstep) ha)
    · exact iff_of_false (fun h => ha (writesInTime_of_inOrder hs h.1)) fun h => ha h.1

/-- **Mailboxes.** In every interleaving of the accesses of calls on a mailbox, the promise of a mailbox
is kept in every state reached if and only if every call that writes finds the word as it saw it: a post
the empty value, and a fetch the message it read. -/
theorem mailbox_in_order_iff (as : List MboxAction) :
    Run.Along mboxStep (fun s a => InOrder (mboxStep s a)) .init as ↔
      Run.Along mboxStep WritesInTime .init as :=
  along_inOrder_iff consistent_init as

/-- The main thread waits for a message, an interrupt frees the mailbox, and the main thread gets the
invalid value as a message.  The main thread is about to post, and the message that an interrupt posts
before the write is lost. -/
theorem mailbox_in_order_counterexample :
    ¬Run.Along mboxStep (fun s a => InOrder (mboxStep s a)) .init
        [.call 0 (.fetch 0), .run 0, .run 0, .free, .run 0, .run 0, .run 0] ∧
      ¬Run.Along mboxStep (fun s a => InOrder (mboxStep s a)) .init
        [.call 0 (.post ⟨1, by decide⟩), .run 0, .run 0, .call 1 (.trypostFromisr ⟨2, by decide⟩),
          .run 1, .run 1, .run 1, .run 0] := by
  constructor
  · rintro ⟨-, -, -, -, -, -, hlast, -⟩
    exact absurd (hlast.invalid (by decide)) (by decide)
  · rintro ⟨-, -, -, -, -, -, -, hlast, -⟩
    exact absurd hlast.outstanding (by decide)

end DsiWifi
