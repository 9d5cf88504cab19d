import DsiWifi.Mbox.Read

/-!
# Waiting for the mailbox

`wifi_card_mbox0_readpkt` polls the status register at most 100 times.  The counter is lowered after
it is tested, so it ends with 0 when data arrive at the last poll and with -1 when none arrive, and
the test behind the loop takes the former for a time-out and the latter for data.

`readpktCall` is the call over any values of the status register, where `readpkt` takes them from
the mailbox (`readpkt_eq_readpktCall`).  `wait_outcome_iff` says when the wait ends as it should.
-/

namespace DsiWifi

def rxReady (sts : ℕ → UInt8) (k : ℕ) : Bool := sts k &&& 1 ≠ 0

def pollsMade (sts : ℕ → UInt8) : ℕ → ℕ → ℕ
  | 0, _ => 0
  | timeout + 1, k => if rxReady sts k then 1 else 1 + pollsMade sts timeout (k + 1)

/-- The number of bytes that are thrown away, of at most `n`: each is preceded by a look at the
status. -/
def discarded (sts : ℕ → UInt8) : ℕ → ℕ → ℕ
  | 0, _ => 0
  | n + 1, k => if rxReady sts k then 1 + discarded sts n (k + 1) else 0

def dropBytes (fifo : List (Mem UInt8)) (n : ℕ) : List (Mem UInt8) :=
  match fifo with
  | [] => []
  | p :: fifo => (fun i => p (i + n)) :: fifo

structure ReadCall where
  ret : ℕ
  mbox : Mbox
  reads : Option (ℕ × Mem UInt8)

/-- A call of `wifi_card_mbox0_readpkt` in which the `k`-th look at the status register shows
`sts k`.  An empty mailbox shows the bytes `shown`.  `nested` are the calls of the handler of
`HTC_MSG_READY`. -/
def readpktCall (B : Buffers) (nested : Mbox → Mbox) (sts : ℕ → UInt8) (shown : Mem UInt8)
    (m : Mbox) : ReadCall :=
  if pollLoop (rxReady sts) 100 0 = 0 then ⟨0, m, none⟩
  else
    let p := m.fifo.headD shown
    let header := m.header p
    let readBuffer := (chooseBuffer B (hdrType header) m.ipDataOutBufIdx).1
    if 0x2000 < hdrLen header then
      { ret := 0
        mbox := { m with
          fifo := dropBytes m.fifo (discarded sts 4 (pollsMade sts 100 0))
          mboxHasLookahead := false
          ipDataOutBufIdx := (chooseBuffer B (hdrType header) m.ipDataOutBufIdx).2
          log := m.log ++ [.read header p] }
        reads := some (header, p) }
    else
      let m := m.receive B p m.fifo.tail
      let ackLen := if hdrAckPresent header = 0 then 0 else (m.mem (readBuffer + 4)).toNat
      let len := lenPkt (hdrLen header) ackLen
      let m := handlePkt nested m (hdrType header) readBuffer len
      { ret := hdrLen header
        mbox := if m.stuck then m else finishPkt m p (readBuffer + 6 + len) ackLen
        reads := some (header, p) }

/-- The call of the model is the one whose looks at the status find what the mailbox holds. -/
theorem readpkt_eq_readpktCall (B : Buffers) (fuel : ℕ) (shown : Mem UInt8) {m : Mbox}
    (hrun : m.stuck = false) (hfifo : m.fifo ≠ []) :
    readpkt B (fuel + 1) m = (readpktCall B (readpkt B fuel) (fun _ => 1) shown m).mbox := by
  obtain ⟨p, fifo, hf⟩ := List.exists_cons_of_ne_nil hfifo
  have hpoll : pollLoop (rxReady fun _ => 1) 100 0 ≠ 0 := by decide
  have hdiscard : discarded (fun _ => 1) 4 (pollsMade (fun _ => 1) 100 0) = 4 := by decide
  unfold readpkt readpktCall
  rw [if_neg (by simp [hrun]), hf, if_neg (by simp [pollLoop]), if_neg hpoll, hdiscard]
  dsimp only [List.headD_cons, List.tail_cons, dropBytes]
  split_ifs <;> rfl

theorem pollLoop_eq_zero_iff (ready : ℕ → Bool) (n k : ℕ) :
    pollLoop ready (n + 1) k = 0 ↔ (∀ j < n, ready (k + j) = false) ∧ ready (k + n) = true := by
  induction n generalizing k with
  | zero =>
    unfold pollLoop
    cases ready k <;> simp [pollLoop]
  | succ n ih =>
    unfold pollLoop
    cases h : ready k with
    | true =>
      rw [if_pos rfl]
      refine iff_of_false (by omega) fun hall => ?_
      have h₀ := hall.1 0 (by omega)
      rw [Nat.add_zero, h] at h₀
      exact absurd h₀ (by decide)
    | false =>
      rw [if_neg (by decide), ih (k + 1), show k + 1 + n = k + (n + 1) by omega]
      refine and_congr_left fun _ => ⟨fun hall j hj => ?_, fun hall j hj => ?_⟩
      · cases j with
        | zero => exact h
        | succ j =>
          have hj' := hall j (by omega)
          rwa [show k + 1 + j = k + (j + 1) by omega] at hj'
      · have hj' := hall (j + 1) (by omega)
        rwa [show k + 1 + j = k + (j + 1) by omega]

theorem reads_isSome_iff (B : Buffers) (nested : Mbox → Mbox) (sts : ℕ → UInt8)
    (shown : Mem UInt8) (m : Mbox) :
    (readpktCall B nested sts shown m).reads.isSome = true ↔
      ¬pollLoop (rxReady sts) 100 0 = 0 := by
  unfold readpktCall
  by_cases h : pollLoop (rxReady sts) 100 0 = 0
  · rw [if_pos h]
    exact iff_of_false (by simp) (not_not.2 h)
  · rw [if_neg h]
    refine iff_of_true ?_ h
    dsimp only
    split_ifs <;> rfl

/-- The wait ends as it should: a packet is read when a poll has found data, and otherwise the call
returns 0 and leaves the lookahead, the ring and the mailbox as they were. -/
def WaitOutcome (sts : ℕ → UInt8) (m : Mbox) (r : ReadCall) : Prop :=
  (r.reads.isSome = true ↔ ∃ k < 100, rxReady sts k = true) ∧
    ((∀ k < 100, rxReady sts k = false) →
      r.ret = 0 ∧ r.mbox.mboxHasLookahead = m.mboxHasLookahead ∧
        r.mbox.mboxLookahead = m.mboxLookahead ∧ r.mbox.ipDataOutBufIdx = m.ipDataOutBufIdx ∧
        r.mbox.fifo = m.fifo)

/-- **Waiting for the mailbox.** The wait ends as it should exactly when one of the first 99 polls
finds data. -/
theorem wait_outcome_iff (B : Buffers) (nested : Mbox → Mbox) (sts : ℕ → UInt8)
    (shown : Mem UInt8) (m : Mbox) :
    WaitOutcome sts m (readpktCall B nested sts shown m) ↔ ∃ k < 99, rxReady sts k = true := by
  unfold WaitOutcome
  rw [reads_isSome_iff, pollLoop_eq_zero_iff]
  simp only [Nat.zero_add]
  constructor
  · rintro ⟨hreads, -⟩
    by_contra hnone
    have hfirst : ∀ k < 99, rxReady sts k = false := fun k hk =>
      Bool.eq_false_iff.2 fun h => hnone ⟨k, hk, h⟩
    by_cases hlast : rxReady sts 99 = true
    · exact hreads.2 ⟨99, by omega, hlast⟩ ⟨hfirst, hlast⟩
    · obtain ⟨k, hk, hready⟩ := hreads.1 fun h => hlast h.2
      by_cases hk' : k < 99
      · exact hnone ⟨k, hk', hready⟩
      · rw [show k = 99 by omega] at hready
        exact hlast hready
  · rintro ⟨k, hk, hready⟩
    refine ⟨iff_of_true (fun h => ?_) ⟨k, by omega, hready⟩, fun hall => ?_⟩
    · exact absurd (h.1 k hk) (by simp [hready])
    · exact absurd (hall k (by omega)) (by simp [hready])

/-- A mailbox that stays empty: the counter ends with -1 and the call goes on. -/
theorem wait_outcome_counterexample :
    ¬∀ (B : Buffers) (nested : Mbox → Mbox) (sts : ℕ → UInt8) (shown : Mem UInt8) (m : Mbox),
      WaitOutcome sts m (readpktCall B nested sts shown m) := by
  intro h
  have hout := h ⟨0, none, 0⟩ id (fun _ => 0) (fun _ => 0) ⟨[], fun _ => 0, false, 0, 0, false, []⟩
  obtain ⟨k, -, hk⟩ := hout.1.1 (by decide)
  exact absurd hk (by simp [rxReady])

end DsiWifi
