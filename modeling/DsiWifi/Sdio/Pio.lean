import DsiWifi.Sdio.Block

/-!
# Transfers word by word

A command without DMA moves its data while it polls the status registers, one block whenever the
controller asks for it.  The controller may ask as often as it likes and in any order; the locals
`buffer` and `size` say what is left.

To state what was read from the FIFO, the rounds are repeated here with a record of the words
(`FifoRecord`); `records_pioRound` states that they do what the rounds of the model do.
-/

namespace DsiWifi

open Proc

/-! ## Rounds with a record -/

/-- The part of a round behind the transfers. -/
def pioRest (bus : Bus) (cmd : WifiSdioCommand) (stat1 : UInt16) (b : PioLocals) :
    Proc SdioState (PioLocals ⊕ Unit) :=
  if stat1 &&& maskErr ≠ 0 then do
    modifyCtx fun c => { c with status := c.status ||| 4 }
    pure (.inr ())
  else do
    let notBusy ← endCond bus cmd stat1 b
    let done ← pioComplete bus cmd notBusy
    let s ← get
    pure (if done ∨ s.ctx.breakEarly ∧ b.size = 0 then .inr () else .inl b)

/-- The state, and the words read from the FIFO so far. -/
abbrev FifoRecord := SdioState × List UInt32

namespace FifoRecord

def readFifo (bus : Bus) : Proc FifoRecord UInt32 := do
  let word ← beside (wifiSdioRead32 bus offsData32Fifo)
  modify fun s => (s.1, s.2 ++ [word])
  pure word

def receiveWords (bus : Bus) (fuel bufferEnd buffer : ℕ) : Proc FifoRecord ℕ :=
  repeats (fun buffer =>
    if buffer = bufferEnd then pure (Sum.inr buffer)
    else do
      let word ← readFifo bus
      beside (modify fun s => { s with mem := s.mem.write buffer (putle32 word.toNat) })
      pure (Sum.inl (buffer + 4))) fuel buffer

def moveBlock (move : ℕ → ℕ → Proc FifoRecord ℕ) (b : PioLocals) : Proc FifoRecord PioLocals := do
  let s ← beside get
  if b.size > s.ctx.blockSize - 1 then do
    let buffer ← move (b.buffer + s.ctx.blockSize) b.buffer
    pure ⟨buffer, b.size - s.ctx.blockSize⟩
  else pure b

def pioReceive (bus : Bus) (fuel : ℕ) (cmd : WifiSdioCommand) (cnt32 : UInt16) (b : PioLocals) :
    Proc FifoRecord PioLocals :=
  if cnt32 &&& 0x100 ≠ 0 ∧ cmd.dataDirection = .read ∧ b.buffer ≠ 0 then do
    beside (wifiSdioMask16 bus offsIrqStat1 stat1Rxrdy 0)
    moveBlock (receiveWords bus fuel) b
  else pure b

def pioRound (bus : Bus) (fuel : ℕ) (cmd : WifiSdioCommand) (b : PioLocals) :
    Proc FifoRecord (PioLocals ⊕ Unit) := do
  let stat1 ← beside (wifiSdioRead16 bus offsIrqStat1)
  let cnt32 ← beside (wifiSdioRead16 bus offsIrq32)
  let b ← pioReceive bus fuel cmd cnt32 b
  let b ← beside (pioTransmit bus fuel cmd stat1 b)
  beside (pioRest bus cmd stat1 b)

end FifoRecord

section Records

variable (bus : Bus) (fuel : ℕ)

theorem records_readFifo : Records (FifoRecord.readFifo bus) (wifiSdioRead32 bus offsData32Fifo) :=
  fun _ => ⟨rfl, rfl⟩

theorem records_receiveWords (bufferEnd buffer : ℕ) :
    Records (FifoRecord.receiveWords bus fuel bufferEnd buffer)
      (receiveWords bus fuel bufferEnd buffer) := by
  refine records_repeats (fun buffer => records_ite (records_pure _) ?_) fuel buffer
  refine records_bind (records_readFifo bus) fun word => ?_
  exact records_bind (records_beside _) fun _ => records_pure _

theorem records_moveBlock {q : ℕ → ℕ → Proc FifoRecord ℕ} {move : ℕ → ℕ → Proc SdioState ℕ}
    (h : ∀ bufferEnd buffer, Records (q bufferEnd buffer) (move bufferEnd buffer)) (b : PioLocals) :
    Records (FifoRecord.moveBlock q b) (moveBlock move b) := by
  refine records_bind (records_beside _) fun s => records_ite ?_ (records_pure _)
  exact records_bind (h _ _) fun _ => records_pure _

theorem records_pioRound (cmd : WifiSdioCommand) (b : PioLocals) :
    Records (FifoRecord.pioRound bus fuel cmd b) (pioRound bus fuel cmd b) := by
  refine records_bind (records_beside _) fun stat1 => ?_
  refine records_bind (records_beside _) fun cnt32 => ?_
  refine records_bind (records_ite ?_ (records_pure _)) fun b => ?_
  · exact records_bind (records_beside _) fun _ =>
      records_moveBlock (records_receiveWords bus fuel) b
  · exact records_bind (records_beside _) fun b => records_beside _

end Records

/-! ## What is moved -/

/-- The words written to the FIFO. -/
def fifoWrites (s : SdioState) : List UInt32 :=
  (s.writes.filter fun w => w.port = .sdio offsData32Fifo).map BusWrite.val

/-- The first `n` words of a buffer. -/
def bufferWords (mem : Mem UInt8) (buffer n : ℕ) : List UInt32 :=
  (List.range n).map fun i => .ofNat (getle32 mem (buffer + 4 * i))

theorem bufferWords_succ (mem : Mem UInt8) (buffer n : ℕ) : bufferWords mem buffer (n + 1) =
    bufferWords mem buffer n ++ [.ofNat (getle32 mem (buffer + 4 * n))] := by
  unfold bufferWords
  rw [List.range_succ, List.map_append]
  rfl

theorem bufferWords_add (mem : Mem UInt8) (buffer n k : ℕ) : bufferWords mem buffer (n + k) =
    bufferWords mem buffer n ++ bufferWords mem (buffer + 4 * n) k := by
  induction k with
  | zero => exact (List.append_nil _).symm
  | succ k ih =>
    rw [← Nat.add_assoc, bufferWords_succ, ih, bufferWords_succ, List.append_assoc,
      show buffer + 4 * (n + k) = buffer + 4 * n + 4 * k by omega]

/-- The data, and the context as far as transfers use it, are left alone. -/
structure LeavesData (s s' : SdioState) : Prop where
  buffer : s'.ctx.buffer = s.ctx.buffer
  size : s'.ctx.size = s.ctx.size
  blockSize : s'.ctx.blockSize = s.ctx.blockSize
  mem : s'.mem = s.mem
  fifo : fifoWrites s' = fifoWrites s

theorem leavesData : PortFrame LeavesData where
  refl _ := ⟨rfl, rfl, rfl, rfl, rfl⟩
  trans _ _ _ h h' := ⟨h'.buffer.trans h.buffer, h'.size.trans h.size,
    h'.blockSize.trans h.blockSize, h'.mem.trans h.mem, h'.fifo.trans h.fifo⟩
  read _ := ⟨rfl, rfl, rfl, rfl, rfl⟩
  write s w hw := by
    refine ⟨rfl, rfl, rfl, rfl, ?_⟩
    unfold fifoWrites
    rw [List.filter_append, List.filter_singleton, decide_eq_false hw]
    exact congrArg _ (List.append_nil _)

theorem leavesData_modifyCtx {f : WifiSdioCtx → WifiSdioCtx} (hbuffer : ∀ c, (f c).buffer = c.buffer)
    (hsize : ∀ c, (f c).size = c.size) (hblock : ∀ c, (f c).blockSize = c.blockSize) :
    Moves LeavesData (modifyCtx f) :=
  moves_modify fun s => ⟨hbuffer s.ctx, hsize s.ctx, hblock s.ctx, rfl, rfl⟩

theorem leavesData_pioRest (bus : Bus) (cmd : WifiSdioCommand) (stat1 : UInt16) (b : PioLocals) :
    Moves LeavesData (pioRest bus cmd stat1 b) := by
  apply moves_ite
  · exact leavesData.bind (leavesData_modifyCtx (fun _ => rfl) (fun _ => rfl) fun _ => rfl) fun _ =>
      leavesData.pure _
  · refine leavesData.bind (leavesData.endCond bus cmd stat1 b) fun notBusy => ?_
    refine leavesData.bind (moves_ite ?_ (leavesData.pure _)) fun done => ?_
    · refine leavesData.bind (leavesData.read16 bus _) fun stat0 => ?_
      exact leavesData.bind (leavesData_modifyCtx (fun _ => rfl) (fun _ => rfl) fun _ => rfl) fun _ =>
        leavesData.pure _
    · exact leavesData.bind leavesData.get fun _ => leavesData.pure _

/-- A round that goes on does so with the locals its transfers left. -/
theorem post_pioRest (bus : Bus) (cmd : WifiSdioCommand) (stat1 : UInt16) (b : PioLocals)
    (s : SdioState) : Post (pioRest bus cmd stat1 b) (fun r _ => ∀ b', r = .inl b' → b' = b) s := by
  unfold pioRest
  split_ifs
  · rw [post_bind]
    refine post_mono (P := fun _ _ => True) (fun _ _ => trivial) fun _ _ _ => ?_
    rw [post_pure]
    exact fun _ h => nomatch h
  · rw [post_bind]
    refine post_mono (P := fun _ _ => True) (fun _ _ => trivial) fun notBusy _ _ => ?_
    rw [post_bind]
    refine post_mono (P := fun _ _ => True) (fun _ _ => trivial) fun done s' _ => ?_
    rw [post_bind, post_get, post_pure]
    intro b' h
    split_ifs at h
    exact (Sum.inl.inj h).symm

/-! ## Blocks -/

/-- The words `vs` were read from the FIFO and stored from `buffer` on. -/
structure Stores (s : FifoRecord) (buffer : ℕ) (vs : List UInt32) (s' : FifoRecord) : Prop where
  words : s'.2 = s.2 ++ vs
  mem : s'.1.mem = s.1.mem.write buffer (wordBytes vs)
  ctx : s'.1.ctx = s.1.ctx
  fifo : fifoWrites s'.1 = fifoWrites s.1

/-- The first `n` words of the buffer were written to the FIFO. -/
structure Pushes (s : SdioState) (buffer n : ℕ) (s' : SdioState) : Prop where
  fifo : fifoWrites s' = fifoWrites s ++ bufferWords s.mem buffer n
  mem : s'.mem = s.mem
  ctx : s'.ctx = s.ctx

section Blocks

variable {bus : Bus} {fuel : ℕ}

/-- The loop that stores a block. -/
theorem post_receiveWords (buffer n : ℕ) (s : FifoRecord) :
    Post (FifoRecord.receiveWords bus fuel (buffer + 4 * n) buffer)
      (fun e s' => e = buffer + 4 * n ∧ ∃ vs, vs.length = n ∧ Stores s buffer vs s') s := by
  refine post_repeats (I := fun b s' => ∃ vs, b = buffer + 4 * vs.length ∧ vs.length ≤ n ∧
    Stores s buffer vs s') ?_ fuel
    ⟨[], rfl, Nat.zero_le _, (List.append_nil _).symm, (Mem.write_nil _ _).symm, rfl, rfl⟩
  rintro _ s' ⟨vs, rfl, hle, hs'⟩
  split_ifs with hend
  · rw [post_pure]
    exact ⟨hend, vs, by omega, hs'⟩
  · unfold FifoRecord.readFifo wifiSdioRead32 readPort
    simp only [post_bind, post_beside, post_get, post_modify, post_pure]
    refine ⟨vs ++ [bus s'.1.time (.sdio offsData32Fifo)], ?_, ?_, ?_, ?_, hs'.ctx, hs'.fifo⟩
    · rw [List.length_append, List.length_singleton]
      omega
    · rw [List.length_append, List.length_singleton]
      omega
    · show s'.2 ++ _ = _
      rw [hs'.words, List.append_assoc]
    · show s'.1.mem.write _ _ = _
      rw [hs'.mem, wordBytes_append, (Mem.write_append _ _ _ _).1, length_wordBytes]
      congr 1

/-- The loop that pushes a block. -/
theorem post_transmitWords (buffer n : ℕ) (s : SdioState) :
    Post (transmitWords fuel (buffer + 4 * n) buffer)
      (fun e s' => e = buffer + 4 * n ∧ Pushes s buffer n s') s := by
  refine post_repeats (I := fun b s' => ∃ k, b = buffer + 4 * k ∧ k ≤ n ∧ Pushes s buffer k s') ?_ fuel
    ⟨0, rfl, Nat.zero_le _, (List.append_nil _).symm, rfl, rfl⟩
  rintro _ s' ⟨k, rfl, hle, hs'⟩
  split_ifs with hend
  · rw [post_pure]
    obtain rfl : k = n := by omega
    exact ⟨rfl, hs'⟩
  · unfold wifiSdioWrite32 writePort
    simp only [post_bind, post_get, post_modify, post_pure]
    refine ⟨k + 1, by omega, by omega, ?_, hs'.mem, hs'.ctx⟩
    rw [bufferWords_succ, ← List.append_assoc, ← hs'.fifo, ← hs'.mem]
    unfold fifoWrites
    rw [List.filter_append, List.map_append]
    rfl

end Blocks

/-! ## The invariant -/

/-- The polling loop of a command that began in `s₀`: the words read from the FIFO were stored in
order from the start of the buffer, the first `n` words of the buffer were written to the FIFO, and
`b` says what is left. -/
structure PioInv (cmd : WifiSdioCommand) (s₀ : SdioState) (n : ℕ) (b : PioLocals) (s : FifoRecord) :
    Prop where
  blockSize : s.1.ctx.blockSize = s₀.ctx.blockSize
  left : 4 * (s.2.length + n) + b.size = s₀.ctx.size
  buffer : b.buffer = s₀.ctx.buffer + 4 * (s.2.length + n)
  read : cmd.dataDirection = .read → n = 0
  write : cmd.dataDirection = .write → s.2 = []
  stored : s.1.mem = s₀.mem.write s₀.ctx.buffer (wordBytes s.2)
  pushed : fifoWrites s.1 = fifoWrites s₀ ++ bufferWords s₀.mem s₀.ctx.buffer n

section Inv

variable {bus : Bus} {fuel : ℕ} {cmd : WifiSdioCommand} {s₀ : SdioState} {n : ℕ} {b : PioLocals}
  {s : FifoRecord}

theorem PioInv.leaves (h : PioInv cmd s₀ n b s) {s' : SdioState} (hs : LeavesData s.1 s') :
    PioInv cmd s₀ n b (s', s.2) where
  blockSize := hs.blockSize.trans h.blockSize
  left := h.left
  buffer := h.buffer
  read := h.read
  write := h.write
  stored := hs.mem.trans h.stored
  pushed := hs.fifo.trans h.pushed

/-- A block was stored. -/
theorem PioInv.stores (h : PioInv cmd s₀ n b s) (hdir : cmd.dataDirection = .read)
    {vs : List UInt32} (hlen : 4 * vs.length = s₀.ctx.blockSize)
    (hsize : s₀.ctx.blockSize ≤ b.size) {s' : FifoRecord} (hs : Stores s b.buffer vs s') :
    PioInv cmd s₀ n ⟨b.buffer + s₀.ctx.blockSize, b.size - s₀.ctx.blockSize⟩ s' := by
  obtain rfl := h.read hdir
  have hleft := h.left
  have hbuffer := h.buffer
  have hcount : s'.2.length = s.2.length + vs.length := by rw [hs.words, List.length_append]
  refine ⟨?_, ?_, ?_, fun _ => rfl,
    fun hw => absurd (hw.symm.trans hdir) (by decide), ?_, hs.fifo.trans h.pushed⟩
  · rw [hs.ctx, h.blockSize]
  · dsimp only
    omega
  · dsimp only
    omega
  · rw [hs.mem, h.stored, hs.words, wordBytes_append, (Mem.write_append _ _ _ _).1, length_wordBytes,
      h.buffer, Nat.add_zero]

/-- A block was pushed. -/
theorem PioInv.pushes (h : PioInv cmd s₀ n b s) (hdir : cmd.dataDirection = .write) {k : ℕ}
    (hlen : 4 * k = s₀.ctx.blockSize) (hsize : s₀.ctx.blockSize ≤ b.size) {s' : SdioState}
    (hs : Pushes s.1 b.buffer k s') :
    PioInv cmd s₀ (n + k) ⟨b.buffer + s₀.ctx.blockSize, b.size - s₀.ctx.blockSize⟩ (s', s.2) := by
  have hnil := h.write hdir
  have hleft := h.left
  have hbuffer := h.buffer
  have hmem : s.1.mem = s₀.mem := by
    rw [h.stored, hnil]
    exact Mem.write_nil _ _
  refine ⟨?_, ?_, ?_,
    fun hr => absurd (hr.symm.trans hdir) (by decide), h.write, hs.mem.trans h.stored, ?_⟩
  · rw [hs.ctx, h.blockSize]
  · dsimp only
    omega
  · dsimp only
    omega
  · rw [hs.fifo, h.pushed, bufferWords_add, List.append_assoc, hmem, h.buffer, hnil]
    simp only [List.length_nil, Nat.zero_add]

/-- The test whether a block is left. -/
theorem size_test (hpos : 0 < s₀.ctx.blockSize) (hblock : s.1.ctx.blockSize = s₀.ctx.blockSize) :
    b.size > s.1.ctx.blockSize - 1 ↔ s₀.ctx.blockSize ≤ b.size := by
  rw [hblock]
  omega

theorem post_pioReceive (hpos : 0 < s₀.ctx.blockSize) (hfour : 4 ∣ s₀.ctx.blockSize)
    (h : PioInv cmd s₀ n b s) (cnt32 : UInt16) :
    Post (FifoRecord.pioReceive bus fuel cmd cnt32 b) (PioInv cmd s₀ n) s := by
  obtain ⟨k, hk⟩ := hfour
  unfold FifoRecord.pioReceive
  split_ifs with hcond
  · rw [post_bind, post_beside]
    refine post_mono (leavesData.mask16 bus (by decide) _ _ s.1) fun _ s₁ h₁ => ?_
    have hinv := h.leaves h₁
    unfold FifoRecord.moveBlock
    rw [post_bind, post_beside, post_get]
    split_ifs with hsize
    · rw [post_bind, hinv.blockSize, hk]
      refine post_mono (post_receiveWords b.buffer k _) ?_
      rintro _ s₂ ⟨rfl, vs, hvs, h₂⟩
      rw [post_pure, ← hk]
      have hsize' := (size_test hpos hinv.blockSize).1 hsize
      exact hinv.stores hcond.2.1 (by omega) hsize' h₂
    · rw [post_pure]
      exact hinv
  · rw [post_pure]
    exact h

theorem post_pioTransmit (hpos : 0 < s₀.ctx.blockSize) (hfour : 4 ∣ s₀.ctx.blockSize)
    (h : PioInv cmd s₀ n b s) (stat1 : UInt16) :
    Post (pioTransmit bus fuel cmd stat1 b)
      (fun b' s' => ∃ n', PioInv cmd s₀ n' b' (s', s.2)) s.1 := by
  obtain ⟨k, hk⟩ := hfour
  unfold pioTransmit
  split_ifs with hcond
  · rw [post_bind]
    refine post_mono (leavesData.mask16 bus (by decide) _ _ s.1) fun _ s₁ h₁ => ?_
    have hinv := h.leaves h₁
    unfold moveBlock
    rw [post_bind, post_get]
    split_ifs with hsize
    · rw [post_bind, show s₁.ctx.blockSize = 4 * k from hinv.blockSize.trans hk]
      refine post_mono (post_transmitWords b.buffer k _) ?_
      rintro _ s₂ ⟨rfl, h₂⟩
      rw [post_pure, ← hk]
      have hsize' := (size_test hpos hinv.blockSize).1 hsize
      exact ⟨n + k, hinv.pushes hcond.2.1 hk.symm hsize' h₂⟩
    · rw [post_pure]
      exact ⟨n, hinv⟩
  · rw [post_pure]
    exact ⟨n, h⟩

/-- **A round** keeps the invariant, whatever the registers show and whether it is the last one. -/
theorem post_recordedRound (hpos : 0 < s₀.ctx.blockSize) (hfour : 4 ∣ s₀.ctx.blockSize)
    (h : PioInv cmd s₀ n b s) :
    Post (FifoRecord.pioRound bus fuel cmd b) (fun r s' =>
      r.elim (fun b' => ∃ n', PioInv cmd s₀ n' b' s') fun _ => ∃ n' b', PioInv cmd s₀ n' b' s') s := by
  unfold FifoRecord.pioRound
  rw [post_bind, post_beside]
  refine post_mono (leavesData.read16 bus _ s.1) fun stat1 s₁ h₁ => ?_
  rw [post_bind, post_beside]
  refine post_mono (leavesData.read16 bus _ s₁) fun cnt32 s₂ h₂ => ?_
  rw [post_bind]
  refine post_mono (post_pioReceive hpos hfour ((h.leaves h₁).leaves h₂) cnt32) fun b₃ s₃ h₃ => ?_
  rw [post_bind, post_beside]
  refine post_mono (post_pioTransmit hpos hfour h₃ stat1) ?_
  rintro b₄ s₄ ⟨n', h₄⟩
  rw [post_beside]
  intro r hr
  have h₅ := h₄.leaves (leavesData_pioRest bus cmd stat1 b₄ s₄ r hr)
  have hlocals := post_pioRest bus cmd stat1 b₄ s₄ r hr
  cases r with
  | inl b' =>
    obtain rfl := hlocals b' rfl
    exact ⟨n', h₅⟩
  | inr _ => exact ⟨n', b₄, h₅⟩

end Inv

/-! ## Rounds return -/

section Ends

variable {bus : Bus} {fuel : ℕ} {s : SdioState}

/-- A loop over words that ends at `bufferEnd` only, from a whole number of words before it. -/
theorem ends_wordLoop {body : ℕ → Proc SdioState (ℕ ⊕ ℕ)} {bufferEnd : ℕ}
    (hbody : ∀ b s, Ends (body b) (fun r _ => r = if b = bufferEnd then .inr b else .inl (b + 4)) s)
    {buffer n : ℕ} (hend : buffer + 4 * n = bufferEnd) (hfuel : n < fuel) :
    Ends (repeats body fuel buffer) (fun _ _ => True) s := by
  refine ends_repeats (I := fun b _ => ∃ k, b + 4 * k = bufferEnd) (fun b _ => (bufferEnd - b) / 4) ?_
    ⟨n, hend⟩ (by omega)
  rintro b s' ⟨k, hk⟩
  refine ends_mono (hbody b s') ?_
  rintro _ _ rfl
  split_ifs with hb
  · trivial
  · exact ⟨⟨k - 1, by omega⟩, by omega⟩

theorem ends_receiveWords {buffer n : ℕ} (hfuel : n < fuel) :
    Ends (receiveWords bus fuel (buffer + 4 * n) buffer) (fun _ _ => True) s := by
  refine ends_wordLoop (fun b s' => ?_) rfl hfuel
  unfold wifiSdioRead32 readPort
  split_ifs
  · simp only [ends_pure]
  · simp only [ends_bind, ends_get, ends_modify, ends_pure]

theorem ends_transmitWords {buffer n : ℕ} (hfuel : n < fuel) :
    Ends (transmitWords fuel (buffer + 4 * n) buffer) (fun _ _ => True) s := by
  refine ends_wordLoop (fun b s' => ?_) rfl hfuel
  unfold wifiSdioWrite32 writePort
  split_ifs
  · simp only [ends_pure]
  · simp only [ends_bind, ends_get, ends_modify, ends_pure]

theorem ends_read16 (reg : ℕ) : Ends (wifiSdioRead16 bus reg) (fun _ _ => True) s := by
  unfold wifiSdioRead16 readPort
  simp only [ends_bind, ends_get, ends_modify, ends_pure]

theorem ends_mask16 (reg : ℕ) (clear set : UInt16) :
    Ends (wifiSdioMask16 bus reg clear set) (fun _ _ => True) s := by
  unfold wifiSdioMask16 wifiSdioWrite16 writePort
  rw [ends_bind]
  refine ends_mono (ends_read16 reg) fun _ _ _ => ?_
  rw [ends_modify]
  trivial

/-- The part of a round for one direction: a block is moved, when there is fuel for its words. -/
theorem ends_transfer {move : ℕ → ℕ → Proc SdioState ℕ} {c : Prop} [Decidable c] (bits : UInt16)
    (hfour : 4 ∣ s.ctx.blockSize) (hfuel : s.ctx.blockSize / 4 < fuel)
    (hmove : ∀ buffer n s', n < fuel → Ends (move (buffer + 4 * n) buffer) (fun _ _ => True) s')
    (b : PioLocals) :
    Ends (if c then do
      wifiSdioMask16 bus offsIrqStat1 bits 0
      moveBlock move b
    else pure b) (fun _ _ => True) s := by
  obtain ⟨k, hk⟩ := hfour
  split
  · refine ends_bind_of_moves (accesses.mask16 bus (by decide) bits 0) (ends_mask16 _ _ _)
      fun _ s₁ h₁ => ?_
    unfold moveBlock
    rw [ends_bind, ends_get, h₁.ctx, hk]
    split
    · rw [ends_bind]
      refine ends_mono (hmove b.buffer k s₁ (by omega)) fun _ _ _ => ?_
      rw [ends_pure]
      trivial
    · rw [ends_pure]
      trivial
  · rw [ends_pure]
    trivial

theorem ends_pioRest (cmd : WifiSdioCommand) (stat1 : UInt16) (b : PioLocals) :
    Ends (pioRest bus cmd stat1 b) (fun _ _ => True) s := by
  have hcond : ∀ s, Ends (endCond bus cmd stat1 b) (fun _ _ => True) s := fun s => by
    unfold endCond wifiSdioRead16 readPort
    split_ifs
    · simp only [ends_bind, ends_get, ends_modify, ends_pure]
    · rw [ends_pure]
      trivial
  have hcomplete : ∀ notBusy s, Ends (pioComplete bus cmd notBusy) (fun _ _ => True) s := by
    intro notBusy s
    unfold pioComplete wifiSdioRead16 readPort modifyCtx
    split_ifs
    · simp only [ends_bind, ends_get, ends_modify, ends_pure]
    · rw [ends_pure]
      trivial
  unfold pioRest modifyCtx
  split_ifs
  · simp only [ends_bind, ends_modify, ends_pure]
  · rw [ends_bind]
    refine ends_mono (hcond s) fun notBusy s₁ _ => ?_
    rw [ends_bind]
    refine ends_mono (hcomplete notBusy s₁) fun done s₂ _ => ?_
    simp only [ends_bind, ends_get, ends_pure]

/-- A round returns, when there is fuel for the words of a block. -/
theorem ends_pioRound (cmd : WifiSdioCommand) (hfour : 4 ∣ s.ctx.blockSize)
    (hfuel : s.ctx.blockSize / 4 < fuel) (b : PioLocals) :
    Ends (pioRound bus fuel cmd b) (fun _ _ => True) s := by
  unfold pioRound
  refine ends_bind_of_moves (accesses.read16 bus _) (ends_read16 _) fun stat1 s₁ h₁ => ?_
  refine ends_bind_of_moves (accesses.read16 bus _) (ends_read16 _) fun cnt32 s₂ h₂ => ?_
  rw [← h₁.ctx, ← h₂.ctx] at hfour hfuel
  refine ends_bind_of_moves (accesses_pioReceive bus fuel cmd cnt32 b) ?_ fun b₃ s₃ h₃ => ?_
  · exact ends_transfer _ hfour hfuel (fun _ _ _ => ends_receiveWords) b
  rw [← h₃.ctx] at hfour hfuel
  refine ends_bind_of_moves (accesses_pioTransmit bus fuel cmd stat1 b₃) ?_ fun b₄ s₄ _ => ?_
  · exact ends_transfer _ hfour hfuel (fun _ _ _ => ends_transmitWords) b₃
  exact ends_pioRest cmd stat1 b₄

end Ends

/-! ## Polls of a call -/

/-- The part of `wifi_sdio_send_command` before its transfer. -/
def sendSetup (bus : Bus) (fuel : ℕ) (cmd : WifiSdioCommand) (args : UInt32) :
    Proc SdioState Unit := do
  modifyCtx fun c => { c with
    blockSize := if c.blockSize = 0 then 512 else c.blockSize, status := 0 }
  waitNotBusy bus fuel
  writeCommand cmd args

/-- A command that is sent and not left to the DMA. -/
structure IsPolled (cmd : WifiSdioCommand) (s : SdioState) : Prop where
  controller : s.ctx.controller ≠ 0
  aligned : s.ctx.buffer % 4 = 0
  noDma : ¬(cmd.multipleBlock = true ∧ s.ctx.buffer ≠ 0)

/-- A call of `wifi_sdio_send_command` in `s` comes to the start of a polling round, with the locals
`b` in `s'`. -/
def AtPoll (bus : Bus) (fuel : ℕ) (cmd : WifiSdioCommand) (args : UInt32) (s : SdioState)
    (b : PioLocals) (s' : SdioState) : Prop :=
  IsPolled cmd s ∧ ∃ s₁, sendSetup bus fuel cmd args s = (some (), s₁) ∧
    Rounds (pioRound bus fuel cmd) ⟨s₁.ctx.buffer, s₁.ctx.size⟩ s₁ b s'

/-- The same, when the words `ws` were read from the FIFO until then. -/
def AtPollAfter (bus : Bus) (fuel : ℕ) (cmd : WifiSdioCommand) (args : UInt32) (s : SdioState)
    (b : PioLocals) (s' : SdioState) (ws : List UInt32) : Prop :=
  ∃ s₁, sendSetup bus fuel cmd args s = (some (), s₁) ∧
    Rounds (FifoRecord.pioRound bus fuel cmd) ⟨s₁.ctx.buffer, s₁.ctx.size⟩ (s₁, []) b (s', ws)

section Polls

variable {bus : Bus} {fuel : ℕ} {cmd : WifiSdioCommand} {args : UInt32} {s s' : SdioState}
  {b : PioLocals}

theorem sendCommand_of_isPolled (h : IsPolled cmd s) : wifiSdioSendCommand bus fuel cmd args s =
    (sendSetup bus fuel cmd args >>= fun _ => pioTransfer bus fuel cmd) s := by
  unfold wifiSdioSendCommand
  rw [bind_of_some (show Proc.get s = (some s, s) from rfl), if_neg h.controller,
    if_neg fun hbad => hbad.2 h.aligned, if_neg h.noDma]
  unfold sendSetup
  rw [bind_bind, bind_bind]

/-- From the start of a round, the call goes on with the fuel that is left. -/
theorem sendCommand_of_atPoll (h : AtPoll bus fuel cmd args s b s') : ∃ n, ∀ k, fuel = n + k →
    wifiSdioSendCommand bus fuel cmd args s =
      (repeats (pioRound bus fuel cmd) k b >>= fun _ => pioFinish bus cmd) s' := by
  obtain ⟨hpolled, s₁, hsetup, hrounds⟩ := h
  obtain ⟨n, hn⟩ := repeats_of_rounds hrounds
  refine ⟨n, fun k hk => ?_⟩
  rw [sendCommand_of_isPolled hpolled, bind_of_some hsetup]
  unfold pioTransfer
  rw [bind_of_some (show Proc.get s₁ = (some s₁, s₁) from rfl)]
  refine bind_congr ?_
  rw [← hn k, ← hk]

theorem post_sendSetup (hpos : 0 < s.ctx.blockSize) :
    Post (sendSetup bus fuel cmd args) (fun _ s₁ => LeavesData s s₁) s := by
  unfold sendSetup modifyCtx
  rw [post_bind, post_modify]
  have hblock : LeavesData s { s with ctx := { s.ctx with
      blockSize := if s.ctx.blockSize = 0 then 512 else s.ctx.blockSize, status := 0 } } :=
    ⟨rfl, rfl, if_neg (by omega), rfl, rfl⟩
  refine post_mono (leavesData.bind (leavesData.waitNotBusy bus fuel)
    (fun _ => leavesData.writeCommand cmd args) _) fun _ s₁ h₁ => ?_
  exact leavesData.trans _ _ _ hblock h₁

/-- The loop begins with nothing moved. -/
theorem pioInv_start {s₁ : SdioState} (h : LeavesData s s₁) :
    PioInv cmd s 0 ⟨s₁.ctx.buffer, s₁.ctx.size⟩ (s₁, []) where
  blockSize := h.blockSize
  left := (Nat.zero_add _).trans h.size
  buffer := h.buffer
  read _ := rfl
  write _ := rfl
  stored := h.mem.trans (Mem.write_nil _ _).symm
  pushed := h.fifo.trans (List.append_nil _).symm

/-- At the start of every round, the invariant holds of the words that were read. -/
theorem pioInv_of_atPollAfter (hpos : 0 < s.ctx.blockSize) (hfour : 4 ∣ s.ctx.blockSize)
    {ws : List UInt32} (h : AtPollAfter bus fuel cmd args s b s' ws) :
    ∃ n, PioInv cmd s n b (s', ws) := by
  obtain ⟨s₁, hsetup, hrounds⟩ := h
  have hpost : Post (sendSetup bus fuel cmd args) (fun _ s₁ => LeavesData s s₁) s :=
    post_sendSetup hpos
  have hleaves := hpost () (by rw [hsetup]; rfl)
  rw [hsetup] at hleaves
  refine rounds_inv (I := fun b s' => ∃ n, PioInv cmd s n b s') ?_
    ⟨0, pioInv_start hleaves⟩ hrounds
  rintro b₁ s₁ ⟨n, h₁⟩
  refine post_mono (post_recordedRound hpos hfour h₁) ?_
  rintro _ s₂ h₂ b₂ rfl
  exact h₂

end Polls

/-! ## Whole calls -/

section Calls

variable {bus : Bus} {fuel : ℕ} {cmd : WifiSdioCommand} {args : UInt32} {s : SdioState}

theorem leavesData_pioFinish : Moves LeavesData (pioFinish bus cmd) := by
  unfold pioFinish
  iterate 4 refine leavesData.bind (leavesData.read16 bus _) fun _ => ?_
  refine leavesData.bind (leavesData_modifyCtx (fun _ => rfl) (fun _ => rfl) fun _ => rfl) fun _ => ?_
  iterate 2 refine leavesData.bind (leavesData.write16 (by decide) _) fun _ => ?_
  apply moves_ite
  · iterate 4 refine leavesData.bind (leavesData.readResp bus _) fun _ => ?_
    exact leavesData_modifyCtx (fun _ => rfl) (fun _ => rfl) fun _ => rfl
  · exact leavesData.pure _

/-- The invariant holds when the loop is left. -/
theorem post_pioTransfer_data {s₀ : SdioState} (hpos : 0 < s₀.ctx.blockSize)
    (hfour : 4 ∣ s₀.ctx.blockSize) (h : LeavesData s₀ s) :
    Post (pioTransfer bus fuel cmd) (fun _ s' => ∃ ws n b, PioInv cmd s₀ n b (s', ws)) s := by
  have hloop : Post (repeats (FifoRecord.pioRound bus fuel cmd) fuel ⟨s.ctx.buffer, s.ctx.size⟩)
      (fun _ s' => ∃ n b, PioInv cmd s₀ n b s') (s, []) := by
    refine post_repeats (I := fun b s' => ∃ n, PioInv cmd s₀ n b s') ?_ fuel ⟨0, pioInv_start h⟩
    rintro b s₁ ⟨n, h₁⟩
    exact post_recordedRound hpos hfour h₁
  unfold pioTransfer
  rw [post_bind, post_get, post_bind]
  refine post_mono (post_of_records (records_repeats (records_pioRound bus fuel cmd) _ _) hloop) ?_
  rintro _ s₁ ⟨ws, n, b, h₁⟩
  exact post_mono (leavesData_pioFinish s₁) fun _ s₂ h₂ => ⟨ws, n, b, h₁.leaves h₂⟩

/-- The words `ws` were stored in order from the start of the buffer, and not past its end. -/
structure ReadsWords (s : SdioState) (ws : List UInt32) (s' : SdioState) : Prop where
  blockSize : s'.ctx.blockSize = s.ctx.blockSize
  inside : (wordBytes ws).length ≤ s.ctx.size
  stored : s'.mem = s.mem.write s.ctx.buffer (wordBytes ws)

theorem readsWords_nil {s' : SdioState} (hblock : s'.ctx.blockSize = s.ctx.blockSize)
    (hmem : s'.mem = s.mem) : ReadsWords s [] s' :=
  ⟨hblock, Nat.zero_le _, hmem.trans (Mem.write_nil _ _).symm⟩

/-- A read that is not left to the DMA, whether it is sent or not. -/
theorem post_sendCommand_read (hread : cmd.dataDirection = .read) (hsingle : cmd.multipleBlock = false)
    (hpos : 0 < s.ctx.blockSize) (hfour : 4 ∣ s.ctx.blockSize) :
    Post (wifiSdioSendCommand bus fuel cmd args) (fun _ s' => ∃ ws, ReadsWords s ws s') s := by
  have hblock : (if s.ctx.blockSize = 0 then 512 else s.ctx.blockSize) = s.ctx.blockSize :=
    if_neg (by omega)
  by_cases hctl : s.ctx.controller = 0
  · unfold wifiSdioSendCommand
    rw [post_bind, post_get, if_pos hctl, post_pure]
    exact ⟨[], readsWords_nil rfl rfl⟩
  by_cases halign : s.ctx.buffer % 4 = 0
  · have hpolled : IsPolled cmd s := ⟨hctl, halign, fun h => by simp [hsingle] at h⟩
    rw [post_congr (sendCommand_of_isPolled hpolled), post_bind]
    refine post_mono (post_sendSetup hpos) fun _ s₁ h₁ => ?_
    refine post_mono (post_pioTransfer_data hpos hfour h₁) ?_
    rintro _ s₂ ⟨ws, n, b, h₂⟩
    obtain rfl := h₂.read hread
    have hleft := h₂.left
    have hlen := length_wordBytes ws
    exact ⟨ws, h₂.blockSize, by dsimp only at hleft; omega, h₂.stored⟩
  · have hzero : s.ctx.buffer ≠ 0 := fun h => halign (by rw [h])
    unfold wifiSdioSendCommand modifyCtx
    rw [post_bind, post_get, if_neg hctl, post_bind, post_modify, if_pos ⟨hzero, halign⟩, post_modify]
    exact ⟨[], readsWords_nil hblock rfl⟩

end Calls

def cmd53ReadSingle : WifiSdioCommand := { cmd53Read with multipleBlock := false }

/-- The argument of a read of `blkcnt` bytes. -/
def cmd53ReadSingleArg (addr blkcnt : ℕ) : ℕ :=
  (1 <<< 28) ||| (1 <<< 26) ||| ((addr &&& 0x1FFFF) <<< 9) ||| blkcnt

def wifiCardReadFunc1_32bit (bus : Bus) (addr buf len fuel : ℕ) : Proc SdioState ℤ := do
  let s ← get
  if s.deviceCurctx = false then pure (-2)
  else do
    modifyCtx fun c => { c with buffer := buf, size := len, breakEarly := true, blockSize := 4 }
    wifiCardSendCommandAlt bus fuel cmd53ReadSingle (.ofNat (cmd53ReadSingleArg addr (len % 2 ^ 8)))
    modifyCtx fun c => { c with blockSize := s.ctx.blockSize }
    transferResult

/-- A read of single words stores inside the buffer, and brings the block size back. -/
theorem post_readFunc1_32bit (bus : Bus) (addr buf len fuel : ℕ) (s : SdioState) :
    Post (wifiCardReadFunc1_32bit bus addr buf len fuel) (fun _ s' =>
      s'.ctx.blockSize = s.ctx.blockSize ∧
        ∀ a, a < buf ∨ buf + len ≤ a → s'.mem a = s.mem a) s := by
  unfold wifiCardReadFunc1_32bit wifiCardSendCommandAlt modifyCtx transferResult
  rw [post_bind, post_get]
  split_ifs with hdevice
  · rw [post_pure]
    exact ⟨rfl, fun _ _ => rfl⟩
  · rw [post_bind, post_modify, post_bind, post_bind, post_get, if_pos (by simpa using hdevice)]
    refine post_mono (post_sendCommand_read rfl rfl (Nat.succ_pos 3) (Nat.dvd_refl 4)) ?_
    rintro _ s₁ ⟨ws, h₁⟩
    rw [post_bind, post_modify, post_bind, post_get, post_pure]
    refine ⟨rfl, fun a ha => ?_⟩
    have hinside : (wordBytes ws).length ≤ len := h₁.inside
    have hstored : s₁.mem = s.mem.write buf (wordBytes ws) := h₁.stored
    rw [hstored]
    exact Mem.write_apply_of_not _ _ _ (by omega)

/-! ## Every poll -/

/-- **Transfers word by word.** At the start of every polling round of a command, whatever the
registers and the FIFO have shown: of a read, the words that came from the FIFO are stored in order
from the start of the buffer, their bytes and the remaining size make up the size, and no other byte
has changed; of a write, the words that went to the FIFO are the first of the buffer, and those and
the remaining size make up the size.  And the round returns. -/
theorem pio_transfer_invariant (bus : Bus) (fuel : ℕ) (cmd : WifiSdioCommand) (args : UInt32)
    (s : SdioState) (hpos : 0 < s.ctx.blockSize) (hfour : 4 ∣ s.ctx.blockSize)
    {b : PioLocals} {s' : SdioState} (h : AtPoll bus fuel cmd args s b s') :
    (∃ ws, AtPollAfter bus fuel cmd args s b s' ws) ∧
    (∀ ws, AtPollAfter bus fuel cmd args s b s' ws → cmd.dataDirection = .read →
      (wordBytes ws).length + b.size = s.ctx.size ∧
        s'.mem = s.mem.write s.ctx.buffer (wordBytes ws) ∧
        ∀ a, a < s.ctx.buffer ∨ s.ctx.buffer + s.ctx.size ≤ a → s'.mem a = s.mem a) ∧
    (cmd.dataDirection = .write → ∃ n, 4 * n + b.size = s.ctx.size ∧
      fifoWrites s' = fifoWrites s ++ bufferWords s.mem s.ctx.buffer n) ∧
    (s.ctx.blockSize / 4 < fuel → Ends (pioRound bus fuel cmd b) (fun _ _ => True) s') := by
  obtain ⟨-, s₁, hsetup, hrounds⟩ := h
  obtain ⟨ws, hws⟩ : ∃ ws, AtPollAfter bus fuel cmd args s b s' ws := by
    obtain ⟨ws, hws⟩ := rounds_records (records_pioRound bus fuel cmd) hrounds []
    exact ⟨ws, s₁, hsetup, hws⟩
  obtain ⟨n, hinv⟩ := pioInv_of_atPollAfter hpos hfour hws
  refine ⟨⟨ws, hws⟩, fun ws' hws' hread => ?_, fun hwrite => ⟨n, ?_, hinv.pushed⟩, fun hfuel => ?_⟩
  · obtain ⟨n', hinv'⟩ := pioInv_of_atPollAfter hpos hfour hws'
    obtain rfl := hinv'.read hread
    have hleft := hinv'.left
    have hlen := length_wordBytes ws'
    refine ⟨?_, hinv'.stored, fun a ha => ?_⟩
    · rw [hlen]
      exact hleft
    · have hstored := hinv'.stored
      dsimp only at hleft hstored
      rw [hstored]
      exact Mem.write_apply_of_not _ _ _ (by omega)
  · have hleft := hinv.left
    rw [hinv.write hwrite, List.length_nil, Nat.zero_add] at hleft
    exact hleft
  · have hblock : s'.ctx.blockSize = s.ctx.blockSize := hinv.blockSize
    exact ends_pioRound cmd (by rwa [hblock]) (by rwa [hblock]) b

/-- A controller that has a word at every poll, and never ends the command. -/
def readyBus : Bus := fun _ port =>
  if port = .sdio offsIrq32 then 0x100
  else if port = .sdio offsData32Fifo then 0x04030201
  else 0

/-- A device with a buffer for two words. -/
def twoWordDevice : SdioState :=
  { freshDevice with ctx := { freshDevice.ctx with buffer := 0x1000, size := 8, blockSize := 4 } }

/-- The device when its first round starts. -/
def twoWordStart : SdioState := (sendSetup readyBus 2 cmd53ReadSingle 0 twoWordDevice).2

/-- The device after a round. -/
def twoWordNext : SdioState := (pioRound readyBus 2 cmd53ReadSingle ⟨0x1000, 8⟩ twoWordStart).2

/-- The first of two words is stored after a round. -/
theorem pio_transfer_sample : ∃ b s', AtPoll readyBus 2 cmd53ReadSingle 0 twoWordDevice b s' ∧
    4 + b.size = 8 ∧ s'.mem.read 0x1000 4 = [1, 2, 3, 4] ∧ s'.mem 0x1008 = 0 := by
  have hround : (pioRound readyBus 2 cmd53ReadSingle ⟨0x1000, 8⟩ twoWordStart).1 =
      some (.inl ⟨0x1004, 4⟩) := by rfl
  have hat : AtPoll readyBus 2 cmd53ReadSingle 0 twoWordDevice ⟨0x1004, 4⟩ twoWordNext :=
    ⟨⟨by decide, by decide, by decide⟩, twoWordStart, Prod.ext (by rfl) rfl,
      .round .start (Prod.ext hround rfl)⟩
  obtain ⟨⟨ws, hws⟩, hread, -, -⟩ := pio_transfer_invariant readyBus 2 cmd53ReadSingle 0 twoWordDevice
    (by decide) (by decide) hat
  obtain ⟨-, -, houtside⟩ := hread ws hws rfl
  exact ⟨_, twoWordNext, hat, rfl, by decide +kernel, houtside 0x1008 (by decide)⟩

end DsiWifi
