import DsiWifi.Mbox.Framing
import DsiWifi.Sdio.Command

/-!
# Errors of block transfers

A block transfer is handed to the DMA: `wifi_sdio_send_command` returns before the first look at the
status registers, with the status it cleared, and the callers wait for the DMA only.  So their
result never tells of an error (`block_errors_reported_iff`), while that of a polled command is what
the last poll saw (`post_pioTransfer`).
-/

namespace DsiWifi

open Proc

/-! ## What accesses leave alone -/

/-- A relation between states that reads keep, and writes to registers other than the FIFO. -/
structure PortFrame (R : SdioState → SdioState → Prop) : Prop where
  refl : ∀ s, R s s
  trans : ∀ s s' s'', R s s' → R s' s'' → R s s''
  read : ∀ s : SdioState, R s { s with time := s.time + 1 }
  write : ∀ (s : SdioState) (w : BusWrite), w.port ≠ .sdio offsData32Fifo →
    R s { s with time := s.time + 1, writes := s.writes ++ [w] }

namespace PortFrame

variable {R : SdioState → SdioState → Prop} (hR : PortFrame R) (bus : Bus)

include hR

theorem bind {α β : Type} {p : Proc SdioState β} {f : β → Proc SdioState α} (hp : Moves R p)
    (hf : ∀ b, Moves R (f b)) : Moves R (p >>= f) := moves_bind hR.trans hp hf

theorem pure {α : Type} (a : α) : Moves R (Pure.pure a) := moves_pure hR.refl a

theorem get : Moves R Proc.get := fun s => post_get.2 (hR.refl s)

theorem repeats {α β : Type} {body : β → Proc SdioState (β ⊕ α)} (h : ∀ b, Moves R (body b))
    (fuel : ℕ) (b : β) : Moves R (Proc.repeats body fuel b) :=
  moves_repeats hR.refl hR.trans h fuel b

theorem readPort (port : Port) : Moves R (DsiWifi.readPort bus port) :=
  hR.bind hR.get fun _ => hR.bind (moves_modify hR.read) fun _ => hR.pure _

theorem writePort {port : Port} (hport : port ≠ .sdio offsData32Fifo) (val : UInt32) :
    Moves R (DsiWifi.writePort port val) :=
  moves_modify fun s => hR.write s ⟨s.time, port, val⟩ hport

theorem read16 (reg : ℕ) : Moves R (wifiSdioRead16 bus reg) :=
  hR.bind (hR.readPort bus _) fun _ => hR.pure _

theorem write16 {reg : ℕ} (hreg : reg ≠ offsData32Fifo) (val : UInt16) :
    Moves R (wifiSdioWrite16 reg val) :=
  hR.writePort (fun h => hreg (Port.sdio.inj h)) _

theorem mask16 {reg : ℕ} (hreg : reg ≠ offsData32Fifo) (clear set : UInt16) :
    Moves R (wifiSdioMask16 bus reg clear set) :=
  hR.bind (hR.read16 bus reg) fun _ => hR.write16 hreg _

theorem stop : Moves R wifiSdioStop := hR.write16 (by decide) _

theorem ndmaWait (fuel : ℕ) : Moves R (wifiNdmaWait bus fuel) :=
  hR.repeats (fun _ => hR.bind (hR.readPort bus _) fun _ => hR.pure _) fuel ()

theorem waitNotBusy (fuel : ℕ) : Moves R (DsiWifi.waitNotBusy bus fuel) :=
  hR.repeats (fun _ => hR.bind (hR.read16 bus _) fun _ => hR.pure _) fuel ()

theorem writeCommand (cmd : WifiSdioCommand) (args : UInt32) :
    Moves R (DsiWifi.writeCommand cmd args) := by
  unfold DsiWifi.writeCommand
  refine hR.bind hR.get fun s => ?_
  iterate 8 refine hR.bind (hR.write16 (by decide) _) fun _ => ?_
  refine hR.bind ?_ fun _ => hR.write16 (by decide) _
  apply moves_ite
  · exact hR.bind (hR.write16 (by decide) _) fun _ => hR.write16 (by decide) _
  · exact hR.pure _

theorem ndmaTransfer (fuel : ℕ) (cmd : WifiSdioCommand) :
    Moves R (DsiWifi.ndmaTransfer bus fuel cmd) := by
  unfold DsiWifi.ndmaTransfer
  refine hR.bind hR.get fun s => ?_
  cases cmd.dataDirection with
  | read =>
    unfold wifiNdmaRead
    iterate 4 refine hR.bind (hR.writePort (by decide) _) fun _ => ?_
    exact hR.writePort (by decide) _
  | write =>
    unfold wifiNdmaWrite
    refine hR.bind (hR.ndmaWait bus fuel) fun _ => ?_
    iterate 4 refine hR.bind (hR.writePort (by decide) _) fun _ => ?_
    exact hR.writePort (by decide) _

theorem endCond (cmd : WifiSdioCommand) (stat1 : UInt16) (b : PioLocals) :
    Moves R (DsiWifi.endCond bus cmd stat1 b) := by
  apply moves_ite
  · exact hR.bind (hR.read16 bus _) fun _ => hR.pure _
  · exact hR.pure _

theorem readResp (i : ℕ) : Moves R (DsiWifi.readResp bus i) :=
  hR.bind (hR.read16 bus _) fun _ => hR.bind (hR.read16 bus _) fun _ => hR.pure _

end PortFrame

/-- The context is left alone, and time goes on. -/
structure Accesses (s s' : SdioState) : Prop where
  device : s'.deviceCurctx = s.deviceCurctx
  ctx : s'.ctx = s.ctx
  time : s.time ≤ s'.time

theorem accesses : PortFrame Accesses where
  refl _ := ⟨rfl, rfl, Nat.le_refl _⟩
  trans _ _ _ h h' := ⟨h'.device.trans h.device, h'.ctx.trans h.ctx, h.time.trans h'.time⟩
  read _ := ⟨rfl, rfl, Nat.le_succ _⟩
  write _ _ _ := ⟨rfl, rfl, Nat.le_succ _⟩

/-! ## The callers -/

def cmd53Read : WifiSdioCommand where
  cmd := 53
  responseType := .resp48bit
  dataTransfer := true
  dataDirection := .read
  multipleBlock := true
  secure := true

def cmd53Write : WifiSdioCommand := { cmd53Read with dataDirection := .write }

/-- The argument of a block read of `blkcnt` blocks. -/
def cmd53ReadArg (addr blkcnt : ℕ) : ℕ :=
  (1 <<< 28) ||| (1 <<< 27) ||| (1 <<< 26) ||| ((addr &&& 0x1FFFF) <<< 9) ||| blkcnt

def wifiCardSendCommandAlt (bus : Bus) (fuel : ℕ) (cmd : WifiSdioCommand) (args : UInt32) :
    Proc SdioState Unit := do
  let s ← get
  if s.deviceCurctx then wifiSdioSendCommand bus fuel cmd args else pure ()

/-- The result of a transfer, by its status. -/
def transferResult : Proc SdioState ℤ := do
  let s ← get
  pure (if s.ctx.status &&& 4 ≠ 0 then -1 else 0)

namespace Sdio

def wifiCardReadFunc1Block (bus : Bus) (addr buf len fuel : ℕ) : Proc SdioState ℤ := do
  let s ← get
  if s.deviceCurctx = false then pure (-2)
  else do
    wifiNdmaWait bus fuel
    wifiSdioStop
    modifyCtx fun c => { c with buffer := buf, size := len }
    let blkcnt := len / s.ctx.blockSize % 2 ^ 8
    wifiCardSendCommandAlt bus fuel cmd53Read (.ofNat (cmd53ReadArg addr blkcnt))
    wifiSdioStop
    wifiNdmaWait bus fuel
    transferResult

def wifiCardWriteFunc1Block (bus : Bus) (addr buf len fuel : ℕ) : Proc SdioState ℤ := do
  let s ← get
  if s.deviceCurctx = false then pure (-2)
  else do
    wifiNdmaWait bus fuel
    wifiSdioStop
    modifyCtx fun c => { c with buffer := buf, size := len }
    let blkcnt := len / s.ctx.blockSize % 2 ^ 8
    wifiCardSendCommandAlt bus fuel cmd53Write (.ofNat (cmd53WriteArg addr blkcnt))
    wifiNdmaWait bus fuel
    wifiSdioStop
    transferResult

end Sdio

/-! ## The DMA path -/

/-- A block command leaves a cleared status, whatever the controller does. -/
theorem post_sendCommand_block {bus : Bus} {s : SdioState} (fuel : ℕ) {cmd : WifiSdioCommand}
    (args : UInt32) (hctl : s.ctx.controller ≠ 0) (hbuf : s.ctx.buffer ≠ 0)
    (halign : s.ctx.buffer % 4 = 0) (hblock : cmd.multipleBlock = true) :
    Post (wifiSdioSendCommand bus fuel cmd args) (fun _ s' => s'.ctx.status = 0) s := by
  unfold wifiSdioSendCommand
  rw [post_bind, post_get, if_neg hctl]
  unfold modifyCtx
  rw [post_bind, post_modify, if_neg fun h => h.2 halign, if_pos ⟨hblock, hbuf⟩]
  refine post_bind_of_moves (accesses.waitNotBusy bus fuel) fun _ s₁ h₁ => ?_
  refine post_bind_of_moves (accesses.writeCommand cmd args) fun _ s₂ h₂ => ?_
  refine post_mono (accesses.ndmaTransfer bus fuel cmd s₂) fun _ s₃ h₃ => ?_
  rw [h₃.ctx, h₂.ctx, h₁.ctx]

section Callers

variable {bus : Bus} {s : SdioState} {addr buf len : ℕ}

/-- What the callers have in common: with a device and an aligned buffer, the transfer in between
clears the status. -/
theorem post_block (bus : Bus) (len fuel : ℕ) {cmd : WifiSdioCommand} (args : UInt32)
    {rest : Proc SdioState Unit} (hdevice : s.deviceCurctx = true) (hctl : s.ctx.controller ≠ 0)
    (hbuf : buf ≠ 0) (halign : buf % 4 = 0) (hblock : cmd.multipleBlock = true)
    (hrest : Moves Accesses rest) :
    Post (do
      wifiNdmaWait bus fuel
      wifiSdioStop
      modifyCtx fun c => { c with buffer := buf, size := len }
      wifiCardSendCommandAlt bus fuel cmd args
      rest
      transferResult) (fun r _ => r = 0) s := by
  refine post_bind_of_moves (accesses.ndmaWait bus fuel) fun _ s₁ h₁ => ?_
  refine post_bind_of_moves accesses.stop fun _ s₂ h₂ => ?_
  have hctx : s₂.ctx = s.ctx := h₂.ctx.trans h₁.ctx
  have hdev : s₂.deviceCurctx = true := (h₂.device.trans h₁.device).trans hdevice
  unfold modifyCtx wifiCardSendCommandAlt
  rw [post_bind, post_modify, post_bind, post_bind, post_get, if_pos hdev]
  refine post_mono (post_sendCommand_block fuel args ?_ hbuf halign hblock) fun _ s₃ h₃ => ?_
  · rwa [hctx]
  refine post_bind_of_moves hrest fun _ s₄ h₄ => ?_
  unfold transferResult
  rw [post_bind, post_get, post_pure, h₄.ctx, h₃]
  rfl

/-- With a device and an aligned buffer, a block read returns 0 if it returns. -/
theorem post_readFunc1Block (hdevice : s.deviceCurctx = true) (hctl : s.ctx.controller ≠ 0)
    (hbuf : buf ≠ 0) (halign : buf % 4 = 0) (fuel : ℕ) :
    Post (Sdio.wifiCardReadFunc1Block bus addr buf len fuel) (fun r _ => r = 0) s := by
  unfold Sdio.wifiCardReadFunc1Block
  rw [post_bind, post_get, if_neg (by simp [hdevice])]
  have h := post_block bus len fuel (.ofNat (cmd53ReadArg addr (len / s.ctx.blockSize % 2 ^ 8)))
    hdevice hctl hbuf halign (show cmd53Read.multipleBlock = true from rfl)
    (accesses.bind accesses.stop fun _ => accesses.ndmaWait bus fuel)
  simpa only [post_bind] using h

/-- With a device and an aligned buffer, a block write returns 0 if it returns. -/
theorem post_writeFunc1Block (hdevice : s.deviceCurctx = true) (hctl : s.ctx.controller ≠ 0)
    (hbuf : buf ≠ 0) (halign : buf % 4 = 0) (fuel : ℕ) :
    Post (Sdio.wifiCardWriteFunc1Block bus addr buf len fuel) (fun r _ => r = 0) s := by
  unfold Sdio.wifiCardWriteFunc1Block
  rw [post_bind, post_get, if_neg (by simp [hdevice])]
  have h := post_block bus len fuel (.ofNat (cmd53WriteArg addr (len / s.ctx.blockSize % 2 ^ 8)))
    hdevice hctl hbuf halign (show cmd53Write.multipleBlock = true from rfl)
    (accesses.bind (accesses.ndmaWait bus fuel) fun _ => accesses.stop)
  simpa only [post_bind] using h

end Callers

/-! ## The polled path -/

/-- A look at `IRQ_STAT1` after `t` accesses finds an error. -/
def ErrAt (bus : Bus) (t : ℕ) : Prop := (bus t (.sdio offsIrqStat1)).toUInt16 &&& maskErr ≠ 0

section Polled

variable (bus : Bus) (fuel : ℕ) (cmd : WifiSdioCommand)

theorem accesses_receiveWords (bufferEnd buffer : ℕ) :
    Moves Accesses (receiveWords bus fuel bufferEnd buffer) := by
  refine accesses.repeats (fun buffer => moves_ite ?_ ?_) fuel buffer
  · exact accesses.pure _
  · refine accesses.bind (accesses.readPort bus _) fun _ => ?_
    exact accesses.bind (moves_modify fun s => ⟨rfl, rfl, Nat.le_refl _⟩) fun _ => accesses.pure _

theorem accesses_transmitWords (bufferEnd buffer : ℕ) :
    Moves Accesses (transmitWords fuel bufferEnd buffer) := by
  refine accesses.repeats (fun buffer => moves_ite ?_ ?_) fuel buffer
  · exact accesses.pure _
  · refine accesses.bind accesses.get fun _ => ?_
    exact accesses.bind (moves_modify fun _ => ⟨rfl, rfl, Nat.le_succ _⟩) fun _ => accesses.pure _

theorem accesses_moveBlock {move : ℕ → ℕ → Proc SdioState ℕ}
    (h : ∀ bufferEnd buffer, Moves Accesses (move bufferEnd buffer)) (b : PioLocals) :
    Moves Accesses (moveBlock move b) := by
  unfold moveBlock
  refine accesses.bind accesses.get fun s => moves_ite ?_ ?_
  · exact accesses.bind (h _ _) fun _ => accesses.pure _
  · exact accesses.pure _

theorem accesses_pioReceive (cnt32 : UInt16) (b : PioLocals) :
    Moves Accesses (pioReceive bus fuel cmd cnt32 b) := by
  apply moves_ite
  · exact accesses.bind (accesses.mask16 bus (by decide) _ _) fun _ =>
      accesses_moveBlock (accesses_receiveWords bus fuel) b
  · exact accesses.pure _

theorem accesses_pioTransmit (stat1 : UInt16) (b : PioLocals) :
    Moves Accesses (pioTransmit bus fuel cmd stat1 b) := by
  apply moves_ite
  · exact accesses.bind (accesses.mask16 bus (by decide) _ _) fun _ =>
      accesses_moveBlock (accesses_transmitWords fuel) b
  · exact accesses.pure _

/-- The error flag is left alone, and time goes on. -/
structure KeepsFlag (s s' : SdioState) : Prop where
  flag : s'.ctx.status &&& 4 = s.ctx.status &&& 4
  time : s.time ≤ s'.time

theorem KeepsFlag.trans (s s' s'' : SdioState) (h : KeepsFlag s s') (h' : KeepsFlag s' s'') :
    KeepsFlag s s'' := ⟨h'.flag.trans h.flag, h.time.trans h'.time⟩

theorem keepsFlag_of_accesses {α : Type} {p : Proc SdioState α} (h : Moves Accesses p) :
    Moves KeepsFlag p := fun s =>
  post_mono (h s) fun _ _ hs => ⟨by rw [hs.ctx], hs.time⟩

theorem keepsFlag_modifyCtx {f : WifiSdioCtx → WifiSdioCtx}
    (h : ∀ c, (f c).status &&& 4 = c.status &&& 4) : Moves KeepsFlag (modifyCtx f) :=
  moves_modify fun s => ⟨h s.ctx, Nat.le_refl _⟩

theorem keepsFlag_bind {α β : Type} {p : Proc SdioState β} {f : β → Proc SdioState α}
    (hp : Moves KeepsFlag p) (hf : ∀ b, Moves KeepsFlag (f b)) : Moves KeepsFlag (p >>= f) :=
  moves_bind KeepsFlag.trans hp hf

theorem or_and_distrib (x y z : UInt32) : (x ||| y) &&& z = (x &&& z) ||| (y &&& z) := by
  rw [← UInt32.toBitVec_inj]
  exact BitVec.and_or_distrib_right

/-- The flags 1 and 2 are not the error flag. -/
theorem or_flags_and_four (x : UInt32) (p q : Prop) [Decidable p] [Decidable q] :
    (x ||| (if p then 1 else 0) ||| (if q then 2 else 0)) &&& 4 = x &&& 4 := by
  have hp : (if p then (1 : UInt32) else 0) &&& 4 = 0 := by split_ifs <;> rfl
  have hq : (if q then (2 : UInt32) else 0) &&& 4 = 0 := by split_ifs <;> rfl
  rw [or_and_distrib, or_and_distrib, hp, hq, UInt32.or_zero, UInt32.or_zero]

theorem keepsFlag_pioComplete (notBusy : Bool) : Moves KeepsFlag (pioComplete bus cmd notBusy) := by
  apply moves_ite
  · refine keepsFlag_bind (keepsFlag_of_accesses (accesses.read16 bus _)) fun _ => ?_
    refine keepsFlag_bind (keepsFlag_modifyCtx fun c => ?_) fun _ =>
      keepsFlag_of_accesses (accesses.pure _)
    exact or_flags_and_four _ _ _
  · exact keepsFlag_of_accesses (accesses.pure _)

theorem keepsFlag_pioFinish : Moves KeepsFlag (pioFinish bus cmd) := by
  unfold pioFinish
  iterate 4 refine keepsFlag_bind (keepsFlag_of_accesses (accesses.read16 bus _)) fun _ => ?_
  refine keepsFlag_bind (keepsFlag_modifyCtx fun _ => rfl) fun _ => ?_
  iterate 2 refine keepsFlag_bind (keepsFlag_of_accesses (accesses.write16 (by decide) _)) fun _ => ?_
  apply moves_ite
  · iterate 4 refine keepsFlag_bind (keepsFlag_of_accesses (accesses.readResp bus _)) fun _ => ?_
    exact keepsFlag_modifyCtx fun _ => rfl
  · exact keepsFlag_of_accesses (accesses.pure _)

variable {bus fuel cmd}

/-- A round that goes on has found no error; one that ends tells by the flag. -/
theorem post_pioRound {s : SdioState} (h : s.ctx.status &&& 4 = 0) (b : PioLocals) :
    Post (pioRound bus fuel cmd b) (fun r s' => s.time < s'.time ∧
      r.elim (fun _ => s'.ctx.status &&& 4 = 0)
        fun _ => (s'.ctx.status &&& 4 ≠ 0 ↔ ErrAt bus s.time)) s := by
  unfold pioRound
  rw [post_bind]
  unfold wifiSdioRead16 readPort
  rw [post_bind, post_bind, post_get, post_bind, post_modify, post_pure, post_pure]
  refine post_bind_of_moves (accesses.read16 bus offsIrq32) fun cnt32 s₁ h₁ => ?_
  refine post_bind_of_moves (accesses_pioReceive bus fuel cmd cnt32 b) fun b₁ s₂ h₂ => ?_
  refine post_bind_of_moves (accesses_pioTransmit bus fuel cmd _ b₁) fun b₂ s₃ h₃ => ?_
  have hctx : s₃.ctx = s.ctx := h₃.ctx.trans (h₂.ctx.trans h₁.ctx)
  have htime : s.time < s₃.time := (h₁.time.trans h₂.time).trans h₃.time
  by_cases hpoll : (bus s.time (.sdio offsIrqStat1)).toUInt16 &&& maskErr ≠ 0
  · rw [if_pos hpoll, post_bind]
    unfold modifyCtx
    rw [post_modify, post_pure]
    refine ⟨htime, iff_of_true ?_ hpoll⟩
    rw [hctx, or_and_distrib, h]
    decide
  · rw [if_neg hpoll]
    have hrest := keepsFlag_bind (keepsFlag_of_accesses (accesses.endCond bus cmd
      (bus s.time (.sdio offsIrqStat1)).toUInt16 b₂)) (keepsFlag_pioComplete bus cmd) s₃
    rw [post_bind] at hrest ⊢
    refine post_mono hrest fun notBusy s₄ h₄ => ?_
    rw [post_bind]
    refine post_mono h₄ fun done s₅ h₅ => ?_
    rw [post_bind, post_get, post_pure]
    have hflag : s₅.ctx.status &&& 4 = 0 := by rw [h₅.flag, hctx, h]
    refine ⟨htime.trans_le h₅.time, ?_⟩
    split_ifs
    · exact iff_of_false (not_not.2 hflag) hpoll
    · exact hflag

/-- **The polled path.** When a polled transfer returns, its status tells whether the last poll
found an error. -/
theorem post_pioTransfer {s : SdioState} (h : s.ctx.status = 0) :
    Post (pioTransfer bus fuel cmd) (fun _ s' => ∃ t, s.time ≤ t ∧ t < s'.time ∧
      (s'.ctx.status &&& 4 ≠ 0 ↔ ErrAt bus t)) s := by
  unfold pioTransfer
  rw [post_bind, post_get, post_bind]
  refine post_mono (P := fun _ s' => ∃ t, s.time ≤ t ∧ t < s'.time ∧
    (s'.ctx.status &&& 4 ≠ 0 ↔ ErrAt bus t)) ?_ fun _ s₁ h₁ => ?_
  · refine post_repeats (I := fun _ s' => s.time ≤ s'.time ∧ s'.ctx.status &&& 4 = 0)
      (fun b s' hs => ?_) fuel ⟨Nat.le_refl _, by rw [h]; rfl⟩
    refine post_mono (post_pioRound hs.2 b) fun r s'' hr => ?_
    cases r with
    | inl b' => exact ⟨hs.1.trans hr.1.le, hr.2⟩
    | inr a => exact ⟨s'.time, hs.1, hr.1, hr.2⟩
  · obtain ⟨t, ht, hlt, hflag⟩ := h₁
    refine post_mono (keepsFlag_pioFinish bus cmd s₁) fun _ s₂ h₂ => ⟨t, ht, ?_, ?_⟩
    · exact hlt.trans_le h₂.time
    · rw [h₂.flag, hflag]

end Polled

/-! ## Reports -/

/-- An error is raised for the command of a call: behind its write to the command register, and
before the call returns, if it does. -/
def ErrRaised (bus : Bus) (call : ℕ → Proc SdioState ℤ) (s : SdioState) : Prop :=
  ∃ fuel, ∃ w ∈ (call fuel s).2.writes, w.port = .sdio offsCmd ∧ s.time ≤ w.time ∧
    ∃ t, w.time < t ∧ t < (call fuel s).2.time ∧ ErrAt bus t

/-- The call returns 0 only without an error, and -1 with one. -/
def ReportsErrors (bus : Bus) (call : ℕ → Proc SdioState ℤ) (s : SdioState) : Prop :=
  (∀ fuel, (call fuel s).1 = some 0 → ¬ErrRaised bus call s) ∧
    (ErrRaised bus call s → ∃ fuel, (call fuel s).1 = some (-1))

/-- A call that can only return 0 reports errors when there is none. -/
theorem reportsErrors_iff {bus : Bus} {call : ℕ → Proc SdioState ℤ} {s : SdioState}
    (h : ∀ fuel, Post (call fuel) (fun r _ => r = 0) s) :
    ReportsErrors bus call s ↔ ¬ErrRaised bus call s := by
  constructor
  · intro hreports hraised
    obtain ⟨fuel, hret⟩ := hreports.2 hraised
    exact absurd (show (-1 : ℤ) = 0 from h fuel (-1) hret) (by decide)
  · exact fun hno => ⟨fun _ _ => hno, fun hraised => absurd hraised hno⟩

/-- **Errors of block transfers.** With a device context and an aligned buffer, block reads and
block writes report the errors of the controller exactly when there is none to report. -/
theorem block_errors_reported_iff (bus : Bus) (s : SdioState) (addr buf len : ℕ)
    (hdevice : s.deviceCurctx = true) (hctl : s.ctx.controller ≠ 0) (hbuf : buf ≠ 0)
    (halign : buf % 4 = 0) :
    let read := Sdio.wifiCardReadFunc1Block bus addr buf len
    let write := Sdio.wifiCardWriteFunc1Block bus addr buf len
    (ReportsErrors bus read s ↔ ¬ErrRaised bus read s) ∧
      (ReportsErrors bus write s ↔ ¬ErrRaised bus write s) :=
  ⟨reportsErrors_iff (post_readFunc1Block hdevice hctl hbuf halign),
    reportsErrors_iff (post_writeFunc1Block hdevice hctl hbuf halign)⟩

/-- A device that has not been used. -/
def freshDevice : SdioState where
  deviceCurctx := true
  ctx := ⟨0x04004A00, 0, 0, [], 0, 0, 0, 0, 0, 128, false⟩
  mem := fun _ => 0
  time := 0
  writes := []

/-- Controllers that are never busy and never fail. -/
def idleBus : Bus := fun _ _ => 0

theorem block_errors_reported_sample :
    ReportsErrors idleBus (Sdio.wifiCardReadFunc1Block idleBus 0xFF 0x1000 0x80) freshDevice ∧
      ReportsErrors idleBus (Sdio.wifiCardWriteFunc1Block idleBus 0xFF 0x1000 0x80) freshDevice := by
  have hno : ∀ call, ¬ErrRaised idleBus call freshDevice := by
    rintro call ⟨fuel, w, -, -, -, t, -, -, herr⟩
    exact herr (show (0 : UInt32).toUInt16 &&& maskErr = 0 by decide)
  have h := block_errors_reported_iff idleBus freshDevice 0xFF 0x1000 0x80 rfl (by decide)
    (by decide) rfl
  exact ⟨h.1.2 (hno _), h.2.2 (hno _)⟩

/-- Controllers that are never busy, and a command that times out: the 13 accesses before its write
find nothing. -/
def timeoutBus : Bus := fun t port => if port = .sdio offsIrqStat1 ∧ 13 < t then 0x40 else 0

/-- A command that times out is reported as a success. -/
theorem block_errors_reported_counterexample :
    ¬∀ (bus : Bus) (s : SdioState) (addr buf len : ℕ), s.deviceCurctx = true →
      s.ctx.controller ≠ 0 → buf ≠ 0 → buf % 4 = 0 →
        ReportsErrors bus (Sdio.wifiCardReadFunc1Block bus addr buf len) s ∧
          ReportsErrors bus (Sdio.wifiCardWriteFunc1Block bus addr buf len) s := by
  intro h
  have hread := (h timeoutBus freshDevice 0xFF 0x1000 0x80 rfl (by decide) (by decide) rfl).1
  rw [reportsErrors_iff (post_readFunc1Block rfl (by decide) (by decide) rfl)] at hread
  apply hread
  refine ⟨1, ⟨13, .sdio offsCmd, cmd53Read.raw.toUInt32⟩, by decide +kernel, rfl, by decide, 14, ?_⟩
  exact ⟨by decide, by decide +kernel, by unfold ErrAt; decide⟩

end DsiWifi
