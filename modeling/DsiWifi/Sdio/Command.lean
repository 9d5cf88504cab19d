import DsiWifi.Lib.Proc
import DsiWifi.Util

/-!
# SDIO commands

`wifi_sdio_send_command` writes a command to the controller.  The data of a block transfer are left
to the DMA, and the function returns at once; those of other commands are moved word by word while
the status registers are polled.

The controllers may do anything: `Bus` gives what a register reads as, by the number of accesses
that were made before.  The DMA's own transfers between the FIFO and the memory are not modelled.
-/

namespace DsiWifi

open Proc

/-! ## Registers -/

/-- A register of the SDIO controller or of the DMA channel, by its offset. -/
inductive Port
  | sdio (offs : ℕ)
  | ndma (offs : ℕ)
  deriving DecidableEq

def offsCmd : ℕ := 0x000
def offsCmdParam0 : ℕ := 0x004
def offsCmdParam1 : ℕ := 0x006
def offsStop : ℕ := 0x008
def offsData16BlkCnt : ℕ := 0x00A
def offsResp0 : ℕ := 0x00C
def offsIrqStat0 : ℕ := 0x01C
def offsIrqStat1 : ℕ := 0x01E
def offsData16BlkLen : ℕ := 0x026
def offsErrDetail0 : ℕ := 0x02C
def offsErrDetail1 : ℕ := 0x02E
def offsData16Cnt : ℕ := 0x0D8
def offsIrq32 : ℕ := 0x100
def offsData32BlkLen : ℕ := 0x104
def offsData32BlkCnt : ℕ := 0x108
def offsData32Fifo : ℕ := 0x10C

def stat0Cmdrespend : UInt16 := 0x0001
def stat0Dataend : UInt16 := 0x0004
def stat1Rxrdy : UInt16 := 0x0100
def stat1Txrq : UInt16 := 0x0200
def stat1CmdBusy : UInt16 := 0x4000

/-- `WIFI_SDIO_MASK_ERR`: illegal access, time-outs, overflow, underrun, stop bit, CRC and command
index errors. -/
def maskErr : UInt16 := 0x8000 ||| 0x0040 ||| 0x0020 ||| 0x0010 ||| 0x0008 ||| 0x0004 ||| 0x0002 |||
  0x0001

/-! ## State -/

/-- The fields of `wifi_sdio_ctx` that commands use.  Pointers are addresses, zero for null. -/
structure WifiSdioCtx where
  controller : ℕ
  buffer : ℕ
  size : ℕ
  resp : List UInt32
  status : UInt32
  stat0 : UInt16
  stat1 : UInt16
  err0 : UInt16
  err1 : UInt16
  blockSize : ℕ
  breakEarly : Bool

inductive SdioResponse
  | none
  | resp48bit
  | resp48bitBusy
  | resp136bit
  | resp48bitOcrNoCrc7
  deriving DecidableEq

def SdioResponse.val : SdioResponse → ℕ
  | none => 3
  | resp48bit => 4
  | resp48bitBusy => 5
  | resp136bit => 6
  | resp48bitOcrNoCrc7 => 7

inductive SdioDirection
  | write
  | read
  deriving DecidableEq

structure WifiSdioCommand where
  cmd : ℕ
  commandType : ℕ := 0
  responseType : SdioResponse
  dataTransfer : Bool := false
  dataDirection : SdioDirection := .write
  multipleBlock : Bool := false
  secure : Bool := false

/-- The bit fields of the command as a word. -/
def WifiSdioCommand.raw (c : WifiSdioCommand) : UInt16 :=
  .ofNat (c.cmd + c.commandType * 2 ^ 6 + c.responseType.val * 2 ^ 8 + c.dataTransfer.toNat * 2 ^ 11 +
    (if c.dataDirection = .read then 1 else 0) * 2 ^ 12 + c.multipleBlock.toNat * 2 ^ 13 +
    c.secure.toNat * 2 ^ 14)

/-- A write to a register, with the number of accesses before it. -/
structure BusWrite where
  time : ℕ
  port : Port
  val : UInt32
  deriving DecidableEq

/-- What each register reads as, by the number of accesses before. -/
abbrev Bus := ℕ → Port → UInt32

/-- Whether `device_curctx` is set, the context it points to, the memory, the number of accesses so
far, and those that were writes. -/
structure SdioState where
  deviceCurctx : Bool
  ctx : WifiSdioCtx
  mem : Mem UInt8
  time : ℕ
  writes : List BusWrite

/-! ## Accesses -/

def readPort (bus : Bus) (port : Port) : Proc SdioState UInt32 := do
  let s ← get
  modify fun s => { s with time := s.time + 1 }
  pure (bus s.time port)

def writePort (port : Port) (val : UInt32) : Proc SdioState Unit :=
  modify fun s => { s with time := s.time + 1, writes := s.writes ++ [⟨s.time, port, val⟩] }

def wifiSdioRead16 (bus : Bus) (reg : ℕ) : Proc SdioState UInt16 := do
  let val ← readPort bus (.sdio reg)
  pure val.toUInt16

def wifiSdioWrite16 (reg : ℕ) (val : UInt16) : Proc SdioState Unit := writePort (.sdio reg) val.toUInt32

def wifiSdioRead32 (bus : Bus) (reg : ℕ) : Proc SdioState UInt32 := readPort bus (.sdio reg)

def wifiSdioWrite32 (reg : ℕ) (val : UInt32) : Proc SdioState Unit := writePort (.sdio reg) val

def wifiSdioMask16 (bus : Bus) (reg : ℕ) (clear set : UInt16) : Proc SdioState Unit := do
  let val ← wifiSdioRead16 bus reg
  wifiSdioWrite16 reg ((val &&& ~~~clear) ||| set)

def wifiSdioStop : Proc SdioState Unit := wifiSdioWrite16 offsStop 0x100

def modifyCtx (f : WifiSdioCtx → WifiSdioCtx) : Proc SdioState Unit :=
  modify fun s => { s with ctx := f s.ctx }

/-! ## DMA -/

def ndmaSrcAddr : Port := .ndma 0x0004
def ndmaDstAddr : Port := .ndma 0x0008
def ndmaTransferCnt : Port := .ndma 0x000C
def ndmaWriteCnt : Port := .ndma 0x0010
def ndmaCnt : Port := .ndma 0x001C

def ndmaEnable : UInt32 := 0x80000000

/-- `NDMA_ENABLE`, the block size of 0x20 words cut to its field, and `NDMA_STARTUP_WIFI`. -/
def ndmaStart : UInt32 :=
  ndmaEnable ||| (((0x80 / 4 : UInt32) &&& 0xF) <<< 16) ||| ((9 : UInt32) <<< 24)

def ndmaModeFixed : UInt32 := 2

/-- `REG_SDIO_BASE + WIFI_SDIO_OFFS_DATA32_FIFO`. -/
def fifoAddr : UInt32 := 0x04004A00 + 0x10C

/-- The loop `while (REG_NDMA_CNT & NDMA_ENABLE)`. -/
def wifiNdmaWait (bus : Bus) (fuel : ℕ) : Proc SdioState Unit :=
  repeats (fun _ => do
    let cnt ← readPort bus ndmaCnt
    pure (if cnt &&& ndmaEnable ≠ 0 then Sum.inl () else Sum.inr ())) fuel ()

def wifiNdmaRead (dst len : ℕ) : Proc SdioState Unit := do
  writePort ndmaSrcAddr fifoAddr
  writePort ndmaDstAddr (.ofNat dst)
  writePort ndmaTransferCnt (.ofNat (len / 4))
  writePort ndmaWriteCnt (0x80 / 4)
  writePort ndmaCnt (ndmaStart ||| (ndmaModeFixed <<< 13))

def wifiNdmaWrite (bus : Bus) (fuel src len : ℕ) : Proc SdioState Unit := do
  wifiNdmaWait bus fuel
  writePort ndmaSrcAddr (.ofNat src)
  writePort ndmaDstAddr fifoAddr
  writePort ndmaTransferCnt (.ofNat (len / 4))
  writePort ndmaWriteCnt (0x80 / 4)
  writePort ndmaCnt (ndmaStart ||| (ndmaModeFixed <<< 10))

/-! ## `wifi_sdio_send_command` -/

/-- The loop on `CMD_BUSY`. -/
def waitNotBusy (bus : Bus) (fuel : ℕ) : Proc SdioState Unit :=
  repeats (fun _ => do
    let stat1 ← wifiSdioRead16 bus offsIrqStat1
    pure (if stat1 &&& stat1CmdBusy ≠ 0 then Sum.inl () else Sum.inr ())) fuel ()

/-- Data32 mode. -/
def writeData32Mode (cmd : WifiSdioCommand) : Proc SdioState Unit :=
  if cmd.multipleBlock then do
    wifiSdioWrite16 offsData16Cnt 0x0002
    wifiSdioWrite16 offsIrq32 (if cmd.dataDirection = .read then 0xC02 else 0x1402)
  else pure ()

/-- ACK all interrupts, write arguments, block lengths and counts, and the command. -/
def writeCommand (cmd : WifiSdioCommand) (args : UInt32) : Proc SdioState Unit := do
  let s ← get
  let blkCnt := UInt16.ofNat (s.ctx.size / s.ctx.blockSize)
  wifiSdioWrite16 offsIrqStat0 0
  wifiSdioWrite16 offsIrqStat1 0
  wifiSdioWrite16 offsCmdParam0 args.toUInt16
  wifiSdioWrite16 offsCmdParam1 (args >>> 16).toUInt16
  wifiSdioWrite16 offsData16BlkLen (.ofNat s.ctx.blockSize)
  wifiSdioWrite16 offsData16BlkCnt blkCnt
  wifiSdioWrite16 offsData32BlkLen (.ofNat s.ctx.blockSize)
  wifiSdioWrite16 offsData32BlkCnt blkCnt
  writeData32Mode cmd
  wifiSdioWrite16 offsCmd cmd.raw

/-- The loop that stores a block from the FIFO, up to the address `bufferEnd`. -/
def receiveWords (bus : Bus) (fuel bufferEnd buffer : ℕ) : Proc SdioState ℕ :=
  repeats (fun buffer =>
    if buffer = bufferEnd then pure (Sum.inr buffer)
    else do
      let word ← wifiSdioRead32 bus offsData32Fifo
      modify fun s => { s with mem := s.mem.write buffer (putle32 word.toNat) }
      pure (Sum.inl (buffer + 4))) fuel buffer

/-- The loop that pushes a block to the FIFO, up to the address `bufferEnd`. -/
def transmitWords (fuel bufferEnd buffer : ℕ) : Proc SdioState ℕ :=
  repeats (fun buffer =>
    if buffer = bufferEnd then pure (Sum.inr buffer)
    else do
      let s ← get
      wifiSdioWrite32 offsData32Fifo (.ofNat (getle32 s.mem buffer))
      pure (Sum.inl (buffer + 4))) fuel buffer

/-- The locals `buffer` and `size` of the polling loop. -/
structure PioLocals where
  buffer : ℕ
  size : ℕ

/-- A block in one of the two directions, if a whole one is left. -/
def moveBlock (move : ℕ → ℕ → Proc SdioState ℕ) (b : PioLocals) : Proc SdioState PioLocals := do
  let s ← get
  if b.size > s.ctx.blockSize - 1 then do
    let buffer ← move (b.buffer + s.ctx.blockSize) b.buffer
    pure ⟨buffer, b.size - s.ctx.blockSize⟩
  else pure b

/-- Ready to receive data: ACK, and read a block. -/
def pioReceive (bus : Bus) (fuel : ℕ) (cmd : WifiSdioCommand) (cnt32 : UInt16) (b : PioLocals) :
    Proc SdioState PioLocals :=
  if cnt32 &&& 0x100 ≠ 0 ∧ cmd.dataDirection = .read ∧ b.buffer ≠ 0 then do
    wifiSdioMask16 bus offsIrqStat1 stat1Rxrdy 0
    moveBlock (receiveWords bus fuel) b
  else pure b

/-- Data transmission requested: ACK, and write a block. -/
def pioTransmit (bus : Bus) (fuel : ℕ) (cmd : WifiSdioCommand) (stat1 : UInt16) (b : PioLocals) :
    Proc SdioState PioLocals :=
  if stat1 &&& stat1Txrq ≠ 0 ∧ cmd.dataDirection = .write ∧ b.buffer ≠ 0 then do
    wifiSdioMask16 bus offsIrqStat1 stat1Txrq 0
    moveBlock (transmitWords fuel) b
  else pure b

/-- `stat0_completion_flags`. -/
def completionFlags (cmd : WifiSdioCommand) : UInt16 :=
  (if cmd.responseType ≠ .none then stat0Cmdrespend else 0) |||
    (if cmd.dataTransfer then stat0Dataend else 0)

/-- The condition `end_cond`. -/
def endCond (bus : Bus) (cmd : WifiSdioCommand) (stat1 : UInt16) (b : PioLocals) :
    Proc SdioState Bool :=
  if cmd.multipleBlock then do
    let stat0 ← wifiSdioRead16 bus offsIrqStat0
    pure (decide (stat0 &&& stat0Cmdrespend ≠ 0 ∧ b.size = 0))
  else pure (decide (stat1 &&& stat1CmdBusy = 0))

/-- The flags of a command that is not busy any more, and whether it is done. -/
def pioComplete (bus : Bus) (cmd : WifiSdioCommand) (notBusy : Bool) : Proc SdioState Bool :=
  if notBusy then do
    let stat0 ← wifiSdioRead16 bus offsIrqStat0
    modifyCtx fun c => { c with
      status := c.status ||| (if stat0 &&& stat0Cmdrespend ≠ 0 then 1 else 0) |||
        (if stat0 &&& stat0Dataend ≠ 0 then 2 else 0) }
    pure (decide (stat0 &&& completionFlags cmd = completionFlags cmd))
  else pure false

/-- A round of the polling loop. -/
def pioRound (bus : Bus) (fuel : ℕ) (cmd : WifiSdioCommand) (b : PioLocals) :
    Proc SdioState (PioLocals ⊕ Unit) := do
  let stat1 ← wifiSdioRead16 bus offsIrqStat1
  let cnt32 ← wifiSdioRead16 bus offsIrq32
  let b ← pioReceive bus fuel cmd cnt32 b
  let b ← pioTransmit bus fuel cmd stat1 b
  -- Has an error been asserted? Exit if so.
  if stat1 &&& maskErr ≠ 0 then do
    modifyCtx fun c => { c with status := c.status ||| 4 }
    pure (.inr ())
  else do
    let notBusy ← endCond bus cmd stat1 b
    let done ← pioComplete bus cmd notBusy
    let s ← get
    pure (if done ∨ s.ctx.breakEarly ∧ b.size = 0 then .inr () else .inl b)

/-- A word of the response. -/
def readResp (bus : Bus) (i : ℕ) : Proc SdioState UInt32 := do
  let low ← wifiSdioRead16 bus (offsResp0 + 4 * i)
  let high ← wifiSdioRead16 bus (offsResp0 + 4 * i + 2)
  pure (low.toUInt32 ||| (high.toUInt32 <<< 16))

/-- The status registers and the response at the end of a polled command. -/
def pioFinish (bus : Bus) (cmd : WifiSdioCommand) : Proc SdioState Unit := do
  let stat0 ← wifiSdioRead16 bus offsIrqStat0
  let stat1 ← wifiSdioRead16 bus offsIrqStat1
  let err0 ← wifiSdioRead16 bus offsErrDetail0
  let err1 ← wifiSdioRead16 bus offsErrDetail1
  modifyCtx fun c => { c with stat0 := stat0, stat1 := stat1, err0 := err0, err1 := err1 }
  wifiSdioWrite16 offsIrqStat0 0
  wifiSdioWrite16 offsIrqStat1 0
  if cmd.responseType ≠ .none then do
    let resp0 ← readResp bus 0
    let resp1 ← readResp bus 1
    let resp2 ← readResp bus 2
    let resp3 ← readResp bus 3
    modifyCtx fun c => { c with resp := [resp0, resp1, resp2, resp3] }
  else pure ()

/-- The polling loop, and what follows it. -/
def pioTransfer (bus : Bus) (fuel : ℕ) (cmd : WifiSdioCommand) : Proc SdioState Unit := do
  let s ← get
  repeats (pioRound bus fuel cmd) fuel ⟨s.ctx.buffer, s.ctx.size⟩
  pioFinish bus cmd

/-- The transfer of a block command with a buffer. -/
def ndmaTransfer (bus : Bus) (fuel : ℕ) (cmd : WifiSdioCommand) : Proc SdioState Unit := do
  let s ← get
  match cmd.dataDirection with
  | .read => wifiNdmaRead s.ctx.buffer s.ctx.size
  | .write => wifiNdmaWrite bus fuel s.ctx.buffer s.ctx.size

def wifiSdioSendCommand (bus : Bus) (fuel : ℕ) (cmd : WifiSdioCommand) (args : UInt32) :
    Proc SdioState Unit := do
  let s ← get
  if s.ctx.controller = 0 then pure ()
  else do
    -- Safety fallback
    modifyCtx fun c => { c with
      blockSize := if c.blockSize = 0 then 512 else c.blockSize, status := 0 }
    -- Force alignment
    if s.ctx.buffer ≠ 0 ∧ s.ctx.buffer % 4 ≠ 0 then
      modifyCtx fun c => { c with status := c.status ||| 4 }
    else do
      waitNotBusy bus fuel
      writeCommand cmd args
      if cmd.multipleBlock ∧ s.ctx.buffer ≠ 0 then ndmaTransfer bus fuel cmd
      else pioTransfer bus fuel cmd

end DsiWifi
