import DsiWifi.Mbox.Framing

/-!
# BMI commands

Before its firmware runs, the card takes commands from mailbox 0: a command word, its arguments and
data, byte by byte.  A command is modelled as the accesses to function 1 it makes; what the card
answers is given.
-/

namespace DsiWifi

/-! ## Accesses to function 1 -/

/-- A `CMD52` write or read of a byte, a `CMD53` read of a word, or a block write. -/
inductive Func1Access
  | write8 (addr : ℕ) (val : UInt8)
  | read8 (addr : ℕ)
  | read32 (addr : ℕ)
  | writeBlock (b : BlockWrite)

open Func1Access

def f1HostIntStatus : ℕ := 0x400
def f1RxLookaheadValid : ℕ := 0x405

/-- Mailbox 0, bytewise. -/
def mbox0 : ℕ := 0xFF

def windowData : ℕ := 0x474
def windowWriteAddr : ℕ := 0x478
def windowReadAddr : ℕ := 0x47C

/-- Write from MSB to LSB. -/
def wifiCardWriteFunc1U16 (addr : ℕ) (val : UInt16) : List Func1Access :=
  [write8 (addr + 1) (val >>> 8).toUInt8, write8 addr val.toUInt8]

/-- Write from MSB to LSB. -/
def wifiCardWriteFunc1U32 (addr : ℕ) (val : UInt32) : List Func1Access :=
  wifiCardWriteFunc1U16 (addr + 2) (val >>> 16).toUInt16 ++ wifiCardWriteFunc1U16 addr val.toUInt16

def wifiCardReadFunc1U32 (addr : ℕ) : List Func1Access :=
  [read8 addr, read8 (addr + 1), read8 (addr + 2), read8 (addr + 3)]

def wifiCardWriteInternWord (addr data : UInt32) : List Func1Access :=
  wifiCardWriteFunc1U32 windowData data ++ wifiCardWriteFunc1U32 windowWriteAddr addr

def wifiCardReadInternWordFast (addr : UInt32) : List Func1Access :=
  wifiCardWriteFunc1U32 windowReadAddr addr ++ [read32 windowData]

/-- Four bytes to the mailbox, from LSB to MSB. -/
def wifiCardWriteMbox0U32 (val : UInt32) : List Func1Access :=
  [write8 mbox0 val.toUInt8, write8 mbox0 (val >>> 8).toUInt8, write8 mbox0 (val >>> 16).toUInt8,
    write8 mbox0 (val >>> 24).toUInt8]

/-- The block write of `wifi_card_mbox0_sendbytes` and the look at the interrupt status behind it;
`intval` is what it finds. -/
def wifiCardMbox0Sendbytes (intval : UInt32) (data : List UInt8) : List Func1Access :=
  [writeBlock (mbox0Sendbytes data)] ++ wifiCardReadFunc1U32 f1HostIntStatus ++
    -- tx overflow
    (if intval &&& 0x00010000 ≠ 0 then
      wifiCardReadFunc1U32 f1HostIntStatus ++ [read8 f1RxLookaheadValid]
    else [])

/-! ## Commands -/

def bmiReadMemory : UInt32 := 0x2
def bmiWriteMemory : UInt32 := 0x3
def bmiLzData : UInt32 := 0xE

/-- The accesses, and the bytes of `out` afterwards; `answers` are the bytes the mailbox yields and
`word` what is read through the window. -/
def wifiCardBmiCmdReadMemory (answers : Mem UInt8) (word addr len : UInt32) (out : Mem UInt8) :
    List Func1Access × Mem UInt8 :=
  -- Possibly faster, does the same thing.
  if len = 4 then (wifiCardReadInternWordFast addr, out.write 0 (putle32 word.toNat))
  else
    (wifiCardWriteMbox0U32 bmiReadMemory ++ wifiCardWriteMbox0U32 addr ++
        wifiCardWriteMbox0U32 (len + len % 4) ++ List.replicate len.toNat (read8 mbox0) ++
        -- Data must be u32 aligned
        List.replicate (len % 4).toNat (read8 mbox0),
      out.write 0 (answers.read 0 len.toNat))

/-- `data` is what the pointer points to. -/
def wifiCardBmiCmdWriteMemory (addr : UInt32) (data : Mem UInt8) (len : UInt32) :
    List Func1Access :=
  -- Possibly faster, does the same thing.
  if len = 4 then wifiCardWriteInternWord addr (.ofNat (getle32 data 0))
  else
    wifiCardWriteMbox0U32 bmiWriteMemory ++ wifiCardWriteMbox0U32 addr ++
      wifiCardWriteMbox0U32 (len + len % 4) ++ (data.read 0 len.toNat).map (write8 mbox0) ++
      List.replicate (len % 4).toNat (write8 mbox0 0)

def wifiCardBmiLzData (intval : UInt32) (data : Mem UInt8) (len : UInt32) : List Func1Access :=
  let lenBulk := len - len % 0x80
  wifiCardWriteMbox0U32 bmiLzData ++ wifiCardWriteMbox0U32 (len + len % 4) ++
    wifiCardMbox0Sendbytes intval (data.read 0 lenBulk.toNat) ++
    (data.read lenBulk.toNat (len.toNat - lenBulk.toNat)).map (write8 mbox0) ++
    -- Data must be u32 aligned
    List.replicate (len % 4).toNat (write8 mbox0 0)

/-- The loop of `wifi_card_bmi_write_memory`, with at most `fuel` rounds. -/
def bmiWriteMemoryLoop (addr : UInt32) (data : Mem UInt8) (len : UInt32) :
    ℕ → UInt32 → Option (List Func1Access)
  | 0, _ => none
  | fuel + 1, i =>
    if i < len then
      let fragSize := if i + 0x1F0 > len then len - i else 0x1F0
      (bmiWriteMemoryLoop addr data len fuel (i + 0x1F0)).map
        (wifiCardBmiCmdWriteMemory (addr + i) (fun k => data (i.toNat + k)) fragSize ++ ·)
    else some []

def wifiCardBmiWriteMemory (fuel : ℕ) (addr : UInt32) (data : Mem UInt8) (len : UInt32) :
    Option (List Func1Access) :=
  bmiWriteMemoryLoop addr data len fuel 0

/-! ## The mailbox -/

/-- The bytes an access writes to the mailbox: those of a block write are limited by the block count
of its command. -/
def Func1Access.mailboxWrites : Func1Access → List UInt8
  | write8 addr val => if addr = mbox0 then [val] else []
  | writeBlock b => b.buffer.take (128 * cmd53Count b.arg)
  | _ => []

/-- The number of bytes an access reads from the mailbox. -/
def Func1Access.mailboxReads : Func1Access → ℕ
  | read8 addr => if addr = mbox0 then 1 else 0
  | _ => 0

/-- The bytes written to the mailbox. -/
def mailboxStream (as : List Func1Access) : List UInt8 := as.flatMap mailboxWrites

/-- The number of bytes that go through the mailbox. -/
def mailboxBytes (as : List Func1Access) : ℕ :=
  (mailboxStream as).length + (as.map mailboxReads).sum

@[simp] theorem mailboxStream_append (as bs : List Func1Access) :
    mailboxStream (as ++ bs) = mailboxStream as ++ mailboxStream bs := List.flatMap_append

@[simp] theorem mailboxBytes_append (as bs : List Func1Access) :
    mailboxBytes (as ++ bs) = mailboxBytes as + mailboxBytes bs := by
  unfold mailboxBytes
  rw [mailboxStream_append, List.length_append, List.map_append, List.sum_append]
  omega

theorem mailboxStream_map_write8 (bs : List UInt8) :
    mailboxStream (bs.map (write8 mbox0)) = bs := by
  unfold mailboxStream
  rw [List.flatMap_map]
  exact List.flatMap_singleton' bs

@[simp] theorem mailboxBytes_map_write8 (bs : List UInt8) :
    mailboxBytes (bs.map (write8 mbox0)) = bs.length := by
  unfold mailboxBytes
  rw [mailboxStream_map_write8, List.map_map]
  have hzero : (bs.map (mailboxReads ∘ write8 mbox0)).sum = 0 := by
    induction bs with
    | nil => rfl
    | cons b bs ih => rw [List.map_cons, List.sum_cons, ih]; rfl
  rw [hzero, Nat.add_zero]

@[simp] theorem mailboxBytes_replicate_read8 (n : ℕ) :
    mailboxBytes (List.replicate n (read8 mbox0)) = n := by
  induction n with
  | zero => rfl
  | succ n ih =>
    rw [List.replicate_succ, ← List.singleton_append, mailboxBytes_append, ih, Nat.add_comm]
    rfl

theorem toNat_mod_four (len : UInt32) : (len % 4).toNat = len.toNat % 4 := by
  rw [UInt32.toNat_mod]
  rfl

theorem toNat_shiftRight (val : UInt32) {k : UInt32} {n : ℕ} (hk : k.toNat = n) (hn : n < 32) :
    (val >>> k).toNat = val.toNat / 2 ^ n := by
  rw [UInt32.toNat_shiftRight, hk, Nat.mod_eq_of_lt hn, Nat.shiftRight_eq_div_pow]

theorem toUInt8_shiftRight (val : UInt32) {k : UInt32} {n : ℕ} (hk : k.toNat = n) (hn : n < 32) :
    (val >>> k).toUInt8 = .ofNat (val.toNat / 2 ^ n) := by
  rw [← toNat_shiftRight val hk hn, UInt8.ofNat_uInt32ToNat]

/-- A word goes to the mailbox as its four bytes. -/
theorem wifiCardWriteMbox0U32_eq (val : UInt32) :
    wifiCardWriteMbox0U32 val = (putle32 val.toNat).map (write8 mbox0) := by
  have h1 : (val >>> 8).toUInt8 = .ofNat (val.toNat / 2 ^ 8) :=
    toUInt8_shiftRight val rfl (by decide)
  have h2 : (val >>> 16).toUInt8 = .ofNat (val.toNat / 2 ^ 16) :=
    toUInt8_shiftRight val rfl (by decide)
  have h3 : (val >>> 24).toUInt8 = .ofNat (val.toNat / 2 ^ 16 / 2 ^ 8) := by
    rw [Nat.div_div_eq_div_mul]
    exact toUInt8_shiftRight val rfl (by decide)
  unfold wifiCardWriteMbox0U32
  rw [← UInt8.ofNat_uInt32ToNat val, h1, h2, h3]
  rfl

/-- The word behind `bs`. -/
theorem getle32_ofList (bs cs : List UInt8) (val : UInt32) :
    getle32 (.ofList (bs ++ (putle32 val.toNat ++ cs)) 0) bs.length = val.toNat :=
  getle32_of_read (Mem.read_ofList_append bs (putle32 val.toNat) cs 0) val.toNat_lt

end DsiWifi
