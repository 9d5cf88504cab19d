import DsiWifi.Util

/-!
# `wifi_card_mbox0_readpkt`

The card's mailbox is a FIFO of packets.  A packet is its bytes: type, ack flag, length (two bytes),
length of the ack trailer, one byte, and then `len` bytes, the last of which are the trailer.

A call takes its header from the cached lookahead of the trailer before, or from the lookahead
register, which shows the first four bytes of the packet at the head.  The handler of
`HTC_MSG_READY` calls the function again, five times, before the outer call looks at its trailer.

The model keeps a log of what a call looks at.  A call that finds the mailbox empty has nothing to
read; there the model stops (`stuck`).
-/

namespace DsiWifi

/-! ## Headers -/

/-- The fields of a header word. -/
def hdrType (header : ℕ) : ℕ := header % 0x100

def hdrAckPresent (header : ℕ) : ℕ := header / 0x100 % 0x100

def hdrLen (header : ℕ) : ℕ := header / 0x10000

/-- The header word of a packet, as the lookahead register shows it. -/
def pktHeader (p : Mem UInt8) : ℕ := getle32 p 0

def pktLen (p : Mem UInt8) : ℕ := getle16 p 2

/-- The length of the trailer: without an ack flag there is none. -/
def pktAckLen (p : Mem UInt8) : ℕ := if p 1 = 0 then 0 else (p 4).toNat

def IsDataType (pktType : ℕ) : Prop := pktType = 2 ∨ pktType = 3 ∨ pktType = 4 ∨ pktType = 5

instance (pktType : ℕ) : Decidable (IsDataType pktType) := by unfold IsDataType; infer_instance

/-- `u16 len_pkt = len - ack_len`. -/
def lenPkt (len ackLen : ℕ) : ℕ := (len + 2 ^ 16 - ackLen) % 2 ^ 16

/-! ## The ack trailer -/

/-- The bytes the loop looks at in a lookahead item at offset `i`, and the lookahead it finds. -/
def lookaheadItem (ackData : ℕ → UInt8) (i : ℕ) : Option ℕ × List ℕ :=
  if ackData i = 0xAA then
    if ackData (i + 5) = 0x55 then
      (some (getle32 ackData (i + 1)), [i, i + 5, i + 1, i + 2, i + 3, i + 4])
    else (none, [i, i + 5])
  else (none, [i])

/-- The loop over the trailer from offset `i` on: the first valid lookahead, if any, and the offsets
it looks at.  Each round moves `i` by at least two. -/
def ackLoop (ackData : ℕ → UInt8) (ackLen : ℕ) : ℕ → ℕ → Option ℕ → Option ℕ × List ℕ
  | 0, _, lookahead => (lookahead, [])
  | fuel + 1, i, lookahead =>
    if i < ackLen then
      let len := (ackData (i + 1)).toNat
      let item := if ackData i = 2 ∧ len = 6 ∧ lookahead = none then lookaheadItem ackData (i + 2)
        else (lookahead, [])
      let rest := ackLoop ackData ackLen fuel (i + 2 + len) item.1
      (rest.1, i :: (i + 1) :: item.2 ++ rest.2)
    else (lookahead, [])

/-- The trailer of a packet starts at `ackData`. -/
def parseAck (ackData : ℕ → UInt8) (ackLen : ℕ) : Option ℕ × List ℕ :=
  ackLoop ackData ackLen ackLen 0 none

/-! ## The call -/

/-- The buffers of the driver; `ipDataOutBuf` is set by `INITBUFS`. -/
structure Buffers where
  mboxBuffer : ℕ
  ipDataOutBuf : Option ℕ
  ipDataOutBufTotlen : ℕ

/-- What a call does and looks at: the header it uses for a packet, the handler it calls, the bytes
of the trailer with their offsets, and the HTC packets it sends. -/
inductive Obs
  | read (header : ℕ) (pkt : Mem UInt8)
  | htc (pktCmd len : ℕ)
  | wmi (pktCmd pktData len : ℕ)
  | data (pktData len : ℕ)
  | unknown
  | trailer (pkt : Mem UInt8) (bytes : List (ℕ × UInt8))
  | htcSend (htcType : ℕ) (data : List UInt8)

structure Mbox where
  fifo : List (Mem UInt8)
  mem : Mem UInt8
  mboxHasLookahead : Bool
  mboxLookahead : ℕ
  ipDataOutBufIdx : ℕ
  stuck : Bool
  log : List Obs

def Mbox.emit (m : Mbox) (o : Obs) : Mbox :=
  if m.stuck then m else { m with log := m.log ++ [o] }

/-- The polls of the status register, where `rxReady k` is bit 0 of poll `k`: the value of
`timeout` after the loop. -/
def pollLoop (rxReady : ℕ → Bool) : ℕ → ℕ → ℤ
  | 0, _ => -1
  | timeout + 1, k => if rxReady k then timeout else pollLoop rxReady timeout (k + 1)

def dataNextBuf (B : Buffers) (base idx : ℕ) : ℕ × ℕ :=
  (base + 0x600 * idx, (idx + 1) % (B.ipDataOutBufTotlen / 0x600))

/-- The buffer a packet is read into, and the next ring index. -/
def chooseBuffer (B : Buffers) (pktType idx : ℕ) : ℕ × ℕ :=
  match B.ipDataOutBuf with
  | some base => if IsDataType pktType then dataNextBuf B base idx else (B.mboxBuffer, idx)
  | none => (B.mboxBuffer, idx)

/-- The five service requests of the HTC handshake. -/
def wmiHandshakes : List (List UInt8) :=
  [[0, 1, 0, 0, 0, 0], [1, 1, 5, 0, 0, 0], [2, 1, 5, 0, 0, 0], [3, 1, 5, 0, 0, 0],
    [4, 1, 5, 0, 0, 0]]

/-- `htc_handle_pkt`, with the recursive calls of `wifi_card_mbox0_readpkt` as `readpkt`. -/
def htcHandlePkt (readpkt : Mbox → Mbox) (m : Mbox) (pktCmd : ℕ) : Mbox :=
  if pktCmd = 1 then
    let m := wmiHandshakes.foldl (fun m h => readpkt (m.emit (.htcSend 2 h))) m
    m.emit (.htcSend 4 [])
  else m

/-- The handler of a packet that was read to `readBuffer`; the length after the command is a `u32`
difference. -/
def handlePkt (readpkt : Mbox → Mbox) (m : Mbox) (pktType readBuffer len : ℕ) : Mbox :=
  let pktCmd := getle16 m.mem (readBuffer + 6)
  let bodyLen := (len + 2 ^ 32 - 2) % 2 ^ 32
  if pktType = 0 then htcHandlePkt readpkt (m.emit (.htc pktCmd bodyLen)) pktCmd
  else if pktType = 1 then m.emit (.wmi pktCmd (readBuffer + 8) bodyLen)
  else if IsDataType pktType then m.emit (.data (readBuffer + 6) len)
  else m.emit .unknown

/-- The end of a call: the lookahead of the trailer at `ackData` is cached. -/
def finishPkt (m : Mbox) (p : Mem UInt8) (ackData ackLen : ℕ) : Mbox :=
  let view := fun k => m.mem (ackData + k)
  let ack := parseAck view ackLen
  { m with
    mboxHasLookahead := ack.1.isSome
    mboxLookahead := ack.1.getD m.mboxLookahead
    log := m.log ++ [.trailer p (ack.2.map fun k => (k, view k))] }

/-- The header a call uses for the packet `p` at the head. -/
def Mbox.header (m : Mbox) (p : Mem UInt8) : ℕ :=
  if m.mboxHasLookahead then m.mboxLookahead else pktHeader p

/-- The packet `p` at the head is moved to a buffer. -/
def Mbox.receive (B : Buffers) (m : Mbox) (p : Mem UInt8) (fifo : List (Mem UInt8)) : Mbox :=
  let header := m.header p
  let buf := chooseBuffer B (hdrType header) m.ipDataOutBufIdx
  let fullLen := roundUp (hdrLen header + 6) 0x80
  { m with
    fifo := fifo
    mem := m.mem.write buf.1 (p.read 0 fullLen)
    mboxHasLookahead := false
    ipDataOutBufIdx := buf.2
    log := m.log ++ [.read header p] }

/-- `wifi_card_mbox0_readpkt`; `fuel` bounds the depth of the recursion. -/
def readpkt (B : Buffers) : ℕ → Mbox → Mbox
  | 0, m => { m with stuck := true }
  | fuel + 1, m =>
    if m.stuck then m
    else if pollLoop (fun _ => !m.fifo.isEmpty) 100 0 = 0 then m
    else
      match m.fifo with
      | [] => { m with stuck := true }
      | p :: fifo =>
        let header := m.header p
        let readBuffer := (chooseBuffer B (hdrType header) m.ipDataOutBufIdx).1
        if 0x2000 < hdrLen header then
          -- a header that cannot be right: four bytes are thrown away
          { m with
            fifo := (fun i => p (i + 4)) :: fifo
            mboxHasLookahead := false
            ipDataOutBufIdx := (chooseBuffer B (hdrType header) m.ipDataOutBufIdx).2
            log := m.log ++ [.read header p] }
        else
          let m := m.receive B p fifo
          let ackLen := if hdrAckPresent header = 0 then 0 else (m.mem (readBuffer + 4)).toNat
          let len := lenPkt (hdrLen header) ackLen
          let m := handlePkt (readpkt B fuel) m (hdrType header) readBuffer len
          if m.stuck then m else finishPkt m p (readBuffer + 6 + len) ackLen

/-- `n` calls in a row, each with fuel for every packet of the mailbox. -/
def readpkts (B : Buffers) (n : ℕ) (m : Mbox) : Mbox :=
  (fun m => readpkt B m.fifo.length m)^[n] m

end DsiWifi
