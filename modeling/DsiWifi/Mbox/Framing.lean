import DsiWifi.Mbox.Read
import DsiWifi.Mbox.Send
import Mathlib.Tactic.IntervalCases

/-!
# Frames to the card

The three encoders write into `mbox_out_buffer`, which is not cleared: HTC messages through a buffer
of their own, WMI commands in place, data packets as they are.  The frame is written to the card as
whole blocks, with an address, a block count and a DMA length that are computed separately.

`framing_round_trip` states that splitting a frame as the receive side does gives back what was
sent, and that the three numbers of the transfer agree.
-/

namespace DsiWifi

/-! ## The encoders -/

def mboxpktHtc : UInt8 := 0
def mboxpktWmi : UInt8 := 1

/-- `memcpy(dst, data, len)` where `data` may be null. -/
def memcpyOpt (m : Mem UInt8) (dst : ℕ) (data : Option (Mem UInt8)) (len : ℕ) : Mem UInt8 :=
  match data with
  | some d => m.write dst (d.read 0 len)
  | none => m

def dataSendPkt (out data : Mem UInt8) (len : ℕ) : Mem UInt8 × List UInt8 :=
  mbox0SendPacket out 2 0 (some data) (len % 2 ^ 16) 0

/-- `htc_send_pkt`, with the 0x80 bytes of `htc_buffer` cleared first. -/
def htcSendPkt (out : Mem UInt8) (htcType : UInt16) (ackType : UInt8) (data : Option (Mem UInt8))
    (len : ℕ) : Mem UInt8 × List UInt8 :=
  let htcBuffer := Mem.write (fun _ => 0) 0 (putle16 htcType.toNat)
  let len := min len (0x80 - 2)
  let htcBuffer := memcpyOpt htcBuffer 2 data len
  mbox0SendPacket out mboxpktHtc ackType (some htcBuffer) (len + 2) 0

/-- `wmi_send_pkt`; the length in the header is written before it is limited to the buffer. -/
def wmiSendPkt (out : Mem UInt8) (wmiIdk wmiType : UInt16) (ackType : UInt8)
    (data : Option (Mem UInt8)) (len : ℕ) : Mem UInt8 × List UInt8 :=
  let out := out.write 0 (List.replicate 8 0)
  let out := out.write 0 ([mboxpktWmi, ackType] ++ putle16 (len + 2) ++ putle16 wmiIdk.toNat ++
    putle16 wmiType.toNat)
  let len := min len (mboxTmpbufSize - 8)
  let out := memcpyOpt out 8 data len
  (out, out.read 0 (roundUp (len + 8) 0x80))

/-! ## The transfer -/

/-- A block write of the SDIO controller: the argument of `CMD53`, the number of words the DMA
moves, and the bytes it moves. -/
structure BlockWrite where
  arg : ℕ
  ndmaTransferCnt : ℕ
  buffer : List UInt8

/-- `tmio.block_size`. -/
def tmioBlockSize : ℕ := 128

/-- The argument of a block write of `blkcnt` blocks: write flag, function 1, block mode, incrementing
address. -/
def cmd53WriteArg (addr blkcnt : ℕ) : ℕ :=
  2 ^ 31 ||| (1 <<< 28) ||| (1 <<< 27) ||| (1 <<< 26) ||| ((addr &&& 0x1FFFF) <<< 9) ||| blkcnt

/-- The block count is a `u8`; the DMA counts words. -/
def wifiCardWriteFunc1Block (addr : ℕ) (buf : List UInt8) : BlockWrite where
  arg := cmd53WriteArg addr (buf.length / tmioBlockSize % 2 ^ 8)
  ndmaTransferCnt := buf.length / 4
  buffer := buf

/-- The address is a `u16`. -/
def mbox0Sendbytes (data : List UInt8) : BlockWrite :=
  wifiCardWriteFunc1Block ((0x4000 - data.length : ℤ) % 2 ^ 16).toNat data

/-- The block count of a `CMD53` argument. -/
def cmd53Count (arg : ℕ) : ℕ := arg % 2 ^ 9

/-- The register address of a `CMD53` argument. -/
def cmd53Addr (arg : ℕ) : ℕ := arg / 2 ^ 9 % 2 ^ 17

/-- The frame goes out as one to twelve whole blocks, and address, count and DMA length agree. -/
structure SentWhole (frame : List UInt8) : Prop where
  buffer : (mbox0Sendbytes frame).buffer = frame
  blocks : 1 ≤ cmd53Count (mbox0Sendbytes frame).arg ∧ cmd53Count (mbox0Sendbytes frame).arg ≤ 12
  length : cmd53Count (mbox0Sendbytes frame).arg * 128 = frame.length
  dma : 4 * (mbox0Sendbytes frame).ndmaTransferCnt = frame.length
  addr : cmd53Addr (mbox0Sendbytes frame).arg + frame.length = 0x4000

theorem roundUp_eq {n : ℕ} (h₀ : 0 < n) (h : n ≤ mboxTmpbufSize) :
    ∃ k, 1 ≤ k ∧ k ≤ 12 ∧ roundUp n 0x80 = 128 * k := by
  have hle : n ≤ 0x600 := h
  refine ⟨(n + 127) / 128, by omega, by omega, ?_⟩
  unfold roundUp
  omega

theorem cmd53WriteArg_fields {k : ℕ} (hk : 1 ≤ k) (hk' : k ≤ 12) :
    cmd53Count (cmd53WriteArg (0x4000 - 128 * k) k) = k ∧
      cmd53Addr (cmd53WriteArg (0x4000 - 128 * k) k) = 0x4000 - 128 * k := by
  interval_cases k <;> decide

theorem sentWhole_of_length {frame : List UInt8} {k : ℕ} (hk : 1 ≤ k) (hk' : k ≤ 12)
    (h : frame.length = 128 * k) : SentWhole frame := by
  have haddr : ((0x4000 - frame.length : ℤ) % 2 ^ 16).toNat = 0x4000 - 128 * k := by omega
  have hblk : frame.length / tmioBlockSize % 2 ^ 8 = k := by
    unfold tmioBlockSize
    omega
  have harg : (mbox0Sendbytes frame).arg = cmd53WriteArg (0x4000 - 128 * k) k := by
    unfold mbox0Sendbytes wifiCardWriteFunc1Block
    rw [haddr, hblk]
  obtain ⟨hcount, hreg⟩ := cmd53WriteArg_fields hk hk'
  constructor
  · rfl
  · rw [harg, hcount]
    exact ⟨hk, hk'⟩
  · rw [harg, hcount, h, Nat.mul_comm]
  · show 4 * (frame.length / 4) = frame.length
    omega
  · rw [harg, hreg, h]
    omega

/-! ## Splitting a frame -/

/-- A frame as the receive side splits it. -/
structure FrameSplit where
  type : UInt8
  ack : UInt8
  body : List UInt8
  deriving DecidableEq

def splitFrame (frame : List UInt8) : FrameSplit :=
  let p := Mem.ofList frame 0
  { type := p 0, ack := p 1, body := p.read 6 (pktLen p) }

/-- The command of a WMI or HTC body, and its payload. -/
def splitCommand (body : List UInt8) : ℕ × List UInt8 :=
  (getle16 (Mem.ofList body 0) 0, body.drop 2)

/-- A buffer with a header and a body behind it. -/
theorem splitFrame_read {m : Mem UInt8} (type ack : UInt8) (n : ℕ) {len : ℕ}
    (hhdr : m.read 0 4 = [type, ack] ++ putle16 n) (hn : n < 2 ^ 16) (hlen : n + 6 ≤ len) :
    splitFrame (m.read 0 len) = ⟨type, ack, m.read 6 n⟩ := by
  have hbytes : ∀ i < len, Mem.ofList (m.read 0 len) 0 i = m i := fun i hi =>
    Mem.ofList_read m 0 hi
  rw [Mem.read_add m 0 2 2] at hhdr
  obtain ⟨htype, hn'⟩ := List.append_inj hhdr rfl
  have h01 : m 0 = type ∧ m 1 = ack := by
    have hread : m.read 0 2 = [m 0, m 1] := rfl
    rw [hread] at htype
    simpa using htype
  have hpkt : pktLen (Mem.ofList (m.read 0 len) 0) = n := by
    apply getle16_of_read _ hn
    rw [← hn']
    exact Mem.read_congr fun i hi => hbytes (2 + i) (by omega)
  unfold splitFrame
  dsimp only
  rw [hpkt, hbytes 0 (by omega), hbytes 1 (by omega), h01.1, h01.2]
  congr 1
  exact Mem.read_congr fun i hi => hbytes (6 + i) (by omega)

theorem splitCommand_putle16 (cmd : UInt16) (payload : List UInt8) :
    splitCommand (putle16 cmd.toNat ++ payload) = (cmd.toNat, payload) := by
  unfold splitCommand
  congr 1
  exact getle16_of_read rfl cmd.toNat_lt

/-- The payload given by a pointer that may be null. -/
def payloadOf (data : Option (Mem UInt8)) (len : ℕ) : List UInt8 :=
  match data with
  | some d => d.read 0 len
  | none => []

theorem length_payloadOf {data : Option (Mem UInt8)} {len : ℕ} (h : data = none → len = 0) :
    (payloadOf data len).length = len := by
  cases data with
  | none => exact (h rfl).symm
  | some d => exact Mem.length_read _ _ _

/-- A copy writes the payload, and nothing else. -/
theorem memcpyOpt_eq_write (m : Mem UInt8) (dst : ℕ) {data : Option (Mem UInt8)} {len : ℕ} :
    memcpyOpt m dst data len = m.write dst (payloadOf data len) := by
  cases data with
  | none =>
    funext i
    exact (Mem.write_apply_of_not m dst [] (by simp; omega)).symm
  | some d => rfl

section Encoders

variable (out : Mem UInt8) {data : Option (Mem UInt8)} {len : ℕ} (ackType : UInt8)

theorem mbox0SendPacket_eq (type : UInt8) (idk : ℕ) :
    (mbox0SendPacket out type ackType data len idk).2 =
      ((out.write 0 ([type, ackType] ++ putle16 len ++ putle16 idk)).write 6
        (payloadOf data (min len (mboxTmpbufSize - 6)))).read 0
          (roundUp (min len (mboxTmpbufSize - 6) + 6) 0x80) := by
  rw [← memcpyOpt_eq_write]
  cases data <;> rfl

theorem mbox0SendPacket_split (data : Option (Mem UInt8)) (len : ℕ) (type : UInt8) (idk : ℕ)
    (hlen : len ≤ mboxTmpbufSize - 6) (hnull : data = none → len = 0) :
    splitFrame (mbox0SendPacket out type ackType data len idk).2 =
        ⟨type, ackType, payloadOf data len⟩ ∧
      SentWhole (mbox0SendPacket out type ackType data len idk).2 := by
  have hle : len ≤ 0x5FA := hlen
  obtain ⟨k, hk, hk', hround⟩ := roundUp_eq (n := len + 6) (by omega)
    (by unfold mboxTmpbufSize; omega)
  rw [mbox0SendPacket_eq, Nat.min_eq_left hlen]
  constructor
  · rw [splitFrame_read type ackType len]
    · congr 1
      have h := Mem.read_write_self
        (out.write 0 ([type, ackType] ++ putle16 len ++ putle16 idk)) 6 (payloadOf data len)
      rwa [length_payloadOf hnull] at h
    · exact read_header_payload out [] ([type, ackType] ++ putle16 len) (putle16 idk) _
    · omega
    · rw [hround]
      unfold roundUp at hround
      omega
  · exact sentWhole_of_length hk hk' (by rw [Mem.length_read, hround])

/-- A body of a command and its payload. -/
theorem read_command (m : Mem UInt8) (a : ℕ) (cmd : UInt16) (payload : List UInt8)
    (hcmd : m.read a 2 = putle16 cmd.toNat) (hpayload : m.read (a + 2) payload.length = payload) :
    m.read a (payload.length + 2) = putle16 cmd.toNat ++ payload := by
  rw [Nat.add_comm, Mem.read_add, hcmd, hpayload]

theorem htcSendPkt_split (htcType : UInt16) (hlen : len ≤ 126) (hnull : data = none → len = 0) :
    splitFrame (htcSendPkt out htcType ackType data len).2 =
        ⟨mboxpktHtc, ackType, putle16 htcType.toNat ++ payloadOf data len⟩ ∧
      SentWhole (htcSendPkt out htcType ackType data len).2 := by
  have hmin : min len (0x80 - 2) = len := Nat.min_eq_left hlen
  unfold htcSendPkt
  dsimp only
  rw [hmin, memcpyOpt_eq_write]
  obtain ⟨hsplit, hwhole⟩ := mbox0SendPacket_split out ackType (some _) (len + 2)
    mboxpktHtc 0 (by unfold mboxTmpbufSize; omega) (by simp)
  refine ⟨hsplit.trans ?_, hwhole⟩
  congr 1
  have hlen' := length_payloadOf hnull
  have hbody := read_command
    ((Mem.write (fun _ => 0) 0 (putle16 htcType.toNat)).write 2 (payloadOf data len)) 0 htcType
    (payloadOf data len)
    (read_header_payload (fun _ => 0) [] (putle16 htcType.toNat) [] _)
    (Mem.read_write_self _ _ _)
  rwa [hlen'] at hbody

theorem wmiSendPkt_split (wmiIdk wmiType : UInt16) (hlen : len ≤ 0x5F8)
    (hnull : data = none → len = 0) :
    splitFrame (wmiSendPkt out wmiIdk wmiType ackType data len).2 =
        ⟨mboxpktWmi, ackType, putle16 wmiType.toNat ++ payloadOf data len⟩ ∧
      SentWhole (wmiSendPkt out wmiIdk wmiType ackType data len).2 := by
  have hmin : min len (mboxTmpbufSize - 8) = len := Nat.min_eq_left hlen
  obtain ⟨k, hk, hk', hround⟩ := roundUp_eq (n := len + 8) (by omega)
    (by unfold mboxTmpbufSize; omega)
  have hlen' := length_payloadOf hnull
  unfold wmiSendPkt
  dsimp only
  rw [hmin, memcpyOpt_eq_write]
  generalize out.write 0 (List.replicate 8 0) = out
  constructor
  · rw [splitFrame_read mboxpktWmi ackType (len + 2)]
    · congr 1
      have hbody := read_command ((out.write 0 ([mboxpktWmi, ackType] ++ putle16 (len + 2) ++
          putle16 wmiIdk.toNat ++ putle16 wmiType.toNat)).write 8 (payloadOf data len)) 6 wmiType
        (payloadOf data len)
        (read_header_payload out ([mboxpktWmi, ackType] ++ putle16 (len + 2) ++
          putle16 wmiIdk.toNat) (putle16 wmiType.toNat) [] _)
        (Mem.read_write_self _ _ _)
      rwa [hlen'] at hbody
    · exact read_header_payload out [] ([mboxpktWmi, ackType] ++ putle16 (len + 2))
        (putle16 wmiIdk.toNat ++ putle16 wmiType.toNat) _
    · omega
    · rw [hround]
      unfold roundUp at hround
      omega
  · exact sentWhole_of_length hk hk' (by rw [Mem.length_read, hround])

end Encoders

/-- **Framing round trip.** Whatever `mbox_out_buffer` held, a frame within the limit of its path
splits into the type, the flag, the command and the payload it was made from, and is sent as whole
blocks. -/
theorem framing_round_trip (out : Mem UInt8) (cmd wmiIdk : UInt16) (ackType : UInt8)
    (data : Option (Mem UInt8)) (len : ℕ) (hnull : data = none → len = 0) :
    (len ≤ 126 →
      let frame := (htcSendPkt out cmd ackType data len).2
      (splitFrame frame).type = mboxpktHtc ∧ (splitFrame frame).ack = ackType ∧
        splitCommand (splitFrame frame).body = (cmd.toNat, payloadOf data len) ∧ SentWhole frame) ∧
    (len ≤ 0x5F8 →
      let frame := (wmiSendPkt out wmiIdk cmd ackType data len).2
      (splitFrame frame).type = mboxpktWmi ∧ (splitFrame frame).ack = ackType ∧
        splitCommand (splitFrame frame).body = (cmd.toNat, payloadOf data len) ∧ SentWhole frame) ∧
    (len ≤ 0x5FA → ∀ pkt : Mem UInt8,
      splitFrame (dataSendPkt out pkt len).2 = ⟨2, 0, pkt.read 0 len⟩ ∧
        SentWhole (dataSendPkt out pkt len).2 ∧
        splitFrame (dataSendPktIdk out pkt len).2 = ⟨2, 0, pkt.read 0 len⟩ ∧
        SentWhole (dataSendPktIdk out pkt len).2) ∧
    (len ≤ 0x5FA → ∀ (type : UInt8) (idk : ℕ),
      splitFrame (mbox0SendPacket out type ackType data len idk).2 =
          ⟨type, ackType, payloadOf data len⟩ ∧
        SentWhole (mbox0SendPacket out type ackType data len idk).2) := by
  refine ⟨fun hlen => ?_, fun hlen => ?_, fun hlen pkt => ?_, fun hlen type idk => ?_⟩
  · obtain ⟨hsplit, hwhole⟩ := htcSendPkt_split out ackType cmd hlen hnull
    dsimp only
    rw [hsplit]
    exact ⟨rfl, rfl, splitCommand_putle16 _ _, hwhole⟩
  · obtain ⟨hsplit, hwhole⟩ := wmiSendPkt_split out ackType wmiIdk cmd hlen hnull
    dsimp only
    rw [hsplit]
    exact ⟨rfl, rfl, splitCommand_putle16 _ _, hwhole⟩
  · have hmod : len % 2 ^ 16 = len := Nat.mod_eq_of_lt (by omega)
    have h := mbox0SendPacket_split out 0 (some pkt) len 2 0 hlen (by simp)
    have h' := mbox0SendPacket_split out 0 (some pkt) len 2 0x2008 hlen (by simp)
    unfold dataSendPkt dataSendPktIdk
    rw [hmod]
    exact ⟨h.1, h.2, h'.1, h'.2⟩
  · exact mbox0SendPacket_split out ackType data len type idk hlen hnull

/-- Five bytes as the payload of a command and as a data packet, over a buffer full of `0xFF`. -/
theorem framing_round_trip_sample :
    let bytes : Mem UInt8 := .ofList [1, 2, 3, 4, 5] 0
    let frame := (wmiSendPkt (fun _ => 0xFF) 0x2008 0x0007 1 (some bytes) 5).2
    splitCommand (splitFrame frame).body = (7, [1, 2, 3, 4, 5]) ∧ SentWhole frame ∧
      splitFrame (dataSendPkt (fun _ => 0xFF) bytes 5).2 = ⟨2, 0, [1, 2, 3, 4, 5]⟩ := by
  intro bytes frame
  obtain ⟨-, hwmi, hdata, -⟩ :=
    framing_round_trip (fun _ => 0xFF) 7 0x2008 1 (some bytes) 5 (fun h => nomatch h)
  obtain ⟨-, -, hcommand, hwhole⟩ := hwmi (by decide)
  exact ⟨hcommand, hwhole, (hdata (by decide) bytes).1⟩

end DsiWifi
