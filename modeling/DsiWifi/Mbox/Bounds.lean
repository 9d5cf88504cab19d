import DsiWifi.Lib.Tlv
import DsiWifi.Mbox.Lookahead

/-!
# What a mailbox call touches

A call of `wifi_card_mbox0_readpkt` moves `full_len` bytes into the buffer it chose, hands a part of
the buffer to a handler and looks at the ack trailer.  All three are computed from the header and
from the packet's fifth byte.  The only check is that the length is at most `0x2000`, which is more
than the buffer holds; `mbox_call_inside_iff` says when a call stays inside.
-/

namespace DsiWifi

/-- What a call does with memory: bytes moved into a buffer, bytes handed to a handler, a byte of
the trailer that is looked at. -/
inductive Touch
  | transfer (buf n : ℕ)
  | handler (ptr len : ℕ)
  | trailer (addr : ℕ)

/-- A packet with `len` bytes behind its header stays inside the buffer at `buf`: the transfer inside
the buffer, the handler's bytes inside the packet, and the trailer inside the transfer. -/
def Touch.Inside (buf len : ℕ) : Touch → Prop
  | .transfer dst n => dst = buf ∧ n ≤ dataBufLen
  | .handler ptr n => buf ≤ ptr ∧ ptr + n ≤ buf + 6 + len
  | .trailer addr => buf ≤ addr ∧ addr < buf + roundUp (len + 6) 0x80

/-- `ack_len`: the fifth byte of the packet, unless there is no ack. -/
def callAckLen (header : ℕ) (pkt : Mem UInt8) : ℕ :=
  if hdrAckPresent header = 0 then 0 else (pkt 4).toNat

/-- The bytes a handler is given, of a packet at `buf`. -/
def handlerTouches (pktType buf len : ℕ) : List Touch :=
  if pktType = 0 ∨ pktType = 1 then [.handler (buf + 8) ((len + 2 ^ 32 - 2) % 2 ^ 32)]
  else if IsDataType pktType then [.handler (buf + 6) len]
  else []

/-- What a call touches for the packet `pkt`.  `held` are the bytes from the buffer on when the
handler has returned; only the handler of `HTC_MSG_READY` changes them. -/
def callTouches (B : Buffers) (idx header : ℕ) (pkt held : Mem UInt8) : List Touch :=
  if 0x2000 < hdrLen header then []
  else
    let buf := (chooseBuffer B (hdrType header) idx).1
    let ackLen := callAckLen header pkt
    let len := lenPkt (hdrLen header) ackLen
    .transfer buf (roundUp (hdrLen header + 6) 0x80) :: handlerTouches (hdrType header) buf len ++
      (parseAck (fun k => held (6 + len + k)) ackLen).2.map fun k => .trailer (buf + 6 + len + k)

/-! ## The calls of the model -/

/-- What an entry of the log touches, of a call with its buffer at `buf`. -/
def Obs.touches (buf ackData : ℕ) : Obs → List Touch
  | .read header _ => [.transfer buf (roundUp (hdrLen header + 6) 0x80)]
  | .htc _ len => [.handler (buf + 8) len]
  | .wmi _ ptr len => [.handler ptr len]
  | .data ptr len => [.handler ptr len]
  | .trailer _ bytes => bytes.map fun kb => .trailer (ackData + kb.1)
  | _ => []

theorem handlePkt_touches (readpkt : Mbox → Mbox) (m : Mbox) (pktType buf len ackData : ℕ) :
    ∃ o : Obs, o.touches buf ackData = handlerTouches pktType buf len ∧
      (handlePkt readpkt m pktType buf len = m.emit o ∨
        handlePkt readpkt m pktType buf len = htcHandlePkt readpkt (m.emit o) 1) := by
  unfold handlePkt handlerTouches
  dsimp only
  by_cases h0 : pktType = 0
  · rw [if_pos h0, if_pos (Or.inl h0)]
    refine ⟨.htc (getle16 m.mem (buf + 6)) _, rfl, ?_⟩
    by_cases hcmd : getle16 m.mem (buf + 6) = 1
    · right
      rw [hcmd]
    · left
      unfold htcHandlePkt
      rw [if_neg hcmd]
  rw [if_neg h0]
  by_cases h1 : pktType = 1
  · rw [if_pos h1, if_pos (Or.inr h1)]
    exact ⟨.wmi _ _ _, rfl, Or.inl rfl⟩
  rw [if_neg h1, if_neg (not_or.2 ⟨h0, h1⟩)]
  by_cases hd : IsDataType pktType
  · rw [if_pos hd, if_pos hd]
    exact ⟨.data _ _, rfl, Or.inl rfl⟩
  · rw [if_neg hd, if_neg hd]
    exact ⟨.unknown, rfl, Or.inl rfl⟩

/-- The fifth byte is always moved, since at least one block of 128 bytes is. -/
theorem receive_ackLen (B : Buffers) (m : Mbox) (p : Mem UInt8) (fifo : List (Mem UInt8)) :
    (if hdrAckPresent (m.header p) = 0 then 0 else ((m.receive B p fifo).mem
      ((chooseBuffer B (hdrType (m.header p)) m.ipDataOutBufIdx).1 + 4)).toNat) =
      callAckLen (m.header p) p := by
  rw [receive_mem B m p fifo (by omega)]
  rfl

/-- A call on a mailbox with the packet `p` at its head, up to the end of the handler. -/
def Mbox.handled (B : Buffers) (fuel : ℕ) (m : Mbox) (p : Mem UInt8) (fifo : List (Mem UInt8)) :
    Mbox :=
  let header := m.header p
  let buf := (chooseBuffer B (hdrType header) m.ipDataOutBufIdx).1
  handlePkt (readpkt B fuel) (m.receive B p fifo) (hdrType header) buf
    (lenPkt (hdrLen header) (callAckLen header p))

/-- A call of the model logs what it touches: the packet it reads, the call `o` of the handler, and,
when the handler has returned, the trailer. -/
theorem readpkt_touches (B : Buffers) (fuel : ℕ) (m : Mbox) {p : Mem UInt8}
    {fifo : List (Mem UInt8)} (hrun : m.stuck = false) (hf : m.fifo = p :: fifo)
    (hlen : hdrLen (m.header p) ≤ 0x2000) (hdone : (m.handled B fuel p fifo).stuck = false) :
    let header := m.header p
    let buf := (chooseBuffer B (hdrType header) m.ipDataOutBufIdx).1
    let ackData := buf + 6 + lenPkt (hdrLen header) (callAckLen header p)
    ∃ (o : Obs) (bytes : List (ℕ × UInt8)),
      (m.handled B fuel p fifo = (m.receive B p fifo).emit o ∨
        m.handled B fuel p fifo =
          htcHandlePkt (readpkt B fuel) ((m.receive B p fifo).emit o) 1) ∧
      (readpkt B (fuel + 1) m).log = (m.handled B fuel p fifo).log ++ [.trailer p bytes] ∧
      callTouches B m.ipDataOutBufIdx header p
          (fun k => (m.handled B fuel p fifo).mem (buf + k)) =
        [.read header p, o, .trailer p bytes].flatMap (Obs.touches buf ackData) := by
  intro header buf ackData
  obtain ⟨o, ho, hcall⟩ := handlePkt_touches (readpkt B fuel) (m.receive B p fifo) (hdrType header)
    buf (lenPkt (hdrLen header) (callAckLen header p)) ackData
  have hread : readpkt B (fuel + 1) m =
      finishPkt (m.handled B fuel p fifo) p ackData (callAckLen header p) := by
    rw [readpkt_of_cons B fuel (by rw [hrun]; decide) hf hlen]
    dsimp only
    rw [receive_ackLen]
    exact if_neg (by rw [← Mbox.handled, hdone]; decide)
  have hview : (fun k => (m.handled B fuel p fifo).mem (ackData + k)) =
      fun k => (m.handled B fuel p fifo).mem
        (buf + (6 + lenPkt (hdrLen header) (callAckLen header p) + k)) := by
    funext k
    show (m.handled B fuel p fifo).mem (buf + 6 + lenPkt _ _ + k) = _
    rw [Nat.add_assoc, Nat.add_assoc, Nat.add_assoc]
  refine ⟨o, (parseAck (fun k => (m.handled B fuel p fifo).mem (ackData + k))
    (callAckLen header p)).2.map fun k => (k, (m.handled B fuel p fifo).mem (ackData + k)), hcall,
    congrArg Mbox.log hread, ?_⟩
  unfold callTouches
  rw [if_neg (Nat.not_lt.2 hlen), List.flatMap_cons, List.flatMap_cons, List.flatMap_cons, List.flatMap_nil,
    ho, List.append_nil, hview]
  dsimp only [Obs.touches]
  rw [List.map_map]
  rfl

/-! ## The trailer -/

/-- A lookahead record at offset `i` of the trailer. -/
def IsLookahead (ack : ℕ → UInt8) (i : ℕ) : Prop := ack i = 2 ∧ (ack (i + 1)).toNat = 6

instance (ack : ℕ → UInt8) (i : ℕ) : Decidable (IsLookahead ack i) := by
  unfold IsLookahead; infer_instance

/-- A lookahead record whose body has both marks. -/
def IsMarked (ack : ℕ → UInt8) (i : ℕ) : Prop :=
  IsLookahead ack i ∧ ack (i + 2) = 0xAA ∧ ack (i + 7) = 0x55

instance (ack : ℕ → UInt8) (i : ℕ) : Decidable (IsMarked ack i) := by
  unfold IsMarked; infer_instance

/-- The records from offset `i` on have their headers in the first `room` bytes, and so has the body
of each lookahead record up to and including the first marked one: the first byte, and if that is the
mark, all six. -/
def RecordsFit (ack : ℕ → UInt8) (ackLen room i : ℕ) : Prop :=
  ∀ j ∈ Tlv.walk ack ackLen i, j + 1 < room ∧
    (IsLookahead ack j → (∀ k ∈ Tlv.walk ack ackLen i, k < j → ¬IsMarked ack k) →
      j + 2 < room ∧ (ack (j + 2) = 0xAA → j + 7 < room))

section Trailer

variable {ack : ℕ → UInt8} {ackLen room i : ℕ}

theorem recordsFit_of_le (h : ackLen ≤ i) : RecordsFit ack ackLen room i := by
  unfold RecordsFit
  rw [Tlv.walk_of_le h]
  exact List.forall_mem_nil _

/-- The records behind a marked one only need room for their headers. -/
theorem recordsFit_of_lt (h : i < ackLen) : RecordsFit ack ackLen room i ↔
    i + 1 < room ∧ (IsLookahead ack i → i + 2 < room ∧ (ack (i + 2) = 0xAA → i + 7 < room)) ∧
      if IsMarked ack i then ∀ j ∈ Tlv.walk ack ackLen (Tlv.next ack i), j + 1 < room
      else RecordsFit ack ackLen room (Tlv.next ack i) := by
  have hnext : i + 2 ≤ Tlv.next ack i := Nat.le_add_right _ _
  have hlater : ∀ j ∈ Tlv.walk ack ackLen (Tlv.next ack i), i < j := by
    intro j hj
    have := (Tlv.lt_of_mem_walk hj).1
    omega
  unfold RecordsFit
  rw [Tlv.walk_of_lt h, List.forall_mem_cons]
  simp only [List.forall_mem_cons]
  rw [and_assoc]
  refine and_congr_right' (and_congr ?_ ?_)
  · -- no record stands before the first
    refine imp_congr_right fun _ => ?_
    have hfirst : (i < i → ¬IsMarked ack i) ∧
        ∀ k ∈ Tlv.walk ack ackLen (Tlv.next ack i), k < i → ¬IsMarked ack k :=
      ⟨fun hi => absurd hi (Nat.lt_irrefl i), fun k hk hki => absurd (hlater k hk) (by omega)⟩
    rw [forall_prop_of_true hfirst]
  · by_cases hmark : IsMarked ack i
    · rw [if_pos hmark]
      refine forall₂_congr fun j hj => ?_
      refine and_iff_left_of_imp fun _ _ hnone => ?_
      exact absurd hmark (hnone.1 (hlater j hj))
    · rw [if_neg hmark]
      refine forall₂_congr fun j hj => and_congr_right' (imp_congr_right fun _ => ?_)
      rw [and_iff_right fun _ => hmark]

/-- Once a lookahead has been found, only the headers of the records are looked at. -/
theorem ackLoop_fits_of_some (v : ℕ) {fuel : ℕ} (hfuel : ackLen - i ≤ fuel) :
    (∀ k ∈ (ackLoop ack ackLen fuel i (some v)).2, k < room) ↔
      ∀ j ∈ Tlv.walk ack ackLen i, j + 1 < room := by
  induction fuel generalizing i with
  | zero =>
    rw [Tlv.walk_of_le (by omega)]
    exact iff_of_true (List.forall_mem_nil _) (List.forall_mem_nil _)
  | succ fuel ih =>
    unfold ackLoop
    by_cases hi : i < ackLen
    · have hrest := ih (i := Tlv.next ack i) (by unfold Tlv.next; omega)
      unfold Tlv.next at hrest
      rw [if_pos hi, Tlv.walk_of_lt hi, List.forall_mem_cons, Tlv.next, ← hrest]
      simp only [reduceCtorEq, and_false, if_false, List.cons_append, List.nil_append,
        List.forall_mem_cons]
      rw [← and_assoc]
      exact and_congr_left' ⟨fun h => h.2, fun h => ⟨by omega, h⟩⟩
    · rw [if_neg hi, Tlv.walk_of_le (by omega)]
      exact iff_of_true (List.forall_mem_nil _) (List.forall_mem_nil _)

/-- The bytes of a lookahead record that are looked at. -/
theorem lookaheadItem_fits : (∀ k ∈ (lookaheadItem ack (i + 2)).2, k < room) ↔
    i + 2 < room ∧ (ack (i + 2) = 0xAA → i + 7 < room) := by
  unfold lookaheadItem
  by_cases hA : ack (i + 2) = 0xAA
  · rw [if_pos hA, forall_prop_of_true hA]
    split_ifs with h5
    · simp only [List.forall_mem_cons, List.not_mem_nil, IsEmpty.forall_iff, implies_true,
        and_true]
      omega
    · simp only [List.forall_mem_cons, List.not_mem_nil, IsEmpty.forall_iff, implies_true,
        and_true]
  · rw [if_neg hA, List.forall_mem_singleton, and_iff_left fun h => absurd h hA]

theorem lookaheadItem_isSome : (lookaheadItem ack (i + 2)).1.isSome ↔
    ack (i + 2) = 0xAA ∧ ack (i + 7) = 0x55 := by
  unfold lookaheadItem
  split_ifs with hA h5
  · exact iff_of_true rfl ⟨hA, h5⟩
  · exact iff_of_false Bool.false_ne_true fun h => h5 h.2
  · exact iff_of_false Bool.false_ne_true fun h => hA h.1

/-- The loop looks at the bytes that `RecordsFit` speaks of. -/
theorem ackLoop_fits {fuel : ℕ} (hfuel : ackLen - i ≤ fuel) :
    (∀ k ∈ (ackLoop ack ackLen fuel i none).2, k < room) ↔ RecordsFit ack ackLen room i := by
  induction fuel generalizing i with
  | zero =>
    exact iff_of_true (List.forall_mem_nil _) (recordsFit_of_le (by omega))
  | succ fuel ih =>
    unfold ackLoop
    by_cases hi : i < ackLen
    · have hnext : ackLen - Tlv.next ack i ≤ fuel := by unfold Tlv.next; omega
      rw [if_pos hi, recordsFit_of_lt hi]
      simp only [and_true, List.cons_append, List.forall_mem_cons, List.forall_mem_append]
      rw [← and_assoc]
      refine and_congr ⟨fun h => h.2, fun h => ⟨by omega, h⟩⟩ ?_
      by_cases hla : ack i = 2 ∧ (ack (i + 1)).toNat = 6
      · rw [if_pos hla, lookaheadItem_fits, forall_prop_of_true (show IsLookahead ack i from hla)]
        refine and_congr_right' ?_
        rcases hitem : (lookaheadItem ack (i + 2)).1 with _ | v
        · have hmark : ¬IsMarked ack i := fun h => by
            have := lookaheadItem_isSome.2 h.2
            rw [hitem] at this
            exact absurd this Bool.false_ne_true
          rw [if_neg hmark]
          exact ih hnext
        · have hmark : IsMarked ack i := ⟨hla, lookaheadItem_isSome.1 (by rw [hitem]; rfl)⟩
          rw [if_pos hmark]
          exact ackLoop_fits_of_some v hnext
      · have hmark : ¬IsMarked ack i := fun h => hla h.1
        rw [if_neg hla, if_neg hmark]
        exact and_congr
          (iff_of_true (List.forall_mem_nil _) fun h => absurd h hla) (ih hnext)
    · rw [if_neg hi]
      exact iff_of_true (List.forall_mem_nil _) (recordsFit_of_le (by omega))

end Trailer

/-! ## A call -/

/-- The headers and packets for which a call stays inside: the packet fits the buffer, the trailer
fits the packet with the command before it, and the records of the trailer lie before the end of
what is received. -/
structure CallFits (header : ℕ) (pkt held : Mem UInt8) : Prop where
  short : hdrLen header ≤ 0x5FA
  ack : callAckLen header pkt ≤ hdrLen header
  command : hdrType header = 0 ∨ hdrType header = 1 →
    callAckLen header pkt + 2 ≤ hdrLen header
  records : RecordsFit (fun k => held (6 + (hdrLen header - callAckLen header pkt) + k))
    (callAckLen header pkt)
    (roundUp (hdrLen header + 6) 0x80 - (6 + (hdrLen header - callAckLen header pkt))) 0

theorem roundUp_le_dataBufLen (len : ℕ) : roundUp (len + 6) 0x80 ≤ dataBufLen ↔ len ≤ 0x5FA := by
  unfold roundUp dataBufLen
  omega

theorem callAckLen_lt (header : ℕ) (pkt : Mem UInt8) : callAckLen header pkt < 256 := by
  unfold callAckLen
  split_ifs
  · decide
  · exact (pkt 4).toNat_lt

/-- A trailer that is not empty is looked at from its first byte. -/
theorem zero_mem_parseAck {ack : ℕ → UInt8} {ackLen : ℕ} (h : 0 < ackLen) :
    0 ∈ (parseAck ack ackLen).2 := by
  obtain ⟨n, rfl⟩ : ∃ n, ackLen = n + 1 := ⟨ackLen - 1, by omega⟩
  unfold parseAck ackLoop
  rw [if_pos h]
  exact List.mem_cons_self

/-- The handler's bytes lie inside the packet, for a trailer that does. -/
theorem handlerTouches_inside {pktType buf len ackLen : ℕ} (hack : ackLen ≤ len)
    (hlen : len ≤ 0x2000) :
    (∀ t ∈ handlerTouches pktType buf (len - ackLen), t.Inside buf len) ↔
      (pktType = 0 ∨ pktType = 1 → ackLen + 2 ≤ len) := by
  unfold handlerTouches
  split_ifs with hcmd hd
  · rw [List.forall_mem_singleton, forall_prop_of_true hcmd]
    unfold Touch.Inside
    omega
  · rw [List.forall_mem_singleton]
    unfold Touch.Inside
    exact iff_of_true (by omega) fun h => absurd h hcmd
  · exact iff_of_true (List.forall_mem_nil _) fun h => absurd h hcmd

/-- **Mailbox bounds.** Whatever the header and the packet, a call transfers no more than the buffer
holds, looks at trailer bytes that were received and hands the handler a part of the packet, exactly
when it discards the packet or the packet fits. -/
theorem mbox_call_inside_iff (B : Buffers) (idx header : ℕ) (pkt held : Mem UInt8) :
    (∀ t ∈ callTouches B idx header pkt held,
        t.Inside (chooseBuffer B (hdrType header) idx).1 (hdrLen header)) ↔
      0x2000 < hdrLen header ∨ CallFits header pkt held := by
  unfold callTouches
  by_cases hbig : 0x2000 < hdrLen header
  · rw [if_pos hbig]
    exact iff_of_true (List.forall_mem_nil _) (Or.inl hbig)
  rw [if_neg hbig, or_iff_right hbig]
  dsimp only
  rw [List.cons_append, List.forall_mem_cons, List.forall_mem_append, List.forall_mem_map]
  have hlt := callAckLen_lt header pkt
  by_cases hack : callAckLen header pkt ≤ hdrLen header
  · have htransfer : ∀ buf, (Touch.transfer buf (roundUp (hdrLen header + 6) 0x80)).Inside buf
        (hdrLen header) ↔ hdrLen header ≤ 0x5FA := fun buf => by
      rw [← roundUp_le_dataBufLen]
      exact and_iff_right rfl
    have hroom := le_roundUp (hdrLen header + 6)
    rw [lenPkt_of_le hack (by omega), htransfer, handlerTouches_inside hack (by omega)]
    constructor
    · rintro ⟨hshort, hcommand, htrailer⟩
      refine ⟨hshort, hack, hcommand, (ackLoop_fits (Nat.le_refl _)).1 fun k hk => ?_⟩
      have h := (htrailer k hk).2
      omega
    · intro h
      refine ⟨h.short, h.command, fun k hk => ?_⟩
      have hk := (ackLoop_fits (Nat.le_refl _)).2 h.records k hk
      exact ⟨by omega, by omega⟩
  · -- the length wraps, and the first byte of the trailer is far behind the packet
    refine iff_of_false (fun h => ?_) fun h => hack h.ack
    have h0 := h.2.2 0 (zero_mem_parseAck (by omega))
    have hwrap : 0xFF00 ≤ lenPkt (hdrLen header) (callAckLen header pkt) := by
      unfold lenPkt
      omega
    unfold Touch.Inside roundUp at h0
    dsimp only at h0
    omega

/-- A WMI packet with a length of 0x5FB: 0x680 bytes are moved into a buffer of 0x600. -/
theorem mbox_call_inside_counterexample :
    ¬∀ (B : Buffers) (idx header : ℕ) (pkt held : Mem UInt8), header < 2 ^ 32 →
      ∀ t ∈ callTouches B idx header pkt held,
        t.Inside (chooseBuffer B (hdrType header) idx).1 (hdrLen header) := by
  intro h
  have htransfer := h sampleBuffers 0 0x05FB0001 (fun _ => 0) (fun _ => 0) (by decide)
    (.transfer 0 0x680) List.mem_cons_self
  exact absurd htransfer.2 (by decide)

end DsiWifi
