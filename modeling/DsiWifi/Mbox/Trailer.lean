import DsiWifi.Mbox.Bounds
import DsiWifi.Mbox.Poll

/-!
# The lookahead of a trailer

The trailer of a packet is a list of records.  `wifi_card_mbox0_readpkt` walks over them and caches
the word of the first lookahead record with both marks.  `AckEnds` is the loop of the source with
its 16-bit index, round by round; it ends for every trailer, with what `parseAck` finds
(`ackEnds_parseAck`).  `trailer_lookahead` states what that is for a trailer of whole records.
-/

namespace DsiWifi

/-! ## The loop -/

/-- The index of the loop, a `u16`, and the cached lookahead. -/
structure AckLocals where
  ackIdx : ℕ
  mboxHasLookahead : Bool
  mboxLookahead : ℕ

/-- A round of the loop. -/
def ackRound (ackData : ℕ → UInt8) (s : AckLocals) : AckLocals :=
  let type := ackData s.ackIdx
  let ackIdx := (s.ackIdx + 1) % 0x10000
  let len := ackData ackIdx
  let ackIdx := (ackIdx + 1) % 0x10000
  -- Lookahead item
  if type = 2 ∧ len = 6 ∧ s.mboxHasLookahead = false ∧ ackData ackIdx = 0xAA ∧
      ackData (ackIdx + 5) = 0x55 then
    ⟨(ackIdx + len.toNat) % 0x10000, true, getle32 ackData (ackIdx + 1)⟩
  else { s with ackIdx := (ackIdx + len.toNat) % 0x10000 }

/-- The loop, begun with `s`, ends with `s'`. -/
inductive AckEnds (ackData : ℕ → UInt8) (ackLen : ℕ) : AckLocals → AckLocals → Prop
  | done {s : AckLocals} (h : ackLen ≤ s.ackIdx) : AckEnds ackData ackLen s s
  | round {s s' : AckLocals} (h : s.ackIdx < ackLen)
      (hrest : AckEnds ackData ackLen (ackRound ackData s) s') : AckEnds ackData ackLen s s'

/-- The lookahead found so far, as the two variables hold it; `w` is the word from before. -/
def AckLocals.of (w i : ℕ) (lookahead : Option ℕ) : AckLocals :=
  ⟨i, lookahead.isSome, lookahead.getD w⟩

/-- The word of a marked lookahead record at offset `i`. -/
def markedWord (ack : ℕ → UInt8) (i : ℕ) : Option ℕ :=
  if IsMarked ack i then some (getle32 ack (i + 3)) else none

section Loop

variable {ack : ℕ → UInt8} {ackLen : ℕ}

/-- A round of the model of the loop: the first word is kept. -/
theorem ackLoop_of_lt {fuel i : ℕ} (hi : i < ackLen) (lookahead : Option ℕ) :
    (ackLoop ack ackLen (fuel + 1) i lookahead).1 =
      (ackLoop ack ackLen fuel (Tlv.next ack i) (lookahead.or (markedWord ack i))).1 := by
  have hitem : (if ack i = 2 ∧ (ack (i + 1)).toNat = 6 ∧ lookahead = none then
      lookaheadItem ack (i + 2) else (lookahead, [])).1 = lookahead.or (markedWord ack i) := by
    unfold markedWord
    cases lookahead with
    | some v => simp
    | none =>
      rw [Option.none_or]
      by_cases hmark : IsMarked ack i
      · rw [if_pos hmark, if_pos ⟨hmark.1.1, hmark.1.2, rfl⟩, lookaheadItem, if_pos hmark.2.1,
          if_pos hmark.2.2]
      · rw [if_neg hmark]
        split_ifs with hla
        · refine Option.not_isSome_iff_eq_none.1 fun h => hmark ⟨⟨hla.1, hla.2.1⟩, ?_⟩
          exact lookaheadItem_isSome.1 h
        · rfl
  rw [ackLoop, if_pos hi, ← hitem]
  rfl

/-- A round of the loop at an index that is far from the end of its type. -/
theorem ackRound_of (w : ℕ) {i : ℕ} (hi : i < 0x100) (lookahead : Option ℕ) :
    ackRound ack (.of w i lookahead) =
      .of w (Tlv.next ack i) (lookahead.or (markedWord ack i)) := by
  have hlen := (ack (i + 1)).toNat_lt
  have h1 : (i + 1) % 0x10000 = i + 1 := by omega
  have h2 : (i + 1 + 1) % 0x10000 = i + 2 := by omega
  have h3 : (i + 2 + (ack (i + 1)).toNat) % 0x10000 = Tlv.next ack i := by
    unfold Tlv.next
    omega
  have hfound : (ack i = 2 ∧ ack (i + 1) = 6 ∧ lookahead.isSome = false ∧ ack (i + 2) = 0xAA ∧
      ack (i + 2 + 5) = 0x55) ↔ lookahead = none ∧ IsMarked ack i := by
    unfold IsMarked IsLookahead
    rw [Option.isSome_eq_false_iff, Option.isNone_iff_eq_none,
      show ack (i + 1) = 6 ↔ (ack (i + 1)).toNat = 6 from UInt8.toNat_inj.symm]
    tauto
  unfold ackRound AckLocals.of
  dsimp only
  rw [h1, h2, h3]
  unfold markedWord
  by_cases hmark : lookahead = none ∧ IsMarked ack i
  · rw [if_pos (hfound.2 hmark), if_pos hmark.2, hmark.1]
    rfl
  · rw [if_neg fun h => hmark (hfound.1 h)]
    cases lookahead with
    | some v => rfl
    | none =>
      rw [if_neg fun h => hmark ⟨rfl, h⟩]
      rfl

/-- The loop ends, with what the model of the loop finds. -/
theorem ackEnds_ackLoop (w : ℕ) (hlen : ackLen < 0x100) {fuel i : ℕ} (hfuel : ackLen - i ≤ fuel)
    (lookahead : Option ℕ) :
    ∃ j, AckEnds ack ackLen (.of w i lookahead)
      (.of w j (ackLoop ack ackLen fuel i lookahead).1) := by
  induction fuel generalizing i lookahead with
  | zero => exact ⟨i, .done (show ackLen ≤ i by omega)⟩
  | succ fuel ih =>
    by_cases hi : i < ackLen
    · have hnext : ackLen - Tlv.next ack i ≤ fuel := by
        unfold Tlv.next
        omega
      obtain ⟨j, hj⟩ := ih hnext (lookahead.or (markedWord ack i))
      refine ⟨j, .round hi ?_⟩
      rw [ackLoop_of_lt hi, ackRound_of w (by omega)]
      exact hj
    · rw [ackLoop, if_neg hi]
      exact ⟨i, .done (show ackLen ≤ i by omega)⟩

/-- **The loop ends.** Whatever the bytes, the loop of the source ends and leaves the lookahead that
`parseAck` finds. -/
theorem ackEnds_parseAck (ack : ℕ → UInt8) (w : ℕ) (hlen : ackLen < 0x100) :
    ∃ j, AckEnds ack ackLen ⟨0, false, w⟩
      ⟨j, (parseAck ack ackLen).1.isSome, (parseAck ack ackLen).1.getD w⟩ :=
  ackEnds_ackLoop w hlen (Nat.le_refl _) none

end Loop

/-! ## Records -/

/-- A lookahead record with both marks: its first byte is `0xAA` and its last `0x55`. -/
def IsLookaheadRecord (r : Tlv.Record) : Prop :=
  r.type = 2 ∧ r.body.length = 6 ∧ r.body.head? = some 0xAA ∧ r.body.getLast? = some 0x55

instance (r : Tlv.Record) : Decidable (IsLookaheadRecord r) := by
  unfold IsLookaheadRecord; infer_instance

/-- The word in bytes 1 to 4 of a record. -/
def recordLookahead (r : Tlv.Record) : ℕ := getle32 (.ofList r.body 0) 1

/-- The first lookahead record with both marks. -/
def firstLookahead (rs : List Tlv.Record) : Option Tlv.Record :=
  rs.find? fun r => decide (IsLookaheadRecord r)

section Records

variable {ack : ℕ → UInt8} {i : ℕ}

theorem isMarked_of_at {r : Tlv.Record} (h : Tlv.At ack i r) :
    IsMarked ack i ↔ IsLookaheadRecord r := by
  unfold IsMarked IsLookahead IsLookaheadRecord
  rw [h.type, h.length, and_assoc]
  refine and_congr_right' (and_congr_right fun hsix => ?_)
  have hbody := h.body
  rw [hsix] at hbody
  rw [← hbody]
  exact and_congr (Option.some_inj.symm.trans Iff.rfl) (Option.some_inj.symm.trans Iff.rfl)

/-- A marked record in memory yields the word of its body. -/
theorem markedWord_of_at {r : Tlv.Record} (h : Tlv.At ack i r) :
    markedWord ack i = if IsLookaheadRecord r then some (recordLookahead r) else none := by
  unfold markedWord
  by_cases hr : IsLookaheadRecord r
  · have hbody := h.body
    rw [hr.2.1] at hbody
    rw [if_pos ((isMarked_of_at h).2 hr), if_pos hr, recordLookahead, ← hbody]
    rfl
  · rw [if_neg fun hm => hr ((isMarked_of_at h).1 hm), if_neg hr]

/-- The loop over whole records finds the first one with both marks. -/
theorem ackLoop_of_holds {rs : List Tlv.Record} (h : Tlv.Holds ack i rs) {ackLen fuel : ℕ}
    (hend : ackLen = i + (Tlv.encode rs).length) (hfuel : ackLen - i ≤ fuel) (lookahead : Option ℕ) :
    (ackLoop ack ackLen fuel i lookahead).1 =
      lookahead.or ((firstLookahead rs).map recordLookahead) := by
  induction rs generalizing i fuel lookahead with
  | nil =>
    have hstop : ¬i < ackLen := by
      rw [hend]
      exact Nat.lt_irrefl i
    have hloop : (ackLoop ack ackLen fuel i lookahead).1 = lookahead := by
      cases fuel with
      | zero => rfl
      | succ fuel => rw [ackLoop, if_neg hstop]
    rw [hloop]
    exact Option.or_none.symm
  | cons r rs ih =>
    obtain ⟨hr, hrs⟩ := Tlv.holds_cons h
    have hlen := Tlv.length_encode_cons r rs
    obtain ⟨fuel, rfl⟩ : ∃ k, fuel = k + 1 := ⟨fuel - 1, by omega⟩
    rw [ackLoop_of_lt (by omega), hr.next_eq, ih hrs (by omega) (by omega), markedWord_of_at hr]
    unfold firstLookahead
    rw [List.find?_cons]
    by_cases hmark : IsLookaheadRecord r
    · rw [if_pos hmark, decide_eq_true hmark, Option.or_assoc]
      rfl
    · rw [if_neg hmark, decide_eq_false hmark, Option.or_none]

theorem parseAck_of_holds {rs : List Tlv.Record} (h : Tlv.Holds ack 0 rs) :
    (parseAck ack (Tlv.encode rs).length).1 = (firstLookahead rs).map recordLookahead :=
  ackLoop_of_holds h (Nat.zero_add _).symm (Nat.le_refl _) none

end Records

/-! ## A call -/

/-- A packet that a call reads with `header`: not longer than a buffer, not `HTC_MSG_READY`, and with
a trailer that consists of the records `rs`. -/
structure CarriesRecords (header : ℕ) (p : Mem UInt8) (rs : List Tlv.Record) : Prop where
  short : hdrLen header ≤ 0x5FA
  notReady : ¬(hdrType header = 0 ∧ getle16 p 6 = 1)
  ack : hdrAckPresent header ≠ 0
  inside : (p 4).toNat ≤ hdrLen header
  length : (Tlv.encode rs).length = (p 4).toNat
  records : Tlv.Holds p (6 + (hdrLen header - (p 4).toNat)) rs

section Call

variable {B : Buffers} {nested : Mbox → Mbox} {sts : ℕ → UInt8} {shown : Mem UInt8} {m : Mbox}
  {header : ℕ} {p : Mem UInt8}

/-- A call that reads a packet of a plausible length other than `HTC_MSG_READY` looks for the trailer
in the bytes of the packet. -/
theorem readpktCall_of_reads
    (hread : (readpktCall B nested sts shown m).reads = some (header, p)) (hrun : m.stuck = false)
    (hlen : hdrLen header ≤ 0x2000) (hready : ¬(hdrType header = 0 ∧ getle16 p 6 = 1)) :
    ∃ (m₁ : Mbox) (buf : ℕ), (∀ k < hdrLen header + 6, m₁.mem (buf + k) = p k) ∧
      (readpktCall B nested sts shown m).mbox =
        finishPkt m₁ p (buf + 6 + lenPkt (hdrLen header) (callAckLen header p))
          (callAckLen header p) := by
  have hpoll := (reads_isSome_iff B nested sts shown m).1 (by rw [hread]; rfl)
  unfold readpktCall at hread ⊢
  rw [if_neg hpoll] at hread ⊢
  generalize m.fifo.headD shown = p' at hread ⊢
  dsimp only at hread ⊢
  obtain ⟨rfl, rfl⟩ : m.header p' = header ∧ p' = p := by
    split_ifs at hread <;> simpa using hread
  rw [if_neg (Nat.not_lt.2 hlen)]
  -- like the fifth byte, the command is always moved
  have hcmd : getle16 (m.receive B p' m.fifo.tail).mem
      ((chooseBuffer B (hdrType (m.header p')) m.ipDataOutBufIdx).1 + 6) = getle16 p' 6 := by
    unfold getle16
    rw [receive_mem B m p' m.fifo.tail (by omega), Nat.add_assoc,
      receive_mem B m p' m.fifo.tail (by omega)]
  rw [receive_ackLen]
  obtain ⟨o, -, -, ho⟩ := handlePkt_of_not_ready nested (m.receive B p' m.fifo.tail)
    (hdrType (m.header p')) (chooseBuffer B (hdrType (m.header p')) m.ipDataOutBufIdx).1
    (lenPkt (hdrLen (m.header p')) (callAckLen (m.header p') p')) (by rw [hcmd]; exact hready)
  rw [ho]
  refine ⟨(m.receive B p' m.fifo.tail).emit o, _, fun k hk => ?_, if_neg ?_⟩
  · rw [emit_mem]
    exact receive_mem B m p' m.fifo.tail (Or.inl hk)
  · rw [emit_stuck]
    exact Bool.eq_false_iff.1 hrun

/-- **The lookahead of a trailer.** Whatever the status register shows, a call that reads a packet
with a trailer of records has a lookahead afterwards exactly when one of the records is a lookahead
record with both marks, and then it is the word of the first such record.  The loop over a trailer
ends, whatever its bytes, with the lookahead of the model. -/
theorem trailer_lookahead (B : Buffers) (nested : Mbox → Mbox) (sts : ℕ → UInt8)
    (shown : Mem UInt8) (m : Mbox) (hrun : m.stuck = false) {header : ℕ} {p : Mem UInt8}
    (hread : (readpktCall B nested sts shown m).reads = some (header, p)) {rs : List Tlv.Record}
    (hp : CarriesRecords header p rs) :
    ((readpktCall B nested sts shown m).mbox.mboxHasLookahead = true ↔
        ∃ r ∈ rs, IsLookaheadRecord r) ∧
      (∀ r ∈ firstLookahead rs,
        (readpktCall B nested sts shown m).mbox.mboxLookahead = recordLookahead r) ∧
      ∀ (ack : ℕ → UInt8) (ackLen : UInt8) (w : ℕ), ∃ j,
        AckEnds ack ackLen.toNat ⟨0, false, w⟩ ⟨j, (parseAck ack ackLen.toNat).1.isSome,
          (parseAck ack ackLen.toNat).1.getD w⟩ := by
  have hshort := hp.short
  have hinside := hp.inside
  have hack : callAckLen header p = (p 4).toNat := if_neg hp.ack
  obtain ⟨m₁, buf, hmem, hmbox⟩ := readpktCall_of_reads hread hrun (by omega) hp.notReady
  rw [hack, lenPkt_of_le hinside (by omega), ← hp.length] at hmbox
  -- the trailer in the buffer is the trailer of the packet
  have hholds : Tlv.Holds (fun k => m₁.mem (buf + 6 + (hdrLen header - (Tlv.encode rs).length) + k))
      0 rs := by
    refine Eq.trans (Mem.read_congr fun k hk => ?_) hp.records
    have hat := hmem (6 + (hdrLen header - (p 4).toNat) + k) (by have := hp.length; omega)
    rw [← hat, hp.length, Nat.zero_add, ← Nat.add_assoc, ← Nat.add_assoc]
  have hparse := parseAck_of_holds hholds
  refine ⟨?_, fun r hr => ?_, fun ack ackLen w => ackEnds_parseAck ack w ackLen.toNat_lt⟩
  · rw [hmbox]
    unfold finishPkt
    dsimp only
    rw [hparse, Option.isSome_map, firstLookahead, List.find?_isSome]
    simp only [decide_eq_true_eq]
  · rw [hmbox]
    unfold finishPkt
    dsimp only
    rw [hparse, Option.mem_def.1 hr]
    rfl

end Call

/-- A lookahead record without its second mark, one with both, and another. -/
def sampleRecords : List Tlv.Record :=
  [⟨2, [0xAA, 1, 2, 3, 4, 0], by decide⟩, ⟨2, [0xAA, 0, 0, 8, 0, 0x55], by decide⟩,
    ⟨2, [0xAA, 5, 6, 7, 8, 0x55], by decide⟩]

/-- A service response with these records. -/
def recordsPkt : Mem UInt8 := htcPkt [3, 0] (Tlv.encode sampleRecords)

theorem trailer_lookahead_sample :
    let m := (readpktCall sampleBuffers id (fun _ => 1) (fun _ => 0)
      (.start (fun _ => 0) [recordsPkt])).mbox
    m.mboxHasLookahead = true ∧ m.mboxLookahead = 0x00080000 := by
  have hp : CarriesRecords (pktHeader recordsPkt) recordsPkt sampleRecords :=
    ⟨by decide, by decide, by decide, by decide, by decide, by unfold Tlv.Holds; decide⟩
  have h := trailer_lookahead sampleBuffers id (fun _ => 1) (fun _ => 0)
    (.start (fun _ => 0) [recordsPkt]) rfl rfl hp
  exact ⟨h.1.2 ⟨_, List.mem_cons_of_mem _ List.mem_cons_self, by decide⟩, h.2.1 _ rfl⟩

end DsiWifi
