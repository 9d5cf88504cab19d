import DsiWifi.Lib.Run
import DsiWifi.Lib.Slots
import DsiWifi.Mbox.Send

/-!
# The transmit ring

The ARM9 copies an outgoing packet to the next of the six slots of `ip_data_buf` and sends the ARM7
a `SENDPKT` message with a pointer; the ARM7 transmits the slot and marks it as free.  As for the
receive ring, nobody waits for the mark.  A third writer is `data_init_bufs`, which marks every slot
whenever the ARM9 handles a `READY` message.

`tx_ring_in_order` states when every packet is still sent once, unmodified and in order.
-/

namespace DsiWifi.Tx

def dataBufRings : ℕ := 6

/-! ## State -/

/-- A `SENDPKT` message for slot `slot`; `data` is what was copied for it. -/
structure SendPkt where
  slot : ℕ
  pktLen : ℕ
  data : List UInt8

/-- `linking` is a packet that is copied but not yet announced, `marking` the slot the ARM7 has
transmitted and will mark next, `frames` what was written to the mailbox, and `posted` what was
copied for the messages sent so far. -/
structure State where
  mem : Mem UInt8
  ipDataBufIdx : ℕ
  linking : Option SendPkt
  fifo : List SendPkt
  marking : Option ℕ
  mboxOutBuffer : Mem UInt8
  frames : List (List UInt8)
  posted : List (List UInt8)

def State.init (mem out : Mem UInt8) : State where
  mem := mem
  ipDataBufIdx := 0
  linking := none
  fifo := []
  marking := none
  mboxOutBuffer := out
  frames := []
  posted := []

/-! ## Steps -/

section Steps

variable (base : ℕ)

def slotAddr (j : ℕ) : ℕ := Slots.addr base dataBufLen j

/-- `data_send_link` up to the copy. -/
def link (s : State) (ipData : List UInt8) : State :=
  match s.linking with
  | none =>
    if ipData = [] then s
    else
      let data := ipData.take dataBufLen
      { s with
        mem := s.mem.write (slotAddr base s.ipDataBufIdx) data
        ipDataBufIdx := (s.ipDataBufIdx + 1) % dataBufRings
        linking := some ⟨s.ipDataBufIdx, data.length, data⟩ }
  | some _ => s

/-- The `SENDPKT` message of `data_send_link`. -/
def post (s : State) : State :=
  match s.linking with
  | some q => { s with linking := none, fifo := s.fifo ++ [q], posted := s.posted ++ [q.data] }
  | none => s

/-- `wifi_card_handleMsg` for `SENDPKT`, up to the mark. -/
def transmit (s : State) : State :=
  match s.marking, s.fifo with
  | none, q :: fifo =>
    let sent := dataSendPktIdk s.mboxOutBuffer (fun i => s.mem (slotAddr base q.slot + i)) q.pktLen
    { s with
      fifo := fifo
      marking := some q.slot
      mboxOutBuffer := sent.1
      frames := s.frames ++ [sent.2] }
  | _, _ => s

/-- `*(vu32*)data = 0xF00FF00F`. -/
def mark (s : State) : State :=
  match s.marking with
  | some slot => { s with mem := s.mem.write (slotAddr base slot) marker, marking := none }
  | none => s

def dataInitBufs (s : State) : State :=
  { s with mem := Slots.markAll base dataBufLen marker dataBufRings s.mem }

/-- `other` is any other packet of the ARM7, which leaves its own bytes in `mbox_out_buffer`. -/
inductive Act
  | link (ipData : List UInt8)
  | post
  | transmit
  | mark
  | initBufs
  | other (out : Mem UInt8)

def step (s : State) : Act → State
  | .link ipData => link base s ipData
  | .post => post s
  | .transmit => transmit base s
  | .mark => mark base s
  | .initBufs => dataInitBufs base s
  | .other out => { s with mboxOutBuffer := out }

end Steps

/-! ## Integrity -/

/-- A slot is taken only for a packet that fits a frame, after its last packet was transmitted and
marked; the slots are initialised only when no packet waits in them. -/
def SlotFree (s : State) : Act → Prop
  | .link ipData => s.linking = none → ipData ≠ [] →
      ipData.length ≤ mboxTmpbufSize - 6 ∧ (∀ q ∈ s.fifo, q.slot ≠ s.ipDataBufIdx) ∧
        s.marking ≠ some s.ipDataBufIdx
  | .initBufs => s.linking.isNone ∧ s.fifo.isEmpty
  | _ => True

instance (s : State) (a : Act) : Decidable (SlotFree s a) := by
  cases a <;> unfold SlotFree <;> infer_instance

/-- Every packet that was posted is in a frame or waits, in the order in which they were posted. -/
def InOrder (s : State) : Prop :=
  s.frames.map frameBody ++ s.fifo.map SendPkt.data = s.posted

/-- The packet is in its slot. -/
structure Stored (base : ℕ) (mem : Mem UInt8) (q : SendPkt) : Prop where
  len : q.pktLen = q.data.length
  short : q.pktLen ≤ mboxTmpbufSize - 6
  mem : mem.read (slotAddr base q.slot) q.pktLen = q.data

structure Inv (base : ℕ) (s : State) : Prop where
  queued : ∀ q ∈ s.fifo, Stored base s.mem q
  linked : ∀ q, s.linking = some q → Stored base s.mem q
  distinct : (s.fifo.map SendPkt.slot).Nodup
  linkedApart : ∀ q, s.linking = some q → ∀ q' ∈ s.fifo, q'.slot ≠ q.slot
  markedApart : ∀ j, s.marking = some j →
    (∀ q ∈ s.fifo, q.slot ≠ j) ∧ ∀ q, s.linking = some q → q.slot ≠ j
  order : InOrder s

section Steps

variable {base : ℕ} {s : State}

/-- A write to another slot leaves the packet. -/
theorem Stored.write {mem : Mem UInt8} {q : SendPkt} (h : Stored base mem q) {j : ℕ}
    {bs : List UInt8} (hne : q.slot ≠ j) (hbs : bs.length ≤ dataBufLen) :
    Stored base (mem.write (slotAddr base j) bs) q := by
  refine ⟨h.len, h.short, ?_⟩
  have hn : 0 + q.pktLen ≤ dataBufLen := by
    have hshort : q.pktLen ≤ 0x5FA := h.short
    unfold dataBufLen
    omega
  have hread := @Slots.read_write_of_ne _ base dataBufLen mem _ _ _ 0 _ bs hne hn (by omega)
  exact hread.trans h.mem

theorem Inv.link (hs : Inv base s) {ipData : List UInt8} (hfree : SlotFree s (.link ipData)) :
    Inv base (link base s ipData) := by
  unfold Tx.link
  rcases hl : s.linking with _ | q
  swap
  · exact hs
  dsimp only
  by_cases he : ipData = []
  · rw [if_pos he]
    exact hs
  rw [if_neg he]
  obtain ⟨hshort, hqueue, hmark⟩ := hfree hl he
  have hle : ipData.length ≤ 0x5FA := hshort
  have htake : ipData.take dataBufLen = ipData := List.take_of_length_le (by
    unfold dataBufLen; omega)
  rw [htake]
  have hbs : ipData.length ≤ dataBufLen := by unfold dataBufLen; omega
  refine ⟨?_, ?_, hs.distinct, ?_, ?_, hs.order⟩
  · exact fun q hq => (hs.queued q hq).write (hqueue q hq) hbs
  · rintro q ⟨⟩
    exact ⟨rfl, hshort, Mem.read_write_self _ _ _⟩
  · rintro q ⟨⟩
    exact hqueue
  · intro j hj
    refine ⟨(hs.markedApart j hj).1, ?_⟩
    rintro q ⟨⟩ rfl
    exact hmark hj

theorem Inv.post (hs : Inv base s) : Inv base (post s) := by
  unfold Tx.post
  rcases hl : s.linking with _ | q
  · exact hs
  have hmem : ∀ q' ∈ s.fifo ++ [q], q' ∈ s.fifo ∨ q' = q := fun q' hq' => by
    simpa using hq'
  refine ⟨?_, nofun, ?_, nofun, ?_, ?_⟩
  · intro q' hq'
    rcases hmem q' hq' with h | rfl
    · exact hs.queued q' h
    · exact hs.linked q' hl
  · have happend := List.nodup_append.2 ⟨hs.distinct, List.nodup_singleton q.slot, fun a ha b hb => by
      obtain ⟨q', hq', rfl⟩ := List.mem_map.1 ha
      rw [List.mem_singleton.1 hb]
      exact hs.linkedApart q hl q' hq'⟩
    simpa using happend
  · intro j hj
    refine ⟨fun q' hq' => ?_, nofun⟩
    rcases hmem q' hq' with h | rfl
    · exact (hs.markedApart j hj).1 q' h
    · exact (hs.markedApart j hj).2 q' hl
  · have horder := hs.order
    unfold InOrder at horder ⊢
    rw [List.map_append, ← List.append_assoc, horder]
    rfl

theorem Inv.transmit (hs : Inv base s) : Inv base (transmit base s) := by
  unfold Tx.transmit
  rcases hm : s.marking with _ | j
  swap
  · exact hs
  rcases hf : s.fifo with _ | ⟨q, fifo⟩
  · exact hs
  have hmem : ∀ q' ∈ fifo, q' ∈ s.fifo := fun q' hq' => by
    rw [hf]
    exact List.mem_cons_of_mem _ hq'
  have hq : q ∈ s.fifo := by
    rw [hf]
    exact List.mem_cons_self
  have hstored := hs.queued q hq
  have hnodup : q.slot ∉ fifo.map SendPkt.slot ∧ (fifo.map SendPkt.slot).Nodup := by
    have hd := hs.distinct
    rw [hf, List.map_cons, List.nodup_cons] at hd
    exact hd
  refine ⟨fun q' hq' => hs.queued q' (hmem q' hq'), hs.linked, hnodup.2,
    fun q' hl q'' hq'' => hs.linkedApart q' hl q'' (hmem q'' hq''), ?_, ?_⟩
  · rintro j ⟨⟩
    refine ⟨fun q' hq' heq => hnodup.1 (by rw [← heq]; exact List.mem_map_of_mem hq'), ?_⟩
    intro q' hl heq
    exact hs.linkedApart q' hl q hq heq.symm
  · have hbody : frameBody (dataSendPktIdk s.mboxOutBuffer
        (fun i => s.mem (slotAddr base q.slot + i)) q.pktLen).2 = q.data := by
      rw [frameBody_dataSendPktIdk _ _ hstored.short, ← hstored.mem]
      exact List.map_congr_left fun i _ => by rw [Nat.zero_add]
    have horder := hs.order
    unfold InOrder at horder ⊢
    rw [hf] at horder
    rw [← horder]
    simp [hbody]

theorem Inv.mark (hs : Inv base s) : Inv base (mark base s) := by
  unfold Tx.mark
  rcases hm : s.marking with _ | j
  · exact hs
  have hapart := hs.markedApart j hm
  have hbs : marker.length ≤ dataBufLen := by decide
  exact ⟨fun q hq => (hs.queued q hq).write (hapart.1 q hq) hbs,
    fun q hl => (hs.linked q hl).write (hapart.2 q hl) hbs, hs.distinct, hs.linkedApart, nofun,
    hs.order⟩

theorem Inv.initBufs (hs : Inv base s) (hfree : SlotFree s .initBufs) :
    Inv base (dataInitBufs base s) := by
  obtain ⟨hl, hf⟩ := hfree
  have hnil : s.fifo = [] := List.isEmpty_iff.1 hf
  have hnone : s.linking = none := Option.isNone_iff_eq_none.1 hl
  refine ⟨fun q hq => ?_, fun q hq => ?_, hs.distinct, hs.linkedApart, hs.markedApart, hs.order⟩
  · change q ∈ s.fifo at hq
    rw [hnil] at hq
    exact absurd hq (by simp)
  · change s.linking = some q at hq
    rw [hnone] at hq
    exact absurd hq (by simp)

theorem inv_step {a : Act} (hs : Inv base s) (hfree : SlotFree s a) : Inv base (step base s a) := by
  cases a with
  | link ipData => exact hs.link hfree
  | post => exact hs.post
  | transmit => exact hs.transmit
  | mark => exact hs.mark
  | initBufs => exact hs.initBufs hfree
  | other out => exact ⟨hs.queued, hs.linked, hs.distinct, hs.linkedApart, hs.markedApart, hs.order⟩

end Steps

/-- **Transmit ring.** In every interleaving in which a slot is taken only for a packet that fits a
frame and after its last packet was transmitted and marked, and the slots are initialised only when
no packet waits, the bodies of the frames are the packets that were posted, once each and in order,
up to those that still wait. -/
theorem tx_ring_in_order (base : ℕ) (mem out : Mem UInt8) (as : List Act)
    (h : Run.Along (step base) SlotFree (.init mem out) as) :
    InOrder (Run.exec (step base) (.init mem out) as) := by
  have hinit : Inv base (.init mem out) :=
    ⟨fun q hq => absurd hq (by simp [State.init]), nofun, by simp [State.init], nofun, nofun, rfl⟩
  exact (Run.inv_exec (fun s a hs hf => inv_step hs hf) hinit h).order

/-! ### Sample runs -/

/-- A packet of eight bytes `b`. -/
def ipPkt (b : UInt8) : List UInt8 := List.replicate 8 b

/-- The ARM9 sends a packet without interruption. -/
def send (b : UInt8) : List Act := [.link (ipPkt b), .post]

/-- Two packets, one of them posted while the other is transmitted. -/
theorem tx_ring_in_order_sample :
    InOrder (Run.exec (step 0) (.init (fun _ => 0) fun _ => 0)
      (send 1 ++ [.link (ipPkt 2), .transmit, .post, .mark, .transmit, .initBufs, .mark])) :=
  tx_ring_in_order 0 _ _ _ (by decide +kernel)

/-- A `READY` message is handled while a packet waits: its first four bytes are replaced by the
mark. -/
theorem tx_ring_overwritten_counterexample :
    ¬∀ (base : ℕ) (mem out : Mem UInt8) (as : List Act),
      InOrder (Run.exec (step base) (.init mem out) as) := by
  intro h
  have hrun := h 0 (fun _ => 0) (fun _ => 0) (send 1 ++ [.initBufs, .transmit])
  revert hrun
  unfold InOrder
  decide +kernel

end DsiWifi.Tx
