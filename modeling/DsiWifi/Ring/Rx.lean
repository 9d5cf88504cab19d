import DsiWifi.Lib.Run
import DsiWifi.Lib.Slots
import DsiWifi.Mbox.Read
import DsiWifi.Wmi.Driver

/-!
# The receive ring

The ARM7 reads data packets of the card into the six slots of `ip_data_in_buf`, one after the other,
and passes a pointer to the ARM9 in a `PKTDATA` message; the ARM9 copies the packet and marks the
slot as free.  The test of the mark before a slot is used again is compiled out, so nothing keeps
the ARM7 from overtaking the ARM9.

The steps of the two processors interleave freely: the ARM7 takes a slot, fills it, and handles the
packet; the ARM9 copies from the slot at the head of the message queue, and then marks it.
`rx_ring_intact` states that the ring works when a slot is only filled again after its packet was
finished.
-/

namespace DsiWifi.Rx

def dataInBufRings : ℕ := 6

/-- The most bytes the first segment of `pbuf_alloc(PBUF_IP, len, PBUF_POOL)` holds:
`PBUF_POOL_BUFSIZE - PBUF_IP`. -/
def pbufFirstLen : ℕ := 1516 - 84

/-! ## State -/

/-- The packet the ARM7 is receiving, in slot `slot`. -/
structure Receiving where
  slot : ℕ
  pkt : Mem UInt8
  filled : Bool

/-- A `PKTDATA` message.  `pkt_data` is the address of slot `slot` plus 6; `pkt` is the packet for
which it was sent. -/
structure PktData where
  slot : ℕ
  pktLen : ℕ
  pkt : Mem UInt8

/-- `marking` is the slot the ARM9 has copied from and will mark next. -/
structure State where
  mem : Mem UInt8
  ipDataOutBufIdx : ℕ
  receiving : Option Receiving
  fifo : List PktData
  marking : Option ℕ

/-- The ring after `INITBUFS`, at address `base`. -/
def State.init (mem : Mem UInt8) : State where
  mem := mem
  ipDataOutBufIdx := 0
  receiving := none
  fifo := []
  marking := none

/-! ## Steps -/

section Steps

variable (base : ℕ)

def slotAddr (j : ℕ) : ℕ := Slots.addr base dataBufLen j

/-- The length of the packet without its trailer. -/
def bodyLen (p : Mem UInt8) : ℕ := lenPkt (pktLen p) (pktAckLen p)

/-- The payload of a packet. -/
def payload (p : Mem UInt8) : List UInt8 := p.read 6 (bodyLen p)

/-- `full_len`, the number of bytes that are moved to a slot. -/
def fullLen (p : Mem UInt8) : ℕ := roundUp (pktLen p + 6) 0x80

/-- `data_next_buf`.  A packet with an impossible length is given up, but its slot is used up. -/
def take (s : State) (p : Mem UInt8) : State :=
  match s.receiving with
  | none => { s with
      receiving := if 0x2000 < pktLen p then none else some ⟨s.ipDataOutBufIdx, p, false⟩
      ipDataOutBufIdx := (s.ipDataOutBufIdx + 1) % dataInBufRings }
  | some _ => s

/-- The block transfer into the slot. -/
def fill (s : State) : State :=
  match s.receiving with
  | some ⟨slot, pkt, false⟩ => { s with
      mem := s.mem.write (slotAddr base slot) (pkt.read 0 (fullLen pkt))
      receiving := some ⟨slot, pkt, true⟩ }
  | _ => s

/-- `data_handle_pkt`: EAPOL frames stay on the ARM7. -/
def handle (s : State) : State :=
  match s.receiving with
  | some ⟨slot, pkt, true⟩ =>
    if IsEapol (fun i => s.mem (slotAddr base slot + 6 + i)) then { s with receiving := none }
    else { s with
      receiving := none
      fifo := s.fifo ++ [⟨slot, min (bodyLen pkt) (dataBufLen - 6), pkt⟩] }
  | _ => s

/-- The bytes `data_send_to_lwip` copies for a message. -/
def copied (s : State) (q : PktData) : List UInt8 :=
  s.mem.read (slotAddr base q.slot + 6) (min (min q.pktLen (dataBufLen - 6)) pbufFirstLen)

/-- `data_send_to_lwip` up to the copy; the slot is marked also when `pbuf_alloc` fails. -/
def copy (s : State) : State :=
  match s.marking, s.fifo with
  | none, q :: fifo => { s with fifo := fifo, marking := some q.slot }
  | _, _ => s

/-- `*(vu32*)(data - 6) = 0xF00FF00F`. -/
def mark (s : State) : State :=
  match s.marking with
  | some slot => { s with mem := s.mem.write (slotAddr base slot) marker, marking := none }
  | none => s

/-- `data_init_bufs`, which the ARM9 runs for every `READY` message. -/
def dataInitBufs (s : State) : State :=
  { s with mem := Slots.markAll base dataBufLen marker dataInBufRings s.mem }

inductive Act
  | take (p : Mem UInt8)
  | fill
  | handle
  | copy (allocated : Bool)
  | mark
  | initBufs

def step (s : State) : Act → State
  | .take p => take s p
  | .fill => fill base s
  | .handle => handle base s
  | .copy _ => copy s
  | .mark => mark base s
  | .initBufs => dataInitBufs base s

end Steps

/-! ## The driver's calls -/

/-- The steps are those of `wifi_card_mbox0_readpkt`: a data packet is read into the slot that
`take` takes. -/
theorem chooseBuffer_eq_take {B : Buffers} {base : ℕ} (hbase : B.ipDataOutBuf = some base)
    (htot : B.ipDataOutBufTotlen = dataBufLen * dataInBufRings) {pktType : ℕ}
    (ht : IsDataType pktType) {s : State} (hs : s.receiving = none) (p : Mem UInt8) :
    chooseBuffer B pktType s.ipDataOutBufIdx =
      (slotAddr base s.ipDataOutBufIdx, (take s p).ipDataOutBufIdx) := by
  unfold take chooseBuffer
  rw [hs, hbase]
  dsimp only
  rw [if_pos ht]
  unfold dataNextBuf
  rw [htot]
  rfl

/-- The message that `handle` queues is the one of `data_handle_pkt`, called with the packet as it
lies in the slot. -/
theorem handle_eq_dataHandlePkt (base : ℕ) {s : State} {slot : ℕ} {pkt : Mem UInt8}
    (hr : s.receiving = some ⟨slot, pkt, true⟩) (C : Crypto) (w : Wmi) (env : AuthEnv) :
    let view : Mem UInt8 := fun i => s.mem (slotAddr base slot + 6 + i)
    (IsEapol view ∧ (handle base s).fifo = s.fifo) ∨
      ∃ n, (handle base s).fifo = s.fifo ++ [⟨slot, n, pkt⟩] ∧
        dataHandlePkt C w (slotAddr base slot + 6) view (bodyLen pkt) env =
          (w, [.ipc (.pktdata (slotAddr base slot + 6) n)]) := by
  intro view
  unfold handle dataHandlePkt
  rw [hr]
  dsimp only
  by_cases he : IsEapol view
  · rw [if_pos he]
    exact Or.inl ⟨he, rfl⟩
  · rw [if_neg he, if_neg he]
    exact Or.inr ⟨_, rfl, rfl⟩

/-! ## Integrity -/

/-- The packet carries an EAPOL frame, which the ARM7 keeps. -/
def CarriesEapol (p : Mem UInt8) : Prop := IsEapol fun i => p (6 + i)

instance (p : Mem UInt8) : Decidable (CarriesEapol p) := by unfold CarriesEapol; infer_instance

/-- The packet fits the slot, and what is forwarded of it one segment. -/
structure Fits (p : Mem UInt8) : Prop where
  len : pktLen p ≤ dataBufLen - 6
  segment : ¬CarriesEapol p → bodyLen p ≤ pbufFirstLen

instance (p : Mem UInt8) : Decidable (Fits p) :=
  decidable_of_iff (pktLen p ≤ dataBufLen - 6 ∧ (¬CarriesEapol p → bodyLen p ≤ pbufFirstLen))
    ⟨fun h => ⟨h.1, h.2⟩, fun h => ⟨h.len, h.segment⟩⟩

/-- A slot is taken only for a packet that fits, after its last packet was copied and marked. -/
def SlotFree (s : State) : Act → Prop
  | .take p => s.receiving = none → pktLen p ≤ 0x2000 →
      Fits p ∧ (∀ q ∈ s.fifo, q.slot ≠ s.ipDataOutBufIdx) ∧ s.marking ≠ some s.ipDataOutBufIdx
  | _ => True

instance (s : State) (a : Act) : Decidable (SlotFree s a) := by
  cases a <;> unfold SlotFree <;> infer_instance

/-- What the ring is for: a copy has the payload of the packet the message was sent for, and a mark
leaves the slot of the packet that is being received alone. -/
def Intact (base : ℕ) (s : State) : Act → Prop
  | .copy allocated => ∀ q ∈ s.fifo.head?, s.marking = none → allocated = true →
      copied base s q = payload q.pkt
  | .mark => ∀ r ∈ s.receiving, (mark base s).mem.read (slotAddr base r.slot) dataBufLen =
      s.mem.read (slotAddr base r.slot) dataBufLen
  | _ => True

instance (base : ℕ) (s : State) (a : Act) : Decidable (Intact base s a) := by
  cases a <;> unfold Intact <;> infer_instance

/-- The invariant: a queued message finds its packet in its slot, and so does the packet that is
being received once it is there; its slot is neither queued nor about to be marked. -/
structure Inv (base : ℕ) (s : State) : Prop where
  queued : ∀ q ∈ s.fifo, q.pktLen = bodyLen q.pkt ∧ q.pktLen ≤ pbufFirstLen ∧
    s.mem.read (slotAddr base q.slot + 6) q.pktLen = payload q.pkt
  fits : ∀ r, s.receiving = some r → Fits r.pkt
  filled : ∀ r, s.receiving = some r → r.filled = true →
    s.mem.read (slotAddr base r.slot + 6) (fullLen r.pkt - 6) = r.pkt.read 6 (fullLen r.pkt - 6)
  alone : ∀ r, s.receiving = some r → (∀ q ∈ s.fifo, q.slot ≠ r.slot) ∧ s.marking ≠ some r.slot

theorem le_fullLen (p : Mem UInt8) : pktLen p + 6 ≤ fullLen p ∧ 0x80 ≤ fullLen p := by
  unfold fullLen roundUp
  omega

theorem Fits.fullLen_le {p : Mem UInt8} (h : Fits p) : fullLen p ≤ dataBufLen := by
  have h₁ := h.len
  unfold fullLen roundUp
  unfold dataBufLen at h₁ ⊢
  omega

/-- A body that fits a segment is shorter than the packet: a trailer that is too long would make
it wrap around. -/
theorem bodyLen_le_pktLen {p : Mem UInt8} (h : bodyLen p ≤ pbufFirstLen) : bodyLen p ≤ pktLen p := by
  have hack : pktAckLen p ≤ 255 := by
    unfold pktAckLen
    split_ifs
    · omega
    · have := (p 4).toNat_lt
      omega
  unfold bodyLen lenPkt pbufFirstLen at *
  omega

section Steps

variable {base : ℕ} {s : State}

theorem Inv.take (hs : Inv base s) {p : Mem UInt8} (hfree : SlotFree s (.take p)) :
    Inv base (take s p) := by
  unfold Rx.take
  rcases hr : s.receiving with _ | r
  · by_cases hlen : 0x2000 < pktLen p
    · dsimp only
      rw [if_pos hlen]
      exact ⟨hs.queued, nofun, nofun, nofun⟩
    · obtain ⟨hfits, hqueue, hmark⟩ := hfree hr (by omega)
      dsimp only
      rw [if_neg hlen]
      refine ⟨hs.queued, ?_, ?_, ?_⟩
      · rintro r ⟨⟩
        exact hfits
      · rintro r ⟨⟩ hfilled
        exact absurd hfilled (by simp)
      · rintro r ⟨⟩
        exact ⟨hqueue, hmark⟩
  · exact hs

theorem Inv.fill (hs : Inv base s) : Inv base (fill base s) := by
  unfold Rx.fill
  rcases hr : s.receiving with _ | ⟨slot, pkt, _ | _⟩
  · exact hs
  · have hfits : Fits pkt := hs.fits _ hr
    have halone := hs.alone _ hr
    refine ⟨?_, ?_, ?_, ?_⟩
    · intro q hq
      obtain ⟨hqlen, hqseg, hqmem⟩ := hs.queued q hq
      refine ⟨hqlen, hqseg, ?_⟩
      have hn : 6 + q.pktLen ≤ dataBufLen := by
        unfold pbufFirstLen at hqseg
        unfold dataBufLen
        omega
      have hbs : 0 + (pkt.read 0 (fullLen pkt)).length ≤ dataBufLen := by
        rw [Mem.length_read, Nat.zero_add]
        exact hfits.fullLen_le
      exact (Slots.read_write_of_ne s.mem (halone.1 q hq) hn hbs).trans hqmem
    · rintro r ⟨⟩
      exact hfits
    · rintro r ⟨⟩ -
      have hle : 6 + (fullLen pkt - 6) ≤ fullLen pkt := by
        have := (le_fullLen pkt).2
        omega
      exact Mem.read_write_read s.mem pkt (slotAddr base slot) 0 6 (fullLen pkt - 6) _ hle
    · rintro r ⟨⟩
      exact halone
  · exact hs

/-- The ARM7 sees the packet itself in a filled slot. -/
theorem Inv.apply_filled (hs : Inv base s) {slot : ℕ} {pkt : Mem UInt8}
    (hr : s.receiving = some ⟨slot, pkt, true⟩) {i : ℕ} (hi : i < fullLen pkt - 6) :
    s.mem (slotAddr base slot + 6 + i) = pkt (6 + i) :=
  Mem.apply_of_read_eq (hs.filled _ hr rfl) hi

theorem Inv.isEapol_iff (hs : Inv base s) {slot : ℕ} {pkt : Mem UInt8}
    (hr : s.receiving = some ⟨slot, pkt, true⟩) :
    (IsEapol fun i => s.mem (slotAddr base slot + 6 + i)) ↔ CarriesEapol pkt := by
  have hfull := (le_fullLen pkt).2
  have h₁ := hs.apply_filled hr (show 22 < fullLen pkt - 6 by omega)
  have h₂ := hs.apply_filled hr (show 22 + 1 < fullLen pkt - 6 by omega)
  unfold CarriesEapol IsEapol getbe16
  dsimp only
  rw [h₁, h₂]

theorem Inv.handle (hs : Inv base s) : Inv base (handle base s) := by
  unfold Rx.handle
  rcases hr : s.receiving with _ | ⟨slot, pkt, _ | _⟩
  · exact hs
  · exact hs
  · dsimp only
    split_ifs with he
    · exact ⟨hs.queued, nofun, nofun, nofun⟩
    · refine ⟨?_, nofun, nofun, nofun⟩
      intro q hq
      rcases List.mem_append.1 hq with hq | hq
      · exact hs.queued q hq
      · rw [List.mem_singleton.1 hq]
        have hseg : bodyLen pkt ≤ pbufFirstLen :=
          (hs.fits _ hr).segment fun h => he ((hs.isEapol_iff hr).2 h)
        have hlen : min (bodyLen pkt) (dataBufLen - 6) = bodyLen pkt := by
          unfold pbufFirstLen at hseg
          unfold dataBufLen
          omega
        dsimp only
        rw [hlen]
        refine ⟨rfl, hseg, Mem.read_congr fun i hi => hs.apply_filled hr ?_⟩
        have h₁ := bodyLen_le_pktLen hseg
        have h₂ := (le_fullLen pkt).1
        omega

theorem Inv.copy (hs : Inv base s) : Inv base (copy s) := by
  unfold Rx.copy
  rcases hm : s.marking with _ | slot
  · rcases hf : s.fifo with _ | ⟨q, fifo⟩
    · exact hs
    · have hmem : ∀ q' ∈ fifo, q' ∈ s.fifo := fun q' hq' => by
        rw [hf]; exact List.mem_cons_of_mem _ hq'
      refine ⟨fun q' hq' => hs.queued q' (hmem q' hq'), hs.fits, hs.filled, ?_⟩
      intro r hr
      obtain ⟨hqueue, -⟩ := hs.alone r hr
      refine ⟨fun q' hq' => hqueue q' (hmem q' hq'), ?_⟩
      intro hslot
      exact hqueue q (by rw [hf]; exact List.mem_cons_self) (Option.some.inj hslot)
  · exact hs

/-- The payloads in the ring survive what is written to the starts of the slots. -/
theorem Inv.of_marks (hs : Inv base s) {mem : Mem UInt8} {marking : Option ℕ}
    (hmarking : ∀ j, marking = some j → s.marking = some j)
    (hmem : ∀ j n, 6 + n ≤ dataBufLen →
      mem.read (slotAddr base j + 6) n = s.mem.read (slotAddr base j + 6) n) :
    Inv base { s with mem := mem, marking := marking } := by
  refine ⟨?_, hs.fits, ?_, ?_⟩
  · intro q hq
    obtain ⟨hlen, hseg, hq⟩ := hs.queued q hq
    refine ⟨hlen, hseg, ?_⟩
    rw [← hq]
    refine hmem _ _ ?_
    unfold pbufFirstLen at hseg
    unfold dataBufLen
    omega
  · intro r hr hfilled
    rw [← hs.filled r hr hfilled]
    refine hmem _ _ ?_
    have h₁ := (hs.fits r hr).fullLen_le
    have h₂ := (le_fullLen r.pkt).2
    omega
  · intro r hr
    obtain ⟨hqueue, hmark⟩ := hs.alone r hr
    exact ⟨hqueue, fun h => hmark (hmarking _ h)⟩

theorem Inv.mark (hs : Inv base s) : Inv base (mark base s) := by
  unfold Rx.mark
  rcases hm : s.marking with _ | slot
  · exact hs
  · refine hs.of_marks nofun fun j n hn => ?_
    exact Slots.read_write_mark s.mem (by decide) hn

theorem Inv.initBufs (hs : Inv base s) : Inv base (dataInitBufs base s) := by
  refine hs.of_marks (fun _ h => h) fun j n hn => ?_
  exact Slots.read_markAll s.mem (by decide) hn _

theorem inv_step {a : Act} (hs : Inv base s) (hfree : SlotFree s a) : Inv base (step base s a) := by
  cases a with
  | take p => exact hs.take hfree
  | fill => exact hs.fill
  | handle => exact hs.handle
  | copy allocated => exact hs.copy
  | mark => exact hs.mark
  | initBufs => exact hs.initBufs

/-- The invariant gives integrity. -/
theorem intact_of_inv {a : Act} (hs : Inv base s) : Intact base s a := by
  cases a with
  | copy allocated =>
    intro q hq _ _
    obtain ⟨-, hseg, hq⟩ := hs.queued q (List.mem_of_mem_head? hq)
    have hmin : min (min q.pktLen (dataBufLen - 6)) pbufFirstLen = q.pktLen := by
      unfold pbufFirstLen dataBufLen at *
      omega
    unfold copied
    rw [hmin, hq]
  | mark =>
    intro r hr
    unfold Rx.mark
    rcases hm : s.marking with _ | slot
    · rfl
    · have hne : r.slot ≠ slot := by
        rintro rfl
        exact (hs.alone r hr).2 hm
      have hread := @Slots.read_write_of_ne _ base _ s.mem _ _ _ _ _ _ hne
        (show 0 + dataBufLen ≤ dataBufLen by omega) (show 0 + marker.length ≤ dataBufLen by decide)
      rw [Nat.add_zero, Nat.add_zero] at hread
      exact hread
  | take p => trivial
  | fill => trivial
  | handle => trivial
  | initBufs => trivial

end Steps

/-- **Receive ring.** In every interleaving in which a slot is filled only with a packet that fits and
after its last packet was copied and marked, each copy has the payload of the packet its message was
sent for, and no mark changes the slot of a packet that is being received. -/
theorem rx_ring_intact (base : ℕ) (mem : Mem UInt8) (as : List Act)
    (h : Run.Along (step base) SlotFree (.init mem) as) :
    Run.Along (step base) (Intact base) (.init mem) as := by
  have hinit : Inv base (.init mem) :=
    ⟨fun q hq => absurd hq (by simp [State.init]), nofun, nofun, nofun⟩
  exact Run.along_of_inv (fun s a hs hf => inv_step hs hf) (fun s a hs _ => intact_of_inv hs) hinit h

/-! ### Sample runs -/

/-- A data packet with 30 payload bytes `b`. -/
def dataPkt (b : UInt8) : Mem UInt8 := .ofList ([2, 0, 30, 0, 0, 0] ++ List.replicate 30 b) 0

/-- The ARM7 receives a packet without interruption. -/
def receive (p : Mem UInt8) : List Act := [.take p, .fill, .handle]

/-- Two packets are received before the ARM9 copies and marks them, and then a third. -/
theorem rx_ring_intact_sample :
    Run.Along (step 0) (Intact 0) (.init fun _ => 0) (receive (dataPkt 1) ++ receive (dataPkt 2) ++
      [.copy true, .mark, .copy true, .initBufs, .mark] ++ receive (dataPkt 3) ++ [.copy true]) :=
  rx_ring_intact 0 _ _ (by decide +kernel)

/-- Seven packets before the first copy: the seventh is in the slot of the first. -/
theorem rx_ring_overrun_counterexample :
    ¬∀ (base : ℕ) (mem : Mem UInt8) (as : List Act),
      Run.Along (step base) (Intact base) (.init mem) as := by
  intro h
  have hrun := h 0 (fun _ => 0) (([1, 2, 3, 4, 5, 6, 7].map fun b => receive (dataPkt b)).flatten ++
    [.copy true])
  revert hrun
  decide +kernel

end DsiWifi.Rx
