import DsiWifi.Mbox.Read
import Mathlib.Data.List.Chain

/-!
# Lookahead coherence

With a card that reports lookaheads truthfully, a call uses the right header as long as the cached
lookahead, if any, belongs to the packet at the head of the mailbox (`Coheres.lookahead`).  The
calls keep this, provided that a trailer is still in the buffer when it is parsed: the handler of
`HTC_MSG_READY` reads five more packets into the same buffer first, so its packets must come
without a trailer (`readpkts_coherent`).
-/

namespace DsiWifi

/-! ## Packets -/

/-- The trailer a packet carries, from its own bytes. -/
def ownAck (p : Mem UInt8) : ℕ → UInt8 := fun k => p (6 + (pktLen p - pktAckLen p) + k)

/-- The lookahead the packet's trailer reports. -/
def reportedLookahead (p : Mem UInt8) : Option ℕ := (parseAck (ownAck p) (pktAckLen p)).1

/-- A lookahead that is reported is the header of the next packet. -/
def Truthful (fifo : List (Mem UInt8)) : Prop :=
  fifo.IsChain fun p q => ∀ v ∈ reportedLookahead p, v = pktHeader q

instance (fifo : List (Mem UInt8)) : Decidable (Truthful fifo) := by
  unfold Truthful; infer_instance

/-- An `HTC_MSG_READY` packet. -/
def IsHtcReady (p : Mem UInt8) : Prop := p 0 = 0 ∧ getle16 p 6 = 1

instance (p : Mem UInt8) : Decidable (IsHtcReady p) := by unfold IsHtcReady; infer_instance

/-- The trailer lies inside the packet, its records inside the trailer, and an `HTC_MSG_READY`
packet has none. -/
structure TrailerFits (p : Mem UInt8) : Prop where
  inside : pktAckLen p ≤ pktLen p
  records : ∀ k ∈ (parseAck (ownAck p) (pktAckLen p)).2, k < pktAckLen p
  ready : IsHtcReady p → pktAckLen p = 0

instance (p : Mem UInt8) : Decidable (TrailerFits p) :=
  decidable_of_iff (pktAckLen p ≤ pktLen p ∧
      (∀ k ∈ (parseAck (ownAck p) (pktAckLen p)).2, k < pktAckLen p) ∧
      (IsHtcReady p → pktAckLen p = 0))
    ⟨fun h => ⟨h.1, h.2.1, h.2.2⟩, fun h => ⟨h.inside, h.records, h.ready⟩⟩

/-- What the log should say: the header is the packet's own, and the trailer is read from the
packet's own bytes. -/
def Obs.Coherent : Obs → Prop
  | .read header p => header = pktHeader p
  | .trailer p bytes => ∀ kb ∈ bytes, kb.1 < pktAckLen p ∧ kb.2 = ownAck p kb.1
  | _ => True

instance (o : Obs) : Decidable o.Coherent := by
  cases o <;> unfold Obs.Coherent <;> infer_instance

/-! ## Header fields -/

theorem getle16_lt (m : Mem UInt8) (a : ℕ) : getle16 m a < 0x10000 := by
  have h₀ := (m a).toNat_lt
  have h₁ := (m (a + 1)).toNat_lt
  unfold getle16
  omega

theorem hdrLen_pktHeader (p : Mem UInt8) : hdrLen (pktHeader p) = pktLen p := by
  have h := getle16_lt p 0
  unfold hdrLen pktHeader pktLen getle32
  rw [Nat.zero_add]
  omega

theorem hdrType_pktHeader (p : Mem UInt8) : hdrType (pktHeader p) = (p 0).toNat := by
  have h := (p 0).toNat_lt
  unfold hdrType pktHeader getle32 getle16
  omega

theorem hdrAckPresent_pktHeader (p : Mem UInt8) : hdrAckPresent (pktHeader p) = (p 1).toNat := by
  have h₀ := (p 0).toNat_lt
  have h₁ := (p 1).toNat_lt
  unfold hdrAckPresent pktHeader getle32 getle16
  rw [Nat.zero_add]
  omega

theorem hdrAckPresent_eq_zero (p : Mem UInt8) : hdrAckPresent (pktHeader p) = 0 ↔ p 1 = 0 := by
  rw [hdrAckPresent_pktHeader]
  exact UInt8.toNat_inj (b := 0)

theorem lenPkt_of_le {len ackLen : ℕ} (h : ackLen ≤ len) (hlen : len < 2 ^ 16) :
    lenPkt len ackLen = len - ackLen := by
  unfold lenPkt
  omega

theorem le_roundUp (x : ℕ) : x ≤ roundUp x 0x80 := by
  unfold roundUp
  omega

/-! ## The trailer loop -/

theorem lookaheadItem_congr {f g : ℕ → UInt8} {i : ℕ}
    (h : ∀ k ∈ (lookaheadItem g i).2, f k = g k) : lookaheadItem f i = lookaheadItem g i := by
  unfold lookaheadItem at h ⊢
  by_cases hA : g i = 0xAA
  · rw [if_pos hA] at h
    by_cases h5 : g (i + 5) = 0x55
    · rw [if_pos h5] at h
      have hle : getle32 f (i + 1) = getle32 g (i + 1) := by
        unfold getle32 getle16
        rw [h (i + 1) (by simp), h (i + 1 + 1) (by simp), h (i + 1 + 2) (by simp),
          h (i + 1 + 2 + 1) (by simp)]
      rw [h i (by simp), h (i + 5) (by simp), hle]
    · rw [if_neg h5] at h
      rw [h i (by simp), h (i + 5) (by simp)]
      simp only [hA, h5, if_true, if_false]
  · rw [if_neg hA] at h
    rw [h i (by simp), if_neg hA, if_neg hA]

/-- The loop only depends on the bytes it looks at. -/
theorem ackLoop_congr {f g : ℕ → UInt8} {n : ℕ} (fuel i : ℕ) (la : Option ℕ)
    (h : ∀ k ∈ (ackLoop g n fuel i la).2, f k = g k) :
    ackLoop f n fuel i la = ackLoop g n fuel i la := by
  induction fuel generalizing i la with
  | zero => rfl
  | succ fuel ih =>
    unfold ackLoop at h ⊢
    by_cases hi : i < n
    · simp only [hi, if_true] at h ⊢
      have h₀ : f i = g i := h i (by simp)
      have h₁ : f (i + 1) = g (i + 1) := h (i + 1) (by simp)
      rw [h₀, h₁]
      by_cases hitem : g i = 2 ∧ (g (i + 1)).toNat = 6 ∧ la = none
      · simp only [hitem, and_self, if_true] at h ⊢
        rw [lookaheadItem_congr fun k hk => h k (by simp [hk])]
        rw [ih _ _ fun k hk => h k (by simp [hk])]
      · simp only [hitem, if_false] at h ⊢
        rw [ih _ _ fun k hk => h k (by simp [hk])]
    · rw [if_neg hi, if_neg hi]

/-- A view that agrees with the packet inside the trailer is parsed as the packet. -/
theorem parseAck_eq_own {p : Mem UInt8} (hp : TrailerFits p) {view : ℕ → UInt8}
    (h : ∀ k < pktAckLen p, view k = ownAck p k) :
    parseAck view (pktAckLen p) = parseAck (ownAck p) (pktAckLen p) :=
  ackLoop_congr _ _ _ fun k hk => h k (hp.records k hk)

/-! ## A call -/

@[simp] theorem emit_mem (m : Mbox) (o : Obs) : (m.emit o).mem = m.mem := by
  unfold Mbox.emit; split_ifs <;> rfl

@[simp] theorem emit_fifo (m : Mbox) (o : Obs) : (m.emit o).fifo = m.fifo := by
  unfold Mbox.emit; split_ifs <;> rfl

@[simp] theorem emit_stuck (m : Mbox) (o : Obs) : (m.emit o).stuck = m.stuck := by
  unfold Mbox.emit; split_ifs <;> rfl

/-- The packets whose headers were used, in order. -/
def readPackets (log : List Obs) : List (Mem UInt8) :=
  log.filterMap fun o => match o with
    | .read _ p => some p
    | _ => none

/-- The invariant of the calls: `all` is the FIFO at the start. -/
structure Coheres (all : List (Mem UInt8)) (m : Mbox) : Prop where
  lookahead : m.mboxHasLookahead = true → ∀ p fifo, m.fifo = p :: fifo →
    m.mboxLookahead = pktHeader p
  truthful : Truthful m.fifo
  short : ∀ p ∈ m.fifo, pktLen p ≤ 0x5FA
  fits : ∀ p ∈ m.fifo, TrailerFits p
  log : ∀ o ∈ m.log, o.Coherent
  all : readPackets m.log ++ m.fifo = all
  stuck : m.stuck = true → m.fifo = []

theorem readPackets_append_singleton (log : List Obs) (o : Obs) :
    readPackets (log ++ [o]) = readPackets log ++ readPackets [o] := List.filterMap_append

/-- An observation that is not about a packet keeps the invariant. -/
theorem Coheres.emit {all : List (Mem UInt8)} {m : Mbox} (hm : Coheres all m) {o : Obs}
    (ho : o.Coherent) (hread : readPackets [o] = []) : Coheres all (m.emit o) := by
  unfold Mbox.emit
  by_cases hs : m.stuck = true
  · rw [if_pos hs]
    exact hm
  · rw [if_neg hs]
    refine ⟨hm.lookahead, hm.truthful, hm.short, hm.fits, ?_, ?_, hm.stuck⟩
    · intro o' ho'
      rcases List.mem_append.1 ho' with h | h
      · exact hm.log o' h
      · rw [List.mem_singleton.1 h]
        exact ho
    · change readPackets (m.log ++ [o]) ++ m.fifo = all
      rw [readPackets_append_singleton, hread, List.append_nil, hm.all]

theorem Coheres.of_empty {all : List (Mem UInt8)} {m : Mbox} (hm : Coheres all m)
    (hf : m.fifo = []) : Coheres all { m with stuck := true } :=
  ⟨hm.lookahead, hm.truthful, hm.short, hm.fits, hm.log, hm.all, fun _ => hf⟩

/-- The header of a call is that of the packet at the head. -/
theorem Coheres.header {all : List (Mem UInt8)} {m : Mbox} (hm : Coheres all m) {p : Mem UInt8}
    {fifo : List (Mem UInt8)} (hf : m.fifo = p :: fifo) : m.header p = pktHeader p := by
  unfold Mbox.header
  by_cases h : m.mboxHasLookahead = true
  · rw [if_pos h]
    exact hm.lookahead h p fifo hf
  · rw [if_neg h]

theorem Coheres.receive {all : List (Mem UInt8)} {m : Mbox} (hm : Coheres all m) (B : Buffers)
    {p : Mem UInt8} {fifo : List (Mem UInt8)} (hf : m.fifo = p :: fifo) :
    Coheres all (m.receive B p fifo) := by
  have hrun : ¬m.stuck = true := fun h => by simp [hm.stuck h] at hf
  have hmem : ∀ q ∈ fifo, q ∈ m.fifo := fun q hq => by rw [hf]; exact List.mem_cons_of_mem _ hq
  refine ⟨fun h => absurd h (by simp [Mbox.receive]), ?_, fun q hq => hm.short q (hmem q hq),
    fun q hq => hm.fits q (hmem q hq), ?_, ?_, fun h => absurd h hrun⟩
  · have h := hm.truthful
    rw [hf] at h
    exact h.tail
  · intro o ho
    rcases List.mem_append.1 ho with h | h
    · exact hm.log o h
    · rw [List.mem_singleton.1 h]
      exact hm.header hf
  · change readPackets (m.log ++ [.read (m.header p) p]) ++ fifo = all
    rw [readPackets_append_singleton, ← hm.all, hf]
    simp [readPackets]

/-- A call that finds the packet `p`, with a length that can be right, receives and handles it. -/
theorem readpkt_of_cons (B : Buffers) (fuel : ℕ) {m : Mbox} {p : Mem UInt8}
    {fifo : List (Mem UInt8)} (hrun : ¬m.stuck = true) (hf : m.fifo = p :: fifo)
    (hlen : hdrLen (m.header p) ≤ 0x2000) :
    readpkt B (fuel + 1) m =
      let header := m.header p
      let readBuffer := (chooseBuffer B (hdrType header) m.ipDataOutBufIdx).1
      let received := m.receive B p fifo
      let ackLen := if hdrAckPresent header = 0 then 0
        else (received.mem (readBuffer + 4)).toNat
      let len := lenPkt (hdrLen header) ackLen
      let handled := handlePkt (readpkt B fuel) received (hdrType header) readBuffer len
      if handled.stuck then handled else finishPkt handled p (readBuffer + 6 + len) ackLen := by
  conv_lhs => unfold readpkt
  rw [if_neg hrun, hf, if_neg (by simp [pollLoop])]
  exact if_neg (Nat.not_lt.2 hlen)

/-- What the buffer holds after a packet was received. -/
theorem receive_mem (B : Buffers) (m : Mbox) (p : Mem UInt8) (fifo : List (Mem UInt8)) {k : ℕ}
    (hk : k < hdrLen (m.header p) + 6 ∨ k < 0x80) :
    (m.receive B p fifo).mem ((chooseBuffer B (hdrType (m.header p)) m.ipDataOutBufIdx).1 + k) =
      p k := by
  have hlt : k < roundUp (hdrLen (m.header p) + 6) 0x80 := by
    have := le_roundUp (hdrLen (m.header p) + 6)
    unfold roundUp at this ⊢
    omega
  unfold Mbox.receive
  dsimp only
  rw [Mem.write_apply_of_lt _ _ _ (by simpa using hlt), Mem.getElem_read, Nat.zero_add]

/-- The handlers other than that of `HTC_MSG_READY` leave everything but the log. -/
theorem handlePkt_of_not_ready (readpkt : Mbox → Mbox) (m : Mbox) (pktType readBuffer len : ℕ)
    (h : ¬(pktType = 0 ∧ getle16 m.mem (readBuffer + 6) = 1)) :
    ∃ o : Obs, o.Coherent ∧ readPackets [o] = [] ∧
      handlePkt readpkt m pktType readBuffer len = m.emit o := by
  unfold handlePkt
  dsimp only
  split_ifs with h0 h1 hd
  · unfold htcHandlePkt
    rw [if_neg fun hc => h ⟨h0, hc⟩]
    exact ⟨.htc _ _, trivial, rfl, rfl⟩
  · exact ⟨.wmi _ _ _, trivial, rfl, rfl⟩
  · exact ⟨.data _ _, trivial, rfl, rfl⟩
  · exact ⟨.unknown, trivial, rfl, rfl⟩

/-- The invariant, with at most `n` packets left. -/
def CoheresUpTo (all : List (Mem UInt8)) (n : ℕ) (m : Mbox) : Prop :=
  Coheres all m ∧ m.fifo.length ≤ n

theorem CoheresUpTo.emit {all : List (Mem UInt8)} {n : ℕ} {m : Mbox} (hm : CoheresUpTo all n m)
    {o : Obs} (ho : o.Coherent) (hread : readPackets [o] = []) : CoheresUpTo all n (m.emit o) :=
  ⟨hm.1.emit ho hread, by rw [emit_fifo]; exact hm.2⟩

/-- The handler of `HTC_MSG_READY` keeps what the nested calls keep. -/
theorem coheres_handlePkt_ready {all : List (Mem UInt8)} {n : ℕ} {readpkt : Mbox → Mbox}
    (hread : ∀ m, CoheresUpTo all n m → CoheresUpTo all n (readpkt m)) {m : Mbox}
    (hm : CoheresUpTo all n m) (readBuffer len : ℕ) (h : getle16 m.mem (readBuffer + 6) = 1) :
    CoheresUpTo all n (handlePkt readpkt m 0 readBuffer len) := by
  have hfold : ∀ (hs : List (List UInt8)) (m : Mbox), CoheresUpTo all n m →
      CoheresUpTo all n (hs.foldl (fun m h => readpkt (m.emit (.htcSend 2 h))) m) := by
    intro hs
    induction hs with
    | nil => exact fun m hm => hm
    | cons h hs ih =>
      intro m hm
      have hsend : CoheresUpTo all n (m.emit (.htcSend 2 h)) := hm.emit trivial rfl
      exact ih _ (hread _ hsend)
  unfold handlePkt
  dsimp only
  rw [if_pos rfl, h]
  unfold htcHandlePkt
  rw [if_pos rfl]
  have hstart : ∀ k, CoheresUpTo all n (m.emit (.htc 1 k)) := fun k => hm.emit trivial rfl
  exact CoheresUpTo.emit (hfold _ _ (hstart _)) (o := .htcSend 4 []) trivial rfl

theorem Coheres.finish {all : List (Mem UInt8)} {m : Mbox} (hm : Coheres all m) {p : Mem UInt8}
    {ackData ackLen : ℕ} (hobs : (Obs.trailer p ((parseAck (fun k => m.mem (ackData + k)) ackLen).2.map
      fun k => (k, m.mem (ackData + k)))).Coherent)
    (hnext : ∀ v ∈ (parseAck (fun k => m.mem (ackData + k)) ackLen).1, ∀ q fifo,
      m.fifo = q :: fifo → v = pktHeader q) :
    Coheres all (finishPkt m p ackData ackLen) := by
  refine ⟨?_, hm.truthful, hm.short, hm.fits, ?_, ?_, hm.stuck⟩
  · intro hhas q fifo hf
    obtain ⟨v, hv⟩ := Option.isSome_iff_exists.1 hhas
    change (parseAck (fun k => m.mem (ackData + k)) ackLen).1.getD m.mboxLookahead = pktHeader q
    rw [hv]
    exact hnext v hv q fifo hf
  · intro o ho
    rcases List.mem_append.1 ho with h | h
    · exact hm.log o h
    · rw [List.mem_singleton.1 h]
      exact hobs
  · change readPackets (m.log ++ [.trailer p _]) ++ m.fifo = all
    rw [readPackets_append_singleton]
    exact (congrArg (· ++ m.fifo) (List.append_nil _)).trans hm.all

/-- The end of a call whose trailer is still in the buffer. -/
theorem Coheres.finish_own {all : List (Mem UInt8)} {m : Mbox} (hm : Coheres all m)
    {p : Mem UInt8} {fifo : List (Mem UInt8)} (hp : TrailerFits p) (hf : m.fifo = fifo)
    (htruth : Truthful (p :: fifo)) {ackData : ℕ}
    (hview : ∀ k < pktAckLen p, m.mem (ackData + k) = ownAck p k) :
    Coheres all (finishPkt m p ackData (pktAckLen p)) := by
  have hparse := parseAck_eq_own hp hview
  refine hm.finish ?_ ?_
  · rw [hparse]
    intro kb hkb
    obtain ⟨k, hk, rfl⟩ := List.mem_map.1 hkb
    have hlt := hp.records k hk
    exact ⟨hlt, hview k hlt⟩
  · rw [hparse]
    intro v hv q rest hq
    rw [hf] at hq
    subst hq
    exact (List.isChain_cons_cons.1 htruth).1 v hv

/-- The end of a call without a trailer. -/
theorem Coheres.finish_empty {all : List (Mem UInt8)} {m : Mbox} (hm : Coheres all m)
    (p : Mem UInt8) (ackData : ℕ) : Coheres all (finishPkt m p ackData 0) := by
  refine hm.finish ?_ ?_
  · intro kb hkb
    simp [parseAck, ackLoop] at hkb
  · intro v hv
    simp [parseAck, ackLoop] at hv

/-- The part of a call after the packet `p` has been received at `buf`. -/
theorem coheres_handled {all : List (Mem UInt8)} {n : ℕ} {readpkt : Mbox → Mbox}
    (hread : ∀ m, CoheresUpTo all n m → CoheresUpTo all n (readpkt m)) {m : Mbox}
    (hm : CoheresUpTo all n m) {p : Mem UInt8} {fifo : List (Mem UInt8)} (hf : m.fifo = fifo)
    (hshort : pktLen p ≤ 0x5FA) (hfits : TrailerFits p) (htruth : Truthful (p :: fifo)) {buf : ℕ}
    (hbuf : ∀ k, k < pktLen p + 6 ∨ k < 0x80 → m.mem (buf + k) = p k) :
    let ackLen := if hdrAckPresent (pktHeader p) = 0 then 0 else (m.mem (buf + 4)).toNat
    let len := lenPkt (pktLen p) ackLen
    let m' := handlePkt readpkt m (hdrType (pktHeader p)) buf len
    CoheresUpTo all n (if m'.stuck then m' else finishPkt m' p (buf + 6 + len) ackLen) := by
  have hack : (if hdrAckPresent (pktHeader p) = 0 then 0 else (m.mem (buf + 4)).toNat) =
      pktAckLen p := by
    rw [hbuf 4 (by omega)]
    unfold pktAckLen
    simp only [hdrAckPresent_eq_zero]
  have hinside := hfits.inside
  have hlen : lenPkt (pktLen p) (pktAckLen p) = pktLen p - pktAckLen p :=
    lenPkt_of_le hinside (by omega)
  have hcmd : getle16 m.mem (buf + 6) = getle16 p 6 := by
    unfold getle16
    rw [hbuf 6 (by omega), Nat.add_assoc, hbuf 7 (by omega)]
  have htype : hdrType (pktHeader p) = 0 ↔ p 0 = 0 := by
    rw [hdrType_pktHeader]
    exact UInt8.toNat_inj (b := 0)
  intro ackLen len m'
  have hackLen : ackLen = pktAckLen p := hack
  have hlenPkt : len = pktLen p - pktAckLen p := by rw [← hlen, ← hackLen]
  by_cases hready : IsHtcReady p
  · have hm' : CoheresUpTo all n m' := by
      have h := coheres_handlePkt_ready hread hm buf len (by rw [hcmd]; exact hready.2)
      rwa [← htype.2 hready.1] at h
    split_ifs
    · exact hm'
    · rw [hackLen, hfits.ready hready]
      exact ⟨hm'.1.finish_empty p _, hm'.2⟩
  · obtain ⟨o, ho, hoRead, he⟩ := handlePkt_of_not_ready readpkt m (hdrType (pktHeader p)) buf len
      (by rw [htype, hcmd]; exact hready)
    have hm' : CoheresUpTo all n m' := by
      change CoheresUpTo all n (handlePkt readpkt m (hdrType (pktHeader p)) buf len)
      rw [he]
      exact hm.emit ho hoRead
    have hmem : m'.mem = m.mem := (congrArg Mbox.mem he).trans (emit_mem m o)
    have hfifo : m'.fifo = fifo := (congrArg Mbox.fifo he).trans ((emit_fifo m o).trans hf)
    split_ifs
    · exact hm'
    · rw [hackLen]
      refine ⟨hm'.1.finish_own hfits hfifo htruth fun k hk => ?_, hm'.2⟩
      rw [hmem, hlenPkt, Nat.add_assoc, Nat.add_assoc, hbuf _ (by omega)]
      unfold ownAck
      rw [Nat.add_assoc]

/-- **One call.** A call keeps the invariant, with all the calls nested in it, and takes a packet
from a mailbox that has one. -/
theorem coheres_readpkt (B : Buffers) {all : List (Mem UInt8)} (fuel : ℕ) :
    ∀ m, CoheresUpTo all fuel m → CoheresUpTo all (m.fifo.length - 1) (readpkt B fuel m) := by
  induction fuel with
  | zero =>
    intro m hm
    have hf : m.fifo = [] := List.length_eq_zero_iff.1 (Nat.le_zero.1 hm.2)
    have hstuck := hm.1.of_empty hf
    exact ⟨hstuck, (congrArg List.length hf).trans_le (Nat.zero_le _)⟩
  | succ fuel ih =>
    intro m ⟨hm, hlen⟩
    rcases hf : m.fifo with _ | ⟨p, fifo⟩
    · have hstuck := hm.of_empty hf
      unfold readpkt
      rw [hf] at hstuck ⊢
      split_ifs
      · exact ⟨hm, by rw [hf]; exact Nat.zero_le _⟩
      · exact ⟨hm, by rw [hf]; exact Nat.zero_le _⟩
      · exact ⟨hstuck, Nat.zero_le _⟩
    · have hrun : ¬m.stuck = true := fun h => by simp [hm.stuck h] at hf
      have hmem : p ∈ m.fifo := by rw [hf]; exact List.mem_cons_self
      have hshort := hm.short p hmem
      have hfits := hm.fits p hmem
      have htruth : Truthful (p :: fifo) := by rw [← hf]; exact hm.truthful
      have hrec : CoheresUpTo all fifo.length (m.receive B p fifo) :=
        ⟨hm.receive B hf, Nat.le_refl _⟩
      have hhead := hm.header hf
      have hbuf : ∀ k, k < pktLen p + 6 ∨ k < 0x80 → (m.receive B p fifo).mem
          ((chooseBuffer B (hdrType (pktHeader p)) m.ipDataOutBufIdx).1 + k) = p k := by
        intro k hk
        have := receive_mem B m p fifo (k := k) (by rwa [hhead, hdrLen_pktHeader])
        rwa [hhead] at this
      have hnested : ∀ m, CoheresUpTo all fifo.length m →
          CoheresUpTo all fifo.length (readpkt B fuel m) := by
        intro m' ⟨hm', hlen'⟩
        have hle : fifo.length ≤ fuel := by rw [hf, List.length_cons] at hlen; omega
        have h := ih m' ⟨hm', by omega⟩
        exact ⟨h.1, by have := h.2; omega⟩
      rw [readpkt_of_cons B fuel hrun hf (by rw [hhead, hdrLen_pktHeader]; omega)]
      dsimp only
      rw [hhead, hdrLen_pktHeader]
      exact coheres_handled hnested hrec rfl hshort hfits htruth hbuf

theorem coheres_readpkts (B : Buffers) {all : List (Mem UInt8)} (n : ℕ) {m : Mbox}
    (hm : Coheres all m) : CoheresUpTo all (m.fifo.length - n) (readpkts B n m) := by
  induction n generalizing m with
  | zero => exact ⟨hm, Nat.le_refl _⟩
  | succ n ih =>
    have hcall := coheres_readpkt B m.fifo.length m ⟨hm, Nat.le_refl _⟩
    have hrest := ih hcall.1
    unfold readpkts at hrest ⊢
    rw [Function.iterate_succ_apply]
    exact ⟨hrest.1, by have h₁ := hrest.2; have h₂ := hcall.2; omega⟩

/-- A mailbox with the packets `fifo`, before the first call. -/
def Mbox.start (mem : Mem UInt8) (fifo : List (Mem UInt8)) : Mbox where
  fifo := fifo
  mem := mem
  mboxHasLookahead := false
  mboxLookahead := 0
  ipDataOutBufIdx := 0
  stuck := false
  log := []

/-- **Lookahead coherence.** With a truthful card and trailers that fit, any number of calls uses
for each packet the packet's own header and parses each trailer from the packet's own bytes.  The
packets are taken in the order of the mailbox, at least one by each call until it is empty. -/
theorem readpkts_coherent (B : Buffers) (mem : Mem UInt8) (fifo : List (Mem UInt8)) (n : ℕ)
    (hshort : ∀ p ∈ fifo, pktLen p ≤ 0x5FA) (htruth : Truthful fifo)
    (hfits : ∀ p ∈ fifo, TrailerFits p) :
    let m := readpkts B n (.start mem fifo)
    (∀ o ∈ m.log, o.Coherent) ∧ readPackets m.log ++ m.fifo = fifo ∧
      min n fifo.length ≤ (readPackets m.log).length := by
  have hstart : Coheres fifo (.start mem fifo) :=
    ⟨fun h => absurd h (by simp [Mbox.start]), htruth, hshort, hfits,
      fun o ho => absurd ho (by simp [Mbox.start]), rfl, fun h => absurd h (by simp [Mbox.start])⟩
  obtain ⟨h, hlen⟩ := coheres_readpkts B n hstart
  refine ⟨h.log, h.all, ?_⟩
  have hall := congrArg List.length h.all
  rw [List.length_append] at hall
  change _ ≤ fifo.length - n at hlen
  omega

/-! ### Sample mailboxes -/

/-- An HTC packet with an ack trailer. -/
def htcPkt (body trailer : List UInt8) : Mem UInt8 :=
  .ofList ([0, if trailer = [] then 0 else 2] ++ putle16 (body ++ trailer).length ++
    [.ofNat trailer.length, 0] ++ body ++ trailer) 0

/-- A lookahead record for a packet with two bytes and no trailer. -/
def lookaheadRecord : List UInt8 := [2, 6, 0xAA, 0, 0, 2, 0, 0x55]

/-- The responses to the five service requests. -/
def svcResponses : List (Mem UInt8) := List.replicate 5 (htcPkt [3, 0] [])

def sampleBuffers : Buffers := ⟨0, none, 0⟩

/-- The HTC handshake, and then a packet that reports the one after it. -/
theorem readpkts_coherent_sample :
    let fifo := htcPkt [1, 0] [] :: svcResponses ++ [htcPkt [3, 0] lookaheadRecord, htcPkt [3, 0] []]
    let m := readpkts sampleBuffers 3 (.start (fun _ => 0) fifo)
    (∀ o ∈ m.log, o.Coherent) ∧ readPackets m.log ++ m.fifo = fifo ∧
      min 3 fifo.length ≤ (readPackets m.log).length :=
  readpkts_coherent sampleBuffers (fun _ => 0) _ 3 (by decide +kernel) (by decide +kernel)
    (by decide +kernel)

/-- An `HTC_MSG_READY` packet with a trailer: the trailer is parsed from the bytes of the last
response, which is in the buffer by then. -/
theorem readpkts_incoherent_counterexample :
    ¬∀ (B : Buffers) (mem : Mem UInt8) (fifo : List (Mem UInt8)) (n : ℕ),
      (∀ p ∈ fifo, pktLen p ≤ 0x5FA) → Truthful fifo →
        ∀ o ∈ (readpkts B n (.start mem fifo)).log, o.Coherent := by
  intro h
  have hlog := h sampleBuffers (fun _ => 0) (htcPkt [1, 0] lookaheadRecord :: svcResponses) 1
    (by decide +kernel) (by decide +kernel)
  revert hlog
  decide +kernel

end DsiWifi
