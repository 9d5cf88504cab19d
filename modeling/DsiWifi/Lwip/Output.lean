import DsiWifi.Lwip.Pbuf
import DsiWifi.Ring.Tx
import DsiWifi.Wmi.Handshake

/-!
# Frames that lwIP sends

lwIP builds the link header in front of a packet (`ethernet_output`) and passes the chain to
`ath_link_output`, which sends the first segment.  So a packet of more than one segment loses the
others (`link_output_sends_all_iff`).

The link header is that of 802.3 with a SNAP header, as in the EAPOL frames of the ARM7.  Its length
field is computed with a constant that leaves out the two pad bytes; it is two too large in every
frame (`ethernet_length_never_agrees`).
-/

namespace DsiWifi

/-! ## `ath_link_output` -/

/-- `ath_link_output`, without interruption: the first segment is copied and posted. -/
def athLinkOutput (base : ℕ) (s : Tx.State) (p : PbufChain) : Tx.State :=
  Tx.post (Tx.link base s p.head.payload)

/-- The call posts one message, which describes all bytes of the chain, and the ARM7 puts them all
in a frame. -/
def SendsAll (base : ℕ) (s : Tx.State) (p : PbufChain) : Prop :=
  let s' := athLinkOutput base s p
  ∃ q, s'.fifo = s.fifo ++ [q] ∧ q.pktLen = p.head.totLen ∧
    s'.mem.read (Tx.slotAddr base q.slot) q.pktLen = p.bytes ∧
    ∀ out, frameBody (dataSendPktIdk out (fun i => s'.mem (Tx.slotAddr base q.slot + i)) q.pktLen).2 =
      p.bytes

section Output

variable (base : ℕ) {s : Tx.State} {p : PbufChain}

theorem athLinkOutput_of_ne (hs : s.linking = none) (hp : p.head.payload ≠ []) :
    let data := p.head.payload.take dataBufLen
    (athLinkOutput base s p).fifo = s.fifo ++ [⟨s.ipDataBufIdx, data.length, data⟩] ∧
      (athLinkOutput base s p).mem = s.mem.write (Tx.slotAddr base s.ipDataBufIdx) data := by
  unfold athLinkOutput Tx.link
  rw [hs]
  dsimp only
  rw [if_neg hp]
  exact ⟨rfl, rfl⟩

theorem athLinkOutput_of_nil (hs : s.linking = none) (hp : p.head.payload = []) :
    (athLinkOutput base s p).fifo = s.fifo := by
  unfold athLinkOutput Tx.link
  rw [hs]
  dsimp only
  rw [if_pos hp]
  unfold Tx.post
  rw [hs]

theorem sendsAll_of_bytes_eq (hs : s.linking = none) (hpos : p.bytes ≠ [])
    (hlen : p.bytes.length ≤ dataBufLen - 6) (h : p.bytes = p.head.payload) :
    SendsAll base s p := by
  have hle : p.head.payload.length ≤ 0x5FA := by
    rw [← h]
    exact hlen
  have htake : p.head.payload.take dataBufLen = p.head.payload := List.take_of_length_le (by
    unfold dataBufLen; omega)
  have hne : p.head.payload ≠ [] := by rwa [← h]
  obtain ⟨hfifo, hmem⟩ := athLinkOutput_of_ne base hs hne
  rw [htake] at hfifo hmem
  have hread : (athLinkOutput base s p).mem.read (Tx.slotAddr base s.ipDataBufIdx)
      p.head.payload.length = p.bytes := by
    rw [hmem, Mem.read_write_self, h]
  refine ⟨_, hfifo, ?_, hread, fun out => ?_⟩
  · rw [p.totLen_eq, h]
  · rw [frameBody_dataSendPktIdk _ _ hle, ← hread]
    apply Mem.read_congr
    intro i _
    rw [Nat.zero_add]

theorem bytes_eq_of_sendsAll (hs : s.linking = none) (h : SendsAll base s p) :
    p.bytes = p.head.payload := by
  obtain ⟨q, hfifo, hlen, -, -⟩ := h
  by_cases hp : p.head.payload = []
  · rw [athLinkOutput_of_nil base hs hp] at hfifo
    exact absurd hfifo (by simp)
  · obtain ⟨hfifo', -⟩ := athLinkOutput_of_ne base hs hp
    rw [hfifo'] at hfifo
    obtain rfl := List.singleton_inj.1 (List.append_cancel_left hfifo)
    have hle : p.bytes.length ≤ p.head.payload.length := by
      rw [← p.totLen_eq, ← hlen]
      exact List.length_take_le' _ _
    unfold PbufChain.bytes at hle ⊢
    rw [List.length_append] at hle
    rw [List.eq_nil_of_length_eq_zero (l := p.rest.flatMap Pbuf.payload) (by omega),
      List.append_nil]

end Output

/-- **Outgoing frames.** A chain of 1 to 0x5FA bytes is sent whole, in the message and in the frame of
the ARM7, exactly when all segments behind the first are empty. -/
theorem link_output_sends_all_iff (base : ℕ) (s : Tx.State) (p : PbufChain)
    (hs : s.linking = none) (hpos : 1 ≤ p.head.totLen) (hlen : p.head.totLen ≤ dataBufLen - 6) :
    SendsAll base s p ↔ ∀ q ∈ p.rest, q.payload = [] := by
  rw [p.totLen_eq] at hpos hlen
  have hbytes : p.bytes = p.head.payload ↔ ∀ q ∈ p.rest, q.payload = [] := by
    unfold PbufChain.bytes
    rw [List.append_right_eq_self, List.flatMap_eq_nil_iff]
  rw [← hbytes]
  constructor
  · exact bytes_eq_of_sendsAll base hs
  · intro h
    exact sendsAll_of_bytes_eq base hs (List.ne_nil_of_length_pos hpos) hlen h

def chainOf (a b : List UInt8) : PbufChain :=
  ⟨⟨a.length + b.length, a⟩, [⟨b.length, b⟩], rfl, rfl⟩

theorem link_output_sends_all_sample :
    SendsAll 0 (.init (fun _ => 0) fun _ => 0) (chainOf [1, 2, 3] []) :=
  (link_output_sends_all_iff 0 _ (chainOf [1, 2, 3] []) rfl (by decide) (by decide)).2
    (by decide)

/-- The payload behind a header in a segment of its own is not sent. -/
theorem link_output_loses_counterexample :
    ¬∀ (base : ℕ) (s : Tx.State) (p : PbufChain), s.linking = none → 1 ≤ p.head.totLen →
      p.head.totLen ≤ dataBufLen - 6 → SendsAll base s p := by
  intro h
  obtain ⟨q, hfifo, hlen, -, -⟩ := h 0 (.init (fun _ => 0) fun _ => 0) (chainOf [1, 2, 3] [4])
    rfl (by decide) (by decide)
  -- the message describes the three bytes of the first segment
  have hq : ([⟨0, 3, [1, 2, 3]⟩] : List Tx.SendPkt) = [] ++ [q] := hfifo
  rw [List.nil_append, List.singleton_inj] at hq
  rw [← hq] at hlen
  revert hlen
  decide

/-! ## `ethernet_output` -/

/-- A single segment with `room` for headers in front of its payload. -/
structure PbufRam where
  room : List UInt8
  payload : List UInt8

def sizeofEthHdr : ℕ := 22 + ethPadSize

/-- `pbuf_add_header`; it does not allow `tot_len` to wrap. -/
def pbufAddHeader (p : PbufRam) (headerSizeIncrement : ℕ) : Option PbufRam :=
  if 0xFFFF < headerSizeIncrement then none
  else if headerSizeIncrement = 0 then some p
  else if (headerSizeIncrement + p.payload.length) % 2 ^ 16 < headerSizeIncrement then none
  else if p.room.length < headerSizeIncrement then none
  else
    let n := p.room.length - headerSizeIncrement
    some ⟨p.room.take n, p.room.drop n ++ p.payload⟩

/-- `ethernet_output`: the frame that is passed to `linkoutput`.  The fields of the header are
written one by one into the room in front of the payload. -/
def ethernetOutput (p : PbufRam) (src dst : Bytes 6) (ethType : ℕ) : Option (List UInt8) :=
  (pbufAddHeader p sizeofEthHdr).map fun p =>
    let hdr := overwrite p.payload 22 (putbe16 ethType)
    let hdr := overwrite hdr 2 dst.toList
    let hdr := overwrite hdr 8 src.toList
    let hdr := overwrite hdr 16 [0xAA, 0xAA, 0x03, 0x00, 0x00, 0x00]
    let hdr := overwrite hdr 0 [0x00, 0x1C]
    let ethLen := ((p.payload.length : ℤ) - 14) % 2 ^ 16
    overwrite hdr 14 (putbe16 ethLen.toNat)

def lengthField (frame : List UInt8) : ℕ := Octets.value (Octets.slice frame 14 2)

def LengthAgrees (frame : List UInt8) : Prop := lengthField frame = frame.length - 16

instance (frame : List UInt8) : Decidable (LengthAgrees frame) := by
  unfold LengthAgrees; infer_instance

/-- The length field of a frame of either transmit path: pad bytes, addresses, length, and what
follows. -/
theorem lengthField_frame (dst src : Bytes 6) {n : ℕ} (hn : n < 2 ^ 16) (body : List UInt8) :
    lengthField ([0x00, 0x1C] ++ dst.toList ++ src.toList ++ (putbe16 n ++ body)) = n := by
  unfold lengthField
  rw [Octets.slice_append (by simp) (length_putbe16 n), value_putbe16 hn]

theorem split_ethHdr {hdr : List UInt8} (h : hdr.length = sizeofEthHdr) :
    ∃ padding dest src len snap type : List UInt8,
      hdr = padding ++ (dest ++ (src ++ (len ++ (snap ++ type)))) ∧ padding.length = 2 ∧
        dest.length = 6 ∧ src.length = 6 ∧ len.length = 2 ∧ snap.length = 6 ∧ type.length = 2 := by
  have h24 : hdr.length = 24 := h
  refine ⟨hdr.take 2, (hdr.drop 2).take 6, (hdr.drop 8).take 6, (hdr.drop 14).take 2,
    (hdr.drop 16).take 6, hdr.drop 22, ?_, ?_⟩
  · have hdrop : ∀ k n, (hdr.drop k).take n ++ hdr.drop (k + n) = hdr.drop k := by
      intro k n
      rw [← List.drop_drop, List.take_append_drop]
    rw [hdrop 16 6, hdrop 14 2, hdrop 8 6, hdrop 2 6, List.take_append_drop]
  · simp [h24]

theorem ethernetOutput_eq (p : PbufRam) (src dst : Bytes 6) (ethType : ℕ)
    (hroom : sizeofEthHdr ≤ p.room.length) (hlen : sizeofEthHdr + p.payload.length < 2 ^ 16) :
    ethernetOutput p src dst ethType =
      some ([0x00, 0x1C] ++ dst.toList ++ src.toList ++ (putbe16 (10 + p.payload.length) ++
        ([0xAA, 0xAA, 0x03, 0x00, 0x00, 0x00] ++ (putbe16 ethType ++ p.payload)))) := by
  have hsize : sizeofEthHdr = 24 := rfl
  have hadd : pbufAddHeader p sizeofEthHdr =
      some ⟨p.room.take (p.room.length - sizeofEthHdr),
        p.room.drop (p.room.length - sizeofEthHdr) ++ p.payload⟩ := by
    unfold pbufAddHeader
    rw [if_neg (by omega), if_neg (by omega), if_neg (by omega), if_neg (by omega)]
  have hhdr : (p.room.drop (p.room.length - sizeofEthHdr)).length = sizeofEthHdr := by
    rw [List.length_drop]
    omega
  have hethLen : ((((p.room.drop (p.room.length - sizeofEthHdr) ++ p.payload).length : ℤ) - 14) %
      2 ^ 16).toNat = 10 + p.payload.length := by
    rw [List.length_append, hhdr]
    omega
  obtain ⟨padding, dest, source, len, snap, type, hsplit, hp, hd, hs, hl, hsn, ht⟩ :=
    split_ethHdr hhdr
  have hdst : dst.toList.length = 6 := List.length_ofFn
  have hsrc : src.toList.length = 6 := List.length_ofFn
  have hpad : ([0x00, 0x1C] : List UInt8).length = 2 := rfl
  unfold ethernetOutput
  rw [hadd, Option.map_some]
  dsimp only
  rw [hethLen, hsplit]
  -- each write skips the fields before its own and replaces that
  simp (disch := simp) only [List.append_assoc, overwrite_skip hp, overwrite_skip hd,
    overwrite_skip hs, overwrite_skip hl, overwrite_skip hsn, overwrite_skip hdst,
    overwrite_skip hsrc, overwrite_skip hpad, overwrite_zero ht (length_putbe16 _),
    overwrite_zero hd hdst, overwrite_zero hs hsrc, overwrite_zero hsn, overwrite_zero hp hpad,
    overwrite_zero hl (length_putbe16 _), Nat.reduceSub]

theorem lengthAgrees_eapolKeyFrame (C : Crypto) (kck : Bytes 0x10) (dstBssid srcBssid : Bytes 6)
    (keyinfo replayCnt : ℕ) (nonce : Bytes 32) {keydata : List UInt8}
    (h : keydata.length < 2 ^ 16 - 107) :
    LengthAgrees
      (eapolKeyFrame C kck dstBssid srcBssid keyinfo replayCnt nonce keydata) := by
  unfold LengthAgrees eapolKeyFrame
  rw [List.append_assoc, List.append_assoc, lengthField_frame _ _ (by omega)]
  simp only [List.length_append, List.length_ofFn, length_putbe16, length_eapolKey,
    List.length_cons, List.length_nil]
  omega

def dataFrames (out : List Out) : List (List UInt8) :=
  out.filterMap fun o => match o with
    | .data pkt => some pkt
    | _ => none

/-- **802.3 lengths.** The length field of every frame that `ethernet_output` builds is two larger
than the number of bytes behind it, while in the three EAPOL replies the two agree. -/
theorem ethernet_length_never_agrees (p : PbufRam) (src dst : Bytes 6) (ethType : ℕ)
    (hroom : sizeofEthHdr ≤ p.room.length) (hlen : sizeofEthHdr + p.payload.length < 2 ^ 16) :
    (∃ frame, ethernetOutput p src dst ethType = some frame ∧
        lengthField frame = (frame.length - 16) + 2 ∧ ¬LengthAgrees frame) ∧
      ∀ (C : Crypto) (ap : Ap) (k : Keys) (replayCnt : ℕ) (rand : Bytes 32),
        ∀ frame ∈ dataFrames (dataSendWpaHandshake2 C ap k dst src replayCnt rand).2 ++
            dataFrames (dataSendWpaHandshake4 C k dst src replayCnt).2 ++
            dataFrames (dataSendWpaGtkrenew C k dst src replayCnt).2,
          LengthAgrees frame := by
  constructor
  · have hsize : sizeofEthHdr = 24 := rfl
    refine ⟨_, ethernetOutput_eq p src dst ethType hroom hlen, ?_⟩
    have hfield : ∀ frame : List UInt8, lengthField frame = (frame.length - 16) + 2 →
        lengthField frame = (frame.length - 16) + 2 ∧ ¬LengthAgrees frame := by
      intro frame h
      refine ⟨h, fun hagrees => ?_⟩
      unfold LengthAgrees at hagrees
      omega
    apply hfield
    rw [lengthField_frame _ _ (by omega)]
    simp only [List.length_append, List.length_ofFn, length_putbe16, List.length_cons,
      List.length_nil]
    omega
  · intro C ap k replayCnt rand frame hframe
    have hframes : frame ∈ [eapolKeyFrame C _ dst src 0x010A replayCnt rand (handshake2Keydata ap),
        eapolKeyFrame C _ dst src 0x030A replayCnt (zeros 32) [],
        eapolKeyFrame C _ dst src 0x0302 replayCnt (zeros 32) []] := hframe
    simp only [List.mem_cons, List.not_mem_nil, or_false] at hframes
    rcases hframes with rfl | rfl | rfl
    · exact lengthAgrees_eapolKeyFrame _ _ _ _ _ _ _ (show 22 < 2 ^ 16 - 107 by decide)
    · exact lengthAgrees_eapolKeyFrame _ _ _ _ _ _ _ (show 0 < 2 ^ 16 - 107 by decide)
    · exact lengthAgrees_eapolKeyFrame _ _ _ _ _ _ _ (show 0 < 2 ^ 16 - 107 by decide)

def shortPacket : PbufRam := ⟨List.replicate sizeofEthHdr 0, [1, 2, 3]⟩

theorem ethernet_length_sample :
    ∃ frame, ethernetOutput shortPacket (zeros 6) (zeros 6) 0x0800 = some frame ∧
      lengthField frame = (frame.length - 16) + 2 ∧ ¬LengthAgrees frame :=
  (ethernet_length_never_agrees shortPacket (zeros 6) (zeros 6) 0x0800 (by decide)
    (by decide)).1

/-- Eleven bytes follow the length field of that frame, which says thirteen. -/
theorem ethernet_length_counterexample :
    ¬∀ (p : PbufRam) (src dst : Bytes 6) (ethType : ℕ) (frame : List UInt8),
      sizeofEthHdr ≤ p.room.length → sizeofEthHdr + p.payload.length < 2 ^ 16 →
        ethernetOutput p src dst ethType = some frame → LengthAgrees frame := by
  intro h
  have hframe := h shortPacket (zeros 6) (zeros 6) 0x0800
    ([0, 0x1C] ++ List.replicate 12 0 ++ [0, 13, 0xAA, 0xAA, 3, 0, 0, 0, 8, 0, 1, 2, 3])
    (by decide) (by decide) (by decide +kernel)
  revert hframe
  decide

end DsiWifi
