import DsiWifi.Util

/-!
# `wifi_card_mbox0_send_packet`

A frame is what the driver writes to the mailbox: a six byte header in `mbox_out_buffer`, the data
behind it, and whatever the buffer held before up to the next multiple of the block size.
-/

namespace DsiWifi

def mboxTmpbufSize : ℕ := 0x600

/-- The buffer after the call, and the frame.  `data` is what the pointer points to; the length in
the header is written before it is limited to the buffer. -/
def mbox0SendPacket (out : Mem UInt8) (type ackType : UInt8) (data : Option (Mem UInt8))
    (len idk : ℕ) : Mem UInt8 × List UInt8 :=
  let out := out.write 0 ([type, ackType] ++ putle16 len ++ putle16 idk)
  let len := min len (mboxTmpbufSize - 6)
  let out := match data with
    | some d => out.write 6 (d.read 0 len)
    | none => out
  (out, out.read 0 (roundUp (len + 6) 0x80))

def dataSendPktIdk (out : Mem UInt8) (data : Mem UInt8) (len : ℕ) : Mem UInt8 × List UInt8 :=
  mbox0SendPacket out 2 0 (some data) (len % 2 ^ 16) 0x2008

/-- The body of a frame, by the length in its header. -/
def frameBody (frame : List UInt8) : List UInt8 :=
  (frame.drop 6).take ((frame.getD 2 0).toNat + 256 * (frame.getD 3 0).toNat)

/-- A header in front of a payload, in a buffer that held anything. -/
theorem read_header_payload (out : Mem UInt8) (bs cs ds payload : List UInt8) :
    ((out.write 0 (bs ++ (cs ++ ds))).write (bs ++ (cs ++ ds)).length payload).read bs.length
      cs.length = cs := by
  rw [Mem.read_write_of_disjoint _ (Or.inl (by simp))]
  have h := Mem.read_write_append out 0 bs cs ds
  rwa [Nat.zero_add] at h

theorem frameBody_read {m : Mem UInt8} {n len : ℕ} (hhdr : m.read 2 2 = putle16 n)
    (hn : n < 2 ^ 16) (hlen : n + 6 ≤ len) : frameBody (m.read 0 len) = m.read 6 n := by
  have hget : ∀ i < len, (m.read 0 len).getD i 0 = m i := fun i hi => Mem.ofList_read m 0 hi
  have hcount : (m 2).toNat + 256 * (m 3).toNat = n := getle16_of_read hhdr hn
  obtain ⟨k, rfl⟩ := Nat.exists_eq_add_of_le hlen
  unfold frameBody
  rw [hget 2 (by omega), hget 3 (by omega), hcount, Nat.add_comm n 6, Nat.add_assoc, Mem.read_add,
    List.drop_left' (Mem.length_read _ _ _), Mem.read_add, List.take_left' (Mem.length_read _ _ _)]

/-- A frame within the limit carries its data. -/
theorem frameBody_dataSendPktIdk (out data : Mem UInt8) {len : ℕ} (h : len ≤ mboxTmpbufSize - 6) :
    frameBody (dataSendPktIdk out data len).2 = data.read 0 len := by
  have hle : len ≤ 0x5FA := h
  have hmod : len % 2 ^ 16 = len := Nat.mod_eq_of_lt (by omega)
  have hmin : min len (mboxTmpbufSize - 6) = len := Nat.min_eq_left h
  unfold dataSendPktIdk mbox0SendPacket
  rw [hmod]
  dsimp only
  rw [hmin, frameBody_read]
  · have hbody := Mem.read_write_self (out.write 0 ([2, 0] ++ putle16 len ++ putle16 0x2008)) 6
      (data.read 0 len)
    rwa [Mem.length_read] at hbody
  · exact read_header_payload out [2, 0] (putle16 len) (putle16 0x2008) _
  · omega
  · unfold roundUp
    omega

end DsiWifi
