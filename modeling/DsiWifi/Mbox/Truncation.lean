import DsiWifi.Mbox.Framing

/-!
# Frames that are cut off

`wifi_card_mbox0_send_packet` and `wmi_send_pkt` write the length of the payload to the header
before they limit it to the buffer.  A frame of a longer payload announces bytes that were not
copied; `truncation_consistent_iff` says which frames these are.
-/

namespace DsiWifi

/-- The length in the header of a frame. -/
def frameLen (frame : List UInt8) : ℕ := pktLen (.ofList frame 0)

/-- The frame announces just the bytes `body` that were copied to it, and no more than it has. -/
structure SelfConsistent (frame body : List UInt8) : Prop where
  copied : body <+: frame.drop 6
  announced : frameLen frame = body.length
  inside : 6 + frameLen frame ≤ frame.length

theorem putle16_mod (n : ℕ) : putle16 (n % 2 ^ 16) = putle16 n := by
  have hlow : UInt8.ofNat (n % 2 ^ 16) = .ofNat n := by
    rw [UInt8.ofNat_eq_iff_mod_eq_toNat, UInt8.toNat_ofNat']
    omega
  have hhigh : UInt8.ofNat (n % 2 ^ 16 / 256) = .ofNat (n / 256) := by
    rw [UInt8.ofNat_eq_iff_mod_eq_toNat, UInt8.toNat_ofNat']
    omega
  unfold putle16
  rw [hlow, hhigh]

theorem frameLen_read {m : Mem UInt8} {n len : ℕ} (hhdr : m.read 2 2 = putle16 n)
    (hlen : 4 ≤ len) : frameLen (m.read 0 len) = n % 2 ^ 16 := by
  apply getle16_of_read _ (Nat.mod_lt _ (by decide))
  rw [putle16_mod, ← hhdr]
  exact Mem.read_congr fun i hi => Mem.ofList_read m 0 (by omega)

/-- A buffer with a header that announces `n` bytes and `body` behind it. -/
theorem selfConsistent_read_iff {m : Mem UInt8} {n len : ℕ} {body : List UInt8}
    (hhdr : m.read 2 2 = putle16 n) (hbody : m.read 6 body.length = body)
    (hlen : 6 + body.length ≤ len) :
    SelfConsistent (m.read 0 len) body ↔ n % 2 ^ 16 = body.length := by
  have hframe := frameLen_read hhdr (show 4 ≤ len by omega)
  constructor
  · intro h
    rw [← hframe, h.announced]
  · intro h
    obtain ⟨k, rfl⟩ := Nat.exists_eq_add_of_le hlen
    have hdrop : (m.read 0 (6 + body.length + k)).drop 6 = body ++ m.read (6 + body.length) k := by
      rw [Nat.add_assoc, Mem.read_add, List.drop_left' (Mem.length_read _ _ _), Mem.read_add,
        Nat.zero_add, hbody]
    refine ⟨hdrop ▸ List.prefix_append _ _, hframe.trans h, ?_⟩
    rw [hframe, h, Mem.length_read]
    omega

/-- A length agrees with what is copied when it is within the limit and there is something to
copy. -/
theorem length_payloadOf_min_iff {data : Option (Mem UInt8)} {len limit : ℕ} :
    len = (payloadOf data (min len limit)).length ↔ len ≤ limit ∧ (data = none → len = 0) := by
  cases data with
  | none =>
    simp only [payloadOf, List.length_nil, forall_const]
    omega
  | some d =>
    simp only [payloadOf, Mem.length_read, reduceCtorEq, false_imp_iff, and_true]
    omega

theorem length_payloadOf_le (data : Option (Mem UInt8)) (n : ℕ) :
    (payloadOf data n).length ≤ n := by
  cases data with
  | none => exact Nat.zero_le _
  | some d => exact (Mem.length_read _ _ _).le

section Senders

variable (out : Mem UInt8) (ackType : UInt8) (data : Option (Mem UInt8)) {len : ℕ}

theorem mbox0SendPacket_consistent_iff (type : UInt8) (idk : ℕ) (hlen : len < 2 ^ 16) :
    SelfConsistent (mbox0SendPacket out type ackType data len idk).2
        (payloadOf data (min len (mboxTmpbufSize - 6))) ↔
      len ≤ mboxTmpbufSize - 6 ∧ (data = none → len = 0) := by
  have hle := length_payloadOf_le data (min len (mboxTmpbufSize - 6))
  rw [mbox0SendPacket_eq, selfConsistent_read_iff (n := len), Nat.mod_eq_of_lt hlen,
    length_payloadOf_min_iff]
  · exact read_header_payload out [type, ackType] (putle16 len) (putle16 idk) _
  · exact Mem.read_write_self _ _ _
  · unfold roundUp
    omega

theorem wmiSendPkt_consistent_iff (wmiIdk wmiType : UInt16) (hlen : len < 2 ^ 16) :
    SelfConsistent (wmiSendPkt out wmiIdk wmiType ackType data len).2
        (putle16 wmiType.toNat ++ payloadOf data (min len (mboxTmpbufSize - 8))) ↔
      len ≤ mboxTmpbufSize - 8 ∧ (data = none → len = 0) := by
  have hle := length_payloadOf_le data (min len (mboxTmpbufSize - 8))
  have hmin : min len (mboxTmpbufSize - 8) ≤ 0x5F8 := Nat.min_le_right _ _
  rw [← length_payloadOf_min_iff]
  unfold wmiSendPkt
  dsimp only
  rw [memcpyOpt_eq_write, selfConsistent_read_iff (n := len + 2)]
  · -- the sum wraps for the two longest payloads, which are cut off anyway
    rw [List.length_append, length_putle16]
    omega
  · exact read_header_payload _ [mboxpktWmi, ackType] (putle16 (len + 2))
      (putle16 wmiIdk.toNat ++ putle16 wmiType.toNat) _
  · rw [List.length_append, length_putle16,
      Nat.add_comm 2 (payloadOf data (min len (mboxTmpbufSize - 8))).length]
    exact read_command _ 6 wmiType _
      (read_header_payload _ ([mboxpktWmi, ackType] ++ putle16 (len + 2) ++ putle16 wmiIdk.toNat)
        (putle16 wmiType.toNat) [] _)
      (Mem.read_write_self _ _ _)
  · rw [List.length_append, length_putle16]
    unfold roundUp
    omega

end Senders

/-- **Truncation.** A frame announces the bytes that were copied to it exactly when the payload is
within the limit of its path (and there is one, if its length is not 0). -/
theorem truncation_consistent_iff (out : Mem UInt8) (type ackType : UInt8) (idk : ℕ)
    (wmiIdk wmiType : UInt16) (data : Option (Mem UInt8)) (len : UInt16) :
    (SelfConsistent (mbox0SendPacket out type ackType data len.toNat idk).2
        (payloadOf data (min len.toNat (mboxTmpbufSize - 6))) ↔
      len.toNat ≤ 0x5FA ∧ (data = none → len = 0)) ∧
    (SelfConsistent (wmiSendPkt out wmiIdk wmiType ackType data len.toNat).2
        (putle16 wmiType.toNat ++ payloadOf data (min len.toNat (mboxTmpbufSize - 8))) ↔
      len.toNat ≤ 0x5F8 ∧ (data = none → len = 0)) := by
  have hzero : len.toNat = 0 ↔ len = 0 := by rw [← UInt16.toNat_inj, UInt16.toNat_zero]
  rw [← hzero]
  exact ⟨mbox0SendPacket_consistent_iff out ackType data type idk len.toNat_lt,
    wmiSendPkt_consistent_iff out ackType data wmiIdk wmiType len.toNat_lt⟩

/-- A data packet of 0x5FB bytes. -/
theorem truncation_consistent_counterexample :
    ¬∀ (out : Mem UInt8) (type ackType : UInt8) (idk : ℕ) (data : Option (Mem UInt8))
      (len : UInt16),
      SelfConsistent (mbox0SendPacket out type ackType data len.toNat idk).2
        (payloadOf data (min len.toNat (mboxTmpbufSize - 6))) := by
  intro h
  have hlen := (mbox0SendPacket_consistent_iff (fun _ => 0) 0 (some fun _ => 1) 2 0x2008
    (by decide)).1 (h (fun _ => 0) 2 0 0x2008 (some fun _ => 1) 0x5FB)
  exact absurd hlen.1 (by decide)

end DsiWifi
