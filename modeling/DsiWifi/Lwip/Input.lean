import DsiWifi.Lwip.Pbuf
import DsiWifi.Ring.Rx

/-!
# Received packets in lwIP

`data_send_to_lwip` allocates a chain for the whole packet and copies the packet to its first
segment only.  A pool block holds 1432 bytes behind the headers of `PBUF_IP`; the bytes of a longer
packet from there on are whatever the second block of the chain held before.

`lwip_receives_iff` says when the chain is the packet all the same.
-/

namespace DsiWifi

def dataSendToLwip (pool : List (Mem UInt8)) (data : Mem UInt8) (len : ℕ) : Option PbufChain :=
  let len := min len (dataBufLen - 6)
  (pbufAlloc pool pbufIp len).map fun p => p.memcpy (data.read 0 (min len p.head.payload.length))

theorem poolRoom_pbufIp : poolRoom pbufIp = Rx.pbufFirstLen := rfl

section Chain

variable {pool : List (Mem UInt8)} {data : Mem UInt8} {len : ℕ} {c : PbufChain}

theorem dataSendToLwip_some (hc : dataSendToLwip pool data len = some c) :
    ∃ p, pbufAllocPool pool (min len (dataBufLen - 6)) pbufIp = some (p, c.rest) ∧
      c.head.totLen = p.totLen ∧
      c.head.payload = data.read 0 (min (min len (dataBufLen - 6)) (poolRoom pbufIp)) := by
  obtain ⟨p, hp, rfl⟩ := Option.map_eq_some_iff.1 hc
  have hpool := pbufAlloc_eq_some hp
  refine ⟨p.head, hpool, rfl, ?_⟩
  have hlen := pbufAllocPool_head hpool
  show List.take _ _ ++ List.drop _ _ = _
  have hdrop : List.drop p.head.payload.length p.head.payload = [] := List.drop_length
  rw [Mem.length_read, Nat.min_eq_right (by omega), hdrop, List.append_nil,
    List.take_of_length_le (by rw [Mem.length_read]), hlen]

/-- The first segment holds what the receive ring says is copied for a message. -/
theorem head_eq_copied (base : ℕ) (s : Rx.State) (q : Rx.PktData)
    (hc : dataSendToLwip pool (fun i => s.mem (Rx.slotAddr base q.slot + 6 + i)) q.pktLen =
      some c) : c.head.payload = Rx.copied base s q := by
  obtain ⟨p, -, -, hhead⟩ := dataSendToLwip_some hc
  rw [hhead, poolRoom_pbufIp]
  apply Mem.read_congr
  intro i _
  rw [Nat.zero_add]

theorem totLen_dataSendToLwip (hlen : len ≤ dataBufLen - 6)
    (hc : dataSendToLwip pool data len = some c) : c.head.totLen = len := by
  obtain ⟨p, hp, htot, -⟩ := dataSendToLwip_some hc
  rw [htot, (pbufAllocPool_totLens hp).1, Nat.min_eq_left hlen]

theorem bytes_of_short (hlen : len ≤ poolRoom pbufIp) (hc : dataSendToLwip pool data len = some c) :
    c.bytes = data.read 0 len := by
  have hle : poolRoom pbufIp ≤ dataBufLen - 6 := by decide
  obtain ⟨p, hp, -, hhead⟩ := dataSendToLwip_some hc
  rw [Nat.min_eq_left (hlen.trans hle)] at hp hhead
  rw [Nat.min_eq_left hlen] at hhead
  unfold PbufChain.bytes
  rw [hhead, pbufAllocPool_of_le hp hlen, List.flatMap_nil, List.append_nil]

/-- A longer packet: the second segment is the next block of the pool as it was. -/
theorem bytes_of_long (hshort : len ≤ dataBufLen - 6) (hlen : poolRoom pbufIp < len)
    (hc : dataSendToLwip pool data len = some c) :
    ∃ b, pool[1]? = some b ∧
      c.bytes = data.read 0 (poolRoom pbufIp) ++ b.read 0 (len - poolRoom pbufIp) := by
  obtain ⟨p, hp, -, hhead⟩ := dataSendToLwip_some hc
  rw [Nat.min_eq_left hshort] at hp hhead
  rw [Nat.min_eq_right hlen.le] at hhead
  -- what is left of the longest packet fits one block
  have hfits : len - poolRoom pbufIp ≤ poolRoom 0 := by
    have h₁ : len ≤ 1530 := hshort
    have h₂ : poolRoom 0 = 1516 := rfl
    have h₃ : poolRoom pbufIp = 1432 := rfl
    omega
  obtain ⟨b, hb, hrest⟩ := pbufAllocPool_of_lt hp hlen hfits
  refine ⟨b, hb, ?_⟩
  unfold PbufChain.bytes
  rw [hhead, hrest]

end Chain

/-- **Received packets.** When the allocation succeeds, the chain that is handed to lwIP has the
length of the packet, and its segments are the bytes of the packet exactly when the packet fits the
first segment (1432 bytes) or the second block of the pool happens to hold the rest of it. -/
theorem lwip_receives_iff (pool : List (Mem UInt8)) (data : Mem UInt8) (len : ℕ) (c : PbufChain)
    (hlen : len ≤ 0x5FA) (hc : dataSendToLwip pool data len = some c) :
    c.head.totLen = len ∧ c.bytes = data.read 0 len ↔
      len ≤ 1432 ∨ ∃ b, pool[1]? = some b ∧ b.read 0 (len - 1432) = data.read 1432 (len - 1432) := by
  have htot : c.head.totLen = len := totLen_dataSendToLwip hlen hc
  rw [and_iff_right htot]
  by_cases hshort : len ≤ 1432
  · exact iff_of_true (bytes_of_short hshort hc) (Or.inl hshort)
  · obtain ⟨b, hb, hbytes⟩ := bytes_of_long hlen (Nat.lt_of_not_le hshort) hc
    have hread : data.read 0 len = data.read 0 1432 ++ data.read 1432 (len - 1432) := by
      conv_lhs => rw [show len = 1432 + (len - 1432) by omega, Mem.read_add, Nat.zero_add]
    rw [hbytes, hread, or_iff_right hshort]
    constructor
    · intro h
      exact ⟨b, hb, List.append_cancel_left h⟩
    · rintro ⟨b', hb', h⟩
      rw [hb] at hb'
      obtain rfl := Option.some.inj hb'
      show _ ++ b.read 0 (len - 1432) = _
      rw [h]
      rfl

def freshPool : List (Mem UInt8) := [fun _ => 0, fun _ => 0]

theorem lwip_receives_sample : ∃ c, dataSendToLwip freshPool (fun _ => 1) 60 = some c ∧
    c.head.totLen = 60 ∧ c.bytes = Mem.read (fun _ => 1) 0 60 := by
  obtain ⟨c, hc⟩ := Option.isSome_iff_exists.1
    (show (dataSendToLwip freshPool (fun _ => 1) 60).isSome by decide +kernel)
  exact ⟨c, hc, (lwip_receives_iff freshPool (fun _ => 1) 60 c (by decide) hc).2
    (Or.inl (by decide))⟩

/-- The last byte of a packet of 1433 bytes is taken from the pool. -/
theorem lwip_receives_counterexample :
    ¬∀ (pool : List (Mem UInt8)) (data : Mem UInt8) (len : ℕ) (c : PbufChain), 1 ≤ len →
      len ≤ 0x5FA → dataSendToLwip pool data len = some c →
        c.head.totLen = len ∧ c.bytes = data.read 0 len := by
  intro h
  obtain ⟨c, hc⟩ := Option.isSome_iff_exists.1
    (show (dataSendToLwip freshPool (fun _ => 1) 1433).isSome by decide +kernel)
  obtain ⟨-, hbytes⟩ := h freshPool (fun _ => 1) 1433 c (by decide) (by decide) hc
  have hlast : c.bytes.getLast? = some 0 := by
    have : (dataSendToLwip freshPool (fun _ => 1) 1433).map (·.bytes.getLast?) = some (some 0) := by
      decide +kernel
    rw [hc] at this
    exact Option.some.inj this
  rw [hbytes] at hlast
  revert hlast
  decide +kernel

end DsiWifi
