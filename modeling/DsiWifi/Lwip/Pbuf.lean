import DsiWifi.Util

/-!
# Packet buffers of lwIP

The part of `pbuf.c` that the driver relies on, with the sizes configured in `lwipopts.h`, `opt.h`
and `pbuf.h`.  A packet is a chain of segments; `tot_len` of a segment counts its own bytes and those
behind it (the invariant stated in `pbuf.h`, which a `PbufChain` carries).

The pool is the list of its free blocks in the order in which `memp_malloc` hands them out.  A block
holds whatever its last user left in it.
-/

namespace DsiWifi

/-! ## Sizes -/

def memAlignment : ℕ := 4
def ethPadSize : ℕ := 2
def tcpMss : ℕ := 1460

def pbufLinkEncapsulationHlen : ℕ := 0
def pbufLinkHlen : ℕ := 14 + ethPadSize
def pbufIpHlen : ℕ := 20
def pbufTransportHlen : ℕ := 20

def lwipMemAlignSize (size : ℕ) : ℕ := roundUp size memAlignment

def pbufPoolBufsize : ℕ :=
  lwipMemAlignSize
    (tcpMss + pbufIpHlen + pbufTransportHlen + pbufLinkEncapsulationHlen + pbufLinkHlen)

def pbufPoolBufsizeAligned : ℕ := lwipMemAlignSize pbufPoolBufsize

/-- `PBUF_IP`, the layer at which the driver allocates. -/
def pbufIp : ℕ := pbufLinkEncapsulationHlen + pbufLinkHlen + pbufIpHlen + 0x30

/-- The bytes a block holds behind a header of `offset` bytes. -/
def poolRoom (offset : ℕ) : ℕ := pbufPoolBufsizeAligned - lwipMemAlignSize offset

/-! ## Chains -/

/-- A segment: `payload` lists the `len` bytes it points to. -/
structure Pbuf where
  totLen : ℕ
  payload : List UInt8

/-- `p->tot_len == p->len + (p->next ? p->next->tot_len : 0)` along the chain. -/
def TotLens : Pbuf → List Pbuf → Prop
  | p, [] => p.totLen = p.payload.length
  | p, q :: ps => p.totLen = p.payload.length + q.totLen ∧ TotLens q ps

/-- The chain of one packet. -/
structure PbufChain where
  head : Pbuf
  rest : List Pbuf
  totLens : TotLens head rest

/-- The bytes of the packet: the segments one after the other. -/
def PbufChain.bytes (c : PbufChain) : List UInt8 := c.head.payload ++ c.rest.flatMap Pbuf.payload

theorem totLen_eq_length {p : Pbuf} {ps : List Pbuf} (h : TotLens p ps) :
    p.totLen = (p.payload ++ ps.flatMap Pbuf.payload).length := by
  induction ps generalizing p with
  | nil =>
    rw [List.flatMap_nil, List.append_nil]
    exact h
  | cons q ps ih =>
    obtain ⟨hp, hq⟩ := h
    rw [hp, ih hq, List.flatMap_cons, List.length_append, List.length_append, List.length_append]

/-- `tot_len` of the head counts the bytes of the packet. -/
theorem PbufChain.totLen_eq (c : PbufChain) : c.head.totLen = c.bytes.length :=
  totLen_eq_length c.totLens

/-- `memcpy` to the payload of a segment. -/
def Pbuf.memcpy (p : Pbuf) (bs : List UInt8) : Pbuf :=
  { p with payload := bs.take p.payload.length ++ p.payload.drop bs.length }

theorem Pbuf.length_memcpy (p : Pbuf) (bs : List UInt8) :
    (p.memcpy bs).payload.length = p.payload.length := by
  unfold memcpy
  rw [List.length_append, List.length_take, List.length_drop]
  omega

theorem TotLens.memcpy {p : Pbuf} {ps : List Pbuf} (h : TotLens p ps) (bs : List UInt8) :
    TotLens (p.memcpy bs) ps := by
  have hlen := p.length_memcpy bs
  cases ps with
  | nil => exact Eq.trans h hlen.symm
  | cons q ps =>
    refine ⟨?_, h.2⟩
    rw [hlen]
    exact h.1

/-- `memcpy` to the first segment. -/
def PbufChain.memcpy (c : PbufChain) (bs : List UInt8) : PbufChain :=
  ⟨c.head.memcpy bs, c.rest, c.totLens.memcpy bs⟩

/-! ## Allocation -/

/-- The loop of `pbuf_alloc` for `PBUF_POOL`: only the first segment leaves room for headers, and the
call fails when the pool runs out of blocks. -/
def pbufAllocPool : List (Mem UInt8) → (remLen offset : ℕ) → Option (Pbuf × List Pbuf)
  | [], _, _ => none
  | block :: pool, remLen, offset =>
    let qlen := min remLen (poolRoom offset)
    let q : Pbuf := ⟨remLen, block.read (lwipMemAlignSize offset) qlen⟩
    if remLen - qlen = 0 then some (q, [])
    else (pbufAllocPool pool (remLen - qlen) 0).map fun c => (q, c.1 :: c.2)

theorem pbufAllocPool_totLens {pool : List (Mem UInt8)} {len offset : ℕ} {p : Pbuf} {ps : List Pbuf}
    (h : pbufAllocPool pool len offset = some (p, ps)) : p.totLen = len ∧ TotLens p ps := by
  induction pool generalizing len offset p ps with
  | nil => exact absurd h (by simp [pbufAllocPool])
  | cons block pool ih =>
    unfold pbufAllocPool at h
    dsimp only at h
    split_ifs at h with hrem
    · obtain ⟨rfl, rfl⟩ := Prod.mk.inj (Option.some.inj h)
      refine ⟨rfl, ?_⟩
      show len = (Mem.read _ _ _).length
      rw [Mem.length_read]
      omega
    · obtain ⟨⟨q, qs⟩, hc, he⟩ := Option.map_eq_some_iff.1 h
      obtain ⟨rfl, rfl⟩ := Prod.mk.inj he
      obtain ⟨htot, hq⟩ := ih hc
      refine ⟨rfl, ?_, hq⟩
      show len = (Mem.read _ _ _).length + q.totLen
      rw [Mem.length_read, htot]
      omega

/-- `pbuf_alloc(layer, length, PBUF_POOL)`, where `layer` is the room for headers. -/
def pbufAlloc (pool : List (Mem UInt8)) (layer length : ℕ) : Option PbufChain :=
  match h : pbufAllocPool pool length layer with
  | some (p, ps) => some ⟨p, ps, (pbufAllocPool_totLens h).2⟩
  | none => none

theorem pbufAlloc_eq_some {pool : List (Mem UInt8)} {layer length : ℕ} {c : PbufChain}
    (h : pbufAlloc pool layer length = some c) :
    pbufAllocPool pool length layer = some (c.head, c.rest) := by
  unfold pbufAlloc at h
  split at h
  · next hp =>
    obtain rfl := Option.some.inj h
    exact hp
  · exact absurd h (by simp)

/-! ### Segments of an allocation -/

section Segments

variable {pool : List (Mem UInt8)} {len offset : ℕ} {p : Pbuf} {ps : List Pbuf}

/-- The first segment takes what its block holds. -/
theorem pbufAllocPool_head (h : pbufAllocPool pool len offset = some (p, ps)) :
    p.payload.length = min len (poolRoom offset) := by
  cases pool with
  | nil => exact absurd h (by simp [pbufAllocPool])
  | cons block pool =>
    unfold pbufAllocPool at h
    dsimp only at h
    split_ifs at h
    · obtain ⟨rfl, -⟩ := Prod.mk.inj (Option.some.inj h)
      exact Mem.length_read _ _ _
    · obtain ⟨c, -, he⟩ := Option.map_eq_some_iff.1 h
      obtain ⟨rfl, -⟩ := Prod.mk.inj he
      exact Mem.length_read _ _ _

/-- A packet that one block holds is one segment. -/
theorem pbufAllocPool_of_le (h : pbufAllocPool pool len offset = some (p, ps))
    (hlen : len ≤ poolRoom offset) : ps = [] := by
  cases pool with
  | nil => exact absurd h (by simp [pbufAllocPool])
  | cons block pool =>
    unfold pbufAllocPool at h
    dsimp only at h
    rw [if_pos (by omega)] at h
    exact (Prod.mk.inj (Option.some.inj h)).2.symm

/-- What a packet has beyond the first segment is put into the next block, if that holds it. -/
theorem pbufAllocPool_of_lt (h : pbufAllocPool pool len offset = some (p, ps))
    (hlen : poolRoom offset < len) (hrest : len - poolRoom offset ≤ poolRoom 0) :
    ∃ b, pool[1]? = some b ∧ ps.flatMap Pbuf.payload = b.read 0 (len - poolRoom offset) := by
  have hmin : min len (poolRoom offset) = poolRoom offset := Nat.min_eq_right hlen.le
  cases pool with
  | nil => exact absurd h (by simp [pbufAllocPool])
  | cons block pool =>
    unfold pbufAllocPool at h
    dsimp only at h
    rw [hmin, if_neg (by omega)] at h
    obtain ⟨⟨q, qs⟩, hq, he⟩ := Option.map_eq_some_iff.1 h
    obtain ⟨-, rfl⟩ := Prod.mk.inj he
    obtain rfl := pbufAllocPool_of_le hq hrest
    cases pool with
    | nil => exact absurd hq (by simp [pbufAllocPool])
    | cons b pool =>
      unfold pbufAllocPool at hq
      dsimp only at hq
      rw [Nat.min_eq_left hrest, if_pos (Nat.sub_self _)] at hq
      obtain ⟨rfl, -⟩ := Prod.mk.inj (Option.some.inj hq)
      have halign : lwipMemAlignSize 0 = 0 := rfl
      refine ⟨b, rfl, ?_⟩
      rw [List.flatMap_cons, List.flatMap_nil, List.append_nil, halign]

end Segments

end DsiWifi
