import DsiWifi.Lwip.Ip4Collect

/-!
# Fragmentation of IP packets

`ip4_frag` of `ip4_frag.c` cuts a packet that is longer than the MTU into fragments of the largest
multiple of eight bytes that fits.  It takes a fragment for the last one, and leaves out `IP_MF`, when
what is left would fit the MTU; but of what is left it sends no more than that multiple.  Where the MTU
is not a multiple of eight bytes longer than the header, as that of this driver is not, a packet that
leaves a rest of up to four bytes goes out with two last fragments.

So a packet that the driver sends in fragments arrives at a receiver that runs the same code exactly when
its length does not leave such a rest, and then in whatever order the fragments arrive
(`ip4Frag_reass_iff`).
-/

namespace DsiWifi

open Spans (cut cutEnd chunks)

/-! ## The code -/

def ifMtuSize : ℕ := 0x570

/-- An MTU for which the loop of `ip4_frag` ends: a `u16_t` with room for eight bytes behind the
header. -/
structure FragMtu where
  mtu : ℕ
  le_mtu : ipHlen + 8 ≤ mtu
  mtu_lt : mtu < 2 ^ 16

/-- The MTU of the driver. -/
def athMtu : FragMtu := ⟨ifMtuSize, by decide, by decide⟩

/-- `nfb`: the blocks of eight bytes in a fragment. -/
def FragMtu.nfb (m : FragMtu) : ℕ := (m.mtu - ipHlen) / 8

/-- The bytes in these blocks. -/
def FragMtu.size (m : FragMtu) : ℕ := m.nfb * 8

/-- The header of a fragment: `tmp` is the offset with its flags. -/
def fragHdr (hdr : IpHdr) (tmp fragsize : ℕ) : IpHdr :=
  { hdr with offset := .ofNat tmp, len := .ofNat (fragsize + ipHlen) }.setChksum

theorem len_fragHdr (hdr : IpHdr) (tmp : ℕ) {part : List UInt8} (h : part.length + ipHlen < 2 ^ 16) :
    (fragHdr hdr tmp part.length).len.toNat = ipHlen + (part ++ ([] : List (List UInt8)).flatten).length := by
  show (UInt16.ofNat (part.length + ipHlen)).toNat = _
  rw [UInt16.toNat_ofNat_of_lt' h, List.flatten_nil, List.append_nil, Nat.add_comm]

theorem fragsize_lt (m : FragMtu) (data : List UInt8) :
    (data.take m.size).length + ipHlen < 2 ^ 16 := by
  have hle := m.le_mtu
  have hlt := m.mtu_lt
  rw [List.length_take]
  unfold FragMtu.size FragMtu.nfb
  omega

inductive FragErr
  | ok
  | mem
  | val
deriving DecidableEq

/-- The loop of `ip4_frag`: the packets that are sent, each in one segment.  `data` is what is left of
the payload, and `alloc i` says whether the allocation for fragment `i` succeeds. -/
def ip4FragLoop (m : FragMtu) (alloc : ℕ → Bool) (hdr : IpHdr) (mfSet : Bool) (i ofo : ℕ)
    (data : List UInt8) : List IpPacket × FragErr :=
  if _h : data = [] then ([], .ok)
  else if alloc i then
    let part := data.take m.size
    let last := data.length ≤ m.mtu - ipHlen
    let tmp := ofo % 0x2000 + if ¬last ∨ mfSet then 0x2000 else 0
    let r := ip4FragLoop m alloc hdr mfSet (i + 1) ((ofo + m.nfb) % 2 ^ 16) (data.drop m.size)
    (⟨⟨fragHdr hdr tmp part.length, part, []⟩, len_fragHdr hdr tmp (fragsize_lt m data)⟩ :: r.1, r.2)
  else ([], .mem)
termination_by data.length
decreasing_by
  have hle := m.le_mtu
  have hpos := List.length_pos_iff.2 _h
  rw [List.length_drop]
  unfold FragMtu.size FragMtu.nfb
  omega

def ip4Frag (m : FragMtu) (alloc : ℕ → Bool) (p : IpPacket) : List IpPacket × FragErr :=
  if p.hdr.hlBytes ≠ ipHlen then ([], .val)
  else ip4FragLoop m alloc p.hdr p.hdr.mf 0 (p.hdr.offset.toNat % 0x2000) p.body

/-! ## The fragments -/

section Fragments

variable (m : FragMtu) (hdr : IpHdr)

theorem FragMtu.size_pos : 0 < m.size := by
  have := m.le_mtu
  unfold FragMtu.size FragMtu.nfb
  omega

theorem FragMtu.size_le : m.size ≤ m.mtu - ipHlen := by
  unfold FragMtu.size FragMtu.nfb
  omega

/-- A packet and where it belongs. -/
def IpPacket.piece (p : IpPacket) : ℕ × List UInt8 := (p.hdr.offsetBytes, p.body)

/-- What all fragments of a packet with the header `hdr` and `total` bytes have: the key, no options, one
segment, a valid checksum, and the other fields of the header.  `IP_MF` is set where more is left than the
MTU. -/
structure FragOf (total : ℕ) (f : IpPacket) : Prop where
  key : f.hdr.key = hdr.key
  vHl : f.hdr.vHl = hdr.vHl
  rest : f.rest = []
  chksum : f.hdr.setChksum = f.hdr
  mf : f.hdr.mf = decide (m.mtu - ipHlen < total - f.hdr.offsetBytes)
  hdr : ∀ len, { f.hdr with len := len, offset := 0 }.setChksum =
    { hdr with len := len, offset := 0 }.setChksum

theorem offset_fragHdr {ofo : ℕ} (hofo : ofo < 0x2000) (mf : Bool) (fragsize : ℕ) :
    (fragHdr hdr (ofo + if mf then 0x2000 else 0) fragsize).offsetBytes = ofo * 8 ∧
      (fragHdr hdr (ofo + if mf then 0x2000 else 0) fragsize).mf = mf := by
  have hlt : (ofo + if mf then 0x2000 else 0) < 2 ^ 16 := by
    split_ifs <;> omega
  have hoffset : (fragHdr hdr (ofo + if mf then 0x2000 else 0) fragsize).offset.toNat =
      ofo + if mf then 0x2000 else 0 := UInt16.toNat_ofNat_of_lt' hlt
  unfold IpHdr.offsetBytes IpHdr.mf
  rw [hoffset]
  cases mf with
  | true =>
    rw [if_pos rfl]
    exact ⟨by omega, decide_eq_true (by omega)⟩
  | false =>
    rw [if_neg Bool.false_ne_true]
    exact ⟨by omega, decide_eq_false (by omega)⟩

theorem ip4FragLoop_nil (alloc : ℕ → Bool) (mfSet : Bool) (i ofo : ℕ) :
    ip4FragLoop m alloc hdr mfSet i ofo [] = ([], .ok) := by
  rw [ip4FragLoop, dif_pos rfl]

/-- The fragment that is cut off when `data` is left. -/
theorem fragOf_first {ofo : ℕ} (hofo : ofo < 0x2000) (data : List UInt8) (f : IpPacket)
    (hf : f.toIpChain = ⟨fragHdr hdr (ofo % 0x2000 +
      if ¬data.length ≤ m.mtu - ipHlen ∨ false = true then 0x2000 else 0)
        (data.take m.size).length, data.take m.size, []⟩) :
    f.piece = (ofo * 8, data.take m.size) ∧ FragOf m hdr (ofo * 8 + data.length) f := by
  have htmp : (ofo % 0x2000 + if ¬data.length ≤ m.mtu - ipHlen ∨ false = true then 0x2000 else 0) =
      ofo + if decide (m.mtu - ipHlen < data.length) then 0x2000 else 0 := by
    simp [Nat.mod_eq_of_lt hofo]
  rw [htmp] at hf
  obtain ⟨hoffset, hmf⟩ := offset_fragHdr hdr hofo (decide (m.mtu - ipHlen < data.length))
    (data.take m.size).length
  have hhdr := congrArg IpChain.hdr hf
  dsimp only at hhdr
  refine ⟨?_, ?_, ?_, congrArg IpChain.rest hf, ?_, ?_, ?_⟩
  · have hbody : f.body = data.take m.size := by
      show f.toIpChain.body = _
      rw [hf]
      exact List.append_nil _
    unfold IpPacket.piece
    rw [hhdr, hoffset, hbody]
  · rw [hhdr]
    rfl
  · rw [hhdr]
    rfl
  · rw [hhdr]
    rfl
  · rw [hhdr, hoffset, hmf, Nat.add_sub_cancel_left]
  · intro len
    rw [hhdr]
    rfl

theorem ip4FragLoop_spec {alloc : ℕ → Bool} (halloc : ∀ i, alloc i = true) (i ofo : ℕ) (data : List UInt8)
    (hlt : ofo * 8 + data.length < 2 ^ 16) :
    (ip4FragLoop m alloc hdr false i ofo data).2 = .ok ∧
      (ip4FragLoop m alloc hdr false i ofo data).1.map IpPacket.piece =
        cut (ofo * 8) (chunks m.size data) ∧
      ∀ f ∈ (ip4FragLoop m alloc hdr false i ofo data).1,
        FragOf m hdr (ofo * 8 + data.length) f := by
  have hpos := m.size_pos
  have hsize := m.size_le
  have hsize_eq : m.size = m.nfb * 8 := rfl
  induction i, ofo, data using ip4FragLoop.induct m alloc hdr false with
  | case1 i ofo =>
    rw [ip4FragLoop, dif_pos rfl, Spans.chunks_nil]
    exact ⟨rfl, rfl, fun f hf => absurd hf List.not_mem_nil⟩
  | case2 i ofo data hne ha ih =>
    have hdata := List.length_pos_iff.2 hne
    rw [ip4FragLoop, dif_neg hne, if_pos ha]
    dsimp only
    rw [Spans.chunks_of_ne_nil hpos hne, cut]
    have hfirst := fragOf_first m hdr (show ofo < 0x2000 by omega) data
    by_cases hshort : data.length ≤ m.size
    · -- the last fragment
      rw [List.drop_of_length_le hshort, ip4FragLoop_nil, Spans.chunks_nil]
      refine ⟨rfl, ?_, ?_⟩
      · rw [List.map_singleton, (hfirst _ rfl).1]
        rfl
      · intro f hf
        rw [List.mem_singleton.1 hf]
        exact (hfirst _ rfl).2
    · have hofo : (ofo + m.nfb) % 2 ^ 16 = ofo + m.nfb := Nat.mod_eq_of_lt (by omega)
      have hoffset : (ofo + m.nfb) * 8 = ofo * 8 + m.size := by omega
      have htake : (data.take m.size).length = m.size := List.length_take_of_le (by omega)
      have hdrop : (data.drop m.size).length = data.length - m.size := List.length_drop
      rw [hofo] at ih ⊢
      obtain ⟨hok, hmap, hfrags⟩ := ih (by omega)
      refine ⟨hok, ?_, ?_⟩
      · rw [List.map_cons, (hfirst _ rfl).1, hmap, htake, hoffset]
      · intro f hf
        rcases List.mem_cons.1 hf with rfl | hf
        · exact (hfirst _ rfl).2
        · have htotal : (ofo + m.nfb) * 8 + (data.drop m.size).length = ofo * 8 + data.length := by omega
          rw [← htotal]
          exact hfrags f hf
  | case3 i ofo data hne ha => exact absurd (halloc i) ha

end Fragments

/-! ## A whole packet in fragments -/

section Whole

variable {m : FragMtu} {p : IpPacket}

/-- The packet and the parts in which `ip4_frag` sends it. -/
def fragDatagram (m : FragMtu) (p : IpPacket) (h : m.size < p.body.length) : SentDatagram where
  hdr := p.hdr
  parts := chunks m.size p.body
  hdr_len := by
    rw [Spans.flatten_chunks m.size_pos]
    exact p.len_eq
  parts_ne := fun _ hx => Spans.ne_nil_of_mem_chunks m.size_pos hx
  two_le := by
    have hpos := m.size_pos
    have hne : p.body ≠ [] := List.ne_nil_of_length_pos (by omega)
    have hdrop : p.body.drop m.size ≠ [] := List.ne_nil_of_length_pos (by rw [List.length_drop]; omega)
    rw [Spans.chunks_of_ne_nil hpos hne, Spans.chunks_of_ne_nil hpos hdrop]
    exact Nat.le_add_left _ _

/-- The rest that is left behind the full fragments does not make the one before it look like the
last. -/
def FragMtu.Clean (m : FragMtu) (n : ℕ) : Prop := n % m.size = 0 ∨ m.mtu - ipHlen - m.size < n % m.size

/-- A packet as `ip4_output_if` builds it: no options, not a fragment, and a valid checksum. -/
structure IsWhole (p : IpPacket) : Prop where
  vHl : p.hdr.vHl = 0x45
  hdr : { p.hdr with offset := 0 }.setChksum = p.hdr

/-- The packet that `ip4_output_if` makes of a payload. -/
theorem isWhole_ip4Output {totLen ipId : UInt16} {ttl tos proto : UInt8} {src dest : UInt32}
    (h : p.hdr = ip4OutputHdr totLen ipId ttl tos proto src dest) : IsWhole p := by
  constructor
  · rw [h]
    rfl
  · rw [h]
    exact setChksum_ip4OutputHdr ..

theorem IsWhole.offset (h : IsWhole p) : p.hdr.offset = 0 := by
  rw [← h.hdr]
  rfl

theorem ip4Frag_spec (h : IsWhole p) {alloc : ℕ → Bool} (halloc : ∀ i, alloc i = true) :
    (ip4Frag m alloc p).2 = .ok ∧
      (ip4Frag m alloc p).1.map IpPacket.piece = cut 0 (chunks m.size p.body) ∧
      ∀ f ∈ (ip4Frag m alloc p).1, FragOf m p.hdr p.body.length f := by
  have hhl : p.hdr.hlBytes = ipHlen := by
    unfold IpHdr.hlBytes
    rw [h.vHl]
    rfl
  have hmf : p.hdr.mf = false := by
    unfold IpHdr.mf
    rw [h.offset]
    rfl
  have hofo : p.hdr.offset.toNat % 0x2000 = 0 := by
    rw [h.offset]
    rfl
  have hspec := ip4FragLoop_spec m p.hdr halloc 0 0 p.body (by
    have := length_body_lt p
    omega)
  rw [Nat.zero_mul, Nat.zero_add] at hspec
  unfold ip4Frag
  rw [if_neg (not_not.2 hhl), hmf, hofo]
  exact hspec

end Whole

/-! ## Delivery -/

/-- What the receiver hands up when the packets arrive one after the other. -/
def handedUp (s : Reass) : List IpPacket → List IpChain
  | [] => []
  | f :: fs => (s.step (.recv f)).2.2.toList ++ handedUp (s.next (.recv f)) fs

section Delivery

variable {g : SentDatagram} {s : Reass} {f : IpPacket} {fs : List IpPacket} {seen : Finset ℕ}

theorem handedUp_append (s : Reass) (fs gs : List IpPacket) :
    handedUp s (fs ++ gs) = handedUp s fs ++ handedUp (Run.exec Reass.next s (fs.map .recv)) gs := by
  induction fs generalizing s with
  | nil => rfl
  | cons f fs ih =>
    show _ ++ handedUp _ (fs ++ gs) = (_ ++ handedUp _ fs) ++ _
    rw [ih, List.append_assoc]
    rfl

/-- There is a place for the datagram: its entry is there, or an element of the pool is free. -/
def HasPlace (g : SentDatagram) (s : Reass) : Prop :=
  (∀ d ∈ s.datagrams, d.iphdr.key ≠ g.hdr.key) → s.free ≠ 0

theorem hasPlace_of_mem {d : ReassData} (hd : d ∈ s.datagrams) (hkey : d.iphdr.key = g.hdr.key) :
    HasPlace g s := fun h => absurd hkey (h d hd)

/-- A fragment takes no more room than its segments, and the datagram keeps its place. -/
theorem room_ip4ReassFrag {pre post : List ReassData} {d : ReassData} {p : IpPacket}
    (hl : QueueSorted d.p) (hhl : p.hdr.hlBytes = ipHlen) (hkey : d.iphdr.key = g.hdr.key)
    (hcounts : s.Counts (pre ++ d :: post)) (hroom : s.pbufcount + p.clen ≤ ipReassMaxPbufs) :
    (ip4ReassFrag s pre d post p).1.pbufcount ≤ s.pbufcount + p.clen ∧
      HasPlace g (ip4ReassFrag s pre d post p).1 := by
  have hmax : ipReassMaxPbufs = 64 := rfl
  have hmod : (s.pbufcount + p.clen) % 2 ^ 16 = s.pbufcount + p.clen := Nat.mod_eq_of_lt (by omega)
  by_cases ha : Accepts d p
  · have hcounts' := counts_replace hcounts (congrArg IpHdr.key (add_iphdr d p)) (segs_add d p) hroom
    by_cases hc : (d.add p).Complete
    · rw [ip4ReassFrag_complete hhl hl ha hc, hmod, clen_chain (ne_nil_add d p)]
      refine ⟨?_, fun _ => Nat.succ_ne_zero _⟩
      have hsegs : (d.add p).segs ≤ s.pbufcount + p.clen := by
        have hcount := (hcounts' []).count
        rw [sum_middle] at hcount
        exact (Nat.le_add_right _ _).trans hcount.ge
      show subU16 (s.pbufcount + p.clen) _ ≤ _
      rw [Nat.mod_eq_of_lt (by omega), subU16_of_le hsegs (by omega)]
      exact Nat.sub_le _ _
    · rw [ip4ReassFrag_queued hhl hl ha hc, hmod]
      refine ⟨Nat.le_refl _, hasPlace_of_mem (d := d.add p) (mem_middle.2 (.inl rfl)) ?_⟩
      rw [add_iphdr, hkey]
  · rw [ip4ReassFrag_dropped hhl hl ha]
    split_ifs
    · exact ⟨Nat.le_add_right _ _, fun _ => Nat.succ_ne_zero _⟩
    · exact ⟨Nat.le_add_right _ _, hasPlace_of_mem (d := d) (mem_middle.2 (.inl rfl)) hkey⟩

theorem room_ip4Reass {R : IpPacket → Prop} (h : s.Inv R) (hR : R f) (hf : g.Sends f)
    (hplace : HasPlace g s) (hroom : s.pbufcount + f.clen ≤ ipReassMaxPbufs) :
    (ip4Reass s f).1.pbufcount ≤ s.pbufcount + f.clen ∧ HasPlace g (ip4Reass s f).1 := by
  rw [ip4Reass_of_room hf.hlen hroom]
  unfold ip4ReassLookup
  dsimp only
  rcases hlookup : ipReassLookup f.hdr s.datagrams with _ | ⟨pre, d, post⟩
  · have hkeys := lookup_eq_none hlookup
    have hfree : s.free ≠ 0 := hplace (by rwa [← hf.key])
    dsimp only
    rw [enqueue_of_free _ _ hfree]
    exact room_ip4ReassFrag List.Pairwise.nil hf.hlen hf.key (counts_new h.counts hfree hkeys _) hroom
  · obtain ⟨hlist, hkey⟩ := lookup_eq_some hlookup
    dsimp only at hlist hkey ⊢
    have hmem : d ∈ s.datagrams := by
      rw [hlist]
      exact mem_middle.2 (.inl rfl)
    obtain ⟨hgood, hkey', hsegs, -⟩ := good_keepHeader (h.entries d hmem).1 hR hkey.symm
    have hcounts := h.counts
    have hle := hcounts.count_le
    rw [hlist] at hcounts
    have hcounts' := counts_replace hcounts hkey' (hsegs.trans (Nat.zero_add _).symm) hle s.datagrams
    exact room_ip4ReassFrag hgood.sorted hf.hlen (hkey'.trans (hkey.trans hf.key)) hcounts' hroom

/-- `ns` are the members of `all` that have not been seen. -/
structure Missing (all seen : Finset ℕ) (ns : List ℕ) : Prop where
  nodup : ns.Nodup
  mem_iff : ∀ n, n ∈ ns ↔ n ∈ all ∧ n ∉ seen
  subset : seen ⊆ all

section Missing

variable {all : Finset ℕ} {n : ℕ} {ns : List ℕ}

theorem Missing.mem (h : Missing all seen (n :: ns)) : n ∈ all :=
  ((h.mem_iff n).1 List.mem_cons_self).1

theorem Missing.tail (h : Missing all seen (n :: ns)) : Missing all (insert n seen) ns := by
  obtain ⟨hnot, hnodup⟩ := List.nodup_cons.1 h.nodup
  refine ⟨hnodup, fun k => ?_, Finset.insert_subset h.mem h.subset⟩
  have hk := h.mem_iff k
  rw [List.mem_cons] at hk
  rw [Finset.mem_insert, not_or]
  constructor
  · intro hmem
    obtain ⟨hall, hseen⟩ := hk.1 (.inr hmem)
    exact ⟨hall, fun heq => hnot (heq ▸ hmem), hseen⟩
  · rintro ⟨hall, hne, hseen⟩
    exact (hk.2 ⟨hall, hseen⟩).resolve_left hne

theorem Missing.eq_nil_iff (h : Missing all seen ns) : ns = [] ↔ seen = all := by
  constructor
  · rintro rfl
    refine h.subset.antisymm fun k hk => ?_
    by_contra hseen
    exact List.not_mem_nil ((h.mem_iff k).2 ⟨hk, hseen⟩)
  · rintro rfl
    exact List.eq_nil_iff_forall_not_mem.2 fun k hk => ((h.mem_iff k).1 hk).2 ((h.mem_iff k).1 hk).1

end Missing

/-- The parts that are missing arrive, in any order. -/
theorem handedUp_missing (h : s.Inv fun _ => True) (hsim : Simulates g s.datagrams seen)
    (hplace : HasPlace g s) (hroom : s.pbufcount + fs.length ≤ ipReassMaxPbufs)
    (hfs : ∀ f ∈ fs, g.Sends f ∧ f.rest = []) (hne : fs ≠ [])
    (hmissing : Missing g.offsets seen (fs.map fun f => f.hdr.offsetBytes)) :
    ∃ c, handedUp s fs = [c] ∧ c.hdr = g.hdr ∧ c.body = g.body := by
  induction fs generalizing s seen with
  | nil => exact absurd rfl hne
  | cons f fs ih =>
    obtain ⟨hf, hrest⟩ := hfs f List.mem_cons_self
    have hclen : f.clen = 1 := by
      show (1 + f.rest.length) % 2 ^ 16 = 1
      rw [hrest]
      rfl
    rw [List.length_cons] at hroom
    have hroom' : s.pbufcount + f.clen ≤ ipReassMaxPbufs := by omega
    obtain ⟨hsim', hnone, hsome⟩ := ip4Reass_sends h trivial hsim hf hroom' hplace
    obtain ⟨hcount, hplace'⟩ := room_ip4Reass h trivial hf hplace hroom'
    have hinv := (reass_step_spec (e := .recv f) h fun _ _ => trivial).1
    have hstep : s.step (.recv f) = ip4Reass s f := ip4InputReass_of_frag hf.frag_ne
    have hnext : s.next (.recv f) = (ip4Reass s f).1 := congrArg Prod.fst hstep
    have hall : fs = [] ↔ insert f.hdr.offsetBytes seen = g.offsets :=
      List.map_eq_nil_iff.symm.trans hmissing.tail.eq_nil_iff
    unfold handedUp
    rw [hstep] at hinv ⊢
    rw [hnext]
    by_cases hlast : fs = []
    · -- the last one completes the set
      obtain ⟨c, hc, hhdr, hbody⟩ := hsome (by rw [collect_of_eq (hall.1 hlast)])
      refine ⟨c, ?_, hhdr, hbody⟩
      rw [hc, hlast]
      rfl
    · rw [collect_of_ne fun heq => hlast (hall.2 heq)] at hsim' hnone
      rw [hnone rfl, Option.toList_none, List.nil_append]
      exact ih hinv hsim' hplace' (by omega) (fun f hf => hfs f (List.mem_cons_of_mem _ hf)) hlast
        hmissing.tail

/-- All parts arrive, in any order, where nothing of the datagram is queued and there is room. -/
theorem handedUp_all (h : s.Inv fun _ => True) (hnew : ∀ d ∈ s.datagrams, d.iphdr.key ≠ g.hdr.key)
    (hfree : s.free ≠ 0) (hroom : s.pbufcount + fs.length ≤ ipReassMaxPbufs)
    (hfs : ∀ f ∈ fs, g.Sends f ∧ f.rest = []) (hperm : (fs.map IpPacket.piece).Perm g.pieces) :
    ∃ c, handedUp s fs = [c] ∧ c.hdr = g.hdr ∧ c.body = g.body := by
  have hperm' : (fs.map fun f => f.hdr.offsetBytes).Perm (g.pieces.map Prod.fst) := by
    have := hperm.map Prod.fst
    rwa [List.map_map] at this
  have hsorted := SentDatagram.sorted_pieces (g := g)
  refine handedUp_missing h ⟨.inl ⟨rfl, hnew⟩, SentDatagram.offsets_ne_empty.symm⟩ (fun _ => hfree)
    hroom hfs ?_ ⟨?_, fun n => ?_, Finset.empty_subset _⟩
  · rintro rfl
    exact SentDatagram.pieces_ne_nil (List.Perm.eq_nil hperm.symm)
  · rw [hperm'.nodup_iff]
    exact hsorted.nodup.map_on fun x hx y hy => hsorted.eq_of_lo_eq hx hy
  · rw [hperm'.mem_iff, SentDatagram.offsets, List.mem_toFinset]
    exact (and_iff_left (Finset.notMem_empty n)).symm

end Delivery

/-! ## What arrives -/

section Arrival

variable {m : FragMtu} {p f : IpPacket}

theorem FragMtu.lt_size_add : m.mtu - ipHlen < m.size + 8 ∧ 8 ≤ m.size := by
  have := m.le_mtu
  unfold FragMtu.size FragMtu.nfb
  omega

/-- A fragment is a part of a datagram, if it is one of the parts and `IP_MF` is right. -/
theorem FragOf.sends {g : SentDatagram} (hp : IsWhole p) (hf : FragOf m p.hdr p.body.length f)
    (hkey : g.hdr.key = p.hdr.key)
    (hhdr : { p.hdr with len := g.hdr.len, offset := 0 }.setChksum = g.hdr) (hpiece : f.piece ∈ g.pieces)
    (hmf : p.body.length - f.hdr.offsetBytes ≤ m.mtu - ipHlen ↔ cutEnd f.piece = g.body.length) :
    g.Sends f := by
  refine ⟨hf.key.trans hkey.symm, ?_, hpiece, ?_, (hf.hdr _).trans hhdr⟩
  · unfold IpHdr.hlBytes
    rw [hf.vHl, hp.vHl]
    rfl
  · rw [hf.mf, decide_eq_false_iff_not, Nat.not_lt, hmf]
    rfl

/-- Without a short rest, only the fragment that ends the packet is taken for the last. -/
theorem sends_of_clean (hp : IsWhole p) (hlong : m.size < p.body.length) (hclean : m.Clean p.body.length)
    (hf : FragOf m p.hdr p.body.length f) (hpiece : f.piece ∈ cut 0 (chunks m.size p.body)) :
    (fragDatagram m p hlong).Sends f := by
  have hbody : (fragDatagram m p hlong).body = p.body := Spans.flatten_chunks m.size_pos p.body
  refine hf.sends hp rfl hp.hdr hpiece ?_
  obtain ⟨⟨j, hj⟩, hlt, hlen⟩ := Spans.mem_cut_chunks m.size_pos hpiece
  have hsize := m.size_le
  have hsize' := m.lt_size_add
  rw [hbody]
  unfold IpPacket.piece at hj hlt hlen ⊢
  unfold cutEnd
  dsimp only at hj hlt hlen ⊢
  rw [hlen]
  rw [Nat.zero_add] at hj hlt ⊢
  constructor
  · intro hle
    have hshort : p.body.length - f.hdr.offsetBytes ≤ m.size := by
      by_contra hgt
      -- the rest behind this fragment would be a short one
      have hmod : p.body.length % m.size = p.body.length - f.hdr.offsetBytes - m.size := by
        have hsplit : p.body.length =
            (p.body.length - f.hdr.offsetBytes - m.size) + (j + 1) * m.size := by
          rw [Nat.add_mul, Nat.one_mul]
          omega
        conv_lhs => rw [hsplit, Nat.add_mul_mod_self_right]
        exact Nat.mod_eq_of_lt (by omega)
      rcases hclean with h | h <;> omega
    omega
  · intro hend
    omega

/-- What the receiver takes for the packet where there is a short rest. -/
def truncated (m : FragMtu) (p : IpPacket) (h : 2 * m.size < p.body.length) : SentDatagram where
  hdr := { p.hdr with
    len := .ofNat (ipHlen + (chunks m.size p.body).dropLast.flatten.length), offset := 0 }.setChksum
  parts := (chunks m.size p.body).dropLast
  hdr_len := by
    have hlt := p.hdr.len.toNat_lt
    have hlen : p.hdr.len.toNat = ipHlen + p.body.length := p.len_eq
    have hsub : (chunks m.size p.body).dropLast.flatten.length ≤ p.body.length := by
      conv_rhs => rw [← Spans.flatten_chunks m.size_pos p.body]
      exact (List.dropLast_sublist _).flatten.length_le
    exact UInt16.toNat_ofNat_of_lt' (show _ < 2 ^ 16 by omega)
  parts_ne := fun _ hx => Spans.ne_nil_of_mem_chunks m.size_pos (List.mem_of_mem_dropLast hx)
  two_le := by
    have hpos := m.size_pos
    have hne : p.body ≠ [] := List.ne_nil_of_length_pos (by omega)
    have hdrop : p.body.drop m.size ≠ [] := List.ne_nil_of_length_pos (by rw [List.length_drop]; omega)
    have hdrop' : (p.body.drop m.size).drop m.size ≠ [] :=
      List.ne_nil_of_length_pos (by rw [List.length_drop, List.length_drop]; omega)
    rw [Spans.chunks_of_ne_nil hpos hne, Spans.chunks_of_ne_nil hpos hdrop,
      Spans.chunks_of_ne_nil hpos hdrop', List.length_dropLast]
    exact Nat.le_add_left _ _

/-- With a short rest, the fragment before it is taken for the last. -/
theorem sends_truncated (hp : IsWhole p) (hlong : 2 * m.size < p.body.length)
    (hclean : ¬m.Clean p.body.length) (hf : FragOf m p.hdr p.body.length f) {ys : List (List UInt8)}
    {y : List UInt8} (hys : chunks m.size p.body = ys ++ [y]) (hpiece : f.piece ∈ cut 0 ys) :
    (truncated m p hlong).Sends f := by
  have hparts : (truncated m p hlong).parts = ys := by
    show (chunks m.size p.body).dropLast = ys
    rw [hys, List.dropLast_concat]
  have hcut : cut 0 (chunks m.size p.body) = cut 0 ys ++ [(0 + ys.flatten.length, y)] := by
    rw [hys, Spans.cut_concat]
  have htotal : p.body.length = ys.flatten.length + y.length := by
    rw [← Spans.flatten_chunks m.size_pos p.body, hys, List.flatten_append, List.length_append,
      List.flatten_singleton]
  have hsize := m.size_le
  have hsize' := m.lt_size_add
  have hsize_pos := m.size_pos
  -- the rest, and where this fragment lies
  obtain ⟨⟨q, hq⟩, -, hy⟩ := Spans.mem_cut_chunks m.size_pos (x := (0 + ys.flatten.length, y)) (by
    rw [hcut]
    exact List.mem_append_right _ (List.mem_singleton_self _))
  obtain ⟨⟨i, hi⟩, -, hlen⟩ := Spans.mem_cut_chunks m.size_pos (x := f.piece) (by
    rw [hcut]
    exact List.mem_append_left _ hpiece)
  have hend := Spans.cutEnd_le_of_mem_cut hpiece
  have hbody : (truncated m p hlong).body.length = ys.flatten.length := by
    unfold SentDatagram.body
    rw [hparts]
  unfold IpPacket.piece cutEnd at *
  dsimp only at hq hy hi hlen hend
  have hmod : p.body.length % m.size = y.length % m.size := by
    rw [htotal, ← Nat.zero_add ys.flatten.length, hq, Nat.zero_add, Nat.mul_add_mod_self_right]
  have hshort : 0 < y.length ∧ y.length ≤ m.mtu - ipHlen - m.size := by
    obtain ⟨hne, hle⟩ := not_or.1 hclean
    rw [hmod] at hne hle
    have hlt : y.length < m.size := by
      by_contra hge
      have heq : y.length = m.size := by omega
      rw [heq, Nat.mod_self] at hne
      exact hne rfl
    rw [Nat.mod_eq_of_lt hlt] at hne hle
    omega
  have hlt : i < q := by
    have : i * m.size < q * m.size := by omega
    exact Nat.lt_of_mul_lt_mul_right this
  refine hf.sends hp rfl ?_ ?_ ?_
  · rfl
  · unfold SentDatagram.pieces
    rwa [hparts]
  · show _ ↔ f.hdr.offsetBytes + f.body.length = _
    rw [hbody]
    rcases Nat.lt_or_ge (i + 1) q with hmore | hlast
    · have hmul : (i + 2) * m.size ≤ q * m.size := Nat.mul_le_mul_right _ hmore
      rw [Nat.add_mul] at hmul
      omega
    · obtain rfl : q = i + 1 := by omega
      rw [Nat.add_mul, Nat.one_mul] at hq
      omega

/-- The packets `fs` make the receiver hand up the packet `p`, once and as it was. -/
def Arrives (s : Reass) (p : IpPacket) (fs : List IpPacket) : Prop :=
  ∃ c, handedUp s fs = [c] ∧ c.hdr = p.hdr ∧ c.body = p.body

variable {s : Reass} {alloc : ℕ → Bool}

theorem arrives_of_clean (hp : IsWhole p) (hlong : m.size < p.body.length)
    (hclean : m.Clean p.body.length) (halloc : ∀ i, alloc i = true) (hs : s.Inv fun _ => True)
    (hnew : ∀ d ∈ s.datagrams, d.iphdr.key ≠ p.hdr.key) (hfree : s.free ≠ 0)
    (hroom : s.pbufcount + (ip4Frag m alloc p).1.length ≤ ipReassMaxPbufs) {fs : List IpPacket}
    (hperm : fs.Perm (ip4Frag m alloc p).1) : Arrives s p fs := by
  obtain ⟨-, hpieces, hfrags⟩ := ip4Frag_spec (m := m) hp halloc
  have hbody : (fragDatagram m p hlong).body = p.body := Spans.flatten_chunks m.size_pos p.body
  have hall := handedUp_all (g := fragDatagram m p hlong) hs hnew hfree
    (by rwa [hperm.length_eq]) ?_ ?_
  · rwa [hbody] at hall
  · intro f hf
    have hmem := hperm.mem_iff.1 hf
    have hfrag := hfrags f hmem
    refine ⟨sends_of_clean hp hlong hclean hfrag ?_, hfrag.rest⟩
    rw [← hpieces]
    exact List.mem_map_of_mem hmem
  · have hmap := hperm.map IpPacket.piece
    rwa [hpieces] at hmap

/-- The receiver hands up a truncated packet before the rest is there. -/
theorem not_arrives_of_not_clean (hp : IsWhole p) (hlong : m.mtu - ipHlen < p.body.length)
    (hclean : ¬m.Clean p.body.length) (halloc : ∀ i, alloc i = true) (hs : s.Inv fun _ => True)
    (hnew : ∀ d ∈ s.datagrams, d.iphdr.key ≠ p.hdr.key) (hfree : s.free ≠ 0)
    (hroom : s.pbufcount + (ip4Frag m alloc p).1.length ≤ ipReassMaxPbufs) :
    ¬Arrives s p (ip4Frag m alloc p).1 := by
  obtain ⟨-, hpieces, hfrags⟩ := ip4Frag_spec (m := m) hp halloc
  have htwo : 2 * m.size < p.body.length := by
    obtain ⟨hne, hle⟩ := not_or.1 hclean
    have hdiv := Nat.div_add_mod p.body.length m.size
    have hsize := m.size_le
    rcases Nat.lt_or_ge (p.body.length / m.size) 2 with hlt | hge
    · have : m.size * (p.body.length / m.size) ≤ m.size * 1 := Nat.mul_le_mul_left _ (by omega)
      omega
    · have : m.size * 2 ≤ m.size * (p.body.length / m.size) := Nat.mul_le_mul_left _ hge
      omega
  obtain ⟨ys, y, hys⟩ : ∃ ys y, chunks m.size p.body = ys ++ [y] := by
    rcases List.eq_nil_or_concat' (chunks m.size p.body) with hnil | hconcat
    · have hflat := Spans.flatten_chunks m.size_pos p.body
      rw [hnil] at hflat
      rw [← hflat] at htwo
      exact absurd htwo (Nat.not_lt_zero _)
    · exact hconcat
  rw [hys, Spans.cut_concat] at hpieces
  obtain ⟨fs, gs, hfs, hmap, hrest⟩ := List.map_eq_append_iff.1 hpieces
  have hparts : (truncated m p htwo).parts = ys := by
    show (chunks m.size p.body).dropLast = ys
    rw [hys, List.dropLast_concat]
  rw [hfs] at hfrags hroom ⊢
  have hroom' : s.pbufcount + fs.length ≤ ipReassMaxPbufs := by
    rw [List.length_append] at hroom
    omega
  obtain ⟨c, hc, -, hbody⟩ := handedUp_all (g := truncated m p htwo) hs hnew hfree hroom' (by
      intro f hf
      have hfrag := hfrags f (List.mem_append_left _ hf)
      refine ⟨sends_truncated hp htwo hclean hfrag hys ?_, hfrag.rest⟩
      rw [← hmap]
      exact List.mem_map_of_mem hf) (by
      unfold SentDatagram.pieces
      rw [hmap, hparts])
  rintro ⟨c', hc', -, hbody'⟩
  rw [handedUp_append, hc] at hc'
  obtain ⟨rfl, -⟩ := List.cons.inj hc'
  have hflat := Spans.flatten_chunks m.size_pos p.body
  rw [hys, List.flatten_append, List.flatten_singleton, ← hbody', hbody] at hflat
  have hy : y ≠ [] := Spans.ne_nil_of_mem_chunks m.size_pos (l := p.body) (by
    rw [hys]
    exact List.mem_append_right _ (List.mem_singleton_self y))
  unfold SentDatagram.body at hflat
  rw [hparts] at hflat
  exact hy (List.append_right_eq_self.1 hflat)

/-- A fragment fits the MTU and passes the checks of the receiver. -/
theorem fragment_passes (hp : IsWhole p) (halloc : ∀ i, alloc i = true) (hf : f ∈ (ip4Frag m alloc p).1)
    (pad : List UInt8) :
    f.hdr.len.toNat ≤ m.mtu ∧ ip4InputChecks (f.hdr.toBytes ++ (f.data ++ pad)) [] = some f := by
  obtain ⟨-, hpieces, hfrags⟩ := ip4Frag_spec (m := m) hp halloc
  have hfrag := hfrags f hf
  have hmem : f.piece ∈ cut 0 (chunks m.size p.body) := by
    rw [← hpieces]
    exact List.mem_map_of_mem hf
  obtain ⟨-, -, hlen⟩ := Spans.mem_cut_chunks m.size_pos hmem
  have hlen_eq : f.hdr.len.toNat = ipHlen + f.piece.2.length := f.len_eq
  have hsize := m.size_le
  have hle := m.le_mtu
  refine ⟨by omega, ?_⟩
  exact ip4InputChecks_single (hfrag.vHl.trans hp.vHl) hfrag.chksum hfrag.rest pad

/-- A packet never needs more than 48 fragments. -/
theorem length_ip4Frag_le (hp : IsWhole p) (halloc : ∀ i, alloc i = true) :
    (ip4Frag athMtu alloc p).1.length ≤ 48 := by
  obtain ⟨-, hpieces, -⟩ := ip4Frag_spec (m := athMtu) hp halloc
  have hlen := congrArg List.length hpieces
  rw [List.length_map, Spans.length_cut] at hlen
  have hmul := Spans.length_chunks_mul_lt athMtu.size_pos p.body
  have hbody := length_body_lt p
  have hsize : athMtu.size = 1368 := by decide
  rw [hsize] at hmul hlen
  omega

end Arrival

/-- **Fragmentation.** Every fragment of a packet fits the MTU of the driver and passes the checks of
`ip4_input`, whatever stands behind it in the frame.  From any state in which the receiver has room and
holds nothing under its key, a packet that is longer than the MTU arrives, if its fragments arrive in
order, exactly when the rest behind the full fragments is none or longer than four bytes; and then it
arrives in whatever order the fragments do. -/
theorem ip4Frag_reass_iff (es : List ReassEvent) (p : IpPacket) (hp : IsWhole p)
    (hmtu : ifMtuSize < p.hdr.len.toNat) {alloc : ℕ → Bool} (halloc : ∀ i, alloc i = true)
    (hnew : ∀ d ∈ (Run.exec Reass.next .init es).datagrams, d.iphdr.key ≠ p.hdr.key)
    (hfree : (Run.exec Reass.next .init es).free ≠ 0)
    (hcount : (Run.exec Reass.next .init es).pbufcount ≤ 16) :
    let s := Run.exec Reass.next .init es
    let fs := (ip4Frag athMtu alloc p).1
    (∀ f ∈ fs, f.hdr.len.toNat ≤ ifMtuSize ∧
        ∀ pad, ip4InputChecks (f.hdr.toBytes ++ (f.data ++ pad)) [] = some f) ∧
      (Arrives s p fs ↔ p.body.length % 1368 = 0 ∨ 4 < p.body.length % 1368) ∧
      (Arrives s p fs → ∀ gs : List IpPacket, gs.Perm fs → Arrives s p gs) := by
  intro s fs
  have hinv : s.Inv fun _ => True :=
    Run.inv_exec' (I := Reass.Inv fun _ => True)
      (fun s a hs => (reass_step_spec hs fun _ _ => trivial).1) (reass_inv_init _)
  have hroom : s.pbufcount + (ip4Frag athMtu alloc p).1.length ≤ ipReassMaxPbufs := by
    have hle := length_ip4Frag_le hp halloc
    have hcount' : s.pbufcount ≤ 16 := hcount
    have hmax : ipReassMaxPbufs = 64 := rfl
    omega
  have hlong : athMtu.mtu - ipHlen < p.body.length := by
    have hlen : p.hdr.len.toNat = ipHlen + p.body.length := p.len_eq
    have hmtu' : athMtu.mtu < p.hdr.len.toNat := hmtu
    have hle := athMtu.le_mtu
    omega
  have hlong' := athMtu.size_le.trans_lt hlong
  have hclean : athMtu.Clean p.body.length ↔
      p.body.length % 1368 = 0 ∨ 4 < p.body.length % 1368 := Iff.rfl
  have hiff : Arrives s p fs ↔ athMtu.Clean p.body.length := by
    constructor
    · intro h
      by_contra hnot
      exact not_arrives_of_not_clean hp hlong hnot halloc hinv hnew hfree hroom h
    · intro h
      exact arrives_of_clean hp hlong' h halloc hinv hnew hfree hroom (List.Perm.refl _)
  have hpasses : ∀ f ∈ fs, f.hdr.len.toNat ≤ ifMtuSize ∧
      ∀ pad, ip4InputChecks (f.hdr.toBytes ++ (f.data ++ pad)) [] = some f := fun f hf =>
    ⟨(fragment_passes hp halloc hf []).1, fun pad => (fragment_passes hp halloc hf pad).2⟩
  refine ⟨hpasses, hiff.trans hclean, fun h gs hperm => ?_⟩
  exact arrives_of_clean hp hlong' (hiff.1 h) halloc hinv hnew hfree hroom hperm

/-- A datagram of 1400 bytes arrives, and one of 1369 bytes more does not. -/
theorem ip4Frag_reass_iff_rest :
    let hdr := fun n => ip4OutputHdr (.ofNat (ipHlen + n)) 7 255 0 17 0x0101A8C0 0x0201A8C0
    ∃ p q : IpPacket, p.toIpChain = ⟨hdr 1400, .replicate 1400 0, []⟩ ∧
      q.toIpChain = ⟨hdr 2737, .replicate 2737 0, []⟩ ∧
      Arrives .init p (ip4Frag athMtu (fun _ => true) p).1.reverse ∧
      ¬Arrives .init q (ip4Frag athMtu (fun _ => true) q).1 := by
  intro hdr
  have hlen : ∀ n, n < 3000 → (hdr n).len.toNat =
      ipHlen + (List.replicate n (0 : UInt8) ++ ([] : List (List UInt8)).flatten).length := by
    intro n hn
    rw [List.flatten_nil, List.append_nil, List.length_replicate]
    exact UInt16.toNat_ofNat_of_lt' (show _ < 2 ^ 16 by unfold ipHlen; omega)
  have hbody : ∀ n, (IpChain.mk (hdr n) (.replicate n 0) []).body.length = n := by
    intro n
    show (List.replicate n (0 : UInt8) ++ []).length = n
    rw [List.append_nil, List.length_replicate]
  obtain ⟨p, hp⟩ : ∃ p : IpPacket, p.toIpChain = ⟨hdr 1400, .replicate 1400 0, []⟩ :=
    ⟨⟨_, hlen 1400 (by decide)⟩, rfl⟩
  obtain ⟨q, hq⟩ : ∃ q : IpPacket, q.toIpChain = ⟨hdr 2737, .replicate 2737 0, []⟩ :=
    ⟨⟨_, hlen 2737 (by decide)⟩, rfl⟩
  refine ⟨p, q, hp, hq, ?_, ?_⟩
  · obtain ⟨-, hiff, hperm⟩ := ip4Frag_reass_iff [] p (isWhole_ip4Output (congrArg IpChain.hdr hp))
      (by rw [hp]; decide) (fun _ => rfl) (fun _ hd => absurd hd List.not_mem_nil) (by decide) (by decide)
    refine hperm (hiff.2 (.inr ?_)) _ (List.reverse_perm _)
    rw [hp, hbody]
    decide
  · obtain ⟨-, hiff, -⟩ := ip4Frag_reass_iff [] q (isWhole_ip4Output (congrArg IpChain.hdr hq))
      (by rw [hq]; decide) (fun _ => rfl) (fun _ hd => absurd hd List.not_mem_nil) (by decide) (by decide)
    intro h
    have := hiff.1 h
    rw [hq, hbody] at this
    exact absurd this (by decide)

end DsiWifi
