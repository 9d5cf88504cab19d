import DsiWifi.Lwip.Ip4ReassRuns
import Mathlib.Data.Finset.Basic

/-!
# Fragments in any order

What the reassembly is for: a datagram that was sent in parts is handed up when all parts are there,
whatever order they arrive in, however often, and whatever arrives in between.  The abstract machine
keeps the set of offsets that were seen and starts anew when it is complete (`collect`); the code follows
it, as long as there is room and the datagram does not time out (`reass_collects`).
-/

namespace DsiWifi

open Spans (Sorted Tiles Apart cut cutEnd)

/-! ## The abstract machine -/

/-- One more part is seen: the set of those that count towards the next datagram, and whether one is
complete. -/
def collect (all seen : Finset ℕ) (x : ℕ) : Finset ℕ × Bool :=
  if insert x seen = all then (∅, true) else (insert x seen, false)

/-! ## The sender -/

/-- A datagram and the parts in which it is sent. -/
structure SentDatagram where
  hdr : IpHdr
  parts : List (List UInt8)
  hdr_len : hdr.len.toNat = ipHlen + parts.flatten.length
  parts_ne : ∀ x ∈ parts, x ≠ []
  two_le : 2 ≤ parts.length

namespace SentDatagram

variable (g : SentDatagram)

def body : List UInt8 := g.parts.flatten

/-- The parts with their offsets. -/
def pieces : List (ℕ × List UInt8) := cut 0 g.parts

/-- The offsets of the parts. -/
def offsets : Finset ℕ := (g.pieces.map Prod.fst).toFinset

/-- A packet that carries a part of the datagram.  Only the last part is without `IP_MF`, and the headers
differ in the length, the offset and the checksum only. -/
structure Sends (p : IpPacket) : Prop where
  key : p.hdr.key = g.hdr.key
  hlen : p.hdr.hlBytes = ipHlen
  piece : (p.hdr.offsetBytes, p.body) ∈ g.pieces
  mf : p.hdr.mf = false ↔ p.frag.stop = g.body.length
  hdr : { p.hdr with len := g.hdr.len, offset := 0 }.setChksum = g.hdr

variable {g}

theorem sorted_pieces : Sorted Prod.fst cutEnd g.pieces := Spans.sorted_cut 0 g.parts_ne

theorem pieces_ne_nil : g.pieces ≠ [] := by
  have htwo := g.two_le
  unfold pieces
  rcases hp : g.parts with _ | ⟨x, xs⟩
  · rw [hp] at htwo
    exact absurd htwo (by decide)
  · exact List.cons_ne_nil _ _

theorem mem_offsets {n : ℕ} : n ∈ g.offsets ↔ ∃ x ∈ g.pieces, x.1 = n := by
  unfold offsets
  rw [List.mem_toFinset, List.mem_map]

theorem offsets_ne_empty : g.offsets ≠ ∅ := by
  obtain ⟨x, hx⟩ := List.exists_mem_of_ne_nil _ (pieces_ne_nil (g := g))
  intro h
  have := mem_offsets.2 ⟨x, hx, rfl⟩
  rw [h] at this
  exact absurd this (Finset.notMem_empty _)

/-- The last part, and where it ends. -/
theorem exists_last : ∃ e, g.pieces.getLast? = some e ∧ cutEnd e = g.body.length := by
  obtain ⟨e, he⟩ := List.getLast?_isSome.2 (pieces_ne_nil (g := g)) |> Option.isSome_iff_exists.1
  refine ⟨e, he, ?_⟩
  have := Spans.cutEnd_getLast he
  rwa [Nat.zero_add] at this

/-- No part ends behind the last. -/
theorem cutEnd_le {x : ℕ × List UInt8} (hx : x ∈ g.pieces) : cutEnd x ≤ g.body.length := by
  have := Spans.cutEnd_le_of_mem_cut hx
  rwa [Nat.zero_add] at this

/-- Only the last part ends with it. -/
theorem eq_last {x e : ℕ × List UInt8} (hx : x ∈ g.pieces) (hend : cutEnd x = g.body.length)
    (he : g.pieces.getLast? = some e) : x = e := by
  have hmem := List.mem_of_getLast? he
  have hlen : ∀ y ∈ g.pieces, y.1 < cutEnd y := fun y hy =>
    Nat.lt_add_of_pos_right (List.length_pos_iff.2 (g.parts_ne _ (Spans.mem_of_mem_cut hy)))
  by_contra hne
  have hxlen := hlen x hx
  have helen := hlen e hmem
  have hle := cutEnd_le hmem
  rcases sorted_pieces.apart_of_ne hx hmem hne with h | h
  · have := h.2
    omega
  · obtain ⟨e', he', hend'⟩ := exists_last (g := g)
    obtain rfl := Option.some.inj (he.symm.trans he')
    have := h.2
    omega

/-- A part is not the whole: it has an offset or a successor. -/
theorem Sends.frag_ne {p : IpPacket} (hp : g.Sends p) : p.hdr.offset.toNat % 0x4000 ≠ 0 := by
  intro h
  have hoff : p.hdr.offsetBytes = 0 := by
    unfold IpHdr.offsetBytes
    omega
  have hmf : p.hdr.mf = false := by
    unfold IpHdr.mf
    rw [decide_eq_false_iff_not]
    omega
  obtain ⟨e, he, -⟩ := exists_last (g := g)
  have hlast := eq_last hp.piece (hp.mf.1 hmf) he
  -- but the last of two parts has an offset
  have htwo := g.two_le
  have hne := g.parts_ne
  unfold pieces at he
  rcases hparts : g.parts with _ | ⟨x, _ | ⟨y, zs⟩⟩
  · rw [hparts] at htwo
    simp at htwo
  · rw [hparts] at htwo
    simp at htwo
  · rw [hparts] at he hne
    have hmem : e ∈ cut (0 + x.length) (y :: zs) := by
      rw [cut, cut, List.getLast?_cons_cons] at he
      rw [cut]
      exact List.mem_of_getLast? he
    have hle := Spans.le_of_mem_cut hmem
    have hpos := List.length_pos_iff.2 (hne x List.mem_cons_self)
    have hzero : e.1 = 0 := by
      rw [← hlast]
      exact hoff
    omega

end SentDatagram

/-! ## What the code has collected -/

section Collected

variable {g : SentDatagram} {R : IpPacket → Prop} {d : ReassData} {p : IpPacket} {seen : Finset ℕ}

/-- The entry of the datagram holds the parts at the offsets `seen`. -/
structure Collected (g : SentDatagram) (d : ReassData) (seen : Finset ℕ) : Prop where
  frags : ∀ f ∈ d.p, g.Sends f.p
  seen : ∀ n, n ∈ seen ↔ ∃ f ∈ d.p, f.start = n
  last : d.lastfrag = true ↔ ∃ f ∈ d.p, f.stop = g.body.length
  len : d.lastfrag = true → d.datagramLen = g.body.length
  hdr : { d.iphdr with len := g.hdr.len, offset := 0 }.setChksum = g.hdr

/-- A queued fragment as a part. -/
def ReassFrag.piece (f : ReassFrag) : ℕ × List UInt8 := (f.start, f.p.body)

theorem ReassData.Good.piece_mem (hd : d.Good R) (hc : Collected g d seen) {f : ReassFrag} (hf : f ∈ d.p) :
    f.piece ∈ g.pieces ∧ cutEnd f.piece = f.stop := by
  have hfrag := (hd.frags f hf).1
  have hpiece := (hc.frags f hf).piece
  have hstart : f.start = f.p.hdr.offsetBytes := congrArg ReassFrag.start hfrag
  have hstop : f.stop = f.p.hdr.offsetBytes + f.p.body.length := congrArg ReassFrag.stop hfrag
  unfold ReassFrag.piece cutEnd
  rw [hstart, hstop]
  exact ⟨hpiece, rfl⟩

theorem ReassData.Good.sorted_map_piece (hd : d.Good R) (hc : Collected g d seen) :
    Sorted Prod.fst cutEnd (d.p.map ReassFrag.piece) := by
  unfold Sorted
  rw [List.pairwise_map]
  refine hd.sorted.imp_of_mem ?_
  intro a b ha _ hab
  refine ⟨hab.1, ?_⟩
  rw [(hd.piece_mem hc ha).2]
  exact hab.2

theorem tiles_map_piece (l : List ReassFrag) (hl : ∀ f ∈ l, cutEnd f.piece = f.stop) (k : ℕ) :
    Tiles Prod.fst cutEnd k (l.map ReassFrag.piece) ↔ Tiles ReassFrag.start ReassFrag.stop k l := by
  induction l generalizing k with
  | nil => exact Iff.rfl
  | cons f l ih =>
    show f.start = k ∧ Tiles Prod.fst cutEnd (cutEnd f.piece) (l.map ReassFrag.piece) ↔ _
    rw [hl f List.mem_cons_self, ih fun g hg => hl g (List.mem_cons_of_mem _ hg)]
    rfl

/-- The queue holds all parts. -/
theorem map_piece_eq_iff (hd : d.Good R) (hc : Collected g d seen) :
    d.p.map ReassFrag.piece = g.pieces ↔ seen = g.offsets := by
  constructor
  · intro h
    ext n
    rw [hc.seen, SentDatagram.mem_offsets, ← h]
    simp only [List.mem_map, exists_exists_and_eq_and]
    rfl
  · intro h
    have hsorted := hd.sorted_map_piece hc
    refine hsorted.eq_of_perm SentDatagram.sorted_pieces ?_
    refine (List.perm_ext_iff_of_nodup hsorted.nodup SentDatagram.sorted_pieces.nodup).2 fun x => ?_
    constructor
    · intro hx
      obtain ⟨f, hf, rfl⟩ := List.mem_map.1 hx
      exact (hd.piece_mem hc hf).1
    · intro hx
      have hseen : x.1 ∈ seen := by
        rw [h]
        exact SentDatagram.mem_offsets.2 ⟨x, hx, rfl⟩
      obtain ⟨f, hf, hstart⟩ := (hc.seen x.1).1 hseen
      have heq : f.piece = x := SentDatagram.sorted_pieces.eq_of_lo_eq (hd.piece_mem hc hf).1 hx hstart
      rw [← heq]
      exact List.mem_map_of_mem hf

/-- The code's test for completeness is the right one. -/
theorem complete_iff (hd : d.Good R) (hc : Collected g d seen) : d.Complete ↔ seen = g.offsets := by
  obtain ⟨e, he, hend⟩ := SentDatagram.exists_last (g := g)
  have htiles := tiles_map_piece d.p (fun f hf => (hd.piece_mem hc hf).2) 0
  rw [← map_piece_eq_iff hd hc]
  constructor
  · rintro ⟨hlast, ht⟩
    obtain ⟨f, hf, hstop⟩ := hc.last.1 hlast
    obtain ⟨hmem, hcut⟩ := hd.piece_mem hc hf
    have hfe : f.piece = e := SentDatagram.eq_last hmem (hcut.trans hstop) he
    refine Spans.eq_of_tiles SentDatagram.sorted_pieces (Spans.tiles_cut 0 g.parts)
      (hd.sorted_map_piece hc) ?_ (htiles.2 ht) he ?_
    · intro x hx
      obtain ⟨f', hf', rfl⟩ := List.mem_map.1 hx
      exact (hd.piece_mem hc hf').1
    · rw [← hfe]
      exact List.mem_map_of_mem hf
  · intro h
    refine ⟨hc.last.2 ?_, htiles.1 ?_⟩
    · have hmem := List.mem_of_getLast? he
      rw [← h] at hmem
      obtain ⟨f, hf, hfe⟩ := List.mem_map.1 hmem
      refine ⟨f, hf, ?_⟩
      rw [← (hd.piece_mem hc hf).2, hfe, hend]
    · rw [h]
      exact Spans.tiles_cut 0 g.parts

/-- What is handed up then is the datagram. -/
theorem chain_eq (hd : d.Good R) (hne : d.p ≠ []) (hc : Collected g d seen) (h : d.Complete) :
    d.chain.hdr = g.hdr ∧ d.chain.body = g.body := by
  have hlen : UInt16.ofNat (d.datagramLen + ipHlen) = g.hdr.len := by
    rw [hc.len h.1, Nat.add_comm]
    unfold SentDatagram.body
    rw [← g.hdr_len, UInt16.ofNat_toNat]
  constructor
  · rw [chain_hdr, hlen]
    exact hc.hdr
  · have hpieces := (map_piece_eq_iff hd hc).2 ((complete_iff hd hc).1 h)
    have hbody : d.p.flatMap (fun f => f.p.body) = (d.p.map ReassFrag.piece).flatMap Prod.snd := by
      rw [List.flatMap_map]
      rfl
    rw [body_chain hne, hbody, hpieces]
    exact Spans.flatMap_cut 0 g.parts

/-! ### One more fragment -/

/-- A new entry. -/
theorem collected_new (hp : g.Sends p) (timer : ℕ) : Collected g ⟨[], p.hdr, 0, false, timer⟩ ∅ where
  frags := fun _ hf => absurd hf List.not_mem_nil
  seen := fun n => iff_of_false (Finset.notMem_empty n) fun ⟨_, hf, _⟩ => absurd hf List.not_mem_nil
  last := iff_of_false Bool.false_ne_true fun ⟨_, hf, _⟩ => absurd hf List.not_mem_nil
  len := fun h => absurd h Bool.false_ne_true
  hdr := hp.hdr

theorem Collected.setHeader (hc : Collected g d seen) (hp : g.Sends p) :
    Collected g { d with iphdr := p.hdr } seen :=
  ⟨hc.frags, hc.seen, hc.last, hc.len, hp.hdr⟩

/-- A part that is there already does not fit; another one does. -/
theorem accepts_iff (hd : d.Good R) (hc : Collected g d seen) (hp : g.Sends p) :
    Accepts d p ↔ p.hdr.offsetBytes ∉ seen := by
  constructor
  · intro h hmem
    obtain ⟨f, hf, hstart⟩ := (hc.seen _).1 hmem
    have heq : f.start = p.frag.start := hstart
    rcases h.fits f hf with hapart | hapart
    · exact absurd heq hapart.1.ne
    · exact absurd heq hapart.1.ne'
  · intro hmem
    have hstop : p.frag.stop ≤ g.body.length := SentDatagram.cutEnd_le hp.piece
    have hbody : g.hdr.len.toNat = ipHlen + g.body.length := g.hdr_len
    have hlt := g.hdr.len.toNat_lt
    refine ⟨fun f hf => ?_, by omega, fun _ => by omega⟩
    obtain ⟨hpiece, hcut⟩ := hd.piece_mem hc hf
    have hne : f.piece ≠ (p.hdr.offsetBytes, p.body) := by
      intro h
      exact hmem ((hc.seen _).2 ⟨f, hf, congrArg Prod.fst h⟩)
    rcases SentDatagram.sorted_pieces.apart_of_ne hpiece hp.piece hne with h | h
    · exact .inl ⟨h.1, hcut ▸ h.2⟩
    · exact .inr h

theorem Collected.add (hc : Collected g d seen) (hp : g.Sends p) :
    Collected g (d.add p) (insert p.hdr.offsetBytes seen) where
  frags := by
    rw [add_p]
    intro f hf
    rcases Spans.mem_insert.1 hf with rfl | hf
    · exact hp
    · exact hc.frags f hf
  seen := by
    intro n
    rw [add_p, Finset.mem_insert, hc.seen]
    constructor
    · rintro (rfl | ⟨f, hf, hstart⟩)
      · exact ⟨p.frag, Spans.mem_insert.2 (.inl rfl), rfl⟩
      · exact ⟨f, Spans.mem_insert.2 (.inr hf), hstart⟩
    · rintro ⟨f, hf, hstart⟩
      rcases Spans.mem_insert.1 hf with rfl | hf
      · exact .inl hstart.symm
      · exact .inr ⟨f, hf, hstart⟩
  last := by
    rw [add_p, add_lastfrag, Bool.or_eq_true, Bool.not_eq_true', hp.mf, hc.last]
    constructor
    · rintro (h | ⟨f, hf, hstop⟩)
      · exact ⟨p.frag, Spans.mem_insert.2 (.inl rfl), h⟩
      · exact ⟨f, Spans.mem_insert.2 (.inr hf), hstop⟩
    · rintro ⟨f, hf, hstop⟩
      rcases Spans.mem_insert.1 hf with rfl | hf
      · exact .inl hstop
      · exact .inr ⟨f, hf, hstop⟩
  len := by
    rw [add_lastfrag]
    unfold ReassData.add
    dsimp only
    split_ifs with hmf
    · rw [hmf]
      exact hc.len
    · exact fun _ => hp.mf.1 (Bool.eq_false_iff.2 hmf)
  hdr := by
    rw [add_iphdr]
    exact hc.hdr

end Collected

/-! ## Simulation -/

section Simulation

variable {g : SentDatagram} {R : IpPacket → Prop} {s : Reass} {p : IpPacket} {seen : Finset ℕ}

/-- The list has no entry for the datagram, or one that holds the parts that were seen. -/
structure Simulates (g : SentDatagram) (l : List ReassData) (seen : Finset ℕ) : Prop where
  entry : (seen = ∅ ∧ ∀ d ∈ l, d.iphdr.key ≠ g.hdr.key) ∨
    ∃ d ∈ l, d.iphdr.key = g.hdr.key ∧ Collected g d seen
  ne : seen ≠ g.offsets

theorem collect_of_eq {all : Finset ℕ} {x : ℕ} (h : insert x seen = all) :
    collect all seen x = (∅, true) := if_pos h

theorem collect_of_ne {all : Finset ℕ} {x : ℕ} (h : insert x seen ≠ all) :
    collect all seen x = (insert x seen, false) := if_neg h

/-- What the step must do, according to the abstract machine. -/
structure Follows (g : SentDatagram) (seen : Finset ℕ) (p : IpPacket) (l : List ReassData)
    (out : Option IpChain) : Prop where
  sim : Simulates g l (collect g.offsets seen p.hdr.offsetBytes).1
  none : (collect g.offsets seen p.hdr.offsetBytes).2 = false → out = none
  some : (collect g.offsets seen p.hdr.offsetBytes).2 = true →
    ∃ c, out = some c ∧ c.hdr = g.hdr ∧ c.body = g.body

/-- A part of the datagram, for its entry. -/
theorem ip4ReassFrag_sends {pre post : List ReassData} {d : ReassData} (hd : d.Good R) (hR : R p)
    (hc : Collected g d seen) (hp : g.Sends p) (hkey : d.iphdr.key = g.hdr.key)
    (hoff : p.hdr.offsetBytes = 0 → d.iphdr.offsetBytes = 0)
    (hother : ∀ e ∈ pre ++ post, e.iphdr.key ≠ g.hdr.key) (hne : seen ≠ g.offsets) :
    Follows g seen p (ip4ReassFrag s pre d post p).1.datagrams (ip4ReassFrag s pre d post p).2 := by
  by_cases hmem : p.hdr.offsetBytes ∈ seen
  · -- the part is there already
    obtain ⟨f, hf, -⟩ := (hc.seen _).1 hmem
    have hnil : d.p ≠ [] := List.ne_nil_of_mem hf
    have hcollect := collect_of_ne (x := p.hdr.offsetBytes) (by rwa [Finset.insert_eq_of_mem hmem] :
      insert p.hdr.offsetBytes seen ≠ g.offsets)
    rw [Finset.insert_eq_of_mem hmem] at hcollect
    rw [ip4ReassFrag_dropped hp.hlen hd.sorted (fun h => (accepts_iff hd hc hp).1 h hmem), if_neg hnil]
    refine ⟨?_, fun _ => rfl, fun h => ?_⟩
    · rw [hcollect]
      exact ⟨.inr ⟨d, mem_middle.2 (.inl rfl), hkey, hc⟩, hne⟩
    · rw [hcollect] at h
      exact absurd h Bool.false_ne_true
  · have haccepts := (accepts_iff hd hc hp).2 hmem
    have hgood := hd.add hR (hp.key.trans hkey.symm) hoff haccepts
    have hcoll := hc.add hp
    by_cases hcomplete : (d.add p).Complete
    · have hcollect := collect_of_eq ((complete_iff hgood hcoll).1 hcomplete)
      rw [ip4ReassFrag_complete hp.hlen hd.sorted haccepts hcomplete]
      refine ⟨?_, fun h => ?_, fun _ => ⟨_, rfl, chain_eq hgood (ne_nil_add d p) hcoll hcomplete⟩⟩
      · rw [hcollect]
        exact ⟨.inl ⟨rfl, hother⟩, SentDatagram.offsets_ne_empty.symm⟩
      · rw [hcollect] at h
        exact absurd h.symm Bool.false_ne_true
    · have hne' := mt (complete_iff hgood hcoll).2 hcomplete
      have hcollect := collect_of_ne hne'
      rw [ip4ReassFrag_queued hp.hlen hd.sorted haccepts hcomplete]
      refine ⟨?_, fun _ => rfl, fun h => ?_⟩
      · rw [hcollect]
        refine ⟨.inr ⟨d.add p, mem_middle.2 (.inl rfl), ?_, hcoll⟩, hne'⟩
        rw [add_iphdr, hkey]
      · rw [hcollect] at h
        exact absurd h Bool.false_ne_true

/-- With room, a fragment goes straight to its entry. -/
theorem ip4Reass_of_room (hhl : p.hdr.hlBytes = ipHlen)
    (hroom : s.pbufcount + p.clen ≤ ipReassMaxPbufs) : ip4Reass s p = ip4ReassLookup s p := by
  have hlen : ¬p.hdr.len.toNat < p.hdr.hlBytes := by
    rw [p.len_eq, hhl]
    omega
  unfold ip4Reass
  rw [if_neg (not_not.2 hhl), if_neg hlen, if_neg (Nat.not_lt.2 hroom)]

theorem enqueue_of_free (fraghdr : IpHdr) (clen : ℕ) (hfree : s.free ≠ 0) :
    ipReassEnqueueNewDatagram s fraghdr clen =
      ({ s with free := s.free - 1 }, [], some ⟨[], fraghdr, 0, false, ipReassMaxage⟩) := by
  unfold ipReassEnqueueNewDatagram
  exact if_pos hfree

/-- The entry of a key is the only one. -/
theorem keys_ne_of_nodup {pre post : List ReassData} {d : ReassData}
    (h : ((pre ++ d :: post).map fun d => d.iphdr.key).Nodup) :
    ∀ e ∈ pre ++ post, e.iphdr.key ≠ d.iphdr.key := by
  intro e he hkey
  rw [List.map_append, List.map_cons, List.nodup_middle, ← List.map_append, List.nodup_cons] at h
  exact h.1 (hkey ▸ List.mem_map_of_mem he)

/-- A part of the datagram arrives, and there is room for it. -/
theorem ip4Reass_sends (h : s.Inv R) (hR : R p) (hsim : Simulates g s.datagrams seen) (hp : g.Sends p)
    (hroom : s.pbufcount + p.clen ≤ ipReassMaxPbufs)
    (hfree : (∀ d ∈ s.datagrams, d.iphdr.key ≠ g.hdr.key) → s.free ≠ 0) :
    Follows g seen p (ip4Reass s p).1.datagrams (ip4Reass s p).2.2 := by
  rw [ip4Reass_of_room hp.hlen hroom]
  unfold ip4ReassLookup
  dsimp only
  rcases hlookup : ipReassLookup p.hdr s.datagrams with _ | ⟨pre, d, post⟩
  · have hkeys : ∀ e ∈ s.datagrams, e.iphdr.key ≠ g.hdr.key := by
      rw [← hp.key]
      exact lookup_eq_none hlookup
    obtain rfl : seen = ∅ := by
      rcases hsim.entry with ⟨hseen, -⟩ | ⟨d, hd, hkey, -⟩
      · exact hseen
      · exact absurd hkey (hkeys d hd)
    dsimp only
    rw [enqueue_of_free _ _ (hfree hkeys)]
    exact ip4ReassFrag_sends (good_new hR _) hR (collected_new hp _) hp hp.key (fun hoff => hoff) hkeys
      hsim.ne
  · obtain ⟨hlist, hkey⟩ := lookup_eq_some hlookup
    dsimp only at hlist hkey ⊢
    have hkey' : d.iphdr.key = g.hdr.key := hkey.trans hp.key
    have hmem : d ∈ s.datagrams := by
      rw [hlist]
      exact mem_middle.2 (.inl rfl)
    have hother : ∀ e ∈ pre ++ post, e.iphdr.key ≠ g.hdr.key := by
      have hkeys := h.counts.keys
      rw [hlist] at hkeys
      rw [← hkey']
      exact keys_ne_of_nodup hkeys
    have hcoll : Collected g d seen := by
      rcases hsim.entry with ⟨-, hnone⟩ | ⟨d', hd', hkey'', hc⟩
      · exact absurd hkey' (hnone d hmem)
      · rw [hlist] at hd'
        rcases mem_middle.1 hd' with rfl | hd'
        · exact hc
        · exact absurd hkey'' (hother d' hd')
    obtain ⟨hgood, hkeep, -, hoff⟩ := good_keepHeader (h.entries d hmem).1 hR hkey.symm
    refine ip4ReassFrag_sends hgood hR ?_ hp (hkeep.trans hkey') hoff hother hsim.ne
    split_ifs
    · exact hcoll.setHeader hp
    · exact hcoll

theorem ip4InputReass_of_frag (hfrag : p.hdr.offset.toNat % 0x4000 ≠ 0) :
    ip4InputReass s p = ip4Reass s p := if_pos hfrag

/-! ### What leaves the datagram alone -/

theorem mem_ip4ReassFrag_of_ne {pre post : List ReassData} {d e : ReassData} (hd : QueueSorted d.p)
    (hhl : p.hdr.hlBytes = ipHlen) (hkey : e.iphdr.key ≠ d.iphdr.key) :
    e ∈ (ip4ReassFrag s pre d post p).1.datagrams ↔ e ∈ pre ++ post := by
  have hmid : ∀ d' : ReassData, d'.iphdr = d.iphdr → (e ∈ pre ++ d' :: post ↔ e ∈ pre ++ post) := by
    intro d' hd'
    rw [mem_middle, or_iff_right]
    rintro rfl
    exact hkey (congrArg IpHdr.key hd')
  by_cases ha : Accepts d p
  · by_cases hc : (d.add p).Complete
    · rw [ip4ReassFrag_complete hhl hd ha hc]
    · rw [ip4ReassFrag_queued hhl hd ha hc]
      exact hmid _ (add_iphdr d p)
  · rw [ip4ReassFrag_dropped hhl hd ha]
    split_ifs
    · rfl
    · exact hmid d rfl

/-- With room, a fragment of one datagram leaves the entries of the others. -/
theorem mem_ip4Reass_of_ne (h : s.Inv R) (hroom : s.pbufcount + p.clen ≤ ipReassMaxPbufs)
    (hfree : s.free ≠ 0) {e : ReassData} (hkey : e.iphdr.key ≠ p.hdr.key) :
    e ∈ (ip4Reass s p).1.datagrams ↔ e ∈ s.datagrams := by
  by_cases hhl : p.hdr.hlBytes = ipHlen
  · rw [ip4Reass_of_room hhl hroom]
    unfold ip4ReassLookup
    dsimp only
    rcases hlookup : ipReassLookup p.hdr s.datagrams with _ | ⟨pre, d, post⟩
    · dsimp only
      rw [enqueue_of_free _ _ hfree]
      exact mem_ip4ReassFrag_of_ne List.Pairwise.nil hhl hkey
    · obtain ⟨hlist, hkey'⟩ := lookup_eq_some hlookup
      dsimp only at hlist hkey' ⊢
      have hmem : d ∈ s.datagrams := by
        rw [hlist]
        exact mem_middle.2 (.inl rfl)
      have hsorted := (h.entries d hmem).1.sorted
      have hne : e ≠ d := by
        rintro rfl
        exact hkey hkey'
      rw [hlist, mem_middle, or_iff_right hne]
      split_ifs
      · exact mem_ip4ReassFrag_of_ne hsorted hhl hkey
      · exact mem_ip4ReassFrag_of_ne hsorted hhl (hkey' ▸ hkey)
  · unfold ip4Reass
    rw [if_pos hhl]

/-- The entries behind a run of the timer. -/
theorem datagrams_tmrLoop {pre rs : List ReassData} (h : s.datagrams = pre ++ rs) :
    (ipReassTmrLoop pre.length rs s).1.datagrams =
      pre ++ (rs.filter fun d => 0 < d.timer).map fun d => { d with timer := d.timer - 1 } := by
  induction rs generalizing pre s with
  | nil => exact h
  | cons r rs ih =>
    unfold ipReassTmrLoop
    split_ifs with ht
    · obtain ⟨r', hr'⟩ : ∃ r' : ReassData, r' = { r with timer := r.timer - 1 } := ⟨_, rfl⟩
      rw [List.filter_cons_of_pos (by simpa using ht), List.map_cons, ← hr']
      have hset : Reass.datagrams { s with datagrams := s.datagrams.set pre.length r' } =
          (pre ++ [r']) ++ rs := by
        show s.datagrams.set pre.length r' = _
        rw [h, List.set_append_right _ _ (Nat.le_refl _), Nat.sub_self, List.append_assoc]
        rfl
      have hrest := ih hset
      rw [List.length_append, List.append_assoc] at hrest
      exact hrest
    · have herase : (ipReassFreeCompleteDatagram s pre.length r).1.datagrams = pre ++ rs := by
        show s.datagrams.eraseIdx pre.length = _
        rw [h, List.eraseIdx_append_of_length_le (Nat.le_refl _), Nat.sub_self]
        rfl
      rw [List.filter_cons_of_neg (by simpa using ht)]
      exact ih herase

theorem datagrams_tmr (s : Reass) : (ipReassTmr s).1.datagrams =
    (s.datagrams.filter fun d => 0 < d.timer).map fun d => { d with timer := d.timer - 1 } :=
  datagrams_tmrLoop (show s.datagrams = [] ++ s.datagrams from rfl)

/-- An event that does not disturb the collection: there is room for a fragment; what comes with the key
of the datagram is a part of it; and it does not time out. -/
def Unhindered (g : SentDatagram) (s : Reass) : ReassEvent → Prop
  | .recv p =>
    (p.hdr.offset.toNat % 0x4000 ≠ 0 → s.pbufcount + p.clen ≤ ipReassMaxPbufs ∧ s.free ≠ 0) ∧
      (p.hdr.key = g.hdr.key → g.Sends p)
  | .tmr => ∀ d ∈ s.datagrams, d.iphdr.key = g.hdr.key → 0 < d.timer

/-- What the abstract machine makes of an event. -/
def SentDatagram.seenNext (g : SentDatagram) (seen : Finset ℕ) : ReassEvent → Finset ℕ
  | .recv p => if p.hdr.key = g.hdr.key then (collect g.offsets seen p.hdr.offsetBytes).1 else seen
  | .tmr => seen

theorem Simulates.of_mem_iff {l l' : List ReassData} (hsim : Simulates g l seen)
    (h : ∀ e : ReassData, e.iphdr.key = g.hdr.key → (e ∈ l' ↔ e ∈ l)) : Simulates g l' seen := by
  refine ⟨?_, hsim.ne⟩
  rcases hsim.entry with ⟨hseen, hnone⟩ | ⟨d, hd, hkey, hc⟩
  · exact .inl ⟨hseen, fun e he hkey => hnone e ((h e hkey).1 he) hkey⟩
  · exact .inr ⟨d, (h d hkey).2 hd, hkey, hc⟩

theorem simulates_tmr (hsim : Simulates g s.datagrams seen)
    (htimer : ∀ d ∈ s.datagrams, d.iphdr.key = g.hdr.key → 0 < d.timer) :
    Simulates g (ipReassTmr s).1.datagrams seen := by
  refine ⟨?_, hsim.ne⟩
  rw [datagrams_tmr]
  rcases hsim.entry with ⟨hseen, hnone⟩ | ⟨d, hd, hkey, hc⟩
  · refine .inl ⟨hseen, fun e he => ?_⟩
    obtain ⟨d, hd, rfl⟩ := List.mem_map.1 he
    exact hnone d (List.mem_of_mem_filter hd)
  · refine .inr ⟨{ d with timer := d.timer - 1 }, ?_, hkey, hc.frags, hc.seen, hc.last, hc.len, hc.hdr⟩
    apply List.mem_map_of_mem
    exact List.mem_filter.2 ⟨hd, decide_eq_true (htimer d hd hkey)⟩

/-- One step of the code is one of the abstract machine. -/
theorem simulates_next (h : s.Inv fun _ => True) (hsim : Simulates g s.datagrams seen) {e : ReassEvent}
    (hu : Unhindered g s e) : Simulates g (s.next e).datagrams (g.seenNext seen e) := by
  cases e with
  | recv p =>
    obtain ⟨hroom, hsends⟩ := hu
    show Simulates g (ip4InputReass s p).1.datagrams (if _ then _ else _)
    split_ifs with hkey
    · have hp := hsends hkey
      obtain ⟨hcount, hfree⟩ := hroom hp.frag_ne
      rw [ip4InputReass_of_frag hp.frag_ne]
      exact (ip4Reass_sends h trivial hsim hp hcount fun _ => hfree).sim
    · apply hsim.of_mem_iff
      intro e he
      have hne : e.iphdr.key ≠ p.hdr.key := fun h => hkey (h.symm.trans he)
      unfold ip4InputReass
      split_ifs with hfrag
      · obtain ⟨hcount, hfree⟩ := hroom hfrag
        exact mem_ip4Reass_of_ne h hcount hfree hne
      · rfl
  | tmr => exact simulates_tmr hsim hu

theorem simulates_run {es : List ReassEvent} (h : s.Inv fun _ => True)
    (hsim : Simulates g s.datagrams seen) (hu : Run.Along Reass.next (Unhindered g) s es) :
    (Run.exec Reass.next s es).Inv (fun _ => True) ∧
      Simulates g (Run.exec Reass.next s es).datagrams (es.foldl g.seenNext seen) := by
  induction es generalizing s seen with
  | nil => exact ⟨h, hsim⟩
  | cons e es ih =>
    exact ih (reass_step_spec h fun _ _ => trivial).1 (simulates_next h hsim hu.1) hu.2

theorem simulates_init (g : SentDatagram) : Simulates g Reass.init.datagrams ∅ :=
  ⟨.inl ⟨rfl, fun _ hd => absurd hd List.not_mem_nil⟩, SentDatagram.offsets_ne_empty.symm⟩

end Simulation

/-- **Collection.** In every run in which there is room for the fragments, the datagram does not time out
and nothing else comes with its key: a part of it that arrives is answered with the whole datagram, its
header and all its bytes in order, exactly when it completes the set of parts that were seen since the
last time. -/
theorem reass_collects (g : SentDatagram) (es : List ReassEvent) (p : IpPacket)
    (hkey : p.hdr.key = g.hdr.key)
    (hu : Run.Along Reass.next (Unhindered g) .init (es ++ [.recv p])) :
    let out := ((Run.exec Reass.next .init es).step (.recv p)).2.2
    let r := collect g.offsets (es.foldl g.seenNext ∅) p.hdr.offsetBytes
    (r.2 = false → out = none) ∧
      (r.2 = true → ∃ c, out = some c ∧ c.hdr = g.hdr ∧ c.body = g.body) := by
  obtain ⟨hbefore, ⟨hroom, hsends⟩, -⟩ := (Run.along_append _ _ _).1 hu
  have hp := hsends hkey
  obtain ⟨hcount, hfree⟩ := hroom hp.frag_ne
  obtain ⟨hinv, hsim⟩ := simulates_run (reass_inv_init _) (simulates_init g) hbefore
  have hfollows := ip4Reass_sends hinv trivial hsim hp hcount fun _ => hfree
  show (_ → (ip4InputReass _ p).2.2 = none) ∧ (_ → ∃ c, (ip4InputReass _ p).2.2 = some c ∧ _)
  rw [ip4InputReass_of_frag hp.frag_ne]
  exact ⟨hfollows.none, hfollows.some⟩

/-! ### A datagram in three parts -/

def threeParts : SentDatagram :=
  ⟨IpHdr.setChksum ⟨0x45, 0, 39, 7, 0, 64, 17, 0, 0x0101A8C0, 0x0201A8C0⟩,
    [.replicate 8 1, .replicate 8 2, .replicate 3 3], rfl, by decide, by decide⟩

def firstPart : IpPacket :=
  ⟨⟨{ threeParts.hdr with len := 28, offset := 0x2000 }, .replicate 8 1, []⟩, rfl⟩

def secondPart : IpPacket :=
  ⟨⟨{ threeParts.hdr with len := 28, offset := 0x2001 }, .replicate 8 2, []⟩, rfl⟩

def lastPart : IpPacket :=
  ⟨⟨{ threeParts.hdr with len := 23, offset := 0x0002 }, .replicate 3 3, []⟩, rfl⟩

/-- The last one first and the second one twice, with the timer in between. -/
theorem reass_collects_reordered :
    ∃ c, ((Run.exec Reass.next .init [.recv lastPart, .recv secondPart, .tmr, .recv secondPart]).step
        (.recv firstPart)).2.2 = some c ∧ c.hdr = threeParts.hdr ∧ c.body = threeParts.body := by
  have hfirst : threeParts.Sends firstPart := ⟨rfl, rfl, by decide, by decide, rfl⟩
  have hsecond : threeParts.Sends secondPart := ⟨rfl, rfl, by decide, by decide, rfl⟩
  have hlast : threeParts.Sends lastPart := ⟨rfl, rfl, by decide, by decide, rfl⟩
  have htimer : ∀ d ∈ (Run.exec Reass.next .init [.recv lastPart, .recv secondPart]).datagrams,
      d.iphdr.key = threeParts.hdr.key → 0 < d.timer := by decide
  have hu : Run.Along Reass.next (Unhindered threeParts) .init
      ([.recv lastPart, .recv secondPart, .tmr, .recv secondPart] ++ [.recv firstPart]) :=
    ⟨⟨fun _ => by decide, fun _ => hlast⟩, ⟨fun _ => by decide, fun _ => hsecond⟩, htimer,
      ⟨fun _ => by decide, fun _ => hsecond⟩, ⟨fun _ => by decide, fun _ => hfirst⟩, trivial⟩
  exact (reass_collects threeParts _ firstPart rfl hu).2 (by decide)

end DsiWifi
