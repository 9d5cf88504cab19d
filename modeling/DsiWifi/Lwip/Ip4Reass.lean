import DsiWifi.Lwip.Ip4
import DsiWifi.Lib.Spans

/-!
# Reassembly of IP fragments

`ip4_reass` and `ip_reass_tmr` of `ip4_frag.c`.  The fragments of a datagram are queued in the order of
their offsets; one that overlaps another is dropped.  When the fragment without `IP_MF` has been seen
and the queue has no hole, the segments are chained together behind the header of the first fragment.
Datagrams wait for their fragments in a list, the latest in front; they are given up when their timer
runs out, or the one with the lowest timer when there are too many segments or datagrams.

A pointer to an entry of the list is given by the entries in front of it and behind it.  The helper
structure that the code writes over the header of a queued fragment is kept beside it: the header is
not read again.
-/

namespace DsiWifi

/-! ## The code -/

def ipReassMaxPbufs : ℕ := 64
def mempNumReassdata : ℕ := 32
def ipReassMaxage : ℕ := 15

/-- What `IP_ADDRESSES_AND_ID_MATCH` compares. -/
def IpHdr.key (h : IpHdr) : UInt32 × UInt32 × UInt16 := (h.src, h.dest, h.id)

/-- A queued fragment and its `struct ip_reass_helper`; `stop` is `end`. -/
structure ReassFrag where
  start : ℕ
  stop : ℕ
  p : IpPacket

/-- `struct ip_reassdata`; `p` is the queue, and `lastfrag` is `IP_REASS_FLAG_LASTFRAG`. -/
structure ReassData where
  p : List ReassFrag
  iphdr : IpHdr
  datagramLen : ℕ
  lastfrag : Bool
  timer : ℕ

/-- `reassdatagrams`, the free elements of the pool `MEMP_REASSDATA`, and `ip_reass_pbufcount`. -/
structure Reass where
  datagrams : List ReassData
  free : ℕ
  pbufcount : ℕ

def Reass.init : Reass := ⟨[], mempNumReassdata, 0⟩

/-- Subtraction of `u16_t`. -/
def subU16 (a b : ℕ) : ℕ := (a + 2 ^ 16 - b % 2 ^ 16) % 2 ^ 16

/-! ### Giving up a datagram -/

/-- The segments of the queue, a `u16_t`. -/
def ReassData.clen (d : ReassData) : ℕ := (d.p.map fun f => f.p.clen).sum % 2 ^ 16

/-- The packets for which `icmp_time_exceeded` is called: the first fragment, with the header that was
kept. -/
def ReassData.timeExceeded (d : ReassData) : List IpChain :=
  match d.p with
  | [] => []
  | f :: _ => if f.start = 0 then [⟨d.iphdr, f.p.data, f.p.rest⟩] else []

/-- `ip_reass_free_complete_datagram` for the entry at `i`: the new state, the calls of
`icmp_time_exceeded` and the number of segments freed. -/
def ipReassFreeCompleteDatagram (s : Reass) (i : ℕ) (ipr : ReassData) : Reass × List IpChain × ℕ :=
  (⟨s.datagrams.eraseIdx i, s.free + 1, subU16 s.pbufcount ipr.clen⟩, ipr.timeExceeded, ipr.clen)

/-- The loop over the list in `ip_reass_remove_oldest_datagram`, from index `i` on: the last of the
entries with the lowest timer, the datagram of `fraghdr` left out. -/
def oldestFrom (fraghdr : IpHdr) : ℕ → Option (ℕ × ReassData) → List ReassData → Option (ℕ × ReassData)
  | _, oldest, [] => oldest
  | i, oldest, r :: rs =>
    let oldest :=
      if r.iphdr.key = fraghdr.key then oldest
      else
        match oldest with
        | none => some (i, r)
        | some o => if r.timer ≤ o.2.timer then some (i, r) else some o
    oldestFrom fraghdr (i + 1) oldest rs

theorem oldestFrom_getElem? {fraghdr : IpHdr} {l : List ReassData} {rs : List ReassData} {i : ℕ}
    {oldest : Option (ℕ × ReassData)} (hrs : l.drop i = rs)
    (hold : ∀ o, oldest = some o → l[o.1]? = some o.2) {o : ℕ × ReassData}
    (h : oldestFrom fraghdr i oldest rs = some o) : l[o.1]? = some o.2 := by
  induction rs generalizing i oldest with
  | nil => exact hold o h
  | cons r rs ih =>
    have hr : l[i]? = some r := by
      rw [← List.head?_drop, hrs]
      rfl
    have hdrop : l.drop (i + 1) = rs := by
      rw [← List.drop_drop, hrs]
      rfl
    apply ih hdrop _ h
    intro o' ho'
    split_ifs at ho'
    · exact hold o' ho'
    · split at ho'
      · obtain rfl := Option.some.inj ho'
        exact hr
      · split_ifs at ho'
        · obtain rfl := Option.some.inj ho'
          exact hr
        · exact hold o' ho'

/-- The oldest datagram that `fraghdr` does not belong to. -/
def oldest (fraghdr : IpHdr) (l : List ReassData) : Option (ℕ × ReassData) :=
  oldestFrom fraghdr 0 none l

theorem oldest_getElem? {fraghdr : IpHdr} {l : List ReassData} {o : ℕ × ReassData}
    (h : oldest fraghdr l = some o) : l[o.1]? = some o.2 :=
  oldestFrom_getElem? List.drop_zero (fun _ h => absurd h (by simp)) h

def otherDatagrams (fraghdr : IpHdr) (l : List ReassData) : ℕ :=
  l.countP fun r => r.iphdr.key ≠ fraghdr.key

/-- The loop of `ip_reass_remove_oldest_datagram`, with `freed` segments freed so far. -/
def ipReassRemoveOldestLoop (fraghdr : IpHdr) (pbufsNeeded freed : ℕ) (s : Reass) :
    Reass × List IpChain × ℕ :=
  match _h : oldest fraghdr s.datagrams with
  | none => (s, [], freed)
  | some o =>
    let r := ipReassFreeCompleteDatagram s o.1 o.2
    let freed := freed + r.2.2
    if freed < pbufsNeeded ∧ 1 < otherDatagrams fraghdr s.datagrams then
      let r' := ipReassRemoveOldestLoop fraghdr pbufsNeeded freed r.1
      (r'.1, r.2.1 ++ r'.2.1, r'.2.2)
    else (r.1, r.2.1, freed)
termination_by s.datagrams.length
decreasing_by
  have hlt := (List.getElem?_eq_some_iff.1 (oldest_getElem? _h)).1
  show (s.datagrams.eraseIdx o.1).length < s.datagrams.length
  rw [List.length_eraseIdx_of_lt hlt]
  omega

def ipReassRemoveOldestDatagram (s : Reass) (fraghdr : IpHdr) (pbufsNeeded : ℕ) :
    Reass × List IpChain × ℕ :=
  ipReassRemoveOldestLoop fraghdr pbufsNeeded 0 s

/-- The loop of `ip_reass_tmr` over the entries from `i` on. -/
def ipReassTmrLoop : ℕ → List ReassData → Reass → Reass × List IpChain
  | _, [], s => (s, [])
  | i, r :: rs, s =>
    if 0 < r.timer then
      ipReassTmrLoop (i + 1) rs { s with datagrams := s.datagrams.set i { r with timer := r.timer - 1 } }
    else
      let f := ipReassFreeCompleteDatagram s i r
      let t := ipReassTmrLoop i rs f.1
      (t.1, f.2.1 ++ t.2)

def ipReassTmr (s : Reass) : Reass × List IpChain := ipReassTmrLoop 0 s.datagrams s

/-! ### Queueing a fragment -/

/-- The first loop of `ip_reass_chain_frag_into_datagram_and_validate`, which finds the place of `new`:
the new queue, what stands behind `new` in it, and `valid`; `none` where the fragment is dropped. -/
def chainLoop (new : ReassFrag) : (prev : Option ReassFrag) → (valid : Bool) → List ReassFrag →
    Option (List ReassFrag × List ReassFrag × Bool)
  | prev, valid, [] => some ([new], [], valid && prev.all fun r => r.stop = new.start)
  | prev, valid, q :: qs =>
    if new.start < q.start then
      -- the new pbuf should be inserted before this
      if (prev.any fun r => new.start < r.stop) ∨ q.start < new.stop then none
      else some (new :: q :: qs, q :: qs, valid && prev.all fun r => r.stop = new.start)
    else if new.start = q.start then none
    else if new.start < q.stop then none
    else
      (chainLoop new (some q) (valid && prev.all fun r => r.stop = q.start) qs).map fun r =>
        (q :: r.1, r.2)

/-- The second loop: no holes behind `prev`. -/
def noHoles (prev : ReassFrag) : List ReassFrag → Bool
  | [] => true
  | q :: l => if prev.stop ≠ q.start then false else noHoles q l

/-- `IP_REASS_VALIDATE_*`. -/
inductive ReassValidate
  | telegramFinished
  | pbufQueued
  | pbufDropped
deriving DecidableEq

/-- The two loops, for the fragment `iprh`. -/
def chainFrag (ipr : ReassData) (iprh : ReassFrag) (isLast : Bool) : ReassValidate × ReassData :=
  match chainLoop iprh none true ipr.p with
  | none => (.pbufDropped, ipr)
  | some (p, next, valid) =>
    let ipr := { ipr with p }
    if isLast || ipr.lastfrag then
      let valid := valid && (p.head?.any fun q => q.start = 0) && noHoles iprh next
      (if valid then .telegramFinished else .pbufQueued, ipr)
    else (.pbufQueued, ipr)

/-- `ip_reass_chain_frag_into_datagram_and_validate`. -/
def chainFragIntoDatagramAndValidate (ipr : ReassData) (newP : IpPacket) (isLast : Bool) :
    ReassValidate × ReassData :=
  if newP.hdr.len.toNat < newP.hdr.hlBytes then (.pbufDropped, ipr)
  else
    let len := newP.hdr.len.toNat - newP.hdr.hlBytes
    let start := newP.hdr.offsetBytes
    let stop := (start + len) % 2 ^ 16
    -- u16_t overflow, cannot handle this
    if stop < start then (.pbufDropped, ipr) else chainFrag ipr ⟨start, stop, newP⟩ isLast

/-! ### `ip4_reass` -/

/-- The entry of the datagram that `fraghdr` belongs to, between the entries around it. -/
def ipReassLookup (fraghdr : IpHdr) : List ReassData →
    Option (List ReassData × ReassData × List ReassData)
  | [] => none
  | r :: rs =>
    if r.iphdr.key = fraghdr.key then some ([], r, rs)
    else (ipReassLookup fraghdr rs).map fun z => (r :: z.1, z.2)

/-- `ip_reass_enqueue_new_datagram`: the state without the new entry, which comes in front of the list,
and the calls of `icmp_time_exceeded`. -/
def ipReassEnqueueNewDatagram (s : Reass) (fraghdr : IpHdr) (clen : ℕ) :
    Reass × List IpChain × Option ReassData :=
  let ipr : ReassData := ⟨[], fraghdr, 0, false, ipReassMaxage⟩
  if s.free ≠ 0 then ({ s with free := s.free - 1 }, [], some ipr)
  else
    let r := ipReassRemoveOldestDatagram s fraghdr clen
    if clen ≤ r.2.2 ∧ r.1.free ≠ 0 then ({ r.1 with free := r.1.free - 1 }, r.2.1, some ipr)
    else (r.1, r.2.1, none)

/-- The segments of a complete queue behind the header that was kept. -/
def ReassData.chain (d : ReassData) : IpChain :=
  let hdr := { d.iphdr with len := .ofNat (d.datagramLen + ipHlen), offset := 0 }.setChksum
  match d.p with
  | [] => ⟨hdr, [], []⟩
  | f :: fs => ⟨hdr, f.p.data, f.p.rest ++ fs.flatMap fun g => g.p.data :: g.p.rest⟩

/-- The rest of `ip4_reass` for the entry `ipr` between `pre` and `post`. -/
def ip4ReassFrag (s : Reass) (pre : List ReassData) (ipr : ReassData) (post : List ReassData)
    (p : IpPacket) : Reass × Option IpChain :=
  let offset := p.hdr.offsetBytes
  let len := p.hdr.len.toNat - p.hdr.hlBytes
  let isLast := !p.hdr.mf
  let datagramLen := (offset + len) % 2 ^ 16
  -- `nullreturn_ipr`: an entry without fragments is removed again
  let nullreturnIpr : Reass × Option IpChain :=
    if ipr.p = [] then (⟨pre ++ post, s.free + 1, s.pbufcount⟩, none)
    else ({ s with datagrams := pre ++ ipr :: post }, none)
  if isLast ∧ (datagramLen < offset ∨ 0xFFFF - ipHlen < datagramLen) then nullreturnIpr
  else
    match chainFragIntoDatagramAndValidate ipr p isLast with
    | (.pbufDropped, _) => nullreturnIpr
    | (valid, ipr) =>
      let ipr := if isLast then { ipr with datagramLen, lastfrag := true } else ipr
      let pbufcount := (s.pbufcount + p.clen) % 2 ^ 16
      if valid = .telegramFinished then
        (⟨pre ++ post, s.free + 1, subU16 pbufcount ipr.chain.clen⟩, some ipr.chain)
      else (⟨pre ++ ipr :: post, s.free, pbufcount⟩, none)

/-- The part of `ip4_reass` that looks for the datagram of a fragment, or makes a new one. -/
def ip4ReassLookup (s : Reass) (p : IpPacket) : Reass × List IpChain × Option IpChain :=
  let fraghdr := p.hdr
  match ipReassLookup fraghdr s.datagrams with
  | some (pre, ipr, post) =>
    -- keep the header of the first fragment
    let ipr :=
      if fraghdr.offsetBytes = 0 ∧ ipr.iphdr.offsetBytes ≠ 0 then { ipr with iphdr := fraghdr }
      else ipr
    let f := ip4ReassFrag s pre ipr post p
    (f.1, [], f.2)
  | none =>
    match ipReassEnqueueNewDatagram s fraghdr p.clen with
    | (s, te, none) => (s, te, none)
    | (s, te, some ipr) =>
      let f := ip4ReassFrag s [] ipr s.datagrams p
      (f.1, te, f.2)

/-- `ip4_reass`: the new state, the calls of `icmp_time_exceeded`, and the datagram that was
completed. -/
def ip4Reass (s : Reass) (p : IpPacket) : Reass × List IpChain × Option IpChain :=
  if p.hdr.hlBytes ≠ ipHlen then (s, [], none)
  else if p.hdr.len.toNat < p.hdr.hlBytes then (s, [], none)
  else if ipReassMaxPbufs < s.pbufcount + p.clen then
    let r := ipReassRemoveOldestDatagram s p.hdr p.clen
    if r.2.2 = 0 ∨ ipReassMaxPbufs < r.1.pbufcount + p.clen then (r.1, r.2.1, none)
    else
      let f := ip4ReassLookup r.1 p
      (f.1, r.2.1 ++ f.2.1, f.2.2)
  else ip4ReassLookup s p

/-- `ip4_input` from the question whether the packet is a fragment (`IP_OFFMASK | IP_MF`) to the upper
layers.  Options are allowed there (`IP_OPTIONS_ALLOWED`), but not in fragments. -/
def ip4InputReass (s : Reass) (p : IpPacket) : Reass × List IpChain × Option IpChain :=
  if p.hdr.offset.toNat % 0x4000 ≠ 0 then ip4Reass s p else (s, [], some p.toIpChain)

/-! ## The queue -/

section Queue

open Spans

abbrev QueueSorted (l : List ReassFrag) : Prop := Sorted ReassFrag.start ReassFrag.stop l

abbrev QueueFits (f : ReassFrag) (l : List ReassFrag) : Prop := Fits ReassFrag.start ReassFrag.stop f l

/-- A packet as a fragment. -/
def IpPacket.frag (p : IpPacket) : ReassFrag :=
  ⟨p.hdr.offsetBytes, p.hdr.offsetBytes + p.body.length, p⟩

theorem noHoles_cons (prev q : ReassFrag) (l : List ReassFrag) :
    noHoles prev (q :: l) = (decide (prev.stop = q.start) && noHoles q l) := by
  rw [noHoles]
  split_ifs with h
  · rw [decide_eq_false h, Bool.false_and]
  · rw [decide_eq_true (not_not.1 h), Bool.true_and]

theorem noHoles_iff_tiles {prev : ReassFrag} {l : List ReassFrag} :
    noHoles prev l = true ↔ Tiles ReassFrag.start ReassFrag.stop prev.stop l := by
  induction l generalizing prev with
  | nil => exact iff_of_true rfl trivial
  | cons q l ih =>
    rw [noHoles_cons, Bool.and_eq_true, decide_eq_true_iff, ih, eq_comm]
    rfl

/-- No holes, also behind a fragment in front of the list. -/
def linked (prev : Option ReassFrag) : List ReassFrag → Bool
  | [] => true
  | q :: l => (prev.all fun r => r.stop = q.start) && noHoles q l

theorem linked_some (prev : ReassFrag) (l : List ReassFrag) : linked (some prev) l = noHoles prev l := by
  cases l with
  | nil => rfl
  | cons q l =>
    rw [noHoles_cons]
    rfl

variable {new : ReassFrag} {l : List ReassFrag}

/-- A fragment with room is put in its place, and `valid` says that the fragments up to it have no
holes. -/
theorem chainLoop_of_fits (hl : QueueSorted l) (hnew : QueueFits new l) {prev : Option ReassFrag}
    (hprev : ∀ q, prev = some q → q.stop ≤ new.start) (valid : Bool) :
    ∃ next v, chainLoop new prev valid l = some (insert ReassFrag.start new l, next, v) ∧
      (v && noHoles new next) = (valid && linked prev (insert ReassFrag.start new l)) := by
  induction l generalizing prev valid with
  | nil => exact ⟨[], _, rfl, Bool.and_assoc ..⟩
  | cons q qs ih =>
    obtain ⟨hq, hqs⟩ := List.pairwise_cons.1 hl
    have hfit := hnew q List.mem_cons_self
    unfold chainLoop Spans.insert
    by_cases hlt : new.start < q.start
    · have hapart : Apart ReassFrag.start ReassFrag.stop new q := hfit.resolve_left fun h => by
        have := h.1
        omega
      have hbefore : ¬(prev.any fun r => new.start < r.stop) = true := by
        rw [Option.any_eq_true]
        rintro ⟨r, hr, h⟩
        exact absurd (of_decide_eq_true h) (Nat.not_lt.2 (hprev r hr))
      rw [if_pos hlt, if_pos hlt, if_neg (not_or.2 ⟨hbefore, Nat.not_lt.2 hapart.2⟩)]
      exact ⟨_, _, rfl, Bool.and_assoc ..⟩
    · have hapart : Apart ReassFrag.start ReassFrag.stop q new := hfit.resolve_right fun h => hlt h.1
      rw [if_neg hlt, if_neg hlt, if_neg hapart.1.ne', if_neg (Nat.not_lt.2 hapart.2)]
      obtain ⟨next, v, hloop, hv⟩ := ih hqs (fun z hz => hnew z (List.mem_cons_of_mem _ hz))
        (fun z hz => Option.some.inj hz ▸ hapart.2) (valid && prev.all fun r => r.stop = q.start)
      rw [hloop]
      refine ⟨next, v, rfl, ?_⟩
      rw [hv, Bool.and_assoc, linked_some]
      rfl

/-- A fragment without room is dropped. -/
theorem chainLoop_of_not_fits (hl : QueueSorted l) (hnew : ¬QueueFits new l) (prev : Option ReassFrag)
    (valid : Bool) : chainLoop new prev valid l = none := by
  induction l generalizing prev valid with
  | nil => exact absurd (fun q hq => absurd hq List.not_mem_nil) hnew
  | cons q qs ih =>
    obtain ⟨hq, hqs⟩ := List.pairwise_cons.1 hl
    unfold chainLoop
    by_cases hlt : new.start < q.start
    · have hstop : q.start < new.stop := by
        by_contra hstop
        have hapart : Apart ReassFrag.start ReassFrag.stop new q := ⟨hlt, Nat.le_of_not_lt hstop⟩
        refine hnew fun z hz => .inr ?_
        rcases List.mem_cons.1 hz with rfl | hz
        · exact hapart
        · exact hapart.trans (hq z hz)
      rw [if_pos hlt, if_pos (.inr hstop)]
    · rw [if_neg hlt]
      split_ifs with heq hover
      · rfl
      · rfl
      · have hapart : Apart ReassFrag.start ReassFrag.stop q new := ⟨by omega, Nat.le_of_not_lt hover⟩
        have hrest : ¬QueueFits new qs := by
          intro hfits
          refine hnew fun z hz => ?_
          rcases List.mem_cons.1 hz with rfl | hz
          · exact .inl hapart
          · exact hfits z hz
        rw [ih hqs hrest]
        rfl

variable {ipr : ReassData}

/-- The two checks of `valid` together: the queue begins at the beginning and has no holes. -/
theorem head_linked_iff_tiles (hne : l ≠ []) :
    (l.head?.any (fun q => q.start = 0) && linked none l) = true ↔
      Tiles ReassFrag.start ReassFrag.stop 0 l := by
  cases l with
  | nil => exact absurd rfl hne
  | cons q l =>
    show (decide (q.start = 0) && (true && noHoles q l)) = true ↔ _
    rw [Bool.true_and, Bool.and_eq_true, decide_eq_true_iff, noHoles_iff_tiles]
    rfl

/-- What fits is queued; the datagram is finished when the last fragment is known and nothing is
missing. -/
theorem chainFrag_of_fits (hl : QueueSorted ipr.p) (hfits : QueueFits new ipr.p) (isLast : Bool) :
    ∃ v, chainFrag ipr new isLast = (v, { ipr with p := insert ReassFrag.start new ipr.p }) ∧
      v ≠ .pbufDropped ∧
      (v = .telegramFinished ↔ (isLast || ipr.lastfrag) = true ∧
        Tiles ReassFrag.start ReassFrag.stop 0 (insert ReassFrag.start new ipr.p)) := by
  have hnone : ∀ q : ReassFrag, none = some q → q.stop ≤ new.start := fun q h => by cases h
  obtain ⟨next, valid, hloop, hvalid⟩ := chainLoop_of_fits hl hfits hnone true
  have hne : insert ReassFrag.start new ipr.p ≠ [] :=
    List.ne_nil_of_mem (mem_insert.2 (.inl rfl))
  unfold chainFrag
  rw [hloop]
  dsimp only
  by_cases hlast : (isLast || ipr.lastfrag) = true
  · rw [if_pos hlast]
    have htiles := head_linked_iff_tiles hne
    rw [Bool.and_right_comm, hvalid, Bool.true_and, Bool.and_comm]
    by_cases h : Tiles ReassFrag.start ReassFrag.stop 0 (insert ReassFrag.start new ipr.p)
    · rw [if_pos (htiles.2 h)]
      exact ⟨_, rfl, by decide, iff_of_true rfl ⟨hlast, h⟩⟩
    · rw [if_neg (mt htiles.1 h)]
      exact ⟨_, rfl, by decide, iff_of_false (by decide) fun h' => h h'.2⟩
  · rw [if_neg hlast]
    refine ⟨.pbufQueued, rfl, by decide, ?_⟩
    exact iff_of_false (by decide) fun h => hlast h.1

theorem chainFrag_of_not_fits (hl : QueueSorted ipr.p) (hfits : ¬QueueFits new ipr.p) (isLast : Bool) :
    chainFrag ipr new isLast = (.pbufDropped, ipr) := by
  unfold chainFrag
  rw [chainLoop_of_not_fits hl hfits]

/-! ### What a fragment does to its datagram -/

variable {p : IpPacket} {pre post : List ReassData} {s : Reass}

theorem offsetBytes_lt (h : IpHdr) : h.offsetBytes < 2 ^ 16 := by
  unfold IpHdr.offsetBytes
  omega

theorem length_body_lt (p : IpPacket) : p.body.length < 2 ^ 16 := by
  have hlen := p.len_eq
  have hlt := p.hdr.len.toNat_lt
  show (p.data ++ p.rest.flatten).length < _
  omega

theorem len_sub_hlBytes (hhl : p.hdr.hlBytes = ipHlen) :
    p.hdr.len.toNat - p.hdr.hlBytes = p.body.length := by
  rw [p.len_eq, hhl, Nat.add_sub_cancel_left]
  rfl

/-- The fragment can be queued: it fits, and the lengths do not overflow. -/
structure Accepts (ipr : ReassData) (p : IpPacket) : Prop where
  fits : QueueFits p.frag ipr.p
  stop_lt : p.frag.stop < 2 ^ 16
  last_le : p.hdr.mf = false → p.frag.stop ≤ 0xFFFF - ipHlen

/-- The entry with the fragment. -/
def ReassData.add (ipr : ReassData) (p : IpPacket) : ReassData :=
  let ipr := { ipr with p := insert ReassFrag.start p.frag ipr.p }
  if p.hdr.mf then ipr else { ipr with datagramLen := p.frag.stop, lastfrag := true }

/-- All fragments are there. -/
def ReassData.Complete (ipr : ReassData) : Prop :=
  ipr.lastfrag = true ∧ Tiles ReassFrag.start ReassFrag.stop 0 ipr.p

theorem add_p (ipr : ReassData) (p : IpPacket) :
    (ipr.add p).p = insert ReassFrag.start p.frag ipr.p := by
  unfold ReassData.add
  dsimp only
  split_ifs <;> rfl

theorem add_lastfrag (ipr : ReassData) (p : IpPacket) :
    (ipr.add p).lastfrag = (!p.hdr.mf || ipr.lastfrag) := by
  unfold ReassData.add
  dsimp only
  split_ifs with h
  · rw [h]
    rfl
  · rw [Bool.eq_false_iff.2 h]
    rfl

theorem chainFragIntoDatagram_of_stop_lt (hhl : p.hdr.hlBytes = ipHlen) (hstop : p.frag.stop < 2 ^ 16)
    (isLast : Bool) :
    chainFragIntoDatagramAndValidate ipr p isLast = chainFrag ipr p.frag isLast := by
  have hlen : ¬p.hdr.len.toNat < p.hdr.hlBytes := by
    rw [p.len_eq, hhl]
    omega
  have hmod : (p.hdr.offsetBytes + p.body.length) % 2 ^ 16 = p.hdr.offsetBytes + p.body.length :=
    Nat.mod_eq_of_lt hstop
  unfold chainFragIntoDatagramAndValidate
  rw [if_neg hlen, len_sub_hlBytes hhl]
  dsimp only
  rw [hmod, if_neg (by omega)]
  rfl

theorem chainFragIntoDatagram_of_le (hhl : p.hdr.hlBytes = ipHlen) (hstop : 2 ^ 16 ≤ p.frag.stop)
    (isLast : Bool) :
    chainFragIntoDatagramAndValidate ipr p isLast = (.pbufDropped, ipr) := by
  have hoffset := offsetBytes_lt p.hdr
  have hbody := length_body_lt p
  have hfrag : p.frag.stop = p.hdr.offsetBytes + p.body.length := rfl
  unfold chainFragIntoDatagramAndValidate
  rw [len_sub_hlBytes hhl]
  have hwrap : (p.hdr.offsetBytes + p.body.length) % 2 ^ 16 < p.hdr.offsetBytes := by omega
  dsimp only
  rw [if_pos hwrap, ite_self]

theorem ip4ReassFrag_dropped (hhl : p.hdr.hlBytes = ipHlen) (hl : QueueSorted ipr.p)
    (h : ¬Accepts ipr p) :
    ip4ReassFrag s pre ipr post p =
      if ipr.p = [] then (⟨pre ++ post, s.free + 1, s.pbufcount⟩, none)
      else ({ s with datagrams := pre ++ ipr :: post }, none) := by
  unfold ip4ReassFrag
  rw [len_sub_hlBytes hhl]
  dsimp only
  rw [show p.hdr.offsetBytes + p.body.length = p.frag.stop from rfl]
  split_ifs with hlast hnil hnil
  · rfl
  · rfl
  all_goals
    have hdropped : chainFragIntoDatagramAndValidate ipr p (!p.hdr.mf) = (.pbufDropped, ipr) := by
      rcases Nat.lt_or_ge p.frag.stop (2 ^ 16) with hstop | hstop
      · rw [chainFragIntoDatagram_of_stop_lt hhl hstop]
        apply chainFrag_of_not_fits hl
        intro hfits
        refine h ⟨hfits, hstop, fun hmf => ?_⟩
        rw [hmf, Nat.mod_eq_of_lt hstop] at hlast
        by_contra hle
        exact hlast ⟨rfl, .inr (by omega)⟩
      · exact chainFragIntoDatagram_of_le hhl hstop _
    rw [hdropped]

/-- What is accepted is queued, and the datagram finished or not. -/
theorem ip4ReassFrag_accepted (hhl : p.hdr.hlBytes = ipHlen) (hl : QueueSorted ipr.p)
    (h : Accepts ipr p) :
    ∃ v : ReassValidate, (v = .telegramFinished ↔ (ipr.add p).Complete) ∧
      ip4ReassFrag s pre ipr post p =
        if v = .telegramFinished then
          (⟨pre ++ post, s.free + 1, subU16 ((s.pbufcount + p.clen) % 2 ^ 16) (ipr.add p).chain.clen⟩,
            some (ipr.add p).chain)
        else (⟨pre ++ ipr.add p :: post, s.free, (s.pbufcount + p.clen) % 2 ^ 16⟩, none) := by
  obtain ⟨v, hchain, hv, hfin⟩ := chainFrag_of_fits hl h.fits (!p.hdr.mf)
  have hstart : p.hdr.offsetBytes ≤ p.frag.stop := Nat.le_add_right _ _
  have hadd : (if (!p.hdr.mf) = true then
      { ipr with p := insert ReassFrag.start p.frag ipr.p, datagramLen := p.frag.stop, lastfrag := true }
      else { ipr with p := insert ReassFrag.start p.frag ipr.p }) = ipr.add p := by
    unfold ReassData.add
    cases p.hdr.mf <;> rfl
  have hlast : ¬((!p.hdr.mf) = true ∧
      (p.frag.stop < p.hdr.offsetBytes ∨ 0xFFFF - ipHlen < p.frag.stop)) := by
    rintro ⟨hmf, hover⟩
    have := h.last_le (by simpa using hmf)
    omega
  refine ⟨v, ?_, ?_⟩
  · rw [hfin]
    unfold ReassData.Complete
    rw [add_lastfrag, add_p]
  · unfold ip4ReassFrag
    rw [len_sub_hlBytes hhl]
    dsimp only
    rw [show p.hdr.offsetBytes + p.body.length = p.frag.stop from rfl, Nat.mod_eq_of_lt h.stop_lt,
      if_neg hlast, chainFragIntoDatagram_of_stop_lt hhl h.stop_lt, hchain]
    cases v with
    | pbufDropped => exact absurd rfl hv
    | telegramFinished =>
      dsimp only
      rw [hadd]
    | pbufQueued =>
      dsimp only
      rw [hadd]

theorem ip4ReassFrag_queued (hhl : p.hdr.hlBytes = ipHlen) (hl : QueueSorted ipr.p)
    (h : Accepts ipr p) (hc : ¬(ipr.add p).Complete) :
    ip4ReassFrag s pre ipr post p =
      (⟨pre ++ ipr.add p :: post, s.free, (s.pbufcount + p.clen) % 2 ^ 16⟩, none) := by
  obtain ⟨v, hv, heq⟩ := ip4ReassFrag_accepted hhl hl h
  rw [heq, if_neg (mt hv.1 hc)]

theorem ip4ReassFrag_complete (hhl : p.hdr.hlBytes = ipHlen) (hl : QueueSorted ipr.p)
    (h : Accepts ipr p) (hc : (ipr.add p).Complete) :
    ip4ReassFrag s pre ipr post p =
      (⟨pre ++ post, s.free + 1, subU16 ((s.pbufcount + p.clen) % 2 ^ 16) (ipr.add p).chain.clen⟩,
        some (ipr.add p).chain) := by
  obtain ⟨v, hv, heq⟩ := ip4ReassFrag_accepted hhl hl h
  rw [heq, if_pos (hv.2 hc)]

end Queue

end DsiWifi
