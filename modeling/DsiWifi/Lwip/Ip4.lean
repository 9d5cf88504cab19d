import DsiWifi.Lwip.Checksum

/-!
# IP packets

The header of `prot/ip4.h`, what `ip4_output_if` puts into it, and what `ip4_input` asks of it before a
packet gets any further.

`ip4_output_if` adds up the checksum while it fills in the fields, in an order and a width of its own.
It is the checksum that `inet_chksum` gives (`setChksum_ip4OutputHdr`), so that the packet passes at a
receiver that runs the same code, however it arrives in segments (`ip4Input_ip4Output`).
-/

namespace DsiWifi

/-! ## The header -/

/-- `struct ip_hdr`.  A field of 16 bits is the number it spells on the wire; the checksum and the
addresses are never taken apart and stand as the machine reads them. -/
structure IpHdr where
  vHl : UInt8
  tos : UInt8
  len : UInt16
  id : UInt16
  offset : UInt16
  ttl : UInt8
  proto : UInt8
  chksum : UInt16
  src : UInt32
  dest : UInt32
deriving DecidableEq

def ipHlen : ℕ := 20

/-- `IPH_V`. -/
def IpHdr.v (h : IpHdr) : ℕ := h.vHl.toNat / 16

/-- `IPH_HL_BYTES`. -/
def IpHdr.hlBytes (h : IpHdr) : ℕ := h.vHl.toNat % 16 * 4

/-- `IPH_OFFSET_BYTES`; the offset is in the lower 13 bits. -/
def IpHdr.offsetBytes (h : IpHdr) : ℕ := h.offset.toNat % 0x2000 * 8

/-- `IP_MF`. -/
def IpHdr.mf (h : IpHdr) : Bool := h.offset.toNat / 0x2000 % 2 = 1

def IpHdr.toBytes (h : IpHdr) : List UInt8 :=
  [h.vHl, h.tos] ++ putbe16 h.len.toNat ++ putbe16 h.id.toNat ++ putbe16 h.offset.toNat ++
    [h.ttl, h.proto] ++ putle16 h.chksum.toNat ++ putle32 h.src.toNat ++ putle32 h.dest.toNat

def IpHdr.ofBytes (bs : List UInt8) : IpHdr :=
  let m := Mem.ofList bs 0
  { vHl := m 0, tos := m 1, len := .ofNat (getbe16 m 2), id := .ofNat (getbe16 m 4)
    offset := .ofNat (getbe16 m 6), ttl := m 8, proto := m 9, chksum := .ofNat (getle16 m 10)
    src := .ofNat (getle32 m 12), dest := .ofNat (getle32 m 16) }

@[simp] theorem IpHdr.length_toBytes (h : IpHdr) : h.toBytes.length = ipHlen := rfl

/-- `IPH_CHKSUM_SET(hdr, 0); IPH_CHKSUM_SET(hdr, inet_chksum(hdr, IP_HLEN))`. -/
def IpHdr.setChksum (h : IpHdr) : IpHdr :=
  let h := { h with chksum := 0 }
  { h with chksum := .ofNat (inetChksum (Mem.ofList h.toBytes 0) 0 ipHlen) }

/-! ## Output -/

/-- `chk_sum` of `ip4_output_if_src`, a `u32_t`, when all fields were added to it. -/
def ip4ChkSum (totLen ipId : UInt16) (ttl tos proto : UInt8) (src dest : UInt32) : ℕ :=
  let chkSum := swapBytesInWord (proto.toNat + 0x100 * ttl.toNat)
  let chkSum := (chkSum + dest.toNat % 2 ^ 16) % 2 ^ 32
  let chkSum := (chkSum + dest.toNat / 2 ^ 16) % 2 ^ 32
  let chkSum := (chkSum + swapBytesInWord (tos.toNat + 0x100 * 0x45)) % 2 ^ 32
  let chkSum := (chkSum + swapBytesInWord totLen.toNat) % 2 ^ 32
  let chkSum := (chkSum + swapBytesInWord ipId.toNat) % 2 ^ 32
  let chkSum := (chkSum + src.toNat % 2 ^ 16) % 2 ^ 32
  (chkSum + src.toNat / 2 ^ 16) % 2 ^ 32

/-- What becomes of it: the two halves are added twice, and the complement is stored. -/
def ip4FoldChkSum (chkSum : ℕ) : UInt16 :=
  let chkSum := (chkSum / 2 ^ 16 + chkSum % 2 ^ 16) % 2 ^ 32
  let chkSum := (chkSum / 2 ^ 16 + chkSum) % 2 ^ 32
  .ofNat (2 ^ 32 - 1 - chkSum)

/-- The header that `ip4_output_if_src` builds for a packet of `totLen` bytes; `ipId` is the counter
`ip_id`. -/
def ip4OutputHdr (totLen ipId : UInt16) (ttl tos proto : UInt8) (src dest : UInt32) : IpHdr where
  vHl := 0x45
  tos := tos
  len := totLen
  id := ipId
  offset := 0
  ttl := ttl
  proto := proto
  chksum := ip4FoldChkSum (ip4ChkSum totLen ipId ttl tos proto src dest)
  src := src
  dest := dest

section Words

/-- The sum of the ten words of a header. -/
def IpHdr.words (h : IpHdr) : ℕ :=
  h.vHl.toNat + 256 * h.tos.toNat + swapBytesInWord h.len.toNat + swapBytesInWord h.id.toNat +
    swapBytesInWord h.offset.toNat + (h.ttl.toNat + 256 * h.proto.toNat) + h.chksum.toNat +
    (h.src.toNat % 2 ^ 16 + h.src.toNat / 2 ^ 16) + (h.dest.toNat % 2 ^ 16 + h.dest.toNat / 2 ^ 16)

theorem IpHdr.words_le (h : IpHdr) : h.words ≤ 10 * 0xFFFF := by
  have h₁ := h.vHl.toNat_lt
  have h₂ := h.tos.toNat_lt
  have h₃ := swapBytesInWord_le h.len.toNat
  have h₄ := swapBytesInWord_le h.id.toNat
  have h₅ := swapBytesInWord_le h.offset.toNat
  have h₆ := h.ttl.toNat_lt
  have h₇ := h.proto.toNat_lt
  have h₈ := h.chksum.toNat_lt
  have h₉ := h.src.toNat_lt
  have h₁₀ := h.dest.toNat_lt
  unfold words
  omega

theorem hostSum_toBytes (h : IpHdr) : hostSum h.toBytes = h.words := by
  have hfirst : ∀ (a b : UInt8) (bs : List UInt8),
      hostSum ([a, b] ++ bs) = a.toNat + 256 * b.toNat + hostSum bs := fun _ _ _ => rfl
  have hsrc := h.src.toNat_lt
  have hdest := h.dest.toNat_lt
  unfold IpHdr.toBytes IpHdr.words putle32
  simp only [List.append_assoc]
  rw [hfirst, hostSum_putbe16_append, hostSum_putbe16_append, hostSum_putbe16_append, hfirst,
    hostSum_putle16_append, hostSum_putle16_append, hostSum_putle16_append, hostSum_putle16_append,
    ← List.append_nil (putle16 (h.dest.toNat / 2 ^ 16)), hostSum_putle16_append,
    Nat.mod_eq_of_lt h.chksum.toNat_lt]
  have hnil : hostSum [] = 0 := rfl
  rw [hnil]
  unfold lwipHtons
  omega

/-- The checksum is one of the words. -/
theorem IpHdr.words_chksum (h : IpHdr) (c : UInt16) :
    { h with chksum := c }.words = { h with chksum := 0 }.words + c.toNat := by
  unfold IpHdr.words
  dsimp only
  rw [UInt16.toNat_zero]
  omega

/-- The checksum over a header in memory. -/
theorem inetChksum_hdr {m : Mem UInt8} {h : IpHdr} (hread : m.read 0 ipHlen = h.toBytes) :
    inetChksum m 0 ipHlen = 0xFFFF - foldU32T (foldU32T h.words) := by
  obtain ⟨e, s, hbulk, hsum, -⟩ := chksumBulk_spec m 0 ipHlen 0 (by decide)
  have hwords : s = h.words := by
    rw [hread, hostSum_toBytes] at hsum
    simpa [ipHlen] using hsum
  have hle := h.words_le
  have hfold := foldU32T_foldU32T_le (u := h.words) (by omega)
  have hodd : ¬0 % 2 = 1 := by decide
  unfold inetChksum lwipStandardChksum
  simp only [hodd, false_and, if_false]
  rw [hbulk, hwords]
  show _ - foldU32T (foldU32T ((h.words + 0) % 2 ^ 32)) % 2 ^ 16 = _
  rw [Nat.add_zero, Nat.mod_eq_of_lt (show h.words < 2 ^ 32 by omega),
    Nat.mod_eq_of_lt (show _ < 2 ^ 16 by omega)]

theorem read_toBytes_append (h : IpHdr) (bs : List UInt8) :
    (Mem.ofList (h.toBytes ++ bs) 0).read 0 ipHlen = h.toBytes :=
  Mem.read_ofList_append [] h.toBytes bs 0

theorem chksum_setChksum (h : IpHdr) :
    h.setChksum.chksum.toNat = 0xFFFF - foldU32T (foldU32T { h with chksum := 0 }.words) := by
  have hread := read_toBytes_append { h with chksum := 0 } []
  rw [List.append_nil] at hread
  unfold IpHdr.setChksum
  dsimp only
  rw [inetChksum_hdr hread, UInt16.toNat_ofNat_of_lt' (by show _ < 2 ^ 16; omega)]

/-- The two ways of folding a sum agree. -/
theorem toNat_ip4FoldChkSum {w : ℕ} (hw : w ≤ 10 * 0xFFFF) :
    (ip4FoldChkSum w).toNat = 0xFFFF - foldU32T (foldU32T w) := by
  unfold ip4FoldChkSum foldU32T
  dsimp only
  rw [UInt16.toNat_ofNat']
  omega

section Output

variable (totLen ipId : UInt16) (ttl tos proto : UInt8) (src dest : UInt32)

theorem words_ip4OutputHdr :
    { ip4OutputHdr totLen ipId ttl tos proto src dest with chksum := 0 }.words =
      ip4ChkSum totLen ipId ttl tos proto src dest := by
  have hlen := swapBytesInWord_le totLen.toNat
  have hid := swapBytesInWord_le ipId.toNat
  have hsrc := src.toNat_lt
  have hdest := dest.toNat_lt
  have htos := tos.toNat_lt
  have httl := ttl.toNat_lt
  have hproto := proto.toNat_lt
  have hzero : swapBytesInWord 0 = 0 := rfl
  have h₁ : swapBytesInWord (proto.toNat + 0x100 * ttl.toNat) = ttl.toNat + 256 * proto.toNat := by
    unfold swapBytesInWord
    omega
  have h₂ : swapBytesInWord (tos.toNat + 0x100 * 0x45) = 0x45 + 256 * tos.toNat := by
    unfold swapBytesInWord
    omega
  have hvHl : (0x45 : UInt8).toNat = 0x45 := rfl
  unfold IpHdr.words ip4ChkSum ip4OutputHdr
  dsimp only
  rw [UInt16.toNat_zero, hzero, h₁, h₂, hvHl]
  omega

/-- The sum that `ip4_output_if` keeps is the checksum of the header. -/
theorem setChksum_ip4OutputHdr :
    (ip4OutputHdr totLen ipId ttl tos proto src dest).setChksum =
      ip4OutputHdr totLen ipId ttl tos proto src dest := by
  have hle := IpHdr.words_le { ip4OutputHdr totLen ipId ttl tos proto src dest with chksum := 0 }
  have hchksum : (ip4OutputHdr totLen ipId ttl tos proto src dest).setChksum.chksum =
      ip4FoldChkSum (ip4ChkSum totLen ipId ttl tos proto src dest) := by
    apply UInt16.toNat_inj.1
    rw [chksum_setChksum, words_ip4OutputHdr, toNat_ip4FoldChkSum]
    rwa [words_ip4OutputHdr] at hle
  exact congrArg (fun c => { ip4OutputHdr totLen ipId ttl tos proto src dest with chksum := c })
    hchksum

end Output

/-- A header with its checksum passes. -/
theorem inetChksum_setChksum (h : IpHdr) (bs : List UInt8) :
    inetChksum (Mem.ofList (h.setChksum.toBytes ++ bs) 0) 0 ipHlen = 0 := by
  rw [inetChksum_hdr (read_toBytes_append _ _)]
  have hchksum := chksum_setChksum h
  have hwords : h.setChksum.words = { h with chksum := 0 }.words + h.setChksum.chksum.toNat :=
    h.words_chksum h.setChksum.chksum
  have hle := IpHdr.words_le { h with chksum := 0 }
  rw [hwords, hchksum]
  generalize IpHdr.words _ = w at hle ⊢
  unfold foldU32T
  omega

end Words

/-! ## Input -/

/-- A packet as a chain of segments: the header, what follows it in the first segment, and the other
segments. -/
structure IpChain where
  hdr : IpHdr
  data : List UInt8
  rest : List (List UInt8)

/-- The bytes behind the header. -/
def IpChain.body (c : IpChain) : List UInt8 := c.data ++ c.rest.flatten

/-- `pbuf_clen`, a `u16_t`. -/
def IpChain.clen (c : IpChain) : ℕ := (1 + c.rest.length) % 2 ^ 16

/-- A packet that `ip4_input` lets through: it is as long as its header says. -/
structure IpPacket extends IpChain where
  len_eq : hdr.len.toNat = ipHlen + (data ++ rest.flatten).length

/-- The loop of `pbuf_realloc`. -/
def pbufShrink : ℕ → List (List UInt8) → List (List UInt8)
  | _, [] => []
  | n, q :: qs => if q.length < n then q :: pbufShrink (n - q.length) qs else [q.take n]

/-- `pbuf_realloc(p, newLen)` for a chain whose first segment is `head`. -/
def pbufRealloc (newLen : ℕ) (head : List UInt8) (rest : List (List UInt8)) :
    List UInt8 × List (List UInt8) :=
  if (head ++ rest.flatten).length ≤ newLen then (head, rest)
  else if head.length < newLen then (head, pbufShrink (newLen - head.length) rest)
  else (head.take newLen, [])

theorem flatten_pbufShrink (n : ℕ) (qs : List (List UInt8)) :
    (pbufShrink n qs).flatten = qs.flatten.take n := by
  induction qs generalizing n with
  | nil => simp [pbufShrink]
  | cons q qs ih =>
    unfold pbufShrink
    split_ifs with h
    · rw [List.flatten_cons, List.flatten_cons, ih, List.take_append,
        List.take_of_length_le h.le]
    · rw [List.flatten_cons, List.flatten_cons, List.flatten_nil, List.append_nil,
        List.take_append_of_le_length (Nat.le_of_not_lt h)]

/-- The bytes of the chain up to the new length. -/
theorem append_pbufRealloc (n : ℕ) (head : List UInt8) (rest : List (List UInt8)) :
    (pbufRealloc n head rest).1 ++ (pbufRealloc n head rest).2.flatten =
      (head ++ rest.flatten).take n := by
  unfold pbufRealloc
  split_ifs with h h'
  · exact (List.take_of_length_le h).symm
  · dsimp only
    rw [flatten_pbufShrink, List.take_append, List.take_of_length_le h'.le]
  · dsimp only
    rw [List.flatten_nil, List.append_nil, List.take_append_of_le_length (Nat.le_of_not_lt h')]

theorem length_append_pbufRealloc_le (n : ℕ) (head : List UInt8) (rest : List (List UInt8)) :
    ((pbufRealloc n head rest).1 ++ (pbufRealloc n head rest).2.flatten).length ≤ n := by
  rw [append_pbufRealloc]
  exact List.length_take_le _ _

/-- What `ip4_input` asks of a header and the chain it stands in, which was cut to the length in the
header: version 4, a header that fits the first segment, no missing bytes, and a valid checksum. -/
structure IpChecks (hdr : IpHdr) (head : List UInt8) (rest : List (List UInt8)) : Prop where
  version : hdr.v = 4
  hlen_le : hdr.hlBytes ≤ head.length
  len_le : hdr.len.toNat ≤ (head ++ rest.flatten).length
  le_hlen : ipHlen ≤ hdr.hlBytes
  chksum : inetChksum (Mem.ofList head 0) 0 hdr.hlBytes = 0

instance IpChecks.dec (hdr : IpHdr) (head : List UInt8) (rest : List (List UInt8)) :
    Decidable (IpChecks hdr head rest) :=
  decidable_of_iff (hdr.v = 4 ∧ hdr.hlBytes ≤ head.length ∧
      hdr.len.toNat ≤ (head ++ rest.flatten).length ∧ ipHlen ≤ hdr.hlBytes ∧
      inetChksum (Mem.ofList head 0) 0 hdr.hlBytes = 0)
    ⟨fun h => ⟨h.1, h.2.1, h.2.2.1, h.2.2.2.1, h.2.2.2.2⟩,
      fun h => ⟨h.version, h.hlen_le, h.len_le, h.le_hlen, h.chksum⟩⟩

theorem IpChecks.len_eq {hdr : IpHdr} {head : List UInt8} {rest : List (List UInt8)}
    (h : IpChecks hdr head rest) (hle : (head ++ rest.flatten).length ≤ hdr.len.toNat) :
    hdr.len.toNat = ipHlen + (head.drop ipHlen ++ rest.flatten).length := by
  obtain ⟨-, h₁, h₂, h₃, -⟩ := h
  rw [List.length_append] at hle h₂
  rw [List.length_append, List.length_drop]
  omega

/-- What `ip4_input` does before it looks at the addresses: the chain is cut to the length in the
header, and dropped if it does not pass.  Bytes that a short first segment does not hold are read as
zeros. -/
def ip4InputChecks (head : List UInt8) (rest : List (List UInt8)) : Option IpPacket :=
  let hdr := IpHdr.ofBytes head
  let q := pbufRealloc hdr.len.toNat head rest
  if h : IpChecks hdr q.1 q.2 then
    some ⟨⟨hdr, q.1.drop ipHlen, q.2⟩,
      h.len_eq (length_append_pbufRealloc_le hdr.len.toNat head rest)⟩
  else none

theorem ip4InputChecks_of_checks {hdr : IpHdr} {head head' : List UInt8}
    {rest rest' : List (List UInt8)} (hhdr : IpHdr.ofBytes head = hdr)
    (hhead : (pbufRealloc hdr.len.toNat head rest).1 = head')
    (hrest : (pbufRealloc hdr.len.toNat head rest).2 = rest') (h : IpChecks hdr head' rest') :
    ∃ p : IpPacket, ip4InputChecks head rest = some p ∧
      p.toIpChain = ⟨hdr, head'.drop ipHlen, rest'⟩ := by
  subst hhdr
  subst hhead hrest
  unfold ip4InputChecks
  dsimp only
  rw [dif_pos h]
  exact ⟨_, rfl, rfl⟩

/-! ## From output to input -/

theorem ofBytes_toBytes_append (h : IpHdr) (bs : List UInt8) : IpHdr.ofBytes (h.toBytes ++ bs) = h := by
  have hbe : ∀ n : UInt16, UInt16.ofNat
      (256 * (UInt8.ofNat (n.toNat / 256)).toNat + (UInt8.ofNat n.toNat).toNat) = n := by
    intro n
    have hn := n.toNat_lt
    apply UInt16.toNat_inj.1
    rw [UInt16.toNat_ofNat', UInt8.toNat_ofNat', UInt8.toNat_ofNat']
    omega
  have hle : ∀ n : UInt16, UInt16.ofNat
      ((UInt8.ofNat n.toNat).toNat + 256 * (UInt8.ofNat (n.toNat / 256)).toNat) = n := by
    intro n
    have hn := n.toNat_lt
    apply UInt16.toNat_inj.1
    rw [UInt16.toNat_ofNat', UInt8.toNat_ofNat', UInt8.toNat_ofNat']
    omega
  have hword : ∀ n : UInt32, UInt32.ofNat
      ((UInt8.ofNat n.toNat).toNat + 256 * (UInt8.ofNat (n.toNat / 256)).toNat + 0x10000 *
        ((UInt8.ofNat (n.toNat / 2 ^ 16)).toNat + 256 * (UInt8.ofNat (n.toNat / 2 ^ 16 / 256)).toNat)) =
      n := by
    intro n
    have hn := n.toNat_lt
    apply UInt32.toNat_inj.1
    simp only [UInt32.toNat_ofNat', UInt8.toNat_ofNat']
    omega
  exact (IpHdr.mk.injEq ..).mpr ⟨rfl, rfl, hbe h.len, hbe h.id, hbe h.offset, rfl, rfl, hle h.chksum,
    hword h.src, hword h.dest⟩

/-- A packet with the right length and checksum in its header, in segments of which the first holds the
header, and with any bytes behind its end. -/
theorem ip4InputChecks_eq {h : IpHdr} (hv : h.vHl = 0x45) (hset : h.setChksum = h)
    {data body pad : List UInt8} {rest : List (List UInt8)} (hbytes : data ++ rest.flatten = body ++ pad)
    (hlen : h.len.toNat = ipHlen + body.length) :
    ∃ p : IpPacket, ip4InputChecks (h.toBytes ++ data) rest = some p ∧ p.hdr = h ∧ p.body = body := by
  have hhdr := ofBytes_toBytes_append h data
  have hversion : h.v = 4 := by
    unfold IpHdr.v
    rw [hv]
    rfl
  have hhlen : h.hlBytes = ipHlen := by
    unfold IpHdr.hlBytes
    rw [hv]
    rfl
  have hchain := append_pbufRealloc h.len.toNat (h.toBytes ++ data) rest
  have htake : (h.toBytes ++ data ++ rest.flatten).take h.len.toNat = h.toBytes ++ body := by
    rw [List.append_assoc, hbytes, hlen, ← List.append_assoc]
    exact List.take_left' (by rw [List.length_append, h.length_toBytes])
  rw [htake] at hchain
  -- the first segment still holds the header
  obtain ⟨data', hdata'⟩ : ∃ data', (pbufRealloc h.len.toNat (h.toBytes ++ data) rest).1 =
      h.toBytes ++ data' := by
    unfold pbufRealloc
    split_ifs
    · exact ⟨data, rfl⟩
    · exact ⟨data, rfl⟩
    · refine ⟨data.take (h.len.toNat - ipHlen), ?_⟩
      dsimp only
      rw [List.take_append, h.length_toBytes, List.take_of_length_le (by rw [h.length_toBytes]; omega)]
  obtain ⟨rest', hrest'⟩ : ∃ rest', (pbufRealloc h.len.toNat (h.toBytes ++ data) rest).2 = rest' :=
    ⟨_, rfl⟩
  rw [hdata', hrest', List.append_assoc] at hchain
  have hbody : data' ++ rest'.flatten = body := List.append_cancel_left hchain
  have hchecks : IpChecks h (h.toBytes ++ data') rest' := by
    refine ⟨hversion, ?_, ?_, hhlen.ge, ?_⟩
    · rw [hhlen, List.length_append, h.length_toBytes]
      exact Nat.le_add_right _ _
    · rw [List.append_assoc, hbody, List.length_append, h.length_toBytes, hlen]
    · rw [hhlen, ← hset]
      exact inetChksum_setChksum h data'
  obtain ⟨p, hp, hchain'⟩ := ip4InputChecks_of_checks hhdr hdata' hrest' hchecks
  refine ⟨p, hp, congrArg IpChain.hdr hchain', ?_⟩
  show p.toIpChain.body = body
  rw [hchain']
  show (h.toBytes ++ data').drop ipHlen ++ rest'.flatten = body
  rw [List.drop_left' h.length_toBytes, hbody]

theorem rest_of_ip4InputChecks {head : List UInt8} {p : IpPacket} (h : ip4InputChecks head [] = some p) :
    p.rest = [] := by
  unfold ip4InputChecks at h
  dsimp only at h
  split_ifs at h
  obtain rfl := Option.some.inj h
  show (pbufRealloc _ head []).2 = []
  unfold pbufRealloc
  split_ifs <;> rfl

/-- A packet in one segment, with any bytes behind it. -/
theorem ip4InputChecks_single {p : IpPacket} (hv : p.hdr.vHl = 0x45) (hset : p.hdr.setChksum = p.hdr)
    (hrest : p.rest = []) (pad : List UInt8) :
    ip4InputChecks (p.hdr.toBytes ++ (p.data ++ pad)) [] = some p := by
  have hbytes : p.data ++ pad ++ ([] : List (List UInt8)).flatten = p.body ++ pad := by
    unfold IpChain.body
    rw [hrest, List.flatten_nil, List.append_nil, List.append_nil]
  obtain ⟨q, hq, hhdr, hbody⟩ := ip4InputChecks_eq hv hset hbytes p.len_eq
  have hrest' := rest_of_ip4InputChecks hq
  rw [hq]
  obtain ⟨⟨hdr, data, rest⟩, hp⟩ := p
  obtain ⟨⟨hdr', data', rest'⟩, hq'⟩ := q
  obtain rfl : rest = [] := hrest
  obtain rfl : rest' = [] := hrest'
  obtain rfl : hdr' = hdr := hhdr
  unfold IpChain.body at hbody
  rw [List.append_left_inj] at hbody
  obtain rfl : data' = data := hbody
  rfl

/-- The header that is sent arrives, with the bytes behind it. -/
theorem ip4Input_ip4Output (ipId : UInt16) (ttl tos proto : UInt8) (src dest : UInt32)
    {data body pad : List UInt8} {rest : List (List UInt8)} (hbytes : data ++ rest.flatten = body ++ pad)
    (hlen : ipHlen + body.length < 2 ^ 16) :
    let h := ip4OutputHdr (.ofNat (ipHlen + body.length)) ipId ttl tos proto src dest
    ∃ p : IpPacket, ip4InputChecks (h.toBytes ++ data) rest = some p ∧ p.hdr = h ∧ p.body = body := by
  apply ip4InputChecks_eq rfl (setChksum_ip4OutputHdr ..) hbytes
  exact UInt16.toNat_ofNat_of_lt' hlen

/-- A payload in three segments and two bytes of padding. -/
theorem ip4Input_ip4Output_padded :
    let body : List UInt8 := [1, 2, 3, 4, 5]
    let h := ip4OutputHdr (.ofNat (ipHlen + body.length)) 7 255 0 17 0x0101A8C0 0x0201A8C0
    ∃ p : IpPacket, ip4InputChecks (h.toBytes ++ [1, 2]) [[3, 4], [5, 0, 0]] = some p ∧ p.hdr = h ∧
      p.body = body := by
  intro body
  have hbytes : [1, 2] ++ [[3, 4], [5, 0, 0]].flatten = body ++ [0, 0] := rfl
  exact ip4Input_ip4Output 7 255 0 17 0x0101A8C0 0x0201A8C0 hbytes (by decide)

end DsiWifi
