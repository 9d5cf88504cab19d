import DsiWifi.Util
import DsiWifi.Lib.OnesComplement

/-!
# The Internet checksum of lwIP

`inet_chksum.c` with `LWIP_CHKSUM_ALGORITHM` 2: the sum is taken over the halfwords of a little-endian
machine, the byte before an odd address counts as the upper half of a word, and the bytes of the sum
are exchanged at the end.  Over a chain the sum of each segment is added as if it began at an even
place, and the bytes of the running sum are exchanged behind every segment of odd length.

The reference is the sum of RFC 1071, over the bytes of the whole packet in network order
(`internetSum`).  Wherever the segments lie and however the packet is cut into them, the bytes of the
result are those of the complement of that sum (`putle16_inetChksum`).
-/

namespace DsiWifi

open OnesComplement

/-! ## One block -/

def foldU32T (u : ℕ) : ℕ := u / 2 ^ 16 + u % 2 ^ 16

def swapBytesInWord (w : ℕ) : ℕ := w % 0x100 * 0x100 + w / 0x100 % 0x100

/-- `while (len > 1) { sum += *ps++; len -= 2; }`: the address behind the loop, the bytes left and
the sum. -/
def chksumBulk (m : Mem UInt8) : (ps len sum : ℕ) → ℕ × ℕ × ℕ
  | ps, len + 2, sum => chksumBulk m (ps + 2) len ((sum + getle16 m ps) % 2 ^ 32)
  | ps, len, sum => (ps, len, sum)

def lwipStandardChksum (m : Mem UInt8) (dataptr len : ℕ) : ℕ :=
  let odd := dataptr % 2 = 1
  -- `t` collects the bytes at both ends: `((u8_t *)&t)[1]` in front, `((u8_t *)&t)[0]` behind
  let front := odd ∧ 0 < len
  let t := if front then 0x100 * (m dataptr).toNat else 0
  let pb := if front then dataptr + 1 else dataptr
  let len := if front then len - 1 else len
  let bulk := chksumBulk m pb len 0
  let t := if 0 < bulk.2.1 then t + (m bulk.1).toNat else t
  let sum := foldU32T (foldU32T ((bulk.2.2 + t) % 2 ^ 32))
  let sum := if odd then swapBytesInWord sum else sum
  sum % 2 ^ 16

def inetChksum (m : Mem UInt8) (dataptr len : ℕ) : ℕ := 0xFFFF - lwipStandardChksum m dataptr len

/-! ## Chains -/

/-- What the checksum reads of a segment.  `len` is a `u16_t`. -/
structure PbufSpan where
  payload : ℕ
  len : ℕ
  len_lt : len < 2 ^ 16

/-- The bytes of a chain in memory. -/
def chainBytes (m : Mem UInt8) (p : List PbufSpan) : List UInt8 :=
  p.flatMap fun q => m.read q.payload q.len

/-- The loop over the chain, from the sum `acc` and the flag `swapped`. -/
def chksumChain (m : Mem UInt8) : List PbufSpan → (acc : ℕ) → (swapped : Bool) → ℕ × Bool
  | [], acc, swapped => (acc, swapped)
  | q :: p, acc, swapped =>
    let acc := foldU32T ((acc + lwipStandardChksum m q.payload q.len) % 2 ^ 32)
    if q.len % 2 ≠ 0 then chksumChain m p (swapBytesInWord acc) !swapped
    else chksumChain m p acc swapped

/-- `if (swapped) acc = SWAP_BYTES_IN_WORD(acc);`. -/
def unswap (r : ℕ × Bool) : ℕ := if r.2 then swapBytesInWord r.1 else r.1

/-- The loop and the exchange behind it. -/
def chksumPbufs (m : Mem UInt8) (p : List PbufSpan) (acc : ℕ) : ℕ :=
  unswap (chksumChain m p acc false)

def inetChksumPbuf (m : Mem UInt8) (p : List PbufSpan) : ℕ :=
  0xFFFF - chksumPbufs m p 0 % 2 ^ 16

def lwipHtons (n : ℕ) : ℕ := swapBytesInWord n

def inetCksumPseudoBase (m : Mem UInt8) (p : List PbufSpan) (proto : UInt8) (protoLen : UInt16)
    (acc : ℕ) : ℕ :=
  let acc := chksumPbufs m p acc
  let acc := (acc + lwipHtons proto.toNat) % 2 ^ 32
  let acc := (acc + lwipHtons protoLen.toNat) % 2 ^ 32
  0xFFFF - foldU32T (foldU32T acc) % 2 ^ 16

/-- `inet_chksum_pseudo`; the addresses are words in network order. -/
def inetChksumPseudo (m : Mem UInt8) (p : List PbufSpan) (proto : UInt8) (protoLen : UInt16)
    (src dest : UInt32) : ℕ :=
  let acc := src.toNat % 2 ^ 16
  let acc := (acc + src.toNat / 2 ^ 16 % 2 ^ 16) % 2 ^ 32
  let acc := (acc + dest.toNat % 2 ^ 16) % 2 ^ 32
  let acc := (acc + dest.toNat / 2 ^ 16 % 2 ^ 16) % 2 ^ 32
  inetCksumPseudoBase m p proto protoLen (foldU32T (foldU32T acc))

/-! ## The reference -/

/-- The sum of RFC 1071: the words of the string in network order, added in one's complement, a byte
left over padded with zero on the right. -/
def internetSum (bs : List UInt8) : ℕ := sumBe 0x100 (bs.map UInt8.toNat)

/-- The pseudo header of UDP and TCP. -/
def pseudoHeader (src dest : UInt32) (proto : UInt8) (protoLen : UInt16) : List UInt8 :=
  putle32 src.toNat ++ putle32 dest.toNat ++ [0, proto] ++ putbe16 protoLen.toNat

/-- The sum of the words as the machine reads them. -/
def hostSum (bs : List UInt8) : ℕ := sumLe 0x100 (bs.map UInt8.toNat)

/-- The same one's-complement number of 16 bits. -/
abbrev Same16 (a b : ℕ) : Prop := Same (0x100 * 0x100 - 1) a b

theorem internetSum_le (bs : List UInt8) : internetSum bs ≤ 0xFFFF := by
  apply sumBe_le (b := 0x100) (by decide)
  intro x hx
  obtain ⟨b, -, rfl⟩ := List.mem_map.1 hx
  exact b.toNat_lt

theorem same_internetSum (bs : List UInt8) : Same16 (internetSum bs) (0x100 * hostSum bs) :=
  same_sumBe (by decide) _

theorem same_hostSum_append (bs cs : List UInt8) :
    Same16 (hostSum (bs ++ cs)) (hostSum bs + 0x100 ^ bs.length * hostSum cs) := by
  unfold hostSum
  rw [List.map_append, ← bs.length_map (f := UInt8.toNat)]
  exact same_sumLe_append (by decide) _ _

theorem same_hostSum_cons (b : UInt8) (bs : List UInt8) :
    Same16 (hostSum (b :: bs)) (b.toNat + 0x100 * hostSum bs) :=
  same_sumLe_cons (by decide) _ _

/-- Only whether an exponent is odd counts. -/
theorem same_pow_mul (k n : ℕ) :
    Same16 (0x100 ^ k * n) (if k % 2 = 0 then n else 0x100 * n) := by
  induction k using Nat.twoStepInduction generalizing n with
  | zero =>
    rw [Nat.pow_zero, Nat.one_mul]
    exact Same.refl _ _
  | one => exact Same.refl _ _
  | more k ih _ =>
    have hpow : 0x100 ^ (k + 2) * n = 0x100 * (0x100 * (0x100 ^ k * n)) := by ring
    rw [hpow, Nat.add_mod_right]
    exact (same_sq_mul (by decide) _).trans (ih n)

/-! ## One block: what is computed -/

theorem same_foldU32T (u : ℕ) : Same16 (foldU32T u) u := same_fold (by decide) u

theorem foldU32T_le {u : ℕ} (h : u ≤ 0x1FFFE) : foldU32T u ≤ 0xFFFF := by
  unfold foldU32T
  omega

theorem foldU32T_foldU32T_le {u : ℕ} (h : u < 2 ^ 32) : foldU32T (foldU32T u) ≤ 0xFFFF := by
  apply foldU32T_le
  unfold foldU32T
  omega

theorem swapBytesInWord_eq_swap {w : ℕ} (h : w ≤ 0xFFFF) : swapBytesInWord w = swap 0x100 w := by
  unfold swapBytesInWord swap
  omega

theorem swapBytesInWord_le (w : ℕ) : swapBytesInWord w ≤ 0xFFFF := by
  unfold swapBytesInWord
  omega

theorem same_swapBytesInWord {w : ℕ} (h : w ≤ 0xFFFF) : Same16 (swapBytesInWord w) (0x100 * w) := by
  rw [swapBytesInWord_eq_swap h]
  exact same_swap (by decide) w

theorem getle16_lt_pow (m : Mem UInt8) (p : ℕ) : getle16 m p < 2 ^ 16 := by
  have h₁ := (m p).toNat_lt
  have h₂ := (m (p + 1)).toNat_lt
  unfold getle16
  omega

theorem hostSum_read_add_two (m : Mem UInt8) (a n : ℕ) :
    hostSum (m.read a (n + 2)) = getle16 m a + hostSum (m.read (a + 2) n) := by
  rw [Mem.read_succ, Mem.read_succ]
  rfl

/-- The loop leaves no byte or one, and its sum with that byte is the sum of the block.  The sum
stays within 32 bits for the lengths a segment can have. -/
theorem chksumBulk_spec (m : Mem UInt8) (ps len sum : ℕ) (h : sum + 0xFFFF * (len / 2) < 2 ^ 32) :
    ∃ e s, chksumBulk m ps len sum = (e, len % 2, s) ∧
      s + (if 0 < len % 2 then (m e).toNat else 0) = sum + hostSum (m.read ps len) ∧
      s ≤ sum + 0xFFFF * (len / 2) := by
  induction ps, len, sum using chksumBulk.induct m with
  | case1 ps len sum ih =>
    have hw := getle16_lt_pow m ps
    have hlen : (len + 2) / 2 = len / 2 + 1 := by omega
    rw [hlen] at h
    have hmod : (sum + getle16 m ps) % 2 ^ 32 = sum + getle16 m ps := Nat.mod_eq_of_lt (by omega)
    rw [hmod] at ih
    obtain ⟨e, s, hbulk, hsum, hle⟩ := ih (by omega)
    have hpar : len.succ.succ % 2 = len % 2 := Nat.add_mod_right len 2
    refine ⟨e, s, ?_, ?_, ?_⟩
    · rw [chksumBulk, hmod, hbulk, hpar]
    · rw [hpar, hsum, Nat.add_assoc]
      exact congrArg (sum + ·) (hostSum_read_add_two m ps len).symm
    · omega
  | case2 ps len sum hne =>
    have hlen : len < 2 := by
      by_contra hge
      exact hne (len - 2) (by omega)
    obtain rfl | rfl : len = 0 ∨ len = 1 := by omega
    · exact ⟨ps, sum, rfl, rfl, Nat.le_refl _⟩
    · exact ⟨ps, sum, rfl, rfl, Nat.le_refl _⟩

/-- The sum with the byte in front as `t`, after the two folds. -/
theorem chksumFold_spec (m : Mem UInt8) (pb len t : ℕ) (hlen : len < 2 ^ 16) (ht : t < 2 ^ 16) :
    ∃ sum, foldU32T (foldU32T (((chksumBulk m pb len 0).2.2 +
        if 0 < (chksumBulk m pb len 0).2.1 then t + (m (chksumBulk m pb len 0).1).toNat else t) %
          2 ^ 32)) = sum ∧
      Same16 sum (t + hostSum (m.read pb len)) ∧ sum ≤ 0xFFFF := by
  obtain ⟨e, s, hbulk, hsum, hle⟩ := chksumBulk_spec m pb len 0 (by omega)
  rw [Nat.zero_add] at hsum
  have hbyte := (m e).toNat_lt
  have htotal : s + (if 0 < len % 2 then t + (m e).toNat else t) =
      t + hostSum (m.read pb len) := by
    rw [← hsum]
    split_ifs <;> omega
  have hlt : t + hostSum (m.read pb len) < 2 ^ 32 := by
    rw [← htotal]
    split_ifs <;> omega
  refine ⟨_, rfl, ?_⟩
  rw [hbulk, htotal, Nat.mod_eq_of_lt hlt]
  exact ⟨(same_foldU32T _).trans (same_foldU32T _), foldU32T_foldU32T_le hlt⟩

theorem lwipStandardChksum_le (m : Mem UInt8) (dataptr len : ℕ) :
    lwipStandardChksum m dataptr len ≤ 0xFFFF :=
  Nat.le_of_lt_succ (Nat.mod_lt _ (by decide))

/-- The alignment of the block does not matter. -/
theorem same_lwipStandardChksum (m : Mem UInt8) (dataptr : ℕ) {len : ℕ} (hlen : len < 2 ^ 16) :
    Same16 (lwipStandardChksum m dataptr len) (hostSum (m.read dataptr len)) := by
  unfold lwipStandardChksum
  by_cases hodd : dataptr % 2 = 1
  · rcases len with _ | len
    · -- nothing to add: the bytes of zero are exchanged
      simp only [hodd, if_true, Nat.lt_irrefl, and_false, if_false, chksumBulk]
      exact Same.refl _ _
    · have hfront : dataptr % 2 = 1 ∧ 0 < len + 1 := ⟨hodd, Nat.succ_pos len⟩
      have hbyte := (m dataptr).toNat_lt
      obtain ⟨sum, heq, hsame, hle⟩ := chksumFold_spec m (dataptr + 1) len
        (0x100 * (m dataptr).toNat) (by omega) (by omega)
      have hswap := swapBytesInWord_le sum
      simp only [if_pos hfront, if_pos hodd, Nat.add_sub_cancel]
      rw [heq, Nat.mod_eq_of_lt (by omega), Mem.read_succ]
      refine (same_swapBytesInWord hle).trans ((hsame.mul_left 0x100).trans ?_)
      rw [Nat.mul_add]
      exact ((same_sq_mul (by decide) _).add (Same.refl _ _)).trans (same_hostSum_cons _ _).symm
  · obtain ⟨sum, heq, hsame, hle⟩ := chksumFold_spec m dataptr len 0 hlen (by omega)
    simp only [hodd, false_and, if_false]
    rw [heq, Nat.mod_eq_of_lt (by omega)]
    rw [Nat.zero_add] at hsame
    exact hsame

/-! ## Chains: what is computed -/

theorem unswap_le {r : ℕ × Bool} (h : r.1 ≤ 0xFFFF) : unswap r ≤ 0xFFFF := by
  unfold unswap
  split_ifs
  · exact swapBytesInWord_le _
  · exact h

theorem chainBytes_cons (m : Mem UInt8) (q : PbufSpan) (p : List PbufSpan) :
    chainBytes m (q :: p) = m.read q.payload q.len ++ chainBytes m p := List.flatMap_cons

/-- One segment of the loop. -/
theorem same_foldU32T_chksum (m : Mem UInt8) (q : PbufSpan) {acc : ℕ} (hacc : acc ≤ 0xFFFF) :
    ∃ sum, foldU32T ((acc + lwipStandardChksum m q.payload q.len) % 2 ^ 32) = sum ∧
      Same16 sum (acc + hostSum (m.read q.payload q.len)) ∧ sum ≤ 0xFFFF := by
  have hle := lwipStandardChksum_le m q.payload q.len
  refine ⟨_, rfl, ?_⟩
  rw [Nat.mod_eq_of_lt (by omega)]
  refine ⟨(same_foldU32T _).trans ?_, foldU32T_le (by omega)⟩
  exact (Same.refl _ acc).add (same_lwipStandardChksum m q.payload q.len_lt)

/-- The sum of a chain from the sum of its first segment and that of the others. -/
theorem same_hostSum_chain (m : Mem UInt8) (q : PbufSpan) (p : List PbufSpan) :
    Same16 (hostSum (chainBytes m (q :: p)))
      (hostSum (m.read q.payload q.len) +
        if q.len % 2 = 0 then hostSum (chainBytes m p) else 0x100 * hostSum (chainBytes m p)) := by
  have happend := same_hostSum_append (m.read q.payload q.len) (chainBytes m p)
  have hpow := same_pow_mul q.len (hostSum (chainBytes m p))
  rw [Mem.length_read] at happend
  rw [chainBytes_cons]
  exact happend.trans ((Same.refl _ _).add hpow)

/-- The loop over a chain, with the exchange that `swapped` still asks for. -/
theorem chksumChain_spec (m : Mem UInt8) (p : List PbufSpan) (acc : ℕ) (swapped : Bool)
    (hacc : acc ≤ 0xFFFF) :
    (chksumChain m p acc swapped).1 ≤ 0xFFFF ∧
      Same16 (unswap (chksumChain m p acc swapped))
        (0x100 ^ swapped.toNat * (acc + hostSum (chainBytes m p))) := by
  induction p generalizing acc swapped with
  | nil =>
    refine ⟨hacc, ?_⟩
    cases swapped
    · show Same16 acc (1 * (acc + 0))
      rw [Nat.one_mul, Nat.add_zero]
      exact Same.refl _ _
    · exact same_swapBytesInWord hacc
  | cons q p ih =>
    obtain ⟨sum, heq, hsame, hle⟩ := same_foldU32T_chksum m q hacc
    have hchain := same_hostSum_chain m q p
    unfold chksumChain
    rw [heq]
    by_cases hlen : q.len % 2 = 0
    · rw [if_neg (not_not.2 hlen)]
      rw [if_pos hlen] at hchain
      obtain ⟨hout, hrest⟩ := ih sum swapped hle
      refine ⟨hout, hrest.trans (Same.mul_left _ ?_)⟩
      refine (hsame.add (Same.refl _ _)).trans ?_
      rw [Nat.add_assoc]
      exact (Same.refl _ acc).add hchain.symm
    · -- what follows counts with its bytes exchanged, and so does what came before
      rw [if_pos hlen]
      rw [if_neg hlen] at hchain
      obtain ⟨hout, hrest⟩ := ih (swapBytesInWord sum) (!swapped) (swapBytesInWord_le sum)
      have hswap := (same_swapBytesInWord hle).trans (hsame.mul_left 0x100)
      refine ⟨hout, hrest.trans ?_⟩
      refine ((hswap.add (Same.refl _ _)).mul_left _).trans ?_
      refine Same.trans ?_ (((Same.refl _ acc).add hchain.symm).mul_left _)
      rw [← Nat.add_assoc]
      cases swapped
      · show Same16 (0x100 ^ 1 * (_ + _)) (1 * (_ + _))
        rw [Nat.pow_one, Nat.one_mul, Nat.mul_add]
        exact (same_sq_mul (by decide) _).add (Same.refl _ _)
      · show Same16 (1 * (_ + _)) (0x100 ^ 1 * (_ + _))
        rw [Nat.pow_one, Nat.one_mul, Nat.mul_add 0x100 (acc + _)]
        exact (Same.refl _ _).add (same_sq_mul (by decide) _).symm

theorem chksumPbufs_le (m : Mem UInt8) (p : List PbufSpan) {acc : ℕ} (hacc : acc ≤ 0xFFFF) :
    chksumPbufs m p acc ≤ 0xFFFF :=
  unswap_le (chksumChain_spec m p acc false hacc).1

theorem same_chksumPbufs (m : Mem UInt8) (p : List PbufSpan) {acc : ℕ} (hacc : acc ≤ 0xFFFF) :
    Same16 (chksumPbufs m p acc) (acc + hostSum (chainBytes m p)) := by
  have h := (chksumChain_spec m p acc false hacc).2
  rw [Bool.toNat_false, Nat.pow_zero, Nat.one_mul] at h
  exact h

theorem hostSum_putle16_append (n : ℕ) (bs : List UInt8) :
    hostSum (putle16 n ++ bs) = n % 2 ^ 16 + hostSum bs := by
  have hbytes : hostSum (putle16 n ++ bs) =
      (UInt8.ofNat n).toNat + 0x100 * (UInt8.ofNat (n / 256)).toNat + hostSum bs := rfl
  rw [hbytes, UInt8.toNat_ofNat', UInt8.toNat_ofNat']
  omega

theorem hostSum_putbe16_append (n : ℕ) (bs : List UInt8) :
    hostSum (putbe16 n ++ bs) = lwipHtons n + hostSum bs := by
  have hbytes : hostSum (putbe16 n ++ bs) =
      (UInt8.ofNat (n / 256)).toNat + 0x100 * (UInt8.ofNat n).toNat + hostSum bs := rfl
  rw [hbytes, UInt8.toNat_ofNat', UInt8.toNat_ofNat', lwipHtons, swapBytesInWord]
  omega

theorem hostSum_pseudoHeader_append (src dest : UInt32) (proto : UInt8) (protoLen : UInt16)
    (bs : List UInt8) :
    hostSum (pseudoHeader src dest proto protoLen ++ bs) =
      src.toNat % 2 ^ 16 + src.toNat / 2 ^ 16 % 2 ^ 16 + dest.toNat % 2 ^ 16 +
        dest.toNat / 2 ^ 16 % 2 ^ 16 + lwipHtons proto.toNat + lwipHtons protoLen.toNat +
        hostSum bs := by
  have hproto : [0, proto] = putbe16 proto.toNat := by
    rw [putbe16, Nat.div_eq_of_lt proto.toNat_lt, UInt8.ofNat_toNat]
    rfl
  unfold pseudoHeader putle32
  simp only [List.append_assoc, hproto, hostSum_putle16_append, hostSum_putbe16_append]
  omega

/-- The complement stored by a little-endian machine is the complement of the sum of RFC 1071 in
network order. -/
theorem putle16_compl {x : ℕ} {bs : List UInt8} (hx : x ≤ 0xFFFF) (h : Same16 x (hostSum bs)) :
    putle16 (0xFFFF - x) = putbe16 (0xFFFF - internetSum bs) := by
  have hsum : internetSum bs = swapBytesInWord x := by
    apply Same.eq_of_le _ (internetSum_le bs) (swapBytesInWord_le x)
    exact (same_internetSum bs).trans ((h.symm.mul_left _).trans (same_swapBytesInWord hx).symm)
  have hx' : 0xFFFF - x = 0xFF - x % 0x100 + 0x100 * (0xFF - x / 0x100) := by omega
  have hswap : 0xFFFF - swapBytesInWord x = 0xFF - x / 0x100 + 0x100 * (0xFF - x % 0x100) := by
    unfold swapBytesInWord
    omega
  rw [hsum, hx', hswap]
  unfold putle16 putbe16
  have hbyte : ∀ lo hi, lo < 0x100 → (lo + 0x100 * hi) / 256 = hi := by omega
  rw [hbyte _ _ (by omega), hbyte _ _ (by omega)]
  congr 1
  · rw [← UInt8.toNat_inj, UInt8.toNat_ofNat', UInt8.toNat_ofNat']
    omega
  · congr 1
    rw [← UInt8.toNat_inj, UInt8.toNat_ofNat', UInt8.toNat_ofNat']
    omega

/-- The sum whose complement `inet_chksum_pseudo` returns. -/
theorem inetChksumPseudo_spec (m : Mem UInt8) (p : List PbufSpan) (proto : UInt8)
    (protoLen : UInt16) (src dest : UInt32) :
    ∃ x ≤ 0xFFFF, inetChksumPseudo m p proto protoLen src dest = 0xFFFF - x ∧
      Same16 x (hostSum (pseudoHeader src dest proto protoLen ++ chainBytes m p)) := by
  have hhtons : ∀ n, lwipHtons n ≤ 0xFFFF := swapBytesInWord_le
  have hp := hhtons proto.toNat
  have hl := hhtons protoLen.toNat
  rw [hostSum_pseudoHeader_append]
  unfold inetChksumPseudo inetCksumPseudoBase
  dsimp only
  -- the four halves of the addresses, folded
  generalize hacc : src.toNat % 2 ^ 16 + src.toNat / 2 ^ 16 % 2 ^ 16 + dest.toNat % 2 ^ 16 +
    dest.toNat / 2 ^ 16 % 2 ^ 16 = acc
  have hlt : acc < 2 ^ 32 := by omega
  have haddr : (((src.toNat % 2 ^ 16 + src.toNat / 2 ^ 16 % 2 ^ 16) % 2 ^ 32 +
      dest.toNat % 2 ^ 16) % 2 ^ 32 + dest.toNat / 2 ^ 16 % 2 ^ 16) % 2 ^ 32 = acc := by omega
  rw [haddr]
  have hacc_le := foldU32T_foldU32T_le hlt
  have hacc_same := (same_foldU32T (foldU32T acc)).trans (same_foldU32T acc)
  -- the chain, and the rest of the pseudo header
  have hchain_le := chksumPbufs_le m p hacc_le
  have hchain := (same_chksumPbufs m p hacc_le).trans (hacc_same.add (Same.refl _ _))
  generalize chksumPbufs m p (foldU32T (foldU32T acc)) = chain at hchain hchain_le
  rw [Nat.mod_eq_of_lt (a := chain + _) (by omega), Nat.mod_eq_of_lt (b := 2 ^ 32) (by omega)]
  have hlt' : chain + lwipHtons proto.toNat + lwipHtons protoLen.toNat < 2 ^ 32 := by omega
  have hx := foldU32T_foldU32T_le hlt'
  refine ⟨_, hx, by rw [Nat.mod_eq_of_lt (by omega)], ?_⟩
  refine ((same_foldU32T _).trans (same_foldU32T _)).trans ?_
  have h := (hchain.add (Same.refl _ (lwipHtons proto.toNat))).add
    (Same.refl _ (lwipHtons protoLen.toNat))
  have hcomm : acc + hostSum (chainBytes m p) + lwipHtons proto.toNat + lwipHtons protoLen.toNat =
      acc + lwipHtons proto.toNat + lwipHtons protoLen.toNat + hostSum (chainBytes m p) := by omega
  rw [hcomm] at h
  exact h

/-- The checksum of a block at any address, of a chain, and of a chain behind a pseudo header: what is
stored is the complement of the RFC 1071 sum over the bytes in the order of the network. -/
theorem putle16_inetChksum (m : Mem UInt8) (q : PbufSpan) (p : List PbufSpan) (proto : UInt8)
    (protoLen : UInt16) (src dest : UInt32) :
    putle16 (inetChksum m q.payload q.len) =
        putbe16 (0xFFFF - internetSum (m.read q.payload q.len)) ∧
      putle16 (inetChksumPbuf m p) = putbe16 (0xFFFF - internetSum (chainBytes m p)) ∧
      putle16 (inetChksumPseudo m p proto protoLen src dest) =
        putbe16 (0xFFFF -
          internetSum (pseudoHeader src dest proto protoLen ++ chainBytes m p)) := by
  refine ⟨?_, ?_, ?_⟩
  · apply putle16_compl (lwipStandardChksum_le _ _ _)
    exact same_lwipStandardChksum m q.payload q.len_lt
  · have hle := chksumPbufs_le m p (Nat.zero_le 0xFFFF)
    have hsame := same_chksumPbufs m p (Nat.zero_le 0xFFFF)
    rw [Nat.zero_add] at hsame
    unfold inetChksumPbuf
    rw [Nat.mod_eq_of_lt (by omega)]
    exact putle16_compl hle hsame
  · obtain ⟨x, hx, heq, hsame⟩ := inetChksumPseudo_spec m p proto protoLen src dest
    rw [heq]
    exact putle16_compl hx hsame

/-! ## Verification -/

/-- A packet passes the check when its words add up to the other zero. -/
theorem inetChksumPseudo_eq_zero_iff (m : Mem UInt8) (p : List PbufSpan) (proto : UInt8)
    (protoLen : UInt16) (src dest : UInt32) :
    inetChksumPseudo m p proto protoLen src dest = 0 ↔
      Same16 (hostSum (pseudoHeader src dest proto protoLen ++ chainBytes m p)) 0xFFFF := by
  obtain ⟨x, hx, heq, hsame⟩ := inetChksumPseudo_spec m p proto protoLen src dest
  rw [heq]
  constructor
  · intro h
    obtain rfl : x = 0xFFFF := by omega
    exact hsame.symm
  · intro h
    have := (hsame.trans h).eq_of_le hx (Nat.le_refl 0xFFFF)
    omega

theorem hostSum_append_of_even {bs : List UInt8} (h : bs.length % 2 = 0) (cs : List UInt8) :
    Same16 (hostSum (bs ++ cs)) (hostSum bs + hostSum cs) := by
  have hpow := same_pow_mul bs.length (hostSum cs)
  rw [if_pos h] at hpow
  exact (same_hostSum_append bs cs).trans ((Same.refl _ _).add hpow)

/-- The sum of a packet with one word of it taken out. -/
theorem same_hostSum_word (src dest : UInt32) (proto : UInt8) (protoLen : UInt16)
    {pre : List UInt8} (hpre : pre.length % 2 = 0) (w : ℕ) (post : List UInt8) :
    Same16 (hostSum (pseudoHeader src dest proto protoLen ++ (pre ++ (putle16 w ++ post))))
      (w % 2 ^ 16 + hostSum (pseudoHeader src dest proto protoLen ++ (pre ++ post))) := by
  have hlen : (pseudoHeader src dest proto protoLen ++ pre).length % 2 = 0 := by
    rw [List.length_append]
    show (12 + pre.length) % 2 = 0
    omega
  have hfull := hostSum_append_of_even hlen (putle16 w ++ post)
  have hrest := hostSum_append_of_even hlen post
  rw [List.append_assoc] at hfull hrest
  rw [hostSum_putle16_append] at hfull
  refine hfull.trans ?_
  rw [Nat.add_left_comm]
  exact (Same.refl _ _).add hrest.symm

/-- What the sender stores in the place of the two zero bytes makes the packet pass at the receiver,
wherever either of them cuts it into segments. -/
theorem inetChksumPseudo_verifies {m m' : Mem UInt8} {p p' : List PbufSpan} (proto : UInt8)
    (protoLen : UInt16) (src dest : UInt32) {pre post : List UInt8} (hpre : pre.length % 2 = 0)
    (hsent : chainBytes m p = pre ++ (putle16 0 ++ post))
    (hreceived : chainBytes m' p' =
      pre ++ (putle16 (inetChksumPseudo m p proto protoLen src dest) ++ post)) :
    inetChksumPseudo m' p' proto protoLen src dest = 0 := by
  obtain ⟨x, hx, heq, hsame⟩ := inetChksumPseudo_spec m p proto protoLen src dest
  rw [inetChksumPseudo_eq_zero_iff, hreceived, heq]
  have hzero := same_hostSum_word src dest proto protoLen hpre 0 post
  have hword := same_hostSum_word src dest proto protoLen hpre (0xFFFF - x) post
  rw [hsent] at hsame
  rw [Nat.zero_mod, Nat.zero_add] at hzero
  rw [Nat.mod_eq_of_lt (by omega)] at hword
  -- the sum without the field is `x`, and `x` with its complement is the other zero
  refine hword.trans (((Same.refl _ _).add (hsame.trans hzero).symm).trans ?_)
  rw [Nat.sub_add_cancel hx]
  exact Same.refl _ _

/-- Three header bytes of five, sent from an even address and received in two segments of odd length,
the first at an odd address. -/
theorem inetChksumPseudo_verifies_cut :
    inetChksumPseudo (Mem.ofList [0, 0x12, 0, 0x34, 0x16, 0x61, 0x56] 0)
      [⟨1, 1, by decide⟩, ⟨3, 4, by decide⟩] 17 5 0x0100A8C0 0x0200A8C0 = 0 :=
  inetChksumPseudo_verifies (m := Mem.ofList [0x12, 0x34, 0, 0, 0x56] 0) (p := [⟨0, 5, by decide⟩])
    17 5 0x0100A8C0 0x0200A8C0 (show [0x12, 0x34].length % 2 = 0 from rfl)
    (show _ = [0x12, 0x34] ++ (putle16 0 ++ [0x56]) by decide) (by decide)

/-- The words of a packet of some protocol are not all zero, so only the remainder decides. -/
theorem inetChksumPseudo_eq_zero_iff_mod {m : Mem UInt8} {p : List PbufSpan} {proto : UInt8}
    (hproto : proto ≠ 0) (protoLen : UInt16) (src dest : UInt32) {pre post : List UInt8} {w : ℕ}
    (hpre : pre.length % 2 = 0) (hw : w ≤ 0xFFFF)
    (hbytes : chainBytes m p = pre ++ (putle16 w ++ post)) :
    inetChksumPseudo m p proto protoLen src dest = 0 ↔
      (w + hostSum (pseudoHeader src dest proto protoLen ++ (pre ++ post))) % 0xFFFF = 0 := by
  have hword := same_hostSum_word src dest proto protoLen hpre w post
  rw [Nat.mod_eq_of_lt (by omega)] at hword
  have hpos : 0 < hostSum (pseudoHeader src dest proto protoLen ++ (pre ++ post)) := by
    have hne : proto.toNat ≠ 0 := fun h => hproto (UInt8.toNat_inj.1 h)
    have hlt := proto.toNat_lt
    have hhtons : 0 < lwipHtons proto.toNat := by
      unfold lwipHtons swapBytesInWord
      omega
    rw [hostSum_pseudoHeader_append]
    omega
  rw [inetChksumPseudo_eq_zero_iff, hbytes]
  constructor
  · intro h
    exact (hword.symm.trans h).modEq
  · intro h
    refine hword.trans ⟨?_, h⟩
    omega

/-- One word of a packet that passes is replaced: the packet still passes exactly when the word is the
same, or one of the two zeros took the place of the other. -/
theorem inetChksumPseudo_detects {m m' : Mem UInt8} {p p' : List PbufSpan} {proto : UInt8}
    (hproto : proto ≠ 0) (protoLen : UInt16) (src dest : UInt32) {pre post : List UInt8} {w w' : ℕ}
    (hpre : pre.length % 2 = 0) (hw : w ≤ 0xFFFF) (hw' : w' ≤ 0xFFFF)
    (hsent : chainBytes m p = pre ++ (putle16 w ++ post))
    (hreceived : chainBytes m' p' = pre ++ (putle16 w' ++ post))
    (hpass : inetChksumPseudo m p proto protoLen src dest = 0) :
    inetChksumPseudo m' p' proto protoLen src dest = 0 ↔
      w' = w ∨ w = 0 ∧ w' = 0xFFFF ∨ w = 0xFFFF ∧ w' = 0 := by
  rw [inetChksumPseudo_eq_zero_iff_mod hproto protoLen src dest hpre hw hsent] at hpass
  rw [inetChksumPseudo_eq_zero_iff_mod hproto protoLen src dest hpre hw' hreceived]
  omega

/-- The lowest bit of the field is flipped. -/
theorem inetChksumPseudo_detects_bit :
    inetChksumPseudo (Mem.ofList [0x12, 0x34, 0x96, 0xB5, 0x56] 0) [⟨0, 5, by decide⟩] 17 5 0 0 = 0 ↔
      0xB596 = 0xB597 ∨ 0xB597 = 0 ∧ 0xB596 = 0xFFFF ∨ 0xB597 = 0xFFFF ∧ 0xB596 = 0 :=
  inetChksumPseudo_detects (m := Mem.ofList [0x12, 0x34, 0x97, 0xB5, 0x56] 0)
    (p := [⟨0, 5, by decide⟩]) (show (17 : UInt8) ≠ 0 by decide) 5 0 0
    (show [0x12, 0x34].length % 2 = 0 from rfl) (by decide) (by decide)
    (show _ = [0x12, 0x34] ++ (putle16 0xB597 ++ [0x56]) by decide)
    (show _ = [0x12, 0x34] ++ (putle16 0xB596 ++ [0x56]) by decide) (by decide)

/-- The sum of a string in which one byte counts as it is or, at an odd place, in the upper half of its
word. -/
theorem same_hostSum_byte (bs : List UInt8) (b : UInt8) (cs : List UInt8) :
    Same16 (hostSum (bs ++ b :: cs)) ((if bs.length % 2 = 0 then b.toNat else 0x100 * b.toNat) +
      (hostSum bs + 0x100 ^ bs.length * (0x100 * hostSum cs))) := by
  have hcons := (same_hostSum_cons b cs).mul_left (0x100 ^ bs.length)
  have hsum := (same_hostSum_append bs (b :: cs)).trans ((Same.refl _ (hostSum bs)).add hcons)
  rw [Nat.mul_add, Nat.add_left_comm] at hsum
  exact hsum.trans ((same_pow_mul _ _).add (Same.refl _ _))

/-- One byte of a packet that passes is replaced, at any place: the packet still passes exactly when the
byte is the same. -/
theorem inetChksumPseudo_detects_byte {m m' : Mem UInt8} {p p' : List PbufSpan} {proto : UInt8}
    (protoLen : UInt16) (src dest : UInt32) {pre post : List UInt8} {b b' : UInt8}
    (hsent : chainBytes m p = pre ++ b :: post) (hreceived : chainBytes m' p' = pre ++ b' :: post)
    (hpass : inetChksumPseudo m p proto protoLen src dest = 0) :
    inetChksumPseudo m' p' proto protoLen src dest = 0 ↔ b' = b := by
  rw [inetChksumPseudo_eq_zero_iff, hsent, ← List.append_assoc] at hpass
  rw [inetChksumPseudo_eq_zero_iff, hreceived, ← List.append_assoc]
  constructor
  · intro h
    have hsame := (same_hostSum_byte _ b' post).symm.trans
      ((h.trans hpass.symm).trans (same_hostSum_byte _ b post))
    have hmod := Nat.ModEq.add_right_cancel' _ hsame.modEq
    have hb := b.toNat_lt
    have hb' := b'.toNat_lt
    have heq := hmod.eq_of_lt_of_lt (by split_ifs <;> omega) (by split_ifs <;> omega)
    apply UInt8.toNat_inj.1
    split_ifs at heq <;> omega
  · rintro rfl
    exact hpass

/-- The last byte of an odd number. -/
theorem inetChksumPseudo_detects_byte_last :
    inetChksumPseudo (Mem.ofList [0x12, 0x34, 0x97, 0xB5, 0x57] 0) [⟨0, 5, by decide⟩] 17 5 0 0 = 0 ↔
      (0x57 : UInt8) = 0x56 :=
  inetChksumPseudo_detects_byte (m := Mem.ofList [0x12, 0x34, 0x97, 0xB5, 0x56] 0)
    (p := [⟨0, 5, by decide⟩]) 5 0 0 (show _ = [0x12, 0x34, 0x97, 0xB5] ++ 0x56 :: [] by decide)
    (show _ = [0x12, 0x34, 0x97, 0xB5] ++ 0x57 :: [] by decide) (by decide)

end DsiWifi
