import DsiWifi.Wmi.ElementBounds

/-!
# The RSN element of a beacon

A well-formed event with one RSN element of version 1, which lists a group suite, pairwise suites and
AKM suites.  The handler looks at four suites of a list at most, and it skips the pairwise suites by
the number it looked at: behind more than four of them it takes the rest of the pairwise list for the
AKM list.  Of an AKM suite it keeps the type without the OUI.

`rsn_parsed_iff` says when it comes to what the element says all the same.
-/

namespace DsiWifi

open ApCipherType

/-! ## Suites -/

/-- A suite: three bytes of OUI and a type. -/
structure Suite where
  oui₀ : UInt8
  oui₁ : UInt8
  oui₂ : UInt8
  type : UInt8
  deriving DecidableEq

def Suite.bytes (s : Suite) : List UInt8 := [s.oui₀, s.oui₁, s.oui₂, s.type]

/-- The suite as the big-endian number the handler compares. -/
def Suite.value (s : Suite) : ℕ :=
  0x10000 * (256 * s.oui₀.toNat + s.oui₁.toNat) + (256 * s.oui₂.toNat + s.type.toNat)

/-- 00-0F-AC:04. -/
def Suite.ccmp : Suite := ⟨0, 0x0F, 0xAC, 4⟩

/-- 00-0F-AC:02, as an AKM suite. -/
def Suite.psk : Suite := ⟨0, 0x0F, 0xAC, 2⟩

theorem Suite.value_inj {s t : Suite} : s.value = t.value ↔ s = t := by
  refine ⟨fun h => ?_, fun h => congrArg value h⟩
  obtain ⟨s₀, s₁, s₂, s₃⟩ := s
  obtain ⟨t₀, t₁, t₂, t₃⟩ := t
  have hs₀ := s₀.toNat_lt
  have hs₁ := s₁.toNat_lt
  have hs₂ := s₂.toNat_lt
  have hs₃ := s₃.toNat_lt
  have ht₁ := t₁.toNat_lt
  have ht₂ := t₂.toNat_lt
  have ht₃ := t₃.toNat_lt
  unfold value at h
  dsimp only at h
  rw [Suite.mk.injEq, ← UInt8.toNat_inj, ← UInt8.toNat_inj, ← UInt8.toNat_inj, ← UInt8.toNat_inj]
  omega

/-- The suite at address `q`. -/
def suiteAt (pkt : Mem UInt8) (q : ℕ) : Suite := ⟨pkt q, pkt (q + 1), pkt (q + 2), pkt (q + 3)⟩

theorem getbe32_eq_ccmp {pkt : Mem UInt8} {q : ℕ} :
    getbe32 pkt q = ieeeCryptAesCcmp ↔ suiteAt pkt q = Suite.ccmp :=
  Suite.value_inj (s := suiteAt pkt q) (t := Suite.ccmp)

theorem getbe32_eq_psk {pkt : Mem UInt8} {q : ℕ} :
    getbe32 pkt q = ieeeAuthPsk ↔ suiteAt pkt q = Suite.psk :=
  Suite.value_inj (s := suiteAt pkt q) (t := Suite.psk)

theorem suiteAt_of_read {pkt : Mem UInt8} {q : ℕ} {s : Suite}
    (h : pkt.read q s.bytes.length = s.bytes) : suiteAt pkt q = s := by
  have h4 : [pkt q, pkt (q + 1), pkt (q + 2), pkt (q + 3)] = [s.oui₀, s.oui₁, s.oui₂, s.type] := h
  simp only [List.cons.injEq, and_true] at h4
  unfold suiteAt
  rw [h4.1, h4.2.1, h4.2.2.1, h4.2.2.2]

/-- The `n` suites from address `q` on. -/
def suitesAt (pkt : Mem UInt8) (q n : ℕ) : List Suite :=
  (List.range n).map fun k => suiteAt pkt (q + 4 * k)

theorem suitesAt_succ (pkt : Mem UInt8) (q n : ℕ) :
    suitesAt pkt q (n + 1) = suiteAt pkt q :: suitesAt pkt (q + 4) n := by
  unfold suitesAt
  rw [List.range_succ_eq_map, List.map_cons, List.map_map]
  congr 1
  apply List.map_congr_left
  intro k _
  show suiteAt pkt (q + 4 * (k + 1)) = _
  congr 1
  omega

theorem length_suites (ss : List Suite) : (ss.flatMap Suite.bytes).length = 4 * ss.length := by
  induction ss with
  | nil => rfl
  | cons s ss ih =>
    rw [List.flatMap_cons, List.length_append, ih, List.length_cons]
    show 4 + 4 * ss.length = _
    omega

/-- A list of suites in memory. -/
theorem suitesAt_of_read {pkt : Mem UInt8} {q : ℕ} {ss : List Suite}
    (h : pkt.read q (ss.flatMap Suite.bytes).length = ss.flatMap Suite.bytes) :
    suitesAt pkt q ss.length = ss := by
  induction ss generalizing q with
  | nil => rfl
  | cons s ss ih =>
    rw [List.flatMap_cons] at h
    obtain ⟨hs, hss⟩ := Mem.read_eq_append.1 h
    have hrest : suitesAt pkt (q + 4) ss.length = ss := ih hss
    rw [List.length_cons, suitesAt_succ, suiteAt_of_read hs, hrest]

theorem suitesAt_take (pkt : Mem UInt8) (q : ℕ) {n k : ℕ} (h : k ≤ n) :
    suitesAt pkt q k = (suitesAt pkt q n).take k := by
  unfold suitesAt
  rw [← List.map_take, List.take_range, Nat.min_eq_left h]

/-! ## The two loops -/

theorem pairwiseLoop_eq_aes_iff (pkt : Mem UInt8) {n : ℕ} (hn : n ≠ 0) (q : ℕ)
    (pairCrypto : ApCipherType) :
    pairwiseLoop pkt n q pairCrypto = cryptAes ↔ Suite.ccmp ∈ suitesAt pkt q n := by
  rw [pairwiseLoop_eq_aes, or_iff_right fun h => hn h.1]
  unfold suitesAt
  simp only [List.mem_map, List.mem_range, getbe32_eq_ccmp]

/-- The type of the last suite wins, unless a PSK suite ends the loop. -/
theorem authkeyLoop_eq_psk_iff (pkt : Mem UInt8) (n q : ℕ) (authType : UInt8) :
    authkeyLoop pkt n q authType = authPsk ↔ Suite.psk ∈ suitesAt pkt q n ∨
      ((suitesAt pkt q n).map Suite.type).getLastD authType = authPsk := by
  induction n generalizing q authType with
  | zero => exact (or_iff_right List.not_mem_nil).symm
  | succ n ih =>
    rw [suitesAt_succ, List.map_cons, List.getLastD_cons, List.mem_cons]
    unfold authkeyLoop
    by_cases h : suiteAt pkt q = Suite.psk
    · have htype : pkt (q + 3) = authPsk := congrArg Suite.type h
      rw [if_pos (getbe32_eq_psk.2 h)]
      exact iff_of_true htype (Or.inl (Or.inl h.symm))
    · rw [if_neg (getbe32_eq_psk.not.2 h), ih,
        or_iff_right fun hs : Suite.psk = suiteAt pkt q => h hs.symm]
      rfl

/-! ## The element -/

/-- The body of an RSN element of version 1 with at least one suite in each list.  What follows the
lists is not interpreted. -/
structure RsnBody where
  group : Suite
  pairwise : List Suite
  akm : List Suite
  rest : List UInt8
  pairwise_ne : pairwise ≠ []
  akm_ne : akm ≠ []
  short : 10 + 4 * pairwise.length + 4 * akm.length + rest.length < 256

namespace RsnBody

variable (b : RsnBody)

def bytes : List UInt8 :=
  putle16 1 ++ (b.group.bytes ++ (putle16 b.pairwise.length ++ (b.pairwise.flatMap Suite.bytes ++
    (putle16 b.akm.length ++ (b.akm.flatMap Suite.bytes ++ b.rest)))))

theorem length_bytes : b.bytes.length =
    10 + 4 * b.pairwise.length + 4 * b.akm.length + b.rest.length := by
  unfold bytes
  simp only [List.length_append, length_putle16, length_suites]
  show 2 + (4 + _) = _
  omega

/-- The element with this body. -/
def element : Tlv.Record where
  type := 0x30
  body := b.bytes
  short := by
    rw [length_bytes]
    exact b.short

end RsnBody

/-- The fields of an RSN body in memory. -/
structure RsnBody.At (pkt : Mem UInt8) (p : ℕ) (b : RsnBody) : Prop where
  version : getle16 pkt p = 1
  group : suiteAt pkt (p + 2) = b.group
  numPairwise : getle16 pkt (p + 6) = b.pairwise.length
  pairwise : suitesAt pkt (p + 8) b.pairwise.length = b.pairwise
  numAuthkey : getle16 pkt (p + 8 + 4 * b.pairwise.length) = b.akm.length
  akm : suitesAt pkt (p + 10 + 4 * b.pairwise.length) b.akm.length = b.akm

theorem RsnBody.at_of_read {pkt : Mem UInt8} {p : ℕ} {b : RsnBody}
    (h : pkt.read p b.bytes.length = b.bytes) : b.At pkt p := by
  have hshort := b.short
  unfold bytes at h
  obtain ⟨hversion, h⟩ := Mem.read_eq_append.1 h
  obtain ⟨hgroup, h⟩ := Mem.read_eq_append.1 h
  obtain ⟨hnp, h⟩ := Mem.read_eq_append.1 h
  obtain ⟨hpairwise, h⟩ := Mem.read_eq_append.1 h
  obtain ⟨hna, h⟩ := Mem.read_eq_append.1 h
  obtain ⟨hakm, -⟩ := Mem.read_eq_append.1 h
  rw [length_suites] at hna hakm
  have hna : pkt.read (p + 8 + 4 * b.pairwise.length) 2 = putle16 b.akm.length := hna
  have hakm : pkt.read (p + 10 + 4 * b.pairwise.length) (b.akm.flatMap Suite.bytes).length =
      b.akm.flatMap Suite.bytes := by
    rw [show p + 10 + 4 * b.pairwise.length = p + 8 + 4 * b.pairwise.length + 2 by omega]
    exact hakm
  exact
    { version := getle16_of_read hversion (by decide)
      group := suiteAt_of_read hgroup
      numPairwise := getle16_of_read hnp (by omega)
      pairwise := suitesAt_of_read hpairwise
      numAuthkey := getle16_of_read hna (by omega)
      akm := suitesAt_of_read hakm }

/-- The AKM suites the handler looks at: behind more than four pairwise suites, what it finds at the
place of the fifth. -/
def RsnBody.akmSeen (pkt : Mem UInt8) (p : ℕ) (b : RsnBody) : List Suite :=
  if b.pairwise.length ≤ 4 then b.akm.take 4
  else suitesAt pkt (p + 26) (min (getle16 pkt (p + 24)) 4)

namespace RsnBody.At

variable {pkt : Mem UInt8} {p : ℕ} {b : RsnBody}

theorem rsnPairwise_eq (h : b.At pkt p) : rsnPairwise pkt p = min b.pairwise.length 4 := by
  unfold rsnPairwise
  rw [h.numPairwise]

/-- The pairwise suites the handler looks at. -/
theorem pairwise_take (h : b.At pkt p) :
    suitesAt pkt (p + 8) (rsnPairwise pkt p) = b.pairwise.take 4 := by
  rw [h.rsnPairwise_eq, suitesAt_take _ _ (Nat.min_le_left _ _), h.pairwise, Nat.min_comm,
    ← List.take_eq_take_min]

theorem akm_seen (h : b.At pkt p) :
    suitesAt pkt (p + 10 + 4 * rsnPairwise pkt p) (rsnAuthkey pkt p) = b.akmSeen pkt p := by
  unfold rsnAuthkey akmSeen
  rw [h.rsnPairwise_eq]
  split_ifs with hn
  · rw [Nat.min_eq_left hn, h.numAuthkey, suitesAt_take _ _ (Nat.min_le_left _ _), h.akm,
      Nat.min_comm, ← List.take_eq_take_min]
  · rw [Nat.min_eq_right (by omega)]

/-- The ciphers and the authentication that are taken from an RSN body. -/
theorem parsed (h : b.At pkt p) :
    let l := rsnElement pkt p BssLocals.init
    l.groupCrypto = wmiIeeeToCrypt b.group.value ∧
      (l.pairCrypto = cryptAes ↔ Suite.ccmp ∈ b.pairwise.take 4) ∧
      (l.authType = authPsk ↔ Suite.psk ∈ b.akmSeen pkt p ∨
        ((b.akmSeen pkt p).map Suite.type).getLastD authNone = authPsk) := by
  have hpos : rsnPairwise pkt p ≠ 0 := by
    have hne := List.length_pos_of_ne_nil b.pairwise_ne
    rw [h.rsnPairwise_eq]
    omega
  rw [rsnElement_of_version h.version]
  refine ⟨?_, ?_, ?_⟩
  · rw [← h.group]
    rfl
  · exact (pairwiseLoop_eq_aes_iff pkt hpos _ _).trans (by rw [h.pairwise_take])
  · exact (authkeyLoop_eq_psk_iff ..).trans (by rw [h.akm_seen]; rfl)

end RsnBody.At

/-- The parser comes to what the RSN body says. -/
structure RsnParsed (pkt : Mem UInt8) (len : ℕ) (b : RsnBody) : Prop where
  group : (bssRsn pkt len).groupCrypto = wmiIeeeToCrypt b.group.value
  pair : (bssRsn pkt len).pairCrypto = cryptAes ↔ Suite.ccmp ∈ b.pairwise
  auth : (bssRsn pkt len).authType = authPsk ↔ Suite.psk ∈ b.akm

/-- Where the body of the element behind the elements `pre` starts. -/
def bodyAddr (pre : List Tlv.Record) : ℕ := 0x1C + (Tlv.encode pre).length + 2

section Event

variable {pkt : Mem UInt8} {len : ℕ} {pre post : List Tlv.Record} {b : RsnBody}

/-- The locals after the loop are those of the only RSN element. -/
theorem bssRsn_of_sole (hpkt : Tlv.Holds pkt 0x1C (pre ++ b.element :: post))
    (hlen : len = 0x1C + (Tlv.encode (pre ++ b.element :: post)).length) (hshort : len < 2 ^ 31)
    (hsole : ∀ r ∈ pre ++ post, r.type ≠ 0x30) :
    bssRsn pkt len = rsnElement pkt (bodyAddr pre) BssLocals.init ∧ b.At pkt (bodyAddr pre) := by
  have hignored : ∀ r ∈ pre ++ post, ∀ l i, Tlv.At pkt i r → rsnStep pkt l i = l := by
    intro r hr l i hi
    unfold rsnStep
    rw [if_neg (by rw [hi.type]; exact hsole r hr)]
  obtain ⟨hfold, hat⟩ := Tlv.foldl_walk_of_sole hpkt hlen hignored BssLocals.init
  refine ⟨?_, RsnBody.at_of_read hat.body⟩
  have htype : pkt (0x1C + (Tlv.encode pre).length) = 0x30 := hat.type
  unfold bssRsn
  rw [bssElements_eq, bssWalk, bssStop_of_lt (by omega) hshort, hfold, rsnStep, if_pos htype]
  rfl

end Event

/-- **RSN elements.** For a well-formed event with one RSN element, the group cipher is always the
element's.  All three are, exactly when CCMP is not listed behind the fourth pairwise suite only, and
PSK is an AKM suite exactly when it is one of those the handler looks at or the last of these has the
type of PSK. -/
theorem rsn_parsed_iff (pkt : Mem UInt8) (len : ℕ) (pre post : List Tlv.Record) (b : RsnBody)
    (hpkt : Tlv.Holds pkt 0x1C (pre ++ b.element :: post))
    (hlen : len = 0x1C + (Tlv.encode (pre ++ b.element :: post)).length) (hshort : len < 2 ^ 31)
    (hsole : ∀ r ∈ pre ++ post, r.type ≠ 0x30) :
    RsnParsed pkt len b ↔
      (Suite.ccmp ∈ b.pairwise → Suite.ccmp ∈ b.pairwise.take 4) ∧
        (Suite.psk ∈ b.akm ↔ Suite.psk ∈ b.akmSeen pkt (bodyAddr pre) ∨
          ((b.akmSeen pkt (bodyAddr pre)).map Suite.type).getLastD authNone = authPsk) := by
  obtain ⟨hrsn, hat⟩ := bssRsn_of_sole hpkt hlen hshort hsole
  obtain ⟨hgroup, hpair, hauth⟩ := hat.parsed
  rw [← hrsn] at hgroup hpair hauth
  constructor
  · intro h
    exact ⟨fun hmem => hpair.1 (h.pair.2 hmem), h.auth.symm.trans hauth⟩
  · rintro ⟨hccmp, hpsk⟩
    exact ⟨hgroup, hpair.trans ⟨List.mem_of_mem_take, hccmp⟩, hauth.trans hpsk.symm⟩

/-! ### Sample events -/

/-- An RSN body with `n + 1` pairwise suites, all CCMP, and PSK. -/
def ccmpBody (n : ℕ) (h : n < 8) : RsnBody where
  group := .ccmp
  pairwise := List.replicate (n + 1) .ccmp
  akm := [.psk]
  rest := [0, 0]
  pairwise_ne := List.cons_ne_nil _ _
  akm_ne := List.cons_ne_nil _ _
  short := by
    rw [List.length_replicate]
    show 10 + 4 * (n + 1) + 4 * 1 + 2 < 256
    omega

/-- The SSID element of the network `ab`. -/
def ssidRecord : Tlv.Record := ⟨0, [0x61, 0x62], by decide⟩

/-- A beacon with the given elements. -/
def eventOf (rs : List Tlv.Record) : Mem UInt8 := .ofList (beacon 0x30 0x10 (Tlv.encode rs)) 0

/-- One pairwise suite. -/
theorem rsn_parsed_sample :
    RsnParsed (eventOf [ssidRecord, (ccmpBody 0 (by decide)).element]) 54
      (ccmpBody 0 (by decide)) :=
  (rsn_parsed_iff _ 54 [ssidRecord] [] _ (by unfold Tlv.Holds; decide +kernel) (by decide +kernel)
    (by decide) (by decide)).2 (by decide +kernel)

/-- Eight pairwise suites and PSK: the four suites that are taken for AKM suites start inside the
pairwise list, and the last of them ends with the AKM count. -/
theorem rsn_parsed_counterexample :
    ¬∀ (pkt : Mem UInt8) (len : ℕ) (pre post : List Tlv.Record) (b : RsnBody),
      Tlv.Holds pkt 0x1C (pre ++ b.element :: post) →
      len = 0x1C + (Tlv.encode (pre ++ b.element :: post)).length → len < 2 ^ 31 →
      (∀ r ∈ pre ++ post, r.type ≠ 0x30) → RsnParsed pkt len b := by
  intro h
  have hparsed := h (eventOf [ssidRecord, (ccmpBody 7 (by decide)).element]) 82 [ssidRecord] []
    (ccmpBody 7 (by decide)) (by unfold Tlv.Holds; decide +kernel) (by decide +kernel) (by decide)
    (by decide)
  exact absurd (hparsed.auth.2 (by decide)) (by decide +kernel)

end DsiWifi
