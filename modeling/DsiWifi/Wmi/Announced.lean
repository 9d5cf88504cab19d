import DsiWifi.Wmi.BssInfoSpec

/-!
# What a beacon announces

The ciphers and the AKM of a beacon, read off the bytes of its RSN elements without the loops of
`wmi_handle_bss_info`: an element is looked at when its id is 0x30, its suites count when its version
is 1, and for each of group cipher, pairwise cipher and AKM the last element that gives one decides.
`bssLocals_eq_announced` says that the handler's locals are just this.
-/

namespace DsiWifi

open ApSecurityType ApCipherType

/-! ## RSN bodies -/

/-- The bodies of the RSN elements of version 1, by the element walk of the handler. -/
def rsnBodiesFrom (pkt : Mem UInt8) : ℕ → ℤ → ℕ → List ℕ
  | 0, _, _ => []
  | fuel + 1, dataLeft, p =>
    if dataLeft ≤ 0 then []
    else
      let len := (pkt (p + 1)).toNat
      let rest := rsnBodiesFrom pkt fuel (dataLeft - 2 - len) (p + 2 + len)
      if pkt p = 0x30 ∧ getle16 pkt (p + 2) = 1 then (p + 2) :: rest else rest

def rsnBodies (pkt : Mem UInt8) (len : ℕ) : List ℕ :=
  rsnBodiesFrom pkt (bssDataLeft len).toNat (bssDataLeft len) 0x1C

/-- The RSN elements of an event, of any version. -/
def rsnElements (pkt : Mem UInt8) (len : ℕ) : List ℕ :=
  (bssWalk pkt len).filter (pkt · = 0x30)

/-- The bodies of version 1 among elements. -/
def bodiesOf (pkt : Mem UInt8) (ps : List ℕ) : List ℕ :=
  (ps.filter fun p => pkt p = 0x30 ∧ getle16 pkt (p + 2) = 1).map (· + 2)

theorem rsnBodiesFrom_of_le (pkt : Mem UInt8) (fuel : ℕ) {dataLeft : ℤ} (h : dataLeft ≤ 0) (p : ℕ) :
    rsnBodiesFrom pkt fuel dataLeft p = [] := by
  cases fuel with
  | zero => rfl
  | succ fuel =>
    unfold rsnBodiesFrom
    rw [if_pos h]

theorem rsnBodiesFrom_eq (pkt : Mem UInt8) (stop fuel p : ℕ) (hfuel : stop - p ≤ fuel) :
    rsnBodiesFrom pkt fuel (stop - p) p = bodiesOf pkt (Tlv.walk pkt stop p) := by
  induction fuel generalizing p with
  | zero =>
    rw [Tlv.walk_of_le (by omega)]
    rfl
  | succ fuel ih =>
    by_cases hp : p < stop
    · have hnext : p + 2 ≤ Tlv.next pkt p := Nat.le_add_right _ _
      have hrest := ih (Tlv.next pkt p) (by omega)
      rw [Tlv.walk_of_lt hp]
      unfold rsnBodiesFrom bodiesOf
      rw [if_neg (by omega)]
      dsimp only
      rw [dataLeft_next, show p + 2 + (pkt (p + 1)).toNat = Tlv.next pkt p from rfl, hrest,
        List.filter_cons]
      by_cases h : pkt p = 0x30 ∧ getle16 pkt (p + 2) = 1
      · rw [if_pos h, if_pos (by simpa using h)]
        rfl
      · rw [if_neg h, if_neg (by simpa using h)]
        rfl
    · rw [Tlv.walk_of_le (by omega), rsnBodiesFrom_of_le _ _ (by omega)]
      rfl

theorem rsnBodies_eq (pkt : Mem UInt8) (len : ℕ) :
    rsnBodies pkt len = bodiesOf pkt (bssWalk pkt len) := by
  unfold rsnBodies bssWalk
  rcases bssDataLeft_eq len with h | ⟨h, hstop⟩
  · rw [h, rsnBodiesFrom_eq pkt _ _ _ (by omega)]
  · rw [rsnBodiesFrom_of_le _ _ h, Tlv.walk_of_le (by omega)]
    rfl

/-! ## Suites of a body -/

/-- CCMP is among the pairwise suites of the RSN body `p` that are read. -/
def ListsCcmp (pkt : Mem UInt8) (p : ℕ) : Prop :=
  ∃ k < rsnPairwise pkt p, getbe32 pkt (p + 8 + 4 * k) = ieeeCryptAesCcmp

instance (pkt : Mem UInt8) (p : ℕ) : Decidable (ListsCcmp pkt p) := by
  unfold ListsCcmp; infer_instance

/-- PSK is among the AKM suites of the RSN body `p` that are read. -/
def ListsPsk (pkt : Mem UInt8) (p : ℕ) : Prop :=
  ∃ k < rsnAuthkey pkt p, getbe32 pkt (p + 10 + 4 * rsnPairwise pkt p + 4 * k) = ieeeAuthPsk

instance (pkt : Mem UInt8) (p : ℕ) : Decidable (ListsPsk pkt p) := by
  unfold ListsPsk; infer_instance

/-- The group cipher of the RSN body `p`. -/
def rsnGroup (pkt : Mem UInt8) (p : ℕ) : ApCipherType := wmiIeeeToCrypt (getbe32 pkt (p + 2))

/-- The pairwise cipher of the RSN body `p`: CCMP if it is listed, else the last that is read. -/
def rsnPair (pkt : Mem UInt8) (p : ℕ) : ApCipherType :=
  if ListsCcmp pkt p then cryptAes
  else wmiIeeeToCrypt (getbe32 pkt (p + 8 + 4 * (rsnPairwise pkt p - 1)))

/-- The AKM type of the RSN body `p`: PSK if it is listed, else the type of the last that is
read. -/
def rsnAuth (pkt : Mem UInt8) (p : ℕ) : UInt8 :=
  if ListsPsk pkt p then authPsk
  else pkt (p + 10 + 4 * rsnPairwise pkt p + 4 * (rsnAuthkey pkt p - 1) + 3)

theorem pairwiseLoop_eq (pkt : Mem UInt8) {n : ℕ} (hn : n ≠ 0) (p : ℕ)
    (pairCrypto : ApCipherType) : pairwiseLoop pkt n p pairCrypto =
      if ∃ k < n, getbe32 pkt (p + 4 * k) = ieeeCryptAesCcmp then cryptAes
      else wmiIeeeToCrypt (getbe32 pkt (p + 4 * (n - 1))) := by
  split_ifs with h
  · exact (pairwiseLoop_eq_aes ..).2 (Or.inr h)
  · induction n generalizing p pairCrypto with
    | zero => exact absurd rfl hn
    | succ n ih =>
      have h0 : wmiIeeeToCrypt (getbe32 pkt p) ≠ cryptAes := fun h0 =>
        h ⟨0, by omega, (wmiIeeeToCrypt_eq_aes _).1 h0⟩
      rw [pairwiseLoop]
      rw [if_neg h0]
      rcases n with _ | n
      · rfl
      · have htail : ¬∃ k < n + 1, getbe32 pkt (p + 4 + 4 * k) = ieeeCryptAesCcmp := by
          rintro ⟨k, hk, he⟩
          exact h ⟨k + 1, by omega, by rwa [show p + 4 * (k + 1) = p + 4 + 4 * k by omega]⟩
        rw [ih (by omega) _ _ htail]
        congr 2
        omega

/-- The type byte of a PSK suite. -/
theorem byte_of_getbe32_psk {pkt : Mem UInt8} {p : ℕ} (h : getbe32 pkt p = ieeeAuthPsk) :
    pkt (p + 3) = authPsk := by
  have hb := (pkt (p + 3)).toNat_lt
  unfold getbe32 getbe16 ieeeAuthPsk at h
  apply UInt8.toNat.inj
  rw [show p + 2 + 1 = p + 3 from rfl] at h
  change _ = 2
  omega

theorem authkeyLoop_eq (pkt : Mem UInt8) {n : ℕ} (hn : n ≠ 0) (p : ℕ) (authType : UInt8) :
    authkeyLoop pkt n p authType =
      if ∃ k < n, getbe32 pkt (p + 4 * k) = ieeeAuthPsk then authPsk
      else pkt (p + 4 * (n - 1) + 3) := by
  induction n generalizing p authType with
  | zero => exact absurd rfl hn
  | succ n ih =>
    rw [authkeyLoop]
    by_cases h0 : getbe32 pkt p = ieeeAuthPsk
    · rw [if_pos h0, if_pos ⟨0, by omega, h0⟩, byte_of_getbe32_psk h0]
    · have hiff : (∃ k < n + 1, getbe32 pkt (p + 4 * k) = ieeeAuthPsk) ↔
          ∃ k < n, getbe32 pkt (p + 4 + 4 * k) = ieeeAuthPsk := by
        constructor
        · rintro ⟨k, hk, he⟩
          cases k with
          | zero => exact absurd he h0
          | succ k => exact ⟨k, by omega, by rwa [show p + 4 + 4 * k = p + 4 * (k + 1) by omega]⟩
        · rintro ⟨k, hk, he⟩
          exact ⟨k + 1, by omega, by rwa [show p + 4 * (k + 1) = p + 4 + 4 * k by omega]⟩
      rw [if_neg h0]
      simp only [hiff]
      rcases n with _ | n
      · simp [authkeyLoop]
      · rw [ih (by omega), show p + 4 + 4 * (n + 1 - 1) + 3 = p + 4 * (n + 1 + 1 - 1) + 3 by omega]

/-- The loop over the pairwise suites of a body. -/
theorem pairwiseLoop_rsn (pkt : Mem UInt8) (p : ℕ) (pairCrypto : ApCipherType) :
    pairwiseLoop pkt (rsnPairwise pkt p) (p + 8) pairCrypto =
      if rsnPairwise pkt p = 0 then pairCrypto else rsnPair pkt p := by
  split_ifs with h
  · rw [h]
    rfl
  · rw [pairwiseLoop_eq pkt h]
    exact if_congr Iff.rfl rfl rfl

/-- The loop over the AKM suites of a body. -/
theorem authkeyLoop_rsn (pkt : Mem UInt8) (p : ℕ) (authType : UInt8) :
    authkeyLoop pkt (rsnAuthkey pkt p) (p + 10 + 4 * rsnPairwise pkt p) authType =
      if rsnAuthkey pkt p = 0 then authType else rsnAuth pkt p := by
  split_ifs with h
  · rw [h]
    rfl
  · rw [authkeyLoop_eq pkt h]
    exact if_congr Iff.rfl rfl rfl

theorem rsnPair_eq_aes_iff {pkt : Mem UInt8} {p : ℕ} (h : rsnPairwise pkt p ≠ 0) :
    rsnPair pkt p = cryptAes ↔ ListsCcmp pkt p := by
  unfold rsnPair
  split_ifs with hc
  · exact iff_of_true rfl hc
  · refine iff_of_false (fun ha => hc ?_) hc
    exact ⟨rsnPairwise pkt p - 1, by omega, (wmiIeeeToCrypt_eq_aes _).1 ha⟩

/-! ## The last body decides -/

/-- CCMP is listed by the last body that lists any pairwise suite. -/
def AnnouncesCcmp (pkt : Mem UInt8) (bodies : List ℕ) : Prop :=
  ∃ p ∈ (bodies.filter (rsnPairwise pkt · ≠ 0)).getLast?, ListsCcmp pkt p

/-- PSK is the AKM of the last body that lists any AKM suite. -/
def AnnouncesPsk (pkt : Mem UInt8) (bodies : List ℕ) : Prop :=
  ∃ p ∈ (bodies.filter (rsnAuthkey pkt · ≠ 0)).getLast?, rsnAuth pkt p = authPsk

/-- No body lists an AKM suite, or the last that does ends in one of type zero. -/
def AnnouncesNoAkm (pkt : Mem UInt8) (bodies : List ℕ) : Prop :=
  ∀ p ∈ (bodies.filter (rsnAuthkey pkt · ≠ 0)).getLast?, rsnAuth pkt p = authNone

instance (pkt : Mem UInt8) (bodies : List ℕ) : Decidable (AnnouncesCcmp pkt bodies) := by
  unfold AnnouncesCcmp; infer_instance

instance (pkt : Mem UInt8) (bodies : List ℕ) : Decidable (AnnouncesPsk pkt bodies) := by
  unfold AnnouncesPsk; infer_instance

instance (pkt : Mem UInt8) (bodies : List ℕ) : Decidable (AnnouncesNoAkm pkt bodies) := by
  unfold AnnouncesNoAkm; infer_instance

def announcedGroup (pkt : Mem UInt8) (bodies : List ℕ) : ApCipherType :=
  bodies.getLast?.elim cryptNone (rsnGroup pkt)

/-- Bodies that list no pairwise suite are passed over. -/
def announcedPair (pkt : Mem UInt8) (bodies : List ℕ) : ApCipherType :=
  (bodies.filter (rsnPairwise pkt · ≠ 0)).getLast?.elim cryptNone (rsnPair pkt)

/-- Bodies that list no AKM suite are passed over. -/
def announcedAuth (pkt : Mem UInt8) (bodies : List ℕ) : UInt8 :=
  (bodies.filter (rsnAuthkey pkt · ≠ 0)).getLast?.elim authNone (rsnAuth pkt)

theorem announcedPair_eq_aes_iff (pkt : Mem UInt8) (bodies : List ℕ) :
    announcedPair pkt bodies = cryptAes ↔ AnnouncesCcmp pkt bodies := by
  unfold announcedPair AnnouncesCcmp
  rcases h : (bodies.filter (rsnPairwise pkt · ≠ 0)).getLast? with _ | p
  · simp
  · have hp := List.mem_filter.1 (List.mem_of_getLast? h)
    simp [rsnPair_eq_aes_iff (of_decide_eq_true hp.2)]

theorem announcedAuth_eq_psk_iff (pkt : Mem UInt8) (bodies : List ℕ) :
    announcedAuth pkt bodies = authPsk ↔ AnnouncesPsk pkt bodies := by
  unfold announcedAuth AnnouncesPsk
  rcases (bodies.filter (rsnAuthkey pkt · ≠ 0)).getLast? with _ | p
  · simp [authNone, authPsk]
  · simp

theorem announcedAuth_eq_none_iff (pkt : Mem UInt8) (bodies : List ℕ) :
    announcedAuth pkt bodies = authNone ↔ AnnouncesNoAkm pkt bodies := by
  unfold announcedAuth AnnouncesNoAkm
  rcases (bodies.filter (rsnAuthkey pkt · ≠ 0)).getLast? with _ | p
  · simp
  · simp

/-- Open without an RSN element; WPA when the last one is of version 1 and TKIP is announced for
the pairwise cipher; WPA2 otherwise. -/
def announcedType (pkt : Mem UInt8) (elements bodies : List ℕ) : ApSecurityType :=
  elements.getLast?.elim apOpen fun p =>
    if getle16 pkt (p + 2) = 1 ∧ announcedPair pkt bodies = cryptTkip then apWpa else apWpa2

/-- What the beacon announces; without the privacy bit it is taken as open. -/
def bssAnnounced (pkt : Mem UInt8) (len : ℕ) : BssLocals where
  secTypeEnum := if bssPrivacy pkt then announcedType pkt (rsnElements pkt len) (rsnBodies pkt len)
    else apOpen
  groupCrypto := announcedGroup pkt (rsnBodies pkt len)
  pairCrypto := announcedPair pkt (rsnBodies pkt len)
  authType := announcedAuth pkt (rsnBodies pkt len)

section Concat

variable (pkt : Mem UInt8) (bodies : List ℕ) (p : ℕ)

theorem announcedGroup_concat : announcedGroup pkt (bodies ++ [p]) = rsnGroup pkt p := by
  unfold announcedGroup
  rw [List.getLast?_concat]
  rfl

theorem announcedPair_concat : announcedPair pkt (bodies ++ [p]) =
    if rsnPairwise pkt p = 0 then announcedPair pkt bodies else rsnPair pkt p := by
  unfold announcedPair
  rw [List.filter_append, List.filter_singleton]
  by_cases h : rsnPairwise pkt p = 0
  · simp [h]
  · simp [h]

theorem announcedAuth_concat : announcedAuth pkt (bodies ++ [p]) =
    if rsnAuthkey pkt p = 0 then announcedAuth pkt bodies else rsnAuth pkt p := by
  unfold announcedAuth
  rw [List.filter_append, List.filter_singleton]
  by_cases h : rsnAuthkey pkt p = 0
  · simp [h]
  · simp [h]

end Concat

/-- What the elements `ps` announce. -/
def announcedBy (pkt : Mem UInt8) (ps : List ℕ) : BssLocals where
  secTypeEnum := announcedType pkt (ps.filter (pkt · = 0x30)) (bodiesOf pkt ps)
  groupCrypto := announcedGroup pkt (bodiesOf pkt ps)
  pairCrypto := announcedPair pkt (bodiesOf pkt ps)
  authType := announcedAuth pkt (bodiesOf pkt ps)

theorem bodiesOf_concat (pkt : Mem UInt8) (ps : List ℕ) (p : ℕ) :
    bodiesOf pkt (ps ++ [p]) = bodiesOf pkt ps ++
      if pkt p = 0x30 ∧ getle16 pkt (p + 2) = 1 then [p + 2] else [] := by
  unfold bodiesOf
  rw [List.filter_append, List.filter_singleton, List.map_append]
  by_cases h : pkt p = 0x30 ∧ getle16 pkt (p + 2) = 1
  · simp [h]
  · simp [h]

theorem announcedBy_concat (pkt : Mem UInt8) (ps : List ℕ) (p : ℕ) :
    announcedBy pkt (ps ++ [p]) = rsnStep pkt (announcedBy pkt ps) p := by
  have helements : (ps ++ [p]).filter (pkt · = 0x30) =
      ps.filter (pkt · = 0x30) ++ if pkt p = 0x30 then [p] else [] := by
    rw [List.filter_append, List.filter_singleton]
    simp
  unfold rsnStep
  by_cases hid : pkt p = 0x30
  · rw [if_pos hid] at helements ⊢
    by_cases hv : getle16 pkt (p + 2) = 1
    · have hbodies := bodiesOf_concat pkt ps p
      rw [if_pos ⟨hid, hv⟩] at hbodies
      have hpair := pairwiseLoop_rsn pkt (p + 2) (announcedPair pkt (bodiesOf pkt ps))
      have hauth := authkeyLoop_rsn pkt (p + 2) (announcedAuth pkt (bodiesOf pkt ps))
      rw [← announcedPair_concat] at hpair
      rw [← announcedAuth_concat] at hauth
      unfold announcedBy
      rw [helements, hbodies, announcedGroup_concat, rsnElement_of_version hv, ← hpair, ← hauth,
        announcedType, List.getLast?_concat]
      simp [hv, hpair]
      rfl
    · have hbodies := bodiesOf_concat pkt ps p
      rw [if_neg fun h => hv h.2, List.append_nil] at hbodies
      unfold announcedBy rsnElement
      rw [helements, hbodies, if_pos hv, announcedType, List.getLast?_concat]
      simp [hv]
  · -- another element leaves the locals alone
    rw [if_neg hid, List.append_nil] at helements
    unfold announcedBy
    rw [if_neg hid, helements, bodiesOf_concat, if_neg fun h => hid h.1, List.append_nil]

/-- The RSN elements announce what the handler parses. -/
theorem bssRsn_eq_announcedBy (pkt : Mem UInt8) (len : ℕ) :
    bssRsn pkt len = announcedBy pkt (bssWalk pkt len) := by
  unfold bssRsn
  rw [bssElements_eq]
  dsimp only
  induction bssWalk pkt len using List.reverseRecOn with
  | nil => rfl
  | append_singleton ps p ih =>
    rw [List.foldl_append, ih, announcedBy_concat]
    rfl

/-- The locals of the handler are what the beacon announces. -/
theorem bssLocals_eq_announced (pkt : Mem UInt8) (len : ℕ) :
    bssLocals pkt len = bssAnnounced pkt len := by
  unfold bssLocals bssAnnounced
  rw [bssRsn_eq_announcedBy, rsnBodies_eq]
  unfold announcedBy rsnElements
  split_ifs
  · rfl
  · rfl

end DsiWifi
