import DsiWifi.Lib.Octets
import DsiWifi.Wmi.Pairwise

/-!
# Agreement with the access point

What an access point checks of a reply (`ApAccepts`), and the pairwise key it derives by the
pseudo-random function of IEEE 802.11i (`ieeeKck`), both stated without the driver.  The driver
compares addresses and nonces byte by byte, the standard compares them as numbers
(`getArrMin_eq_lesser`); both sides order them the same way, whichever of them computes.

`handshake_accepted` states that the reply to message 1 and every later reply to message 3 or to a
group message are accepted.
-/

namespace DsiWifi

open Octets

/-! ## The access point -/

/-- `PRF-512`: the first 64 bytes of the HMACs of label, data and counter. -/
def ieeePrf512 (C : Crypto) (key label data : List UInt8) : List UInt8 :=
  ((List.range 4).flatMap fun i =>
    (C.sha1Hmac key (label ++ [0] ++ data ++ [UInt8.ofNat i])).toList).take 64

/-- The text `Pairwise key expansion`. -/
def pairwiseLabel : List UInt8 := "Pairwise key expansion".toList.map fun c => .ofNat c.toNat

/-- The key confirmation key of the access point `aa` and the station `spa`. -/
def ieeeKck (C : Crypto) (pmk : Bytes 0x20) (aa spa : Bytes 6) (aNonce sNonce : Bytes 32) :
    Bytes 16 :=
  arrayOf (ieeePrf512 C pmk.toList pairwiseLabel
    (lesser aa.toList spa.toList ++ greater aa.toList spa.toList ++
      lesser aNonce.toList sNonce.toList ++ greater aNonce.toList sNonce.toList)) 16

/-- The EAPOL part of a frame. -/
def eapolOf (frame : List UInt8) : List UInt8 := frame.drop 24

/-- The nonce of an EAPOL-Key frame. -/
def nonceOf (frame : List UInt8) : Bytes 32 := arrayOf (slice (eapolOf frame) 17 32) 32

/-- An EAPOL-Key frame with its MIC field zeroed. -/
def zeroMic (eapol : List UInt8) : List UInt8 :=
  eapol.take 81 ++ List.replicate 16 0 ++ eapol.drop 97

/-- The checks an access point makes of a reply, with its own address `aa`, that of the station
`spa`, the key confirmation key and the replay counter it sent. -/
structure ApAccepts (C : Crypto) (aa spa : Bytes 6) (kck : Bytes 16) (replay frame : List UInt8) :
    Prop where
  dst : slice frame 2 6 = aa.toList
  src : slice frame 8 6 = spa.toList
  replay : slice (eapolOf frame) 9 8 = replay
  length : 4 + value (slice (eapolOf frame) 2 2) = (eapolOf frame).length
  mic : slice (eapolOf frame) 81 16 =
    (C.sha1Hmac kck.toList (zeroMic (eapolOf frame))).toList.take 16

/-! ## The pairwise key -/

/-- The comparison of the driver is the comparison of the numbers. -/
theorem aIsMax_iff {a b : List UInt8} (h : a.length = b.length) :
    aIsMax a b = true ↔ value b < value a := by
  induction a generalizing b with
  | nil => simp [aIsMax, List.eq_nil_of_length_eq_zero h.symm]
  | cons x a ih =>
    cases b with
    | nil => simp at h
    | cons y b =>
      have hlen : a.length = b.length := by simpa using h
      unfold aIsMax
      by_cases hxy : x = y
      · subst hxy
        rw [if_pos rfl, ih hlen, value_cons_lt_iff hlen.symm]
      · rw [if_neg hxy, decide_eq_true_iff]
        rcases UInt8.lt_or_lt_of_ne hxy with hlt | hlt
        · have hv := value_cons_lt hlen hlt
          exact iff_of_false (UInt8.not_lt.2 (UInt8.le_of_lt hlt)) (by omega)
        · exact iff_of_true hlt (value_cons_lt hlen.symm hlt)

theorem getArrMin_eq_lesser {a b : List UInt8} (h : a.length = b.length) :
    getArrMin a b = lesser a b := by
  unfold getArrMin lesser
  by_cases hm : aIsMax a b = true
  · rw [if_pos hm, if_neg (by have := (aIsMax_iff h).1 hm; omega)]
  · rw [if_neg hm, if_pos (by have := mt (aIsMax_iff h).2 hm; omega)]

theorem getArrMax_eq_greater {a b : List UInt8} (h : a.length = b.length) :
    getArrMax a b = greater a b := by
  unfold getArrMax greater
  by_cases hm : aIsMax a b = true
  · rw [if_pos hm, if_neg (by have := (aIsMax_iff h).1 hm; omega)]
  · rw [if_neg hm, if_pos (by have := mt (aIsMax_iff h).2 hm; omega)]

theorem ptkLabel_eq : ptkLabel = pairwiseLabel ++ [0] := by decide

/-- The PRF input of the driver is that of the standard, with the roles exchanged. -/
theorem ptkData_eq (spa aa : Bytes 6) (sNonce aNonce : Bytes 32) (i : UInt8) :
    ptkData spa aa sNonce aNonce i = pairwiseLabel ++ [0] ++
      (lesser aa.toList spa.toList ++ greater aa.toList spa.toList ++
        lesser aNonce.toList sNonce.toList ++ greater aNonce.toList sNonce.toList) ++ [i] := by
  have hmac : spa.toList.length = aa.toList.length := by simp
  have hnonce : aNonce.toList.length = sNonce.toList.length := by simp
  unfold ptkData
  rw [ptkLabel_eq, getArrMin_eq_lesser hmac, getArrMax_eq_greater hmac, getArrMin_eq_lesser hnonce,
    getArrMax_eq_greater hnonce, lesser_comm hmac, greater_comm hmac]
  simp only [List.append_assoc]

theorem arrayOf_take {bs : List UInt8} {k n : ℕ} (h : n ≤ k) : arrayOf (bs.take k) n = arrayOf bs n := by
  funext i
  have hi : i.val < k := by omega
  unfold arrayOf
  rw [List.getD_eq_getElem?_getD, List.getD_eq_getElem?_getD, List.getElem?_take_of_lt hi]

theorem flatMap_range_four (prf : UInt8 → List UInt8) :
    (List.range 4).flatMap (fun i => prf (.ofNat i)) = prf 0 ++ prf 1 ++ prf 2 ++ prf 3 := by
  simp [List.range_succ]

/-- The driver derives the key confirmation key of the access point. -/
theorem wpaCalcPtk_kck (C : Crypto) (pmk : Bytes 0x20) (aa spa : Bytes 6)
    (aNonce sNonce : Bytes 32) :
    (wpaCalcPtk C spa aa sNonce aNonce pmk).kck = ieeeKck C pmk aa spa aNonce sNonce := by
  unfold ieeeKck ieeePrf512
  rw [arrayOf_take (by omega)]
  have hprf := flatMap_range_four fun i =>
    (C.sha1Hmac pmk.toList (ptkData spa aa sNonce aNonce i)).toList
  simp only [ptkData_eq] at hprf
  rw [hprf]
  unfold wpaCalcPtk PtkKeyinfo.ofList
  simp only [ptkData_eq]

/-! ## The frames -/

/-- The EAPOL part of a reply before its MIC. -/
def eapolHead (authLen keyinfo replayCnt : ℕ) (nonce : Bytes 32) : List UInt8 :=
  [1, 3] ++ putbe16 authLen ++ [2] ++ putbe16 keyinfo ++ putbe16 0 ++ putbe64 replayCnt ++
    nonce.toList ++ List.replicate 16 0 ++ List.replicate 8 0 ++ List.replicate 8 0

@[simp] theorem length_eapolHead (authLen keyinfo replayCnt : ℕ) (nonce : Bytes 32) :
    (eapolHead authLen keyinfo replayCnt nonce).length = 81 := by
  simp only [eapolHead, List.length_append, List.length_cons, List.length_nil, List.length_ofFn,
    List.length_replicate, length_putbe16, length_putbe64]

section Layout

variable (keyinfo replayCnt : ℕ) (nonce : Bytes 32) (mic : Bytes 16) (keydata : List UInt8)

theorem eapolKey_eq_append :
    eapolKey keyinfo replayCnt nonce mic keydata =
      eapolHead (95 + keydata.length) keyinfo replayCnt nonce ++
        (mic.toList ++ (putbe16 keydata.length ++ keydata)) := by
  simp only [eapolKey, eapolHead, List.append_assoc]

/-- Zeroing the MIC field takes the MIC out. -/
theorem zeroMic_eapolKey :
    zeroMic (eapolKey keyinfo replayCnt nonce mic keydata) =
      eapolKey keyinfo replayCnt nonce (zeros 16) keydata := by
  have hzeros : (zeros 16).toList = List.replicate 16 0 := by decide
  unfold zeroMic
  rw [eapolKey_eq_append, eapolKey_eq_append, hzeros]
  have htake : (eapolHead (95 + keydata.length) keyinfo replayCnt nonce ++
      (mic.toList ++ (putbe16 keydata.length ++ keydata))).take 81 =
      eapolHead (95 + keydata.length) keyinfo replayCnt nonce := List.take_left' (by simp)
  have hdrop : (eapolHead (95 + keydata.length) keyinfo replayCnt nonce ++
      (mic.toList ++ (putbe16 keydata.length ++ keydata))).drop 97 =
      putbe16 keydata.length ++ keydata := by
    rw [← List.append_assoc]
    exact List.drop_left' (by simp)
  rw [htake, hdrop, List.append_assoc]

theorem slice_eapolKey_mic :
    slice (eapolKey keyinfo replayCnt nonce mic keydata) 81 16 = mic.toList := by
  rw [eapolKey_eq_append]
  exact slice_append (by simp) (by simp)

theorem slice_eapolKey_length :
    slice (eapolKey keyinfo replayCnt nonce mic keydata) 2 2 = putbe16 (95 + keydata.length) := by
  simp only [eapolKey, List.append_assoc]
  exact slice_append rfl rfl

theorem slice_eapolKey_nonce :
    slice (eapolKey keyinfo replayCnt nonce mic keydata) 17 32 = nonce.toList := by
  have h : eapolKey keyinfo replayCnt nonce mic keydata =
      ([1, 3] ++ putbe16 (95 + keydata.length) ++ [2] ++ putbe16 keyinfo ++ putbe16 0 ++
        putbe64 replayCnt) ++
        (nonce.toList ++ (List.replicate 16 0 ++ (List.replicate 8 0 ++
          (List.replicate 8 0 ++ (mic.toList ++ (putbe16 keydata.length ++ keydata)))))) := by
    simp only [eapolKey, List.append_assoc]
  rw [h]
  exact slice_append rfl (by simp)

end Layout

theorem value_putbe16 {n : ℕ} (h : n < 2 ^ 16) : value (putbe16 n) = n := by
  simp only [putbe16, value, List.length_cons, List.length_nil, UInt8.toNat_ofNat']
  omega

theorem arrayOf_toList {n : ℕ} (x : Bytes n) : arrayOf x.toList n = x := by
  funext i
  simp [arrayOf, Bytes.toList]

/-- A reply is what the access point it is sent to checks for. -/
theorem apAccepts_eapolKeyFrame (C : Crypto) (kck : Bytes 0x10) (aa spa : Bytes 6)
    (keyinfo replayCnt : ℕ) (nonce : Bytes 32) {keydata : List UInt8}
    (h : 95 + keydata.length < 2 ^ 16) :
    ApAccepts C aa spa kck (putbe64 replayCnt)
      (eapolKeyFrame C kck aa spa keyinfo replayCnt nonce keydata) where
  dst := by
    unfold eapolKeyFrame
    simp only [List.append_assoc]
    exact slice_append rfl (by simp)
  src := by
    unfold eapolKeyFrame
    simp only [List.append_assoc]
    rw [← List.append_assoc]
    exact slice_append (by simp) (by simp)
  replay := by
    rw [eapolOf, drop_eapolKeyFrame]
    exact slice_eapolKey_replay _ _ _ _ _
  length := by
    rw [eapolOf, drop_eapolKeyFrame, slice_eapolKey_length, value_putbe16 h, length_eapolKey]
    omega
  mic := by
    rw [eapolOf, drop_eapolKeyFrame, slice_eapolKey_mic, zeroMic_eapolKey]
    unfold wpaCalcMic
    exact toList_arrayOf (by simp)

theorem nonceOf_eapolKeyFrame (C : Crypto) (kck : Bytes 0x10) (aa spa : Bytes 6)
    (keyinfo replayCnt : ℕ) (nonce : Bytes 32) (keydata : List UInt8) :
    nonceOf (eapolKeyFrame C kck aa spa keyinfo replayCnt nonce keydata) = nonce := by
  unfold nonceOf
  rw [eapolOf, drop_eapolKeyFrame, slice_eapolKey_nonce, arrayOf_toList]

/-- A number read from eight bytes is written back as the same bytes. -/
theorem putbe64_getbe64 (m : Mem UInt8) (p : ℕ) : putbe64 (getbe64 m p) = m.read p 8 := by
  have h0 := (m p).toNat_lt
  have h1 := (m (p + 1)).toNat_lt
  have h2 := (m (p + 2)).toNat_lt
  have h3 := (m (p + 3)).toNat_lt
  have h4 := (m (p + 4)).toNat_lt
  have h5 := (m (p + 5)).toNat_lt
  have h6 := (m (p + 6)).toNat_lt
  have h7 := (m (p + 7)).toNat_lt
  have hread : m.read p 8 = [m p, m (p + 1), m (p + 2), m (p + 3), m (p + 4), m (p + 5), m (p + 6),
    m (p + 7)] := by simp [Mem.read, List.range_succ]
  rw [hread]
  unfold putbe64 getbe64 getbe32 getbe16
  simp only [List.cons.injEq, and_true, ← UInt8.toNat_inj, UInt8.toNat_ofNat', Nat.add_assoc,
    Nat.reduceAdd]
  refine ⟨?_, ?_, ?_, ?_, ?_, ?_, ?_, ?_⟩ <;> omega

/-! ## Replies -/

section Replies

variable (P : Platform) (s : Wmi) (addr : ℕ) {pkt : Mem UInt8} (len : ℕ) (env : AuthEnv)

/-- The answer to message 1. -/
theorem drive_message1 (heapol : IsEapol pkt) (hmsg : authKeyinfo (snapBody pkt) = 0x008A) :
    (drive P s (.data addr pkt len env)).2 =
      [.data (eapolKeyFrame P.crypto
        (answerPtk P.crypto s.ap (snapBody pkt) (arrayAt pkt 2 6) (arrayAt pkt 8 6) env).kck
        (arrayAt pkt 8 6) (arrayAt pkt 2 6) 0x010A (authReplay (snapBody pkt)) env.rand
        (handshake2Keydata s.ap))] := by
  show (dataHandlePkt P.crypto s addr pkt len env).2 = _
  unfold dataHandlePkt dataHandleAuth
  rw [if_pos heapol, if_pos hmsg]
  rfl

/-- The answer to message 3 or to a group message comes first, with the key in use. -/
theorem drive_keyMessage (heapol : IsEapol pkt)
    (hmsg : authKeyinfo (snapBody pkt) = 0x13CA ∨ authKeyinfo (snapBody pkt) = 0x1382) :
    ∃ keyinfo rest, (drive P s (.data addr pkt len env)).2 =
      .data (eapolKeyFrame P.crypto s.keys.devicePtk.kck (arrayAt pkt 8 6) (arrayAt pkt 2 6) keyinfo
        (authReplay (snapBody pkt)) (zeros 32) []) :: rest := by
  show ∃ keyinfo rest, (dataHandlePkt P.crypto s addr pkt len env).2 = _
  unfold dataHandlePkt dataHandleAuth
  rw [if_pos heapol]
  rcases hmsg with hmsg | hmsg
  · rw [if_neg (by omega), if_pos hmsg]
    exact ⟨0x030A, _, rfl⟩
  · rw [if_neg (by omega), if_neg (by omega), if_pos hmsg]
    exact ⟨0x0302, _, rfl⟩

end Replies

/-- **Handshake agreement.** The answer to message 1 is accepted by the access point that sent it,
under the key it derives from the same PMK, both addresses, its nonce and the nonce of the answer.
So is, under the same key, the answer to each message 3 and group message it sends later, until the
next message 1. -/
theorem handshake_accepted (P : Platform) (s : Wmi) (addr₁ len₁ : ℕ) (pkt₁ : Mem UInt8)
    (env₁ : AuthEnv) (heapol₁ : IsEapol pkt₁) (hmsg₁ : authKeyinfo (snapBody pkt₁) = 0x008A) :
    let spa := arrayAt pkt₁ 2 6
    let aa := arrayAt pkt₁ 8 6
    ∃ frame₂, (drive P s (.data addr₁ pkt₁ len₁ env₁)).2 = [.data frame₂] ∧
      let kck := ieeeKck P.crypto s.ap.pmk aa spa (authNonce (snapBody pkt₁)) (nonceOf frame₂)
      ApAccepts P.crypto aa spa kck ((snapBody pkt₁).read 9 8) frame₂ ∧
      ∀ seg : List Event, (∀ e ∈ seg, ¬e.IsMessage1) →
        ∀ (addr₃ len₃ : ℕ) (pkt₃ : Mem UInt8) (env₃ : AuthEnv), IsEapol pkt₃ →
          authKeyinfo (snapBody pkt₃) = 0x13CA ∨ authKeyinfo (snapBody pkt₃) = 0x1382 →
          arrayAt pkt₃ 2 6 = spa → arrayAt pkt₃ 8 6 = aa →
          ∃ frame₄ rest,
            (drive P (runFrom P (step P s (.data addr₁ pkt₁ len₁ env₁)) seg)
              (.data addr₃ pkt₃ len₃ env₃)).2 = .data frame₄ :: rest ∧
            ApAccepts P.crypto aa spa kck ((snapBody pkt₃).read 9 8) frame₄ := by
  intro spa aa
  refine ⟨_, drive_message1 P s addr₁ len₁ env₁ heapol₁ hmsg₁, ?_⟩
  -- the key of the driver is the one the access point derives
  have hkck : (answerPtk P.crypto s.ap (snapBody pkt₁) spa aa env₁).kck =
      ieeeKck P.crypto s.ap.pmk aa spa (authNonce (snapBody pkt₁)) env₁.rand :=
    wpaCalcPtk_kck _ _ _ _ _ _
  rw [nonceOf_eapolKeyFrame]
  change ApAccepts _ _ _ (ieeeKck P.crypto s.ap.pmk aa spa (authNonce (snapBody pkt₁)) env₁.rand)
    _ _ ∧ _
  rw [← hkck]
  constructor
  · have hreplay : (snapBody pkt₁).read 9 8 = putbe64 (authReplay (snapBody pkt₁)) :=
      (putbe64_getbe64 _ _).symm
    have hlen : (handshake2Keydata s.ap).length = 0x16 := rfl
    rw [hreplay]
    exact apAccepts_eapolKeyFrame _ _ _ _ _ _ _ (by omega)
  · intro seg hseg addr₃ len₃ pkt₃ env₃ heapol₃ hmsg₃ hspa haa
    obtain ⟨keyinfo, rest, hout⟩ := drive_keyMessage P
      (runFrom P (step P s (.data addr₁ pkt₁ len₁ env₁)) seg) addr₃ len₃ env₃ heapol₃ hmsg₃
    have hmessage1 : (Event.data addr₁ pkt₁ len₁ env₁).IsMessage1 := by
      simp only [Event.IsMessage1, Event.keyinfo, heapol₁, if_true, hmsg₁]
    have hptk : (runFrom P (step P s (.data addr₁ pkt₁ len₁ env₁)) seg).keys.devicePtk =
        answerPtk P.crypto s.ap (snapBody pkt₁) spa aa env₁ := by
      rw [devicePtk_of_no_message1 hseg, step_devicePtk, if_pos hmessage1]
      rfl
    rw [hptk, hspa, haa] at hout
    refine ⟨_, rest, hout, ?_⟩
    have hreplay : (snapBody pkt₃).read 9 8 = putbe64 (authReplay (snapBody pkt₃)) :=
      (putbe64_getbe64 _ _).symm
    rw [hreplay]
    exact apAccepts_eapolKeyFrame _ _ _ _ _ _ _ (by decide)

/-! ### A sample handshake -/

/-- The sample network, with a MAC that shows key and text. -/
def macPlatform : Platform :=
  { samplePlatform with crypto := ⟨fun key text => arrayOf (key ++ text) 20, fun _ _ => none⟩ }

/-- A key frame from `02:00:00:00:00:01` to `00:09:BF:00:00:02`, with a nonce of bytes 0x11. -/
def keyFrame (keyinfo replay : ℕ) : Mem UInt8 :=
  .ofList ([0, 0x1C] ++ [0x00, 0x09, 0xBF, 0, 0, 2] ++ [2, 0, 0, 0, 0, 1] ++ [0, 0x6B] ++
    [0xAA, 0xAA, 3, 0, 0, 0, 0x88, 0x8E] ++ [1, 3, 0, 95, 2] ++ putbe16 keyinfo ++ putbe16 16 ++
    putbe64 replay ++ List.replicate 32 0x11 ++ List.replicate 50 0) 0

/-- Message 1, the `CONNECT` event and message 3 of an access point that has been heard. -/
theorem handshake_accepted_sample :
    let P := macPlatform
    let s := runFrom P .init [wpa2Beacon]
    let aa : Bytes 6 := ![2, 0, 0, 0, 0, 1]
    let spa : Bytes 6 := ![0, 0x09, 0xBF, 0, 0, 2]
    let env : AuthEnv := ⟨fun i => .ofNat i, fun _ => 0⟩
    let message1 := Event.data 0 (keyFrame 0x008A 7) 0x80 env
    ∃ frame₂ frame₄ rest, (drive P s message1).2 = [.data frame₂] ∧
      (drive P (runFrom P (step P s message1) [connectEvent])
        (.data 0 (keyFrame 0x13CA 8) 0x80 env)).2 = .data frame₄ :: rest ∧
      let kck := ieeeKck P.crypto (fun _ => 0x5A) aa spa (fun _ => 0x11) (nonceOf frame₂)
      ApAccepts P.crypto aa spa kck [0, 0, 0, 0, 0, 0, 0, 7] frame₂ ∧
      ApAccepts P.crypto aa spa kck [0, 0, 0, 0, 0, 0, 0, 8] frame₄ := by
  intro P s aa spa env message1
  obtain ⟨frame₂, hout₂, hacc₂, hlater⟩ := handshake_accepted P s 0 0x80 (keyFrame 0x008A 7) env
    (by decide +kernel) (by decide +kernel)
  obtain ⟨frame₄, rest, hout₄, hacc₄⟩ := hlater [connectEvent] (by decide +kernel) 0 0x80
    (keyFrame 0x13CA 8) env (by decide +kernel) (.inl (by decide +kernel)) (by decide +kernel)
    (by decide +kernel)
  have haa : arrayAt (keyFrame 0x008A 7) 8 6 = aa := by decide +kernel
  have hspa : arrayAt (keyFrame 0x008A 7) 2 6 = spa := by decide +kernel
  have hnonce : authNonce (snapBody (keyFrame 0x008A 7)) = fun _ => 0x11 := by decide +kernel
  have hpmk : s.ap.pmk = fun _ => 0x5A := by decide +kernel
  have hreplay₂ : (snapBody (keyFrame 0x008A 7)).read 9 8 = [0, 0, 0, 0, 0, 0, 0, 7] := by
    decide +kernel
  have hreplay₄ : (snapBody (keyFrame 0x13CA 8)).read 9 8 = [0, 0, 0, 0, 0, 0, 0, 8] := by
    decide +kernel
  rw [haa, hspa, hnonce, hpmk, hreplay₂] at hacc₂
  rw [haa, hspa, hnonce, hpmk, hreplay₄] at hacc₄
  exact ⟨frame₂, frame₄, rest, hout₂, hout₄, hacc₂, hacc₄⟩

end DsiWifi
