import DsiWifi.Crypto.AesKeys
import DsiWifi.Crypto.Hmac
import DsiWifi.Wmi.GtkElement
import DsiWifi.Wmi.Handshake
import DsiWifi.Wmi.Ptk

/-!
# Key agreement with a standard access point

The driver with its own HMAC-SHA1 and key unwrap in the place of the parameters (`mbedtlsCrypto`),
against an access point that only follows the standards: the pairwise key is the PRF of RFC 2104 and
FIPS 180, and the key data of message 3 are wrapped with the cipher of FIPS 197.  Whatever happens
between the messages, the driver installs the keys of the access point (`keys_agree`).
-/

namespace DsiWifi

open ApSecurityType Octets

/-! ## The primitives of the code -/

/-- `sha1_hmac` and `mbedtls_nist_kw_unwrap`, called as `wpa.twl.c` calls them.  `ctx` is what the
context of a digest held before. -/
def mbedtlsCrypto (ctx : HmacContext) : Crypto where
  sha1Hmac key input := arrayOf (DsiWifi.sha1Hmac ctx key input) 20
  nistKwUnwrap kek data := do
    let dec ← mbedtlsAesSetkeyDec kek.toList 128
    (mbedtlsNistKwUnwrap (mbedtlsInternalAesDecrypt dec) .kw data 0x200).toOption

/-! ## The access point -/

/-- The pairwise key: PRF-512 of the PMK over the label, the addresses and the nonces. -/
def ieeePtk (pmk : Bytes 0x20) (aa spa : Bytes 6) (aNonce sNonce : Bytes 32) : PtkKeyinfo :=
  .ofList ((List.range 4).flatMap fun i => Rfc2104.hmac pmk.toList (pairwiseLabel ++ [0] ++
    (lesser aa.toList spa.toList ++ greater aa.toList spa.toList ++
      lesser aNonce.toList sNonce.toList ++ greater aNonce.toList sNonce.toList) ++ [.ofNat i]))

/-! ## Pairwise keys -/

theorem toList_sha1Hmac (ctx : HmacContext) {key input : List UInt8} (hkey : key.length < 2 ^ 32)
    (hlen : input.length < 2 ^ 32) :
    ((mbedtlsCrypto ctx).sha1Hmac key input).toList = Rfc2104.hmac key input := by
  show (arrayOf (sha1Hmac ctx key input) 20).toList = _
  have hout : (Rfc2104.hmac key input).length = 20 := length_sha1 _
  rw [sha1Hmac_eq_hmac ctx hkey hlen, toList_arrayOf hout.ge, List.take_of_length_le hout.le]

theorem length_ptkData (devMac apMac : Bytes 6) (devNonce apNonce : Bytes 32) (i : UInt8) :
    (ptkData devMac apMac devNonce apNonce i).length = 100 := by
  unfold ptkData getArrMin getArrMax
  split_ifs <;> simp [ptkLabel]

/-- The driver derives the pairwise key of the standard. -/
theorem wpaCalcPtk_eq_ieeePtk (ctx : HmacContext) (pmk : Bytes 0x20) (aa spa : Bytes 6)
    (aNonce sNonce : Bytes 32) :
    wpaCalcPtk (mbedtlsCrypto ctx) spa aa sNonce aNonce pmk = ieeePtk pmk aa spa aNonce sNonce := by
  have hprf : ∀ i, ((mbedtlsCrypto ctx).sha1Hmac pmk.toList (ptkData spa aa sNonce aNonce i)).toList =
      Rfc2104.hmac pmk.toList (ptkData spa aa sNonce aNonce i) := by
    intro i
    apply toList_sha1Hmac
    · rw [List.length_ofFn]
      decide
    · rw [length_ptkData]
      decide
  have hfour := flatMap_range_four fun i => Rfc2104.hmac pmk.toList (ptkData spa aa sNonce aNonce i)
  unfold wpaCalcPtk ieeePtk
  simp only [hprf, ← ptkData_eq]
  rw [hfour]

/-! ## Group keys -/

/-- The words of a key expansion are determined by the key. -/
theorem Fips197.IsKeySchedule.unique {nk nr : ℕ} {key : List UInt8} {w w' : ℕ → Word}
    (hnk : 0 < nk) (h : IsKeySchedule nk nr key w) (h' : IsKeySchedule nk nr key w') (i : ℕ)
    (hi : i < 4 * (nr + 1)) : w i = w' i := by
  induction i using Nat.strong_induction_on with
  | _ i ih =>
    funext r
    rcases Nat.lt_or_ge i nk with hlt | hge
    · rw [h.init i hlt, h'.init i hlt]
    · rw [h.step i hge hi, h'.step i hge hi, ih (i - nk) (by omega) (by omega),
        ih (i - 1) (by omega) (by omega)]

theorem rounds_congr {k k' : ℕ → AesMatrix} (s : AesMatrix) (i : ℕ) (h : ∀ j ≤ i, k j = k' j) :
    Fips197.rounds k s i = Fips197.rounds k' s i := by
  induction i with
  | zero => rw [Fips197.rounds, Fips197.rounds, h 0 (Nat.le_refl 0)]
  | succ i ih =>
    rw [Fips197.rounds, Fips197.rounds, h (i + 1) (Nat.le_refl _), ih fun j hj => h j (by omega)]

/-- AES under a key is one function. -/
theorem Fips197.IsAes.unique {nk : ℕ} {key : List UInt8} {E E' : CipherBlock → CipherBlock}
    (hnk : 0 < nk) (h : IsAes nk key E) (h' : IsAes nk key E') : E = E' := by
  obtain ⟨w, hw, hE⟩ := h
  obtain ⟨w', hw', hE'⟩ := h'
  have hkey : ∀ j ≤ nk + 6, roundKey w j = roundKey w' j := by
    intro j hj
    funext r c
    exact congrFun (hw.unique hnk hw' (4 * j + c) (by omega)) r
  funext b
  apply blockMatrix_injective
  rw [hE, hE', cipher, cipher, hkey (nk + 6) (Nat.le_refl _),
    rounds_congr _ (nk + 6 - 1) fun j hj => hkey j (by omega)]

/-- What the access point wraps under the key encryption key, the driver unwraps. -/
theorem nistKwUnwrap_of_wrap (ctx : HmacContext) {kek : Bytes 0x10} {E : CipherBlock → CipherBlock}
    (hE : Fips197.IsAes 4 kek.toList E) {plain data : List UInt8} {outSize : ℕ}
    (hsize : plain.length ≤ 0x200) (hwrap : mbedtlsNistKwWrap E .kw plain outSize = .ok data) :
    (mbedtlsCrypto ctx).nistKwUnwrap kek data = some plain := by
  have hok : plain.length % 8 = 0 ∧ 16 ≤ plain.length ∧ kwWrapBytes E nistKwIcv1 plain = data := by
    unfold mbedtlsNistKwWrap at hwrap
    dsimp only at hwrap
    split_ifs at hwrap with _ hlen
    exact ⟨by omega, by omega, Except.ok.inj hwrap⟩
  have hlen : data.length = plain.length + 8 := by
    rw [← hok.2.2, length_kwWrapBytes nistKwIcv1 hok.1 hok.2.1]
  obtain ⟨enc, dec, henc, hdec, hDE, hED⟩ := aes_inverse (.inl rfl : KeySize 4) kek.toList
  have hunique : E = mbedtlsInternalAesEncrypt enc :=
    hE.unique (by decide) (isAes_setkeyEnc (.inl rfl) henc)
  subst hunique
  have hunwrap : mbedtlsNistKwUnwrap (mbedtlsInternalAesDecrypt dec) .kw data 0x200 = .ok plain :=
    (mbedtlsNistKwUnwrap_kw_iff hED hDE (by omega) (by omega)).2 hok
  rw [show 32 * 4 = 128 from rfl] at hdec
  unfold mbedtlsCrypto
  dsimp only
  rw [hdec, Option.bind_eq_bind, Option.bind_some, hunwrap]
  rfl

/-- The group key of the access point comes out of the key data. -/
theorem wpaDecryptGtk_of_wrap (ctx : HmacContext) {kek : Bytes 0x10} {E : CipherBlock → CipherBlock}
    (hE : Fips197.IsAes 4 kek.toList E) {es : List Tlv.Record} {k : ℕ} (hk : k ≠ 1)
    (hone : (es.filter IsGtkRecord).length ≤ 1) (hsize : (keyData es k).length ≤ 0x200)
    {data : List UInt8} {outSize : ℕ}
    (hwrap : mbedtlsNistKwWrap E .kw (keyData es k) outSize = .ok data) (stack : Mem UInt8) :
    wpaDecryptGtk (mbedtlsCrypto ctx) kek data stack = .ofBytes (gtkBody es) := by
  have hunwrap := nistKwUnwrap_of_wrap ctx hE hsize hwrap
  rw [wpaDecryptGtk_eq_foldl hunwrap hone, foldl_padding (holdsKeyData_write stack es k) hk]

/-! ## The handshake -/

/-- **Key agreement.** The driver answers message 1 with a nonce.  The access point derives the
pairwise key from it and wraps the key data of a later message 3 under that key.  Whatever else the
driver receives in between, as long as it is no other message 1, it then installs the pairwise key of
the access point and the group key of the key data. -/
theorem keys_agree (ctx : HmacContext) (P : Platform) (hP : P.crypto = mbedtlsCrypto ctx) (s : Wmi)
    (addr₁ len₁ : ℕ) (pkt₁ : Mem UInt8) (env₁ : AuthEnv) (heapol₁ : IsEapol pkt₁)
    (hmsg₁ : authKeyinfo (snapBody pkt₁) = 0x008A) :
    ∃ frame₂, (drive P s (.data addr₁ pkt₁ len₁ env₁)).2 = [.data frame₂] ∧
      let ptk := ieeePtk s.ap.pmk (arrayAt pkt₁ 8 6) (arrayAt pkt₁ 2 6) (authNonce (snapBody pkt₁))
        (nonceOf frame₂)
      ∀ seg : List Event, (∀ e ∈ seg, ¬e.IsMessage1) →
        ∀ (addr₃ len₃ : ℕ) (pkt₃ : Mem UInt8) (env₃ : AuthEnv) (E : CipherBlock → CipherBlock)
          (es : List Tlv.Record) (k outSize : ℕ),
          IsEapol pkt₃ →
          authKeyinfo (snapBody pkt₃) = 0x13CA ∨ authKeyinfo (snapBody pkt₃) = 0x1382 →
          Fips197.IsAes 4 ptk.kek.toList E →
          k ≠ 1 → (es.filter IsGtkRecord).length ≤ 1 → (keyData es k).length ≤ 0x200 →
          mbedtlsNistKwWrap E .kw (keyData es k) outSize = .ok (authKeydata (snapBody pkt₃)) →
          let s₃ := runFrom P (step P s (.data addr₁ pkt₁ len₁ env₁)) seg
          s₃.ap.securityType = apWpa2 →
          cipherKeys (drive P s₃ (.data addr₃ pkt₃ len₃ env₃)).2 =
            [pairwiseCmd s₃.ap ptk,
              groupCmd s₃.ap (.ofBytes (gtkBody es)) (authRsc (snapBody pkt₃))] := by
  refine ⟨_, drive_message1 P s addr₁ len₁ env₁ heapol₁ hmsg₁, ?_⟩
  rw [nonceOf_eapolKeyFrame]
  intro ptk seg hseg addr₃ len₃ pkt₃ env₃ E es k outSize heapol₃ hmsg₃ hE hk hone hsize hwrap s₃ hwpa2
  have hmessage1 : (Event.data addr₁ pkt₁ len₁ env₁).IsMessage1 := by
    simp only [Event.IsMessage1, Event.keyinfo, heapol₁, if_true, hmsg₁]
  have hptk : s₃.keys.devicePtk = ptk := by
    show (runFrom P (step P s (.data addr₁ pkt₁ len₁ env₁)) seg).keys.devicePtk = ptk
    rw [devicePtk_of_no_message1 hseg, step_devicePtk, if_pos hmessage1]
    show wpaCalcPtk P.crypto _ _ _ _ _ = ptk
    rw [hP, wpaCalcPtk_eq_ieeePtk]
  have hgtk : (Event.data addr₃ pkt₃ len₃ env₃).gtk P.crypto ptk = .ofBytes (gtkBody es) := by
    rw [hP]
    exact wpaDecryptGtk_of_wrap ctx hE hk hone hsize hwrap env₃.stack
  rw [cipherKeys_data, if_pos ⟨isKeyMessage_data.2 ⟨heapol₃, hmsg₃⟩, hwpa2⟩, hptk, hgtk]
  rfl

/-! ### A sample run -/

theorem step_data_ap (P : Platform) (s : Wmi) (addr : ℕ) (pkt : Mem UInt8) (len : ℕ) (env : AuthEnv) :
    (step P s (.data addr pkt len env)).ap = s.ap := by
  show (dataHandlePkt P.crypto s addr pkt len env).1.ap = s.ap
  unfold dataHandlePkt dataHandleAuth
  split_ifs <;> rfl

/-- The sample platform with the primitives of the code. -/
def mbedtlsPlatform : Platform :=
  { samplePlatform with crypto := mbedtlsCrypto ⟨⟨0, 0, sha1Iv, zeros 64⟩, zeros 64, zeros 64⟩ }

/-- The packet of a message 3 before the length of its key data. -/
def message3Head : List UInt8 := (authPkt 0x13CA 2).take 121

/-- A message 3 with the given key data. -/
def message3 (keydata : List UInt8) : Mem UInt8 :=
  .ofList (message3Head ++ (putbe16 keydata.length ++ (keydata ++ []))) 0

theorem authKeydata_message3 {keydata : List UInt8} (h : keydata.length < 2 ^ 16) :
    authKeydata (snapBody (message3 keydata)) = keydata := by
  have hhead : message3Head.length = 121 := by decide +kernel
  have hfield : (message3 keydata).read 121 2 = putbe16 keydata.length := by
    rw [← hhead]
    exact Mem.read_ofList_append message3Head (putbe16 keydata.length) (keydata ++ []) 0
  have hlen : getbe16 (snapBody (message3 keydata)) 97 = keydata.length := by
    rw [show (message3 keydata).read 121 2 = [message3 keydata 121, message3 keydata 122] from rfl,
      putbe16, List.cons.injEq, List.cons.injEq] at hfield
    show 256 * (message3 keydata 121).toNat + (message3 keydata 122).toNat = _
    rw [hfield.1, hfield.2.1, UInt8.toNat_ofNat', UInt8.toNat_ofNat']
    omega
  have hread := Mem.read_ofList_append (message3Head ++ putbe16 keydata.length) keydata [] 0
  rw [List.length_append, hhead, length_putbe16, List.append_assoc] at hread
  have hshift : (snapBody (message3 keydata)).read 99 keydata.length =
      (message3 keydata).read 123 keydata.length :=
    List.map_congr_left fun i _ => congrArg _ (Nat.add_assoc 24 99 i).symm
  unfold authKeydata
  rw [hlen, hshift]
  exact hread

/-- The sample access point sends its message 1 and a message 3 with a group key. -/
theorem keys_agree_sample :
    let s := runFrom mbedtlsPlatform .init [wpa2Beacon]
    ∃ frame₂ wrapped, (drive mbedtlsPlatform s (authEvent 0x008A 1)).2 = [.data frame₂] ∧
      let ptk := ieeePtk s.ap.pmk (zeros 6) (zeros 6) (zeros 32) (nonceOf frame₂)
      let s₃ := step mbedtlsPlatform s (authEvent 0x008A 1)
      cipherKeys (drive mbedtlsPlatform s₃
          (.data 0 (message3 wrapped) 0x80 ⟨zeros 32, fun _ => 0⟩)).2 =
        [pairwiseCmd s₃.ap ptk, groupCmd s₃.ap (.ofBytes (gtkBody gtkElements)) (zeros 8)] := by
  intro s
  obtain ⟨frame₂, hout, hagree⟩ := keys_agree _ mbedtlsPlatform rfl s 0 0x80
    (.ofList (authPkt 0x008A 1) 0) ⟨zeros 32, fun _ => 0⟩ (by decide +kernel) (by decide +kernel)
  have haddr : arrayAt (.ofList (authPkt 0x008A 1) 0) 8 6 = zeros 6 ∧
      arrayAt (.ofList (authPkt 0x008A 1) 0) 2 6 = zeros 6 := by decide +kernel
  have hnonce : authNonce (snapBody (.ofList (authPkt 0x008A 1) 0)) = zeros 32 := by decide +kernel
  rw [haddr.1, haddr.2, hnonce] at hagree
  obtain ⟨enc, -, henc, -⟩ := aes_inverse (.inl rfl : KeySize 4)
    (ieeePtk s.ap.pmk (zeros 6) (zeros 6) (zeros 32) (nonceOf frame₂)).kek.toList
  obtain ⟨wrapped, hwrap, hlen⟩ : ∃ wrapped,
      mbedtlsNistKwWrap (mbedtlsInternalAesEncrypt enc) .kw (keyData gtkElements 4) 40 = .ok wrapped ∧
      wrapped.length = 40 := by
    refine ⟨_, rfl, ?_⟩
    exact length_kwWrapBytes (P := keyData gtkElements 4) nistKwIcv1 (by decide) (by decide)
  have hsec : (step mbedtlsPlatform s (authEvent 0x008A 1)).ap.securityType = apWpa2 := by
    rw [authEvent, step_data_ap]
    decide +kernel
  have hkey : authKeydata (snapBody (message3 wrapped)) = wrapped :=
    authKeydata_message3 (by omega)
  rw [← hkey] at hwrap
  have h := hagree [] (fun e he => absurd he List.not_mem_nil) 0 0x80 (message3 wrapped)
    ⟨zeros 32, fun _ => 0⟩ _ gtkElements 4 40 rfl (.inl rfl) (isAes_setkeyEnc (.inl rfl) henc)
    (by decide) (by decide) (by decide) hwrap hsec
  refine ⟨frame₂, wrapped, hout, ?_⟩
  exact h

end DsiWifi
