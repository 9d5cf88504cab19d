import DsiWifi.Lib.Octets
import DsiWifi.Wmi.Commands
import DsiWifi.Wpa

/-!
# EAPOL-Key frames

`data_handle_auth` and the three replies it sends.  The replies are one frame layout with different
key information, nonce and key data (`eapolKeyFrame`).
-/

namespace DsiWifi

open Octets

/-- What a call of `data_handle_auth` takes from its surroundings: the bytes of `rand()` and the
previous contents of the stack buffer of `wpa_decrypt_gtk`. -/
structure AuthEnv where
  rand : Bytes 32
  stack : Mem UInt8

/-! ## Replies -/

/-- The EAPOL part of a reply, from `version` on. -/
def eapolKey (keyinfo replayCnt : ℕ) (nonce : Bytes 32) (mic : Bytes 16) (keydata : List UInt8) :
    List UInt8 :=
  let authLen := 95 + keydata.length
  [1, 3] ++ putbe16 authLen ++ [2] ++ putbe16 keyinfo ++ putbe16 0 ++ putbe64 replayCnt ++
    nonce.toList ++ List.replicate 16 0 ++ List.replicate 8 0 ++ List.replicate 8 0 ++
    mic.toList ++ putbe16 keydata.length ++ keydata

/-- A reply: pad bytes, addresses, length, SNAP header and the EAPOL part with its MIC. -/
def eapolKeyFrame (C : Crypto) (kck : Bytes 0x10) (dstBssid srcBssid : Bytes 6)
    (keyinfo replayCnt : ℕ) (nonce : Bytes 32) (keydata : List UInt8) : List UInt8 :=
  let dataLen := 8 + 4 + 95 + keydata.length
  let micOut := wpaCalcMic C kck (eapolKey keyinfo replayCnt nonce (zeros 16) keydata)
  [0x00, 0x1C] ++ dstBssid.toList ++ srcBssid.toList ++ putbe16 dataLen ++
    [0xAA, 0xAA, 0x03, 0, 0, 0, 0x88, 0x8E] ++ eapolKey keyinfo replayCnt nonce micOut keydata

/-- The RSN element of handshake message 2. -/
def handshake2Keydata (ap : Ap) : List UInt8 :=
  [0x30, 0x14, 0x01, 0x00, 0x00, 0x0F, 0xAC, if ap.groupCryptType = .cryptAes then 0x04 else 0x02,
    0x01, 0x00, 0x00, 0x0F, 0xAC, 0x04, 0x01, 0x00, 0x00, 0x0F, 0xAC, 0x02, 0x00, 0x00]

/-- `data_send_wpa_handshake2`: a fresh nonce, the pairwise key from it, and the reply. -/
def dataSendWpaHandshake2 (C : Crypto) (ap : Ap) (k : Keys) (dstBssid srcBssid : Bytes 6)
    (replayCnt : ℕ) (rand : Bytes 32) : Keys × List Out :=
  let ptk := wpaCalcPtk C srcBssid dstBssid rand k.deviceApNonce ap.pmk
  ({ k with deviceNonce := rand, devicePtk := ptk, hasSentHs2 := true },
    [.data (eapolKeyFrame C ptk.kck dstBssid srcBssid 0x010A replayCnt rand
      (handshake2Keydata ap))])

def dataSendWpaHandshake4 (C : Crypto) (k : Keys) (dstBssid srcBssid : Bytes 6) (replayCnt : ℕ) :
    Keys × List Out :=
  ({ k with hasSentHs4 := true },
    [.data (eapolKeyFrame C k.devicePtk.kck dstBssid srcBssid 0x030A replayCnt (zeros 32) [])])

def dataSendWpaGtkrenew (C : Crypto) (k : Keys) (dstBssid srcBssid : Bytes 6) (replayCnt : ℕ) :
    Keys × List Out :=
  ({ k with hasSentHs4 := true },
    [.data (eapolKeyFrame C k.devicePtk.kck dstBssid srcBssid 0x0302 replayCnt (zeros 32) [])])

/-! ### Layout of a reply -/

@[simp] theorem length_eapolKey (keyinfo replayCnt : ℕ) (nonce : Bytes 32) (mic : Bytes 16)
    (keydata : List UInt8) :
    (eapolKey keyinfo replayCnt nonce mic keydata).length = 99 + keydata.length := by
  simp only [eapolKey, List.length_append, List.length_cons, List.length_nil, List.length_ofFn,
    List.length_replicate, length_putbe16, length_putbe64]

/-- The EAPOL part starts after pad bytes, addresses, length and SNAP header. -/
theorem drop_eapolKeyFrame (C : Crypto) (kck : Bytes 0x10) (dstBssid srcBssid : Bytes 6)
    (keyinfo replayCnt : ℕ) (nonce : Bytes 32) (keydata : List UInt8) :
    (eapolKeyFrame C kck dstBssid srcBssid keyinfo replayCnt nonce keydata).drop 24 =
      eapolKey keyinfo replayCnt nonce
        (wpaCalcMic C kck (eapolKey keyinfo replayCnt nonce (zeros 16) keydata)) keydata := by
  unfold eapolKeyFrame
  exact List.drop_left' (by simp)

/-- The key data are the end of the EAPOL part. -/
theorem drop_eapolKey (keyinfo replayCnt : ℕ) (nonce : Bytes 32) (mic : Bytes 16)
    (keydata : List UInt8) : (eapolKey keyinfo replayCnt nonce mic keydata).drop 99 = keydata := by
  unfold eapolKey
  exact List.drop_left' (by simp)

theorem slice_eapolKey_replay (keyinfo replayCnt : ℕ) (nonce : Bytes 32) (mic : Bytes 16)
    (keydata : List UInt8) :
    slice (eapolKey keyinfo replayCnt nonce mic keydata) 9 8 = putbe64 replayCnt := by
  have h : eapolKey keyinfo replayCnt nonce mic keydata =
      ([1, 3] ++ putbe16 (95 + keydata.length) ++ [2] ++ putbe16 keyinfo ++ putbe16 0) ++
        (putbe64 replayCnt ++ (nonce.toList ++ (List.replicate 16 0 ++ (List.replicate 8 0 ++
          (List.replicate 8 0 ++ (mic.toList ++ (putbe16 keydata.length ++ keydata))))))) := by
    simp only [eapolKey, List.append_assoc]
  rw [h]
  exact slice_append rfl rfl

/-- A reply carries the replay counter it was given. -/
theorem slice_eapolKeyFrame_replay (C : Crypto) (kck : Bytes 0x10) (dstBssid srcBssid : Bytes 6)
    (keyinfo replayCnt : ℕ) (nonce : Bytes 32) (keydata : List UInt8) :
    slice (eapolKeyFrame C kck dstBssid srcBssid keyinfo replayCnt nonce keydata) 33 8 =
      putbe64 replayCnt := by
  unfold slice
  rw [show (33 : ℕ) = 24 + 9 from rfl, ← List.drop_drop, drop_eapolKeyFrame]
  exact slice_eapolKey_replay ..

/-! ## Key installation -/

/-- The keys `wmi_post_handshake` installs; `none` models its null pointers. -/
structure PostKeys where
  tk : Bytes 0x10
  gtkInfo : GtkKeyinfo
  rsc : Bytes 8

def wmiPostHandshake (ap : Ap) (keys : Option PostKeys) : List Out :=
  -- the dummy packet is the little-endian word 0x0200
  [.wmi (.synchronize 1 0), .data [0x00, 0x02], .data [0x00, 0x02]] ++
    (match keys with
    | some k =>
      if ap.securityType = .apWpa2 then
        [.wmi (.addCipherKey (wmiAddCipherKey ap 0 0 k.tk.toList none)),
          .wmi (.addCipherKey (wmiAddCipherKey ap k.gtkInfo.keyidx 1 k.gtkInfo.key.toList
            (some k.rsc)))]
      else []
    | none => []) ++
    [.wmi (.synchronize 1 0), .ipc .ready]

/-! ## `data_handle_auth` -/

/-- The fields of a received EAPOL-Key frame at `auth_hdr`. -/
def authKeyinfo (pkt : Mem UInt8) : ℕ := getbe16 pkt 5

def authReplay (pkt : Mem UInt8) : ℕ := getbe64 pkt 9

def authNonce (pkt : Mem UInt8) : Bytes 32 := arrayAt pkt 17 32

def authRsc (pkt : Mem UInt8) : Bytes 8 := arrayAt pkt 65 8

def authMic (pkt : Mem UInt8) : Bytes 16 := arrayAt pkt 81 16

def authKeydata (pkt : Mem UInt8) : List UInt8 := pkt.read 99 (getbe16 pkt 97)

/-- The pairwise key that answering message 1 derives. -/
def answerPtk (C : Crypto) (ap : Ap) (pkt : Mem UInt8) (devBssid apBssid : Bytes 6)
    (env : AuthEnv) : PtkKeyinfo :=
  wpaCalcPtk C devBssid apBssid env.rand (authNonce pkt) ap.pmk

/-- The group key that message 3 or a group message carries, under the pairwise key `ptk`. -/
def carriedGtk (C : Crypto) (ptk : PtkKeyinfo) (pkt : Mem UInt8) (env : AuthEnv) : GtkKeyinfo :=
  wpaDecryptGtk C ptk.kek (authKeydata pkt) env.stack

def dataHandleAuth (C : Crypto) (s : Wmi) (pkt : Mem UInt8) (devBssid apBssid : Bytes 6)
    (env : AuthEnv) : Wmi × List Out :=
  if authKeyinfo pkt = 0x008A then
    let k := { s.keys with deviceApNonce := authNonce pkt }
    let (k, out) := dataSendWpaHandshake2 C s.ap k apBssid devBssid (authReplay pkt) env.rand
    ({ s with keys := k }, out)
  else if authKeyinfo pkt = 0x13CA then
    let k := { s.keys with deviceApMic := authMic pkt }
    -- the reply goes out before the keys are loaded
    let (k, out) := dataSendWpaHandshake4 C k apBssid devBssid (authReplay pkt)
    let gtk := carriedGtk C k.devicePtk pkt env
    ({ s with keys := { k with deviceGtkKeyinfo := gtk } },
      out ++ wmiPostHandshake s.ap (some ⟨k.devicePtk.tk, gtk, authRsc pkt⟩))
  else if authKeyinfo pkt = 0x1382 then
    let (k, out) := dataSendWpaGtkrenew C s.keys apBssid devBssid (authReplay pkt)
    let gtk := carriedGtk C k.devicePtk pkt env
    ({ s with keys := { k with deviceGtkKeyinfo := gtk } },
      out ++ wmiPostHandshake s.ap (some ⟨k.devicePtk.tk, gtk, authRsc pkt⟩))
  else (s, [])

/-! ### The replay counter -/

/-- Every reply carries the replay counter of the frame it answers. -/
theorem replay_of_reply {C : Crypto} {s : Wmi} {pkt : Mem UInt8} {devBssid apBssid : Bytes 6}
    {env : AuthEnv} {frame : List UInt8}
    (h : (dataHandleAuth C s pkt devBssid apBssid env).2.head? = some (.data frame)) :
    slice frame 33 8 = putbe64 (authReplay pkt) := by
  have hreply : ∀ {kck dstBssid srcBssid keyinfo nonce keydata}, eapolKeyFrame C kck dstBssid srcBssid
      keyinfo (authReplay pkt) nonce keydata = frame → slice frame 33 8 = putbe64 (authReplay pkt) := by
    rintro kck dstBssid srcBssid keyinfo nonce keydata rfl
    exact slice_eapolKeyFrame_replay ..
  unfold dataHandleAuth at h
  split_ifs at h
  · exact hreply (Out.data.inj (Option.some.inj h))
  · exact hreply (Out.data.inj (Option.some.inj h))
  · exact hreply (Out.data.inj (Option.some.inj h))
  · simp at h

/-- A frame is used for nothing but its reply as far as its replay counter goes. -/
theorem dataHandleAuth_congr_replay {C : Crypto} {s : Wmi} {pkt pkt' : Mem UInt8}
    {devBssid apBssid : Bytes 6} {env : AuthEnv}
    (h : ∀ i, ¬(9 ≤ i ∧ i < 17) → pkt i = pkt' i) :
    (dataHandleAuth C s pkt devBssid apBssid env).1 =
        (dataHandleAuth C s pkt' devBssid apBssid env).1 ∧
      (dataHandleAuth C s pkt devBssid apBssid env).2.tail =
        (dataHandleAuth C s pkt' devBssid apBssid env).2.tail := by
  have hkeyinfo : authKeyinfo pkt = authKeyinfo pkt' := by
    unfold authKeyinfo getbe16
    rw [h 5 (by omega), h (5 + 1) (by omega)]
  have harray : ∀ a n, 17 ≤ a → arrayAt pkt a n = arrayAt pkt' a n := fun a n ha =>
    funext fun i => h _ (by omega)
  have hkeydata : authKeydata pkt = authKeydata pkt' := by
    unfold authKeydata getbe16
    rw [h 97 (by omega), h (97 + 1) (by omega)]
    exact Mem.read_congr fun i _ => h _ (by omega)
  unfold dataHandleAuth carriedGtk authNonce authMic authRsc
  rw [hkeyinfo, hkeydata, harray 17 32 (by omega), harray 81 16 (by omega),
    harray 65 8 (by omega)]
  split_ifs
  · exact ⟨rfl, rfl⟩
  · exact ⟨rfl, rfl⟩
  · exact ⟨rfl, rfl⟩
  · exact ⟨rfl, rfl⟩

end DsiWifi
