import DsiWifi.Lib.Reading
import DsiWifi.Wmi.Pairwise

/-!
# The bytes of an EAPOL frame

`data_handle_pkt` and `data_handle_auth` once more, as computations that look at the bytes of the
packet (`run_dataHandlePkt`).  The key data are looked at as a whole, since `wpa_decrypt_gtk` is given
all of them.  `data_handle_auth` is passed the length of its frame and does not use it:
`eapol_inside_iff` says for which packets everything is inside.
-/

namespace DsiWifi

open ApSecurityType Reading

abbrev PktReading := Reading ℕ UInt8

namespace PktReading

/-! ## The handlers -/

def getbe16 (p : ℕ) : PktReading ℕ := do
  let b₀ ← cell p
  let b₁ ← cell (p + 1)
  pure (256 * b₀.toNat + b₁.toNat)

def getbe32 (p : ℕ) : PktReading ℕ := do
  let hi ← getbe16 p
  let lo ← getbe16 (p + 2)
  pure (0x10000 * hi + lo)

def getbe64 (p : ℕ) : PktReading ℕ := do
  let hi ← getbe32 p
  let lo ← getbe32 (p + 4)
  pure (0x100000000 * hi + lo)

/-- `memcpy` of `n` bytes at `p` into an array. -/
def array (p n : ℕ) : PktReading (Bytes n) := do
  let bs ← block p n
  pure (arrayOf bs n)

section Handlers

variable (C : Crypto) (s : Wmi) (env : AuthEnv)

/-- The end of message 3 and of a group message, after the reply `r`: the key data are unwrapped and
the keys installed.  The receive counter is only looked at for a key that is installed. -/
def loadKeys (p keydataLen : ℕ) (r : Keys × List Out) : PktReading (Wmi × List Out) := do
  let keydata ← block (p + 99) keydataLen
  let gtk := wpaDecryptGtk C r.1.devicePtk.kek keydata env.stack
  let s' := { s with keys := { r.1 with deviceGtkKeyinfo := gtk } }
  if s.ap.securityType = apWpa2 then do
    let rsc ← array (p + 65) 8
    pure (s', r.2 ++ wmiPostHandshake s.ap (some ⟨r.1.devicePtk.tk, gtk, rsc⟩))
  else pure (s', r.2 ++ wmiPostHandshake s.ap (some ⟨r.1.devicePtk.tk, gtk, zeros 8⟩))

/-- `data_handle_auth`, with the frame at `p` and the addresses at `dev` and `ap`. -/
def dataHandleAuth (p dev ap : ℕ) : PktReading (Wmi × List Out) := do
  let keyinfo ← getbe16 (p + 5)
  let keydataLen ← getbe16 (p + 97)
  let replay ← getbe64 (p + 9)
  if keyinfo = 0x008A then do
    let nonce ← array (p + 17) 32
    let apBssid ← array ap 6
    let devBssid ← array dev 6
    let r := dataSendWpaHandshake2 C s.ap { s.keys with deviceApNonce := nonce } apBssid devBssid
      replay env.rand
    pure ({ s with keys := r.1 }, r.2)
  else if keyinfo = 0x13CA then do
    let mic ← array (p + 81) 16
    let apBssid ← array ap 6
    let devBssid ← array dev 6
    loadKeys C s env p keydataLen
      (dataSendWpaHandshake4 C { s.keys with deviceApMic := mic } apBssid devBssid replay)
  else if keyinfo = 0x1382 then do
    let apBssid ← array ap 6
    let devBssid ← array dev 6
    loadKeys C s env p keydataLen (dataSendWpaGtkrenew C s.keys apBssid devBssid replay)
  else pure (s, [])

def dataHandlePkt (addr len : ℕ) : PktReading (Wmi × List Out) := do
  let type ← getbe16 22
  if type = 0x888E then dataHandleAuth C s env 24 2 8
  else pure (s, [.ipc (.pktdata addr (min len (0x600 - 6)))])

end Handlers

/-! ## Results -/

section Run

variable (C : Crypto) (s : Wmi) (env : AuthEnv) (pkt : Mem UInt8)

@[simp] theorem run_getbe16 (p : ℕ) : (getbe16 p).run pkt = DsiWifi.getbe16 pkt p := rfl

@[simp] theorem run_getbe64 (p : ℕ) : (getbe64 p).run pkt = DsiWifi.getbe64 pkt p := rfl

@[simp] theorem run_array (p n : ℕ) : (array p n).run pkt = arrayAt pkt p n := by
  unfold array
  rw [run_bind, run_block, run_pure]
  funext i
  unfold arrayOf arrayAt
  rw [List.getD_eq_getElem?_getD, List.getElem?_eq_getElem (by rw [Mem.length_read]; exact i.isLt),
    Option.getD_some, Mem.getElem_read]

/-- An array of the frame at `p`. -/
theorem arrayAt_add (p a n : ℕ) : arrayAt pkt (p + a) n = arrayAt (fun i => pkt (p + i)) a n := by
  funext i
  show pkt (p + a + i) = pkt (p + (a + i))
  rw [Nat.add_assoc]

/-- Without WPA2 no key is installed, whatever the receive counter. -/
theorem wmiPostHandshake_of_ne {ap : Ap} (h : ap.securityType ≠ apWpa2) (keys keys' : PostKeys) :
    wmiPostHandshake ap (some keys) = wmiPostHandshake ap (some keys') := by
  unfold wmiPostHandshake
  dsimp only
  rw [if_neg h, if_neg h]

theorem run_loadKeys (p : ℕ) (r : Keys × List Out) :
    (loadKeys C s env p (DsiWifi.getbe16 pkt (p + 97)) r).run pkt =
      let gtk := carriedGtk C r.1.devicePtk (fun i => pkt (p + i)) env
      ({ s with keys := { r.1 with deviceGtkKeyinfo := gtk } },
        r.2 ++ wmiPostHandshake s.ap
          (some ⟨r.1.devicePtk.tk, gtk, authRsc fun i => pkt (p + i)⟩)) := by
  have hkeydata : pkt.read (p + 99) (DsiWifi.getbe16 pkt (p + 97)) =
      authKeydata fun i => pkt (p + i) := by
    apply Mem.read_congr
    intro i _
    rw [Nat.add_assoc]
  have hrsc : arrayAt pkt (p + 65) 8 = authRsc fun i => pkt (p + i) := arrayAt_add pkt p 65 8
  unfold loadKeys
  rw [run_bind, run_block, hkeydata]
  dsimp only
  by_cases hs : s.ap.securityType = apWpa2
  · rw [if_pos hs, run_bind, run_array, run_pure, hrsc]
    rfl
  · rw [if_neg hs, run_pure, wmiPostHandshake_of_ne hs _ _]
    rfl

theorem run_dataHandleAuth (p dev ap : ℕ) :
    (dataHandleAuth C s env p dev ap).run pkt =
      DsiWifi.dataHandleAuth C s (fun i => pkt (p + i)) (arrayAt pkt dev 6) (arrayAt pkt ap 6)
        env := by
  have hkeyinfo : DsiWifi.getbe16 pkt (p + 5) = authKeyinfo fun i => pkt (p + i) := rfl
  have hreplay : DsiWifi.getbe64 pkt (p + 9) = authReplay fun i => pkt (p + i) := rfl
  have hnonce : arrayAt pkt (p + 17) 32 = authNonce fun i => pkt (p + i) := arrayAt_add pkt p 17 32
  have hmic : arrayAt pkt (p + 81) 16 = authMic fun i => pkt (p + i) := arrayAt_add pkt p 81 16
  unfold dataHandleAuth DsiWifi.dataHandleAuth
  rw [run_bind, run_getbe16, run_bind, run_getbe16, run_bind, run_getbe64, hkeyinfo, hreplay]
  by_cases h1 : (authKeyinfo fun i => pkt (p + i)) = 0x008A
  · rw [if_pos h1, if_pos h1]
    simp only [run_bind, run_array, run_pure, hnonce]
  rw [if_neg h1, if_neg h1]
  by_cases h3 : (authKeyinfo fun i => pkt (p + i)) = 0x13CA
  · rw [if_pos h3, if_pos h3]
    simp only [run_bind, run_array, hmic, run_loadKeys]
  rw [if_neg h3, if_neg h3]
  by_cases hg : (authKeyinfo fun i => pkt (p + i)) = 0x1382
  · rw [if_pos hg, if_pos hg]
    simp only [run_bind, run_array, run_loadKeys]
  · rw [if_neg hg, if_neg hg, run_pure]

/-- The handler computes what the model says. -/
theorem run_dataHandlePkt (addr len : ℕ) :
    (dataHandlePkt C s env addr len).run pkt = DsiWifi.dataHandlePkt C s addr pkt len env := by
  unfold dataHandlePkt DsiWifi.dataHandlePkt
  rw [run_bind, run_getbe16]
  by_cases he : IsEapol pkt
  · have htype : DsiWifi.getbe16 pkt 22 = 0x888E := he
    rw [if_pos he, if_pos htype, run_dataHandleAuth]
    rfl
  · have htype : DsiWifi.getbe16 pkt 22 ≠ 0x888E := he
    rw [if_neg he, if_neg htype, run_pure]

end Run

/-! ## Bounds -/

section Within

variable {C : Crypto} {s : Wmi} {env : AuthEnv} {pkt : Mem UInt8} {len : ℕ}

theorem within_getbe16 (p : ℕ) : Within pkt (· < len) (getbe16 p) ↔ p + 2 ≤ len := by
  unfold getbe16
  simp only [within_bind, within_cell, within_pure, and_true]
  omega

theorem within_getbe64 (p : ℕ) : Within pkt (· < len) (getbe64 p) ↔ p + 8 ≤ len := by
  unfold getbe64 getbe32
  simp only [within_bind, within_getbe16, within_pure, and_true]
  omega

theorem within_array {p n : ℕ} (h : p + n ≤ len) : Within pkt (· < len) (array p n) := by
  unfold array
  rw [within_bind, within_block, and_iff_left (within_pure _)]
  exact Or.inr h

/-- Behind the header only the key data can be outside. -/
theorem within_loadKeys {p keydataLen : ℕ} (h : p + 99 ≤ len) (r : Keys × List Out) :
    Within pkt (· < len) (loadKeys C s env p keydataLen r) ↔ p + 99 + keydataLen ≤ len := by
  unfold loadKeys
  rw [within_bind, within_block]
  dsimp only
  refine (and_iff_left ?_).trans (by omega)
  split_ifs
  · rw [within_bind, and_iff_left (within_pure _)]
    exact within_array (by omega)
  · exact within_pure _

end Within

end PktReading

/-- The fields that are looked at are inside a packet of `len` bytes: the SNAP type, for an EAPOL
frame the header of the key frame, and for message 3 and group messages the key data. -/
def EapolFits (pkt : Mem UInt8) (len : ℕ) : Prop :=
  24 ≤ len ∧ (IsEapol pkt → 123 ≤ len ∧
    (authKeyinfo (snapBody pkt) = 0x13CA ∨ authKeyinfo (snapBody pkt) = 0x1382 →
      123 + getbe16 pkt 121 ≤ len))

namespace PktReading

section Within

variable {C : Crypto} {s : Wmi} {env : AuthEnv} {pkt : Mem UInt8} {len : ℕ}

theorem within_dataHandleAuth {p dev ap : ℕ} (hdev : dev + 6 ≤ p) (hap : ap + 6 ≤ p) :
    Within pkt (· < len) (dataHandleAuth C s env p dev ap) ↔
      p + 99 ≤ len ∧ (DsiWifi.getbe16 pkt (p + 5) = 0x13CA ∨ DsiWifi.getbe16 pkt (p + 5) = 0x1382 →
        p + 99 + DsiWifi.getbe16 pkt (p + 97) ≤ len) := by
  unfold dataHandleAuth
  rw [within_bind, within_getbe16, run_getbe16, within_bind, within_getbe16, run_getbe16, within_bind,
    within_getbe64, run_getbe64]
  by_cases hlen : p + 99 ≤ len
  · -- the header is inside, and with it all arrays
    have harray : ∀ {a n : ℕ}, a + n ≤ p + 99 → Within pkt (· < len) (array a n) := fun h =>
      within_array (by omega)
    rw [and_iff_right (by omega), and_iff_right (by omega), and_iff_right (by omega),
      and_iff_right hlen]
    split_ifs with h1 h3 hg
    · simp only [within_bind, within_pure, and_true]
      exact iff_of_true ⟨harray (by omega), harray (by omega), harray (by omega)⟩ (by omega)
    · simp only [within_bind, within_loadKeys hlen]
      rw [and_iff_right (harray (by omega)), and_iff_right (harray (by omega)),
        and_iff_right (harray (by omega)), forall_prop_of_true (Or.inl h3)]
    · simp only [within_bind, within_loadKeys hlen]
      rw [and_iff_right (harray (by omega)), and_iff_right (harray (by omega)),
        forall_prop_of_true (Or.inr hg)]
    · exact iff_of_true (within_pure _) fun h => absurd h (not_or.2 ⟨h3, hg⟩)
  · exact iff_of_false (fun h => hlen h.2.1) fun h => hlen h.1

theorem within_dataHandlePkt (addr : ℕ) :
    Within pkt (· < len) (dataHandlePkt C s env addr len) ↔ EapolFits pkt len := by
  unfold dataHandlePkt EapolFits
  rw [within_bind, within_getbe16, run_getbe16]
  refine and_congr_right fun _ => ?_
  by_cases he : IsEapol pkt
  · have htype : DsiWifi.getbe16 pkt 22 = 0x888E := he
    rw [if_pos htype, forall_prop_of_true he, within_dataHandleAuth (by omega) (by omega)]
    rfl
  · have htype : DsiWifi.getbe16 pkt 22 ≠ 0x888E := he
    rw [if_neg htype]
    exact iff_of_true (within_pure _) fun h => absurd h he

end Within

end PktReading

/-- Nothing is sent to the access point, and no key is installed. -/
def Dropped (out : List Out) : Prop := (∀ frame, .data frame ∉ out) ∧ cipherKeys out = []

/-- **EAPOL bounds.** Whatever the packet and its length, the handlers look only at bytes of the
packet and drop it when they cannot, exactly when its fields are inside. -/
theorem eapol_inside_iff (C : Crypto) (s : Wmi) (addr : ℕ) (pkt : Mem UInt8) (len : ℕ)
    (env : AuthEnv) :
    (∀ i ∈ (PktReading.dataHandlePkt C s env addr len).reads pkt, i < len) ∧
        (¬EapolFits pkt len → Dropped (dataHandlePkt C s addr pkt len env).2) ↔
      EapolFits pkt len := by
  have hwithin : (∀ i ∈ (PktReading.dataHandlePkt C s env addr len).reads pkt, i < len) ↔
      EapolFits pkt len := PktReading.within_dataHandlePkt addr
  rw [hwithin]
  exact ⟨fun h => h.1, fun h => ⟨h, fun hno => absurd h hno⟩⟩

/-- A packet of 24 bytes that ends with the SNAP header, in a buffer that still holds a message 3:
keys are installed. -/
theorem eapol_inside_counterexample :
    ¬∀ (C : Crypto) (s : Wmi) (addr : ℕ) (pkt : Mem UInt8) (len : ℕ) (env : AuthEnv),
      (∀ i ∈ (PktReading.dataHandlePkt C s env addr len).reads pkt, i < len) ∧
        (¬EapolFits pkt len → Dropped (dataHandlePkt C s addr pkt len env).2) := by
  intro h
  obtain ⟨-, hdropped⟩ := h samplePlatform.crypto (runFrom samplePlatform .init [wpa2Beacon]) 0
    (.ofList (authPkt 0x13CA 1) 0) 24 ⟨zeros 32, fun _ => 0⟩
  have hcut : ¬EapolFits (.ofList (authPkt 0x13CA 1) 0) 24 := fun hfit =>
    absurd (hfit.2 (by decide +kernel)).1 (by decide)
  exact absurd (hdropped hcut).2 (by decide +kernel)

end DsiWifi
