import DsiWifi.Lib.Tlv
import DsiWifi.Wmi.Pairwise

/-!
# The group key of a failed unwrap

`wpa_decrypt_gtk` clears its output, then copies the GTK elements it finds in the unwrapped key data.
It reports nothing: when the unwrap fails, or the key data hold no GTK element, the cleared output is
taken for the group key.  The only other source of a key is the scratch buffer behind the data: an
element that is cut off by their end is completed from what the stack held (`leftoverGtk`).

`failed_unwrap_installs_nothing_iff` says when such a frame has no effect.
-/

namespace DsiWifi

open ApSecurityType

/-! ## The scan -/

/-- The record at `i` reads as a GTK element. -/
def IsGtk (m : Mem UInt8) (i : ℕ) : Prop :=
  m i = 0xDD ∧ m.read (i + 2) 4 = [0x00, 0x0F, 0xAC, 0x01] ∧
    ((m (i + 1)).toNat = 0x16 ∨ (m (i + 1)).toNat = 0x26)

instance (m : Mem UInt8) (i : ℕ) : Decidable (IsGtk m i) := by unfold IsGtk; infer_instance

/-- What the scan does with the record at `i`. -/
def gtkRound (m : Mem UInt8) (out : Bytes 38) (i : ℕ) : Bytes 38 :=
  if IsGtk m i then fun k => if k.val < (m (i + 1)).toNat then m (i + 2 + k) else out k else out

theorem gtkLoop_eq_foldl (m : Mem UInt8) (n fuel i : ℕ) (out : Bytes 38) :
    gtkLoop m n fuel i out = (Tlv.starts m n fuel i).foldl (gtkRound m) out := by
  induction fuel generalizing i out with
  | zero => rfl
  | succ fuel ih =>
    unfold gtkLoop Tlv.starts
    by_cases hi : i < n
    · rw [if_pos hi, if_pos hi]
      exact ih _ _
    · rw [if_neg hi, if_neg hi]
      rfl

/-- The key data hold a GTK element, whole. -/
def ContainsGtk (plain : List UInt8) : Prop :=
  ∃ i ∈ Tlv.walk (.ofList plain 0) plain.length 0,
    IsGtk (.ofList plain 0) i ∧ Tlv.next (.ofList plain 0) i ≤ plain.length

instance (plain : List UInt8) : Decidable (ContainsGtk plain) := by
  unfold ContainsGtk; infer_instance

/-- Without a whole GTK element only the last record of the walk can yield a key. -/
theorem foldl_gtkRound {m : Mem UInt8} {n : ℕ} (i : ℕ)
    (h : ∀ p ∈ Tlv.walk m n i, Tlv.next m p ≤ n → ¬IsGtk m p) (out : Bytes 38) :
    (Tlv.walk m n i).foldl (gtkRound m) out =
      ((Tlv.walk m n i).getLast?.map (gtkRound m out)).getD out := by
  induction i using Tlv.walk_induction (m := m) n with
  | hend i hi =>
    rw [Tlv.walk_of_le hi]
    rfl
  | hrec i hi ih =>
    rw [Tlv.walk_of_lt hi] at h ⊢
    by_cases hn : Tlv.next m i < n
    · have hno : ¬IsGtk m i := h i List.mem_cons_self hn.le
      have hround : gtkRound m out i = out := if_neg hno
      rw [List.foldl_cons, hround, ih fun p hp => h p (List.mem_cons_of_mem _ hp),
        Tlv.walk_of_lt hn, List.getLast?_cons_cons]
    · rw [Tlv.walk_of_le (by omega)]
      rfl

/-- The key that is found behind the end of key data without a GTK element: the last record, if it
is cut off and reads as a GTK element together with the bytes `stack` behind it. -/
def leftoverGtk (plain : List UInt8) (stack : Mem UInt8) : GtkKeyinfo :=
  let m := stack.write 0 plain
  match (Tlv.walk m plain.length 0).getLast? with
  | some i => if IsGtk m i then .ofBytes (gtkRound m (zeros 38) i) else .zero
  | none => .zero

theorem isGtk_of_agrees {m m' : Mem UInt8} {n i : ℕ} (hm : ∀ k < n, m k = m' k)
    (hn : Tlv.next m i ≤ n) (h : IsGtk m i) : IsGtk m' i ∧ Tlv.next m' i ≤ n := by
  obtain ⟨htype, hread, hsize⟩ := h
  unfold Tlv.next at hn ⊢
  have hlen : m (i + 1) = m' (i + 1) := hm _ (by omega)
  have hbody : m.read (i + 2) 4 = m'.read (i + 2) 4 := Mem.read_congr fun k hk => hm _ (by omega)
  refine ⟨⟨?_, ?_, ?_⟩, ?_⟩
  · rw [← hm i (by omega), htype]
  · rw [← hbody, hread]
  · rwa [← hlen]
  · rwa [← hlen]

/-- The result of `wpa_decrypt_gtk` for key data without a GTK element. -/
theorem wpaDecryptGtk_of_not_contains (C : Crypto) (kek : Bytes 0x10) (data : List UInt8)
    (stack : Mem UInt8) (h : ¬ContainsGtk ((C.nistKwUnwrap kek data).getD [])) :
    wpaDecryptGtk C kek data stack = leftoverGtk ((C.nistKwUnwrap kek data).getD []) stack := by
  unfold wpaDecryptGtk leftoverGtk
  generalize (C.nistKwUnwrap kek data).getD [] = plain at h ⊢
  dsimp only
  have hm : ∀ k < plain.length, stack.write 0 plain k = Mem.ofList plain 0 k := fun k hk =>
    Mem.write_zero_apply stack plain 0 hk
  have hno : ∀ p ∈ Tlv.walk (stack.write 0 plain) plain.length 0,
      Tlv.next (stack.write 0 plain) p ≤ plain.length → ¬IsGtk (stack.write 0 plain) p := by
    intro p hp hn hg
    rw [Tlv.walk_congr hm] at hp
    exact h ⟨p, hp, isGtk_of_agrees hm hn hg⟩
  rw [gtkLoop_eq_foldl, Tlv.starts_eq_walk (Nat.sub_le _ _), foldl_gtkRound 0 hno]
  rcases (Tlv.walk (stack.write 0 plain) plain.length 0).getLast? with _ | i
  · rfl
  · show GtkKeyinfo.ofBytes (gtkRound _ (zeros 38) i) = _
    by_cases hg : IsGtk (stack.write 0 plain) i
    · exact (if_pos hg).symm
    · simp only [gtkRound, hg, if_false]
      rfl

/-! ## Failed frames -/

/-- The `ADD_CIPHER_KEY` commands with usage 1, which install a group key. -/
def groupKeys (out : List Out) : List CipherKey := (cipherKeys out).filter (·.keyUsage = 1)

/-- The unwrap of the key data is rejected, or what it yields holds no GTK element. -/
def UnwrapFails (C : Crypto) (ptk : PtkKeyinfo) (pkt : Mem UInt8) : Prop :=
  ∀ plain ∈ C.nistKwUnwrap ptk.kek (authKeydata pkt), ¬ContainsGtk plain

theorem UnwrapFails.not_contains {C : Crypto} {ptk : PtkKeyinfo} {pkt : Mem UInt8}
    (h : UnwrapFails C ptk pkt) :
    ¬ContainsGtk ((C.nistKwUnwrap ptk.kek (authKeydata pkt)).getD []) := by
  rcases hu : C.nistKwUnwrap ptk.kek (authKeydata pkt) with _ | plain
  · decide
  · exact h plain hu

theorem groupKeys_dataHandleAuth (C : Crypto) (s : Wmi) (pkt : Mem UInt8) (devBssid apBssid : Bytes 6)
    (env : AuthEnv) (hk : authKeyinfo pkt = 0x13CA ∨ authKeyinfo pkt = 0x1382) :
    groupKeys (dataHandleAuth C s pkt devBssid apBssid env).2 =
      if s.ap.securityType = apWpa2 then
        [groupCmd s.ap (carriedGtk C s.keys.devicePtk pkt env) (authRsc pkt)]
      else [] := by
  unfold groupKeys
  rw [cipherKeys_dataHandleAuth]
  by_cases hs : s.ap.securityType = apWpa2
  · rw [if_pos ⟨hk, hs⟩, if_pos hs]
    rfl
  · rw [if_neg fun h => hs h.2, if_neg hs]
    rfl

theorem deviceGtkKeyinfo_dataHandleAuth (C : Crypto) (s : Wmi) (pkt : Mem UInt8)
    (devBssid apBssid : Bytes 6) (env : AuthEnv)
    (hk : authKeyinfo pkt = 0x13CA ∨ authKeyinfo pkt = 0x1382) :
    (dataHandleAuth C s pkt devBssid apBssid env).1.keys.deviceGtkKeyinfo =
      carriedGtk C s.keys.devicePtk pkt env := by
  have h1 : authKeyinfo pkt ≠ 0x008A := by omega
  unfold dataHandleAuth
  rw [if_neg h1]
  by_cases h3 : authKeyinfo pkt = 0x13CA
  · rw [if_pos h3]
    rfl
  · rw [if_neg h3, if_pos (hk.resolve_left h3)]
    rfl

/-- **Failed unwraps.** A message 3 or group message whose key data cannot be unwrapped, or hold no
GTK element, installs no group key and leaves the stored one exactly when the selected network is
not a WPA2 network and the stored key is what the scan comes up with: all zeros, but for an element
that is cut off by the end of the key data. -/
theorem failed_unwrap_installs_nothing_iff (C : Crypto) (s : Wmi) (pkt : Mem UInt8)
    (devBssid apBssid : Bytes 6) (env : AuthEnv)
    (hk : authKeyinfo pkt = 0x13CA ∨ authKeyinfo pkt = 0x1382)
    (hfail : UnwrapFails C s.keys.devicePtk pkt) :
    let r := dataHandleAuth C s pkt devBssid apBssid env
    let plain := (C.nistKwUnwrap s.keys.devicePtk.kek (authKeydata pkt)).getD []
    groupKeys r.2 = [] ∧ r.1.keys.deviceGtkKeyinfo = s.keys.deviceGtkKeyinfo ↔
      s.ap.securityType ≠ apWpa2 ∧ s.keys.deviceGtkKeyinfo = leftoverGtk plain env.stack := by
  intro r plain
  have hgtk : carriedGtk C s.keys.devicePtk pkt env = leftoverGtk plain env.stack :=
    wpaDecryptGtk_of_not_contains C _ _ _ hfail.not_contains
  rw [groupKeys_dataHandleAuth C s pkt devBssid apBssid env hk,
    deviceGtkKeyinfo_dataHandleAuth C s pkt devBssid apBssid env hk, hgtk]
  apply and_congr
  · by_cases hs : s.ap.securityType = apWpa2
    · simp [hs]
    · simp [hs]
  · exact eq_comm

/-! ### Sample frames -/

/-- The WPA2 network `ab` is selected, and nothing else has happened. -/
def wpa2Selected : Wmi := runFrom samplePlatform .init [wpa2Beacon]

/-- The EAPOL part of a frame without key data, which no key wrap accepts. -/
def emptyKeydata (keyinfo : ℕ) : Mem UInt8 := snapBody (.ofList (authPkt keyinfo 1) 0)

/-- The open network `ab`, with primitives that unwrap nothing. -/
def openKeyPlatform : Platform :=
  { samplePlatform with nvram := nvramOf { passphraseSlot with pass := zeros 0x40 } unusedSlot }

/-- The open network is selected and connected. -/
def openConnected : Wmi :=
  runFrom openKeyPlatform .init
    [.wmi wmiBssInfoEvent (.ofList (beacon 0x30 0 ssidAb) 0) 32, connectEvent]

/-- The EAPOL part of a group message with 24 bytes of key data. -/
def garbledKeydata : Mem UInt8 :=
  snapBody (.ofList ((authPkt 0x1382 1).take 121 ++ putbe16 24 ++ List.replicate 24 0x55) 0)

/-- A group message with garbled key data, in a connection to an open network. -/
theorem failed_unwrap_sample :
    let r := dataHandleAuth openKeyPlatform.crypto openConnected garbledKeydata (zeros 6) (zeros 6)
      ⟨zeros 32, fun _ => 0⟩
    openConnected.apConnected = true ∧ authKeydata garbledKeydata = List.replicate 24 0x55 ∧
      groupKeys r.2 = [] ∧ r.1.keys.deviceGtkKeyinfo = openConnected.keys.deviceGtkKeyinfo :=
  ⟨by decide +kernel, by decide +kernel,
    (failed_unwrap_installs_nothing_iff openKeyPlatform.crypto openConnected garbledKeydata (zeros 6)
      (zeros 6) ⟨zeros 32, fun _ => 0⟩ (by decide +kernel)
      (fun plain h => absurd h (by simp [openKeyPlatform, samplePlatform]))).2 (by decide +kernel)⟩

/-- A message 3 without key data installs a group key of zeros. -/
theorem failed_unwrap_installs_counterexample :
    ¬∀ (C : Crypto) (s : Wmi) (pkt : Mem UInt8) (devBssid apBssid : Bytes 6) (env : AuthEnv),
      authKeyinfo pkt = 0x13CA ∨ authKeyinfo pkt = 0x1382 → UnwrapFails C s.keys.devicePtk pkt →
        let r := dataHandleAuth C s pkt devBssid apBssid env
        groupKeys r.2 = [] ∧ r.1.keys.deviceGtkKeyinfo = s.keys.deviceGtkKeyinfo := by
  intro h
  have hr := h samplePlatform.crypto wpa2Selected (emptyKeydata 0x13CA) (zeros 6) (zeros 6)
    ⟨zeros 32, fun _ => 0⟩ (by decide +kernel) (fun plain h => absurd h (by simp [samplePlatform]))
  revert hr
  decide +kernel

end DsiWifi
