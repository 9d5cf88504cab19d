import DsiWifi.Wmi.RsnElement

/-!
# The name of a beacon

A network name is a counted string of any bytes.  The handler copies the name of a beacon and the
name of a slot to zeroed buffers with `strncpy` and compares the buffers with `strcmp`, so that each
name ends at its first zero byte.  `ssid_match_iff` says which names are taken for the same; for
names without a zero byte they are the equal ones.
-/

namespace DsiWifi

/-- The two names are the same string, behind which each of them ends or goes on with a zero
byte. -/
def SameString (e s : List UInt8) : Prop :=
  ∃ w : List UInt8, 0 ∉ w ∧ (e = w ∨ ∃ t, e = w ++ 0 :: t) ∧ (s = w ∨ ∃ t, s = w ++ 0 :: t)

theorem cstr_eq_cstr_iff (e s : List UInt8) : cstr e = cstr s ↔ SameString e s := by
  constructor
  · intro h
    obtain ⟨hw, he⟩ := cstr_eq_iff.1 h
    obtain ⟨-, hs⟩ := cstr_eq_iff.1 (rfl : cstr s = cstr s)
    exact ⟨cstr s, hw, he, hs⟩
  · rintro ⟨w, hw, he, hs⟩
    rw [cstr_eq_iff.2 ⟨hw, he⟩, cstr_eq_iff.2 ⟨hw, hs⟩]

/-- The name of a slot, as a counted string. -/
def NvramCfg.ssidBytes (c : NvramCfg) : List UInt8 := c.ssid.toList.take c.ssidLen.toNat

theorem NvramCfg.name_eq (c : NvramCfg) (h : c.ssidLen.toNat ≤ 32) : c.name = cstr c.ssidBytes := by
  unfold name ssidBytes
  rw [cstr_strncpy, Nat.min_eq_left h]

section Event

variable {pkt : Mem UInt8} {len : ℕ} {pre post : List Tlv.Record} {e : Tlv.Record}

/-- The name after a round on an SSID element. -/
theorem cstr_nameStep {i : ℕ} (hat : Tlv.At pkt i e) (htype : e.type = 0)
    (hbody : e.body.length ≤ 32) :
    cstr (nameStep pkt (List.replicate 33 0) i) = cstr e.body := by
  unfold nameStep
  rw [hat.type, htype, hat.length, hat.body]
  by_cases hfirst : pkt (i + 2) ≠ 0
  · rw [if_pos ⟨rfl, hbody, hfirst⟩, cstr_strncpy]
  · -- an empty name, or one that starts with a zero byte, is not copied
    rw [if_neg fun h => hfirst h.2.2]
    have hempty : cstr (List.replicate 33 0) = [] := by decide
    rw [hempty]
    have hread := hat.body
    rcases hb : e.body with _ | ⟨b, bs⟩
    · rfl
    · rw [hb, List.length_cons, Mem.read_succ] at hread
      have hzero : b = 0 := by
        rw [← (List.cons.inj hread).1]
        exact not_not.1 hfirst
      rw [hzero]
      rfl

/-- The name of an event with one SSID element. -/
theorem bssName_of_sole (hpkt : Tlv.Holds pkt 0x1C (pre ++ e :: post))
    (hlen : len = 0x1C + (Tlv.encode (pre ++ e :: post)).length) (hshort : len < 2 ^ 31)
    (htype : e.type = 0) (hbody : e.body.length ≤ 32) (hsole : ∀ r ∈ pre ++ post, r.type ≠ 0) :
    bssName pkt len = cstr e.body := by
  have hignored : ∀ r ∈ pre ++ post, ∀ tmp i, Tlv.At pkt i r → nameStep pkt tmp i = tmp := by
    intro r hr tmp i hi
    unfold nameStep
    rw [if_neg fun h => hsole r hr (hi.type.symm.trans h.1)]
  obtain ⟨hfold, hat⟩ := Tlv.foldl_walk_of_sole hpkt hlen hignored (List.replicate 33 0)
  unfold bssName
  rw [bssElements_eq, bssWalk, bssStop_of_lt (by omega) hshort]
  dsimp only
  rw [hfold, cstr_nameStep hat htype hbody]

end Event

/-- The tests of the slot loop other than the name. -/
def NvramCfg.Eligible (c : NvramCfg) (pkt : Mem UInt8) (apSnr : ℕ) : Prop :=
  c.wpaMode ≠ 0xFF ∧ c.slotIdx ≠ 0 ∧ apSnr < bssSnr pkt

theorem NvramCfg.matches_iff {c : NvramCfg} (hfirst : c.ssid 0 ≠ 0) (pkt : Mem UInt8)
    (len apSnr : ℕ) :
    c.Matches pkt len apSnr ↔ c.Eligible pkt apSnr ∧ bssName pkt len = c.name := by
  constructor
  · rintro ⟨-, hmode, hslot, hname, hsnr⟩
    exact ⟨⟨hmode, hslot, hsnr⟩, hname⟩
  · rintro ⟨⟨hmode, hslot, hsnr⟩, hname⟩
    exact ⟨hfirst, hmode, hslot, hname, hsnr⟩

/-- **Name matching.** For a beacon with one SSID element of at most 32 bytes and a slot with 1 to
32, the handler takes the beacon for the slot's network exactly when the two names are the same
string up to their zero bytes, and so, when there is none, exactly when they have the same length
and bytes. -/
theorem ssid_match_iff (pkt : Mem UInt8) (len apSnr : ℕ) (pre post : List Tlv.Record)
    (e : Tlv.Record) (c : NvramCfg) (hpkt : Tlv.Holds pkt 0x1C (pre ++ e :: post))
    (hlen : len = 0x1C + (Tlv.encode (pre ++ e :: post)).length) (hshort : len < 2 ^ 31)
    (htype : e.type = 0) (hbody : e.body.length ≤ 32) (hsole : ∀ r ∈ pre ++ post, r.type ≠ 0)
    (hfirst : c.ssid 0 ≠ 0) (hc : 1 ≤ c.ssidLen.toNat ∧ c.ssidLen.toNat ≤ 32) :
    (c.Matches pkt len apSnr ↔ c.Eligible pkt apSnr ∧ SameString e.body c.ssidBytes) ∧
      (0 ∉ e.body → 0 ∉ c.ssidBytes →
        (c.Matches pkt len apSnr ↔ c.Eligible pkt apSnr ∧ e.body = c.ssidBytes)) := by
  rw [NvramCfg.matches_iff hfirst, bssName_of_sole hpkt hlen hshort htype hbody hsole,
    c.name_eq hc.2]
  refine ⟨and_congr_right fun _ => cstr_eq_cstr_iff _ _, fun he hs => ?_⟩
  rw [cstr_eq_iff.2 ⟨he, Or.inl rfl⟩, cstr_eq_iff.2 ⟨hs, Or.inl rfl⟩]

/-- The network `ab` and its slot. -/
theorem ssid_match_sample :
    passphraseSlot.Matches (eventOf [ssidRecord]) 32 0 ∧
      ssidRecord.body = passphraseSlot.ssidBytes := by
  have hbytes : ssidRecord.body = passphraseSlot.ssidBytes := by decide +kernel
  refine ⟨?_, hbytes⟩
  exact ((ssid_match_iff _ 32 0 [] [] ssidRecord passphraseSlot
    (by unfold Tlv.Holds; decide +kernel) (by decide +kernel) (by decide) rfl (by decide)
    (by decide) (by decide) (by decide)).2 (by decide) (by decide +kernel)).2
    ⟨by unfold NvramCfg.Eligible; decide +kernel, hbytes⟩

/-- The name `ab` with a zero byte behind it is taken for the network `ab`. -/
theorem ssid_match_counterexample :
    ¬∀ (pkt : Mem UInt8) (len apSnr : ℕ) (pre post : List Tlv.Record) (e : Tlv.Record)
      (c : NvramCfg), Tlv.Holds pkt 0x1C (pre ++ e :: post) →
      len = 0x1C + (Tlv.encode (pre ++ e :: post)).length → len < 2 ^ 31 →
      e.type = 0 → e.body.length ≤ 32 → (∀ r ∈ pre ++ post, r.type ≠ 0) →
      c.ssid 0 ≠ 0 → 1 ≤ c.ssidLen.toNat ∧ c.ssidLen.toNat ≤ 32 →
        (c.Matches pkt len apSnr ↔ c.Eligible pkt apSnr ∧ e.body = c.ssidBytes) := by
  intro h
  have hmatch := h (eventOf [⟨0, [0x61, 0x62, 0], by decide⟩]) 33 0 [] []
    ⟨0, [0x61, 0x62, 0], by decide⟩ passphraseSlot (by unfold Tlv.Holds; decide +kernel)
    (by decide +kernel) (by decide) rfl (by decide) (by decide) (by decide) (by decide)
  exact absurd (hmatch.1 (by decide +kernel)).2 (by decide +kernel)

end DsiWifi
