import DsiWifi.Wmi.Commands

/-!
# `wmi_handle_bss_info`

A `WMI_BSS_INFO` event is a beacon.  The handler parses its elements (`elementsLoop`), tries the
three flash slots in order (`nvramLoop`) and, when no access point is selected yet, the three
legacy slots (`wepLoop`).

A slot that matches the beacon first writes the slot's fields (`nvramSlotAp`), then decides the
security type by rewriting the locals of the function (`nvramSecurity`), and either gives the slot
up with `continue` or accepts it (`nvramAccept`).  The locals are shared by the slots: what a
rejected slot wrote into them is seen by the next one.
-/

namespace DsiWifi

open ApSecurityType ApCipherType

/-! ## The event -/

def bssChannel (pkt : Mem UInt8) : ℕ := getle16 pkt 0

def bssSnr (pkt : Mem UInt8) : ℕ := (pkt 3).toNat

def bssBssid (pkt : Mem UInt8) : Bytes 6 := arrayAt pkt 6 6

def bssCapability (pkt : Mem UInt8) : ℕ := getle16 pkt 26

/-- The locals `sec_type_enum`, `group_crypto`, `pair_crypto` and `auth_type`. -/
structure BssLocals where
  secTypeEnum : ApSecurityType
  groupCrypto : ApCipherType
  pairCrypto : ApCipherType
  authType : UInt8
  deriving DecidableEq

def BssLocals.init : BssLocals where
  secTypeEnum := apOpen
  groupCrypto := cryptNone
  pairCrypto := cryptNone
  authType := authNone

/-! ## Elements -/

/-- The loop over the pairwise suites: the last suite wins, an AES suite ends it. -/
def pairwiseLoop (pkt : Mem UInt8) : ℕ → ℕ → ApCipherType → ApCipherType
  | 0, _, pairCrypto => pairCrypto
  | n + 1, p, _ =>
    let pairCrypto := wmiIeeeToCrypt (getbe32 pkt p)
    if pairCrypto = cryptAes then pairCrypto else pairwiseLoop pkt n (p + 4) pairCrypto

/-- The loop over the AKM suites: the last suite's type wins, a PSK suite ends it. -/
def authkeyLoop (pkt : Mem UInt8) : ℕ → ℕ → UInt8 → UInt8
  | 0, _, authType => authType
  | n + 1, p, _ =>
    if getbe32 pkt p = ieeeAuthPsk then pkt (p + 3) else authkeyLoop pkt n (p + 4) (pkt (p + 3))

/-- The RSN branch of the element loop; `p` is `read_ptr`. -/
def rsnElement (pkt : Mem UInt8) (p : ℕ) (l : BssLocals) : BssLocals :=
  let l := { l with secTypeEnum := apWpa2 }
  -- a bad version skips the rest of the element
  if getle16 pkt p ≠ 1 then l
  else
    let numPairwise := min (getle16 pkt (p + 6)) 4
    let readIdx := 8 + 4 * numPairwise
    let numAuthkey := min (getle16 pkt (p + readIdx)) 4
    let pairCrypto := pairwiseLoop pkt numPairwise (p + 8) l.pairCrypto
    { secTypeEnum := if pairCrypto = cryptTkip then apWpa else apWpa2
      groupCrypto := wmiIeeeToCrypt (getbe32 pkt (p + 2))
      pairCrypto := pairCrypto
      authType := authkeyLoop pkt numAuthkey (p + readIdx + 2) l.authType }

/-- The element loop, with `tmp` the 33-byte name buffer.  Each round lowers `data_left` by at
least two, so `data_left` itself bounds the rounds. -/
def elementsLoop (pkt : Mem UInt8) : ℕ → ℤ → ℕ → List UInt8 × BssLocals → List UInt8 × BssLocals
  | 0, _, _, st => st
  | fuel + 1, dataLeft, p, (tmp, l) =>
    if dataLeft ≤ 0 then (tmp, l)
    else
      let id := pkt p
      let len := (pkt (p + 1)).toNat
      let p := p + 2
      let st :=
        if id = 0 ∧ len ≤ 0x20 ∧ pkt p ≠ 0 then (strncpy tmp (pkt.read p len), l)
        else if id = 0x30 then (tmp, rsnElement pkt p l)
        else (tmp, l)
      elementsLoop pkt fuel (dataLeft - 2 - len) (p + len) st

/-- `data_left` on entry to the loop: `len - 0x1C` as a signed 32-bit number. -/
def bssDataLeft (len : ℕ) : ℤ := Int.bmod (len - 0x1C : ℤ) (2 ^ 32)

def bssElements (pkt : Mem UInt8) (len : ℕ) : List UInt8 × BssLocals :=
  elementsLoop pkt (bssDataLeft len).toNat (bssDataLeft len) 0x1C
    (List.replicate 33 0, BssLocals.init)

/-- The network name of the beacon: the C string in `tmp`. -/
def bssName (pkt : Mem UInt8) (len : ℕ) : List UInt8 := cstr (bssElements pkt len).1

/-- What the RSN elements announce. -/
def bssRsn (pkt : Mem UInt8) (len : ℕ) : BssLocals := (bssElements pkt len).2

/-- The privacy bit of the capabilities. -/
def bssPrivacy (pkt : Mem UInt8) : Bool := (bssCapability pkt).testBit 4

/-- The locals after the capability test, as the slots see them first. -/
def bssLocals (pkt : Mem UInt8) (len : ℕ) : BssLocals :=
  if bssPrivacy pkt then bssRsn pkt len else { bssRsn pkt len with secTypeEnum := apOpen }

/-! ## Flash slots -/

/-- The name in `tmp_2` for a flash slot. -/
def NvramCfg.name (c : NvramCfg) : List UInt8 :=
  cstr (strncpy (List.replicate 33 0) (c.ssid.toList.take (min c.ssidLen.toNat 0x20)))

/-- The slot passes the three `continue` tests, has the beacon's name, and the beacon is stronger
than the selected access point. -/
def NvramCfg.Matches (c : NvramCfg) (pkt : Mem UInt8) (len apSnr : ℕ) : Prop :=
  c.ssid 0 ≠ 0 ∧ c.wpaMode ≠ 0xFF ∧ c.slotIdx ≠ 0 ∧ bssName pkt len = c.name ∧ apSnr < bssSnr pkt

instance (c : NvramCfg) (pkt : Mem UInt8) (len apSnr : ℕ) :
    Decidable (c.Matches pkt len apSnr) := by unfold NvramCfg.Matches; infer_instance

/-- The slot passes the three `continue` tests alone. -/
def NvramCfg.InUse (c : NvramCfg) : Prop := c.ssid 0 ≠ 0 ∧ c.wpaMode ≠ 0xFF ∧ c.slotIdx ≠ 0

instance (c : NvramCfg) : Decidable c.InUse := by unfold NvramCfg.InUse; infer_instance

/-- What `ap_pass` points to for a flash slot. -/
def NvramCfg.apPass (c : NvramCfg) : List UInt8 :=
  if c.wepMode ≠ 0 then c.wepKey1.toList else c.pass.toList

/-- `ap_pass[0]` for a flash slot. -/
def NvramCfg.apPass0 (c : NvramCfg) : UInt8 := if c.wepMode ≠ 0 then c.wepKey1 0 else c.pass 0

/-- The fields written from the slot before the beacon is judged. -/
def nvramSlotAp (c : NvramCfg) (i : Fin 3) (ap : Ap) : Ap :=
  let ap := { ap with nvramIdx := i + 3, name := c.name, pass := c.apPass, pmk := c.pmk }
  if c.wepMode ≠ 0 then
    { ap with
      wepmode := c.wepMode, wep1 := c.wepKey1, wep2 := c.wepKey2, wep3 := c.wepKey3
      wep4 := c.wepKey4 }
  else ap

/-- The rewrites after the flash fallback; the flag is false for the last `continue`. -/
def nvramFinish (l : BssLocals) : BssLocals × Bool :=
  -- Definitely WPA2 though, in this case
  let l := if l.pairCrypto = cryptAes ∧ l.authType = authPsk then { l with secTypeEnum := apWpa2 }
    else l
  let l := if l.secTypeEnum = apWep then
      { l with groupCrypto := cryptWep, pairCrypto := cryptWep, authType := authNone }
    else l
  (l, l.secTypeEnum ≠ apWpa)

/-- The security decision of a slot.  The flag tells whether the slot is accepted; on `continue`
the rewritten locals are left to the next slot. -/
def nvramSecurity (c : NvramCfg) (l : BssLocals) : BssLocals × Bool :=
  let l := if c.wepMode ≠ 0 then { l with secTypeEnum := apWep } else l
  -- If the password is empty, assume open.
  let l := if c.apPass0 = 0 then { l with secTypeEnum := apOpen } else l
  if c.apPass0 ≠ 0 ∧ l.authType = authNone ∧ l.secTypeEnum = apOpen then
    -- AP missing RSN: use the flash values
    let l := { l with secTypeEnum := apWpa2, authType := authPsk }
    if c.wpaType = wpatypeWpaTkip ∨ c.wpaType = wpatypeWpaAes then (l, false)
    else if c.wpaType = wpatypeWpa2Tkip then
      nvramFinish { l with groupCrypto := cryptTkip, pairCrypto := cryptAes }
    else if c.wpaType = wpatypeWpa2Aes then
      nvramFinish { l with groupCrypto := cryptAes, pairCrypto := cryptAes }
    else (l, false)
  else nvramFinish l

/-- The fields written from the beacon once a slot is accepted. -/
def nvramAccept (pkt : Mem UInt8) (l : BssLocals) (ap : Ap) : Ap :=
  { ap with
    securityType := l.secTypeEnum, groupCryptType := l.groupCrypto, pairCryptType := l.pairCrypto
    authType := l.authType, snr := bssSnr pkt, channel := bssChannel pkt, caps := bssCapability pkt
    bssid := bssBssid pkt }

/-- The loop over the flash slots `is`: the selected access point after it and the slot that
accepted the beacon. -/
def nvramLoop (nv : Nvram) (pkt : Mem UInt8) (len : ℕ) :
    List (Fin 3) → BssLocals → Ap → Ap × Option (Fin 3)
  | [], _, ap => (ap, none)
  | i :: is, l, ap =>
    let c := nv.configs i
    if c.Matches pkt len ap.snr then
      let ap := nvramSlotAp c i ap
      let (l, accepted) := nvramSecurity c l
      if accepted then (nvramAccept pkt l ap, some i) else nvramLoop nv pkt len is l ap
    else nvramLoop nv pkt len is l ap

/-! ## Legacy slots -/

/-- The name in `tmp_2` for a legacy slot. -/
def NvramCfgWep.name (c : NvramCfgWep) : List UInt8 :=
  cstr (strncpy (List.replicate 33 0) c.ssid.toList)

def NvramCfgWep.Matches (c : NvramCfgWep) (pkt : Mem UInt8) (len apSnr : ℕ) : Prop :=
  c.ssid 0 ≠ 0 ∧ c.status ≠ 0xFF ∧ c.slotIdx ≠ 0 ∧ bssName pkt len = c.name ∧ apSnr < bssSnr pkt

instance (c : NvramCfgWep) (pkt : Mem UInt8) (len apSnr : ℕ) :
    Decidable (c.Matches pkt len apSnr) := by unfold NvramCfgWep.Matches; infer_instance

/-- The access point selected from a legacy slot: every field is written. -/
def wepSlotAp (c : NvramCfgWep) (i : Fin 3) (pkt : Mem UInt8) : Ap where
  nvramIdx := i
  name := c.name
  pass := c.wepKey1.toList
  pmk := zeros 0x20
  wep1 := c.wepKey1
  wep2 := c.wepKey2
  wep3 := c.wepKey3
  wep4 := c.wepKey4
  wepmode := c.wepMode
  securityType := if c.wepKey1 0 = 0 then apOpen else apWep
  groupCryptType := if c.wepKey1 0 = 0 then cryptNone else cryptWep
  pairCryptType := if c.wepKey1 0 = 0 then cryptNone else cryptWep
  authType := authNone
  snr := bssSnr pkt
  channel := bssChannel pkt
  caps := bssCapability pkt
  bssid := bssBssid pkt

/-- The loop over the legacy slots: the first match is taken. -/
def wepLoop (nv : Nvram) (pkt : Mem UInt8) (len : ℕ) : List (Fin 3) → Ap → Ap × Option (Fin 3)
  | [], ap => (ap, none)
  | i :: is, ap =>
    let c := nv.wepConfigs i
    if c.Matches pkt len ap.snr then (wepSlotAp c i pkt, some i) else wepLoop nv pkt len is ap

/-! ## The handler -/

/-- The flash slot loop of an event on the selected access point `ap`. -/
def bssNvram (nv : Nvram) (pkt : Mem UInt8) (len : ℕ) (ap : Ap) : Ap × Option (Fin 3) :=
  nvramLoop nv pkt len [0, 1, 2] (bssLocals pkt len) ap

/-- The event is looked at: long enough, and strong enough. -/
def BssHeard (pkt : Mem UInt8) (len : ℕ) : Prop := 0x1C < len ∧ 0x20 ≤ bssSnr pkt

instance (pkt : Mem UInt8) (len : ℕ) : Decidable (BssHeard pkt len) := by
  unfold BssHeard; infer_instance

def wmiHandleBssInfo (nv : Nvram) (s : Wmi) (pkt : Mem UInt8) (len : ℕ) : Wmi × List Out :=
  if len ≤ 0x1C then (s, [])
  else if bssSnr pkt < 0x20 then ({ s with scanDone := true }, [])
  else
    match bssNvram nv pkt len s.ap with
    | (ap, some _) => ({ s with ap := ap, apFound := true, scanDone := true },
        [.wmi (.setBssFilter 0 0)])
    | (ap, none) =>
      if s.apFound then ({ s with ap := ap, scanDone := true }, [])
      else
        match wepLoop nv pkt len [0, 1, 2] ap with
        | (ap, some _) => ({ s with ap := ap, apFound := true, scanDone := true },
            [.wmi (.setBssFilter 0 0)])
        | (ap, none) => ({ s with ap := ap, scanDone := true }, [])

end DsiWifi
