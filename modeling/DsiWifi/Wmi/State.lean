import DsiWifi.Util

/-!
# State of the WMI driver

The static variables of `wmi.twl.c`, grouped by what they are for: the selected access point
(`Ap`), the handshake keys (`Keys`), and the scanning and connection flags.  The configuration
slots read from flash (`wifi_card_nvram_configs`, `wifi_card_nvram_wep_configs`) never change after
`wifi_card_init`, so they are parameters; pointers into them (`ap_pass`, `ap_wep1`, …) are modelled
by what they point to.
-/

namespace DsiWifi

inductive ApSecurityType
  | apOpen
  | apWep
  | apWpa
  | apWpa2
  deriving DecidableEq, Repr

inductive ApCipherType
  | cryptNone
  | cryptWep
  | cryptTkip
  | cryptAes
  deriving DecidableEq, Repr

/-- The value of `enum ap_cipher_type_t`. -/
def ApCipherType.val : ApCipherType → UInt8
  | .cryptNone => 1
  | .cryptWep => 2
  | .cryptTkip => 3
  | .cryptAes => 4

/-! `ap_auth_type` is the last byte of an AKM suite, so it stays a byte. -/

def authNone : UInt8 := 0
def authPsk : UInt8 := 2

def ieeeCryptTkip : ℕ := 0x000FAC02
def ieeeCryptAesCcmp : ℕ := 0x000FAC04
def ieeeAuthPsk : ℕ := 0x000FAC02

def wmiIeeeToCrypt (ieee : ℕ) : ApCipherType :=
  if ieee = ieeeCryptTkip then .cryptTkip
  else if ieee = ieeeCryptAesCcmp then .cryptAes
  else .cryptNone

/-! ## Configuration slots -/

/-- The fields of `nvram_cfg` the driver reads. -/
structure NvramCfg where
  ssid : Bytes 0x20
  wepKey1 : Bytes 0x10
  wepKey2 : Bytes 0x10
  wepKey3 : Bytes 0x10
  wepKey4 : Bytes 0x10
  wepMode : UInt8
  wpaMode : UInt8
  ssidLen : UInt8
  slotIdx : UInt8
  pmk : Bytes 0x20
  pass : Bytes 0x40
  wpaType : UInt8

/-- The fields of `nvram_cfg_wep` the driver reads. -/
structure NvramCfgWep where
  ssid : Bytes 0x20
  wepKey1 : Bytes 0x10
  wepKey2 : Bytes 0x10
  wepKey3 : Bytes 0x10
  wepKey4 : Bytes 0x10
  wepMode : UInt8
  status : UInt8
  slotIdx : UInt8

/-- `enum wpa_type_t`. -/
def wpatypeWpaTkip : UInt8 := 4
def wpatypeWpa2Tkip : UInt8 := 5
def wpatypeWpaAes : UInt8 := 6
def wpatypeWpa2Aes : UInt8 := 7

/-- `wifi_card_nvram_configs` and `wifi_card_nvram_wep_configs`. -/
structure Nvram where
  configs : Fin 3 → NvramCfg
  wepConfigs : Fin 3 → NvramCfgWep

/-! ## Driver state -/

/-- The selected access point: `ap_nvram_idx`, `ap_name`, …, `ap_auth_type`. -/
structure Ap where
  nvramIdx : ℕ
  name : List UInt8
  pass : List UInt8
  pmk : Bytes 0x20
  wep1 : Bytes 0x10
  wep2 : Bytes 0x10
  wep3 : Bytes 0x10
  wep4 : Bytes 0x10
  wepmode : UInt8
  securityType : ApSecurityType
  groupCryptType : ApCipherType
  pairCryptType : ApCipherType
  authType : UInt8
  snr : ℕ
  channel : ℕ
  caps : ℕ
  bssid : Bytes 6

structure PtkKeyinfo where
  kck : Bytes 0x10
  kek : Bytes 0x10
  tk : Bytes 0x10
  micTx : Bytes 8
  micRx : Bytes 8
  deriving DecidableEq

/-- `gtk_keyinfo`: the body of a GTK element. -/
structure GtkKeyinfo where
  keytype : Bytes 4
  keyidx : UInt8
  unk : UInt8
  key : Bytes 0x20
  deriving DecidableEq

/-- The handshake variables, from `has_sent_hs2` to `device_ptk`. -/
structure Keys where
  hasSentHs2 : Bool
  hasSentHs4 : Bool
  deviceApNonce : Bytes 32
  deviceNonce : Bytes 32
  deviceApMic : Bytes 16
  deviceGtkKeyinfo : GtkKeyinfo
  devicePtk : PtkKeyinfo

/-- The static variables of `wmi.twl.c`. -/
structure Wmi where
  deviceMac : Bytes 6
  deviceNumChannels : ℕ
  deviceCurChannelIdx : ℕ
  channelFreqs : Fin 32 → ℕ
  ap : Ap
  apFound : Bool
  numRoundsScanned : ℕ
  bIsReady : Bool
  scanDone : Bool
  scanning : Bool
  sentConnect : Bool
  bScanning : Bool
  apConnected : Bool
  keys : Keys

def Ap.init : Ap where
  nvramIdx := 0
  name := []
  pass := [0]
  pmk := zeros 0x20
  wep1 := zeros 0x10
  wep2 := zeros 0x10
  wep3 := zeros 0x10
  wep4 := zeros 0x10
  wepmode := 0
  securityType := .apOpen
  groupCryptType := .cryptAes
  pairCryptType := .cryptAes
  authType := authPsk
  snr := 0
  channel := 0
  caps := 0
  bssid := zeros 6

def PtkKeyinfo.zero : PtkKeyinfo where
  kck := zeros 0x10
  kek := zeros 0x10
  tk := zeros 0x10
  micTx := zeros 8
  micRx := zeros 8

def GtkKeyinfo.zero : GtkKeyinfo where
  keytype := zeros 4
  keyidx := 0
  unk := 0
  key := zeros 0x20

def Keys.init : Keys where
  hasSentHs2 := false
  hasSentHs4 := false
  deviceApNonce := zeros 32
  deviceNonce := zeros 32
  deviceApMic := zeros 16
  deviceGtkKeyinfo := .zero
  devicePtk := .zero

/-- The state the static initialisers set up. -/
def Wmi.init : Wmi where
  deviceMac := zeros 6
  deviceNumChannels := 0
  deviceCurChannelIdx := 0
  channelFreqs := fun _ => 0
  ap := .init
  apFound := false
  numRoundsScanned := 0
  bIsReady := false
  scanDone := false
  scanning := false
  sentConnect := false
  bScanning := false
  apConnected := false
  keys := .init

end DsiWifi
