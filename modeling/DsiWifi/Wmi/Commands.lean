import DsiWifi.Wmi.State

/-!
# Commands and messages the driver emits

What the ARM7 driver sends: WMI commands and data packets to the card, and FIFO messages to the
ARM9.  Every handler of the model returns its emissions in order.  Log lines (`wifi_printlnf`) are
left out.
-/

namespace DsiWifi

structure CipherKey where
  keyIndex : UInt8
  keyType : UInt8
  keyUsage : UInt8
  keyLength : UInt8
  keyRSC : List UInt8
  key : List UInt8
  keyOpCtrl : UInt8
  deriving DecidableEq

/-- The WMI commands of `wmi.twl.c` with the parameters that vary.  The `CONNECT` parameters are
the packed bytes of the command, because `strcpy` writes into them without regard to fields. -/
inductive WmiCmd
  | connect (params : List UInt8)
  | disconnect
  | synchronize (arg : UInt8) (idk : ℕ)
  | createPstream
  | startScan
  | setScanParams (flags : UInt8) (maxactChdwellTime pasChdwellTime minactChdwellTime : ℕ)
  | setBssFilter (filter : UInt8) (ieMask : ℕ)
  | setProbedSsid
  | setDisconnectTimeout (timeout : UInt8)
  | getChannelList
  | setChannelParams (mhz : ℕ)
  | setPowerMode (mode : UInt8)
  | addCipherKey (params : CipherKey)
  | deleteBadAp
  | targetErrorReportBitmask (mask : ℕ)
  | dbgoff
  | setKeepalive (interval : UInt8)
  | setWscStatus (status : UInt8)
  | setHeartbeatTimeout (timeout : ℕ)
  /-- The 20 fixed bytes `wmi_handshake_7`, a `SET_SCAN_PARAMS` of its own length. -/
  | wmiHandshake7

/-- The `WIFI_IPCINT` messages from the ARM7 to the ARM9.  `pktdata` carries a pointer. -/
inductive IpcInt
  | ready
  | connect
  | deviceMac (mac : Bytes 6)
  | apMac (mac : Bytes 6)
  | pktdata (pktData pktLen : ℕ)

inductive Out
  | wmi (cmd : WmiCmd)
  | data (pkt : List UInt8)
  | ipc (msg : IpcInt)

/-! ## Connecting -/

/-- The packed `CONNECT` parameters: the initialiser, then `strcpy` of the name over the `ssid`
field (with its terminator) and `memcpy` of the address over the `bssid` field. -/
def connectParams (ap : Ap) (dot11AuthMode authMode pairwise group : UInt8) : List UInt8 :=
  let wmiParams := [1, dot11AuthMode, authMode, pairwise, 0, group, 0, .ofNat ap.name.length] ++
    List.replicate 0x20 0 ++ putle16 ap.channel ++ List.replicate 6 0 ++ List.replicate 4 0
  overwrite (overwrite wmiParams 8 (ap.name ++ [0])) 42 ap.bssid.toList

/-- `wmi_add_cipher_key`: the key type and length come from the selected network. -/
def wmiAddCipherKey (ap : Ap) (idx usage : UInt8) (key : List UInt8) (rsc : Option (Bytes 8)) :
    CipherKey :=
  let cryptType := if usage = 1 then ap.groupCryptType else .cryptAes
  let cryptKeylen := if cryptType = .cryptTkip then 0x20 else 0x10
  -- the WEP key lengths: WEP40, WEP104, WEP128
  let cryptType := if ap.securityType = .apWep then .cryptWep else cryptType
  let cryptKeylen : ℕ :=
    if ap.securityType = .apWep then
      if ap.wepmode = 1 ∨ ap.wepmode = 5 then 5
      else if ap.wepmode = 3 ∨ ap.wepmode = 7 then 0x10
      else 13
    else cryptKeylen
  let low := key.take (min cryptKeylen 0x10)
  let high := if cryptKeylen > 0x10 then (key.drop 0x18).take 8 ++ (key.drop 0x10).take 8
    else List.replicate 0x10 0
  { keyIndex := idx
    keyType := cryptType.val
    keyUsage := usage
    keyLength := .ofNat cryptKeylen
    keyRSC := (rsc.map Bytes.toList).getD (List.replicate 8 0)
    key := low ++ List.replicate (0x10 - low.length) 0 ++ high
    keyOpCtrl := 3 }

def wmiConnectCmd (ap : Ap) : List Out :=
  match ap.securityType with
  | .apOpen => [.wmi (.connect (connectParams ap 1 1 1 1))]
  | .apWep =>
    -- Keys have to be set before connect
    [.wmi (.addCipherKey (wmiAddCipherKey ap 0 3 ap.wep1.toList none)),
      .wmi (.addCipherKey (wmiAddCipherKey ap 1 1 ap.wep2.toList none)),
      .wmi (.addCipherKey (wmiAddCipherKey ap 2 1 ap.wep3.toList none)),
      .wmi (.addCipherKey (wmiAddCipherKey ap 3 1 ap.wep4.toList none)),
      .wmi (.connect (connectParams ap 2 1 ApCipherType.cryptWep.val ApCipherType.cryptWep.val))]
  | .apWpa | .apWpa2 =>
    [.wmi (.connect (connectParams ap 1 5 ap.pairCryptType.val ap.groupCryptType.val))]

def wmiConnect (ap : Ap) : List Out :=
  [.wmi (.setBssFilter 4 0), .wmi (.setScanParams 5 200 200 200),
    .wmi (.setChannelParams ap.channel), .wmi (.synchronize 0 0x2008), .wmi (.setPowerMode 2),
    .wmi (.synchronize 0 0), .wmi .createPstream, .wmi (.setWscStatus 0),
    .wmi (.setDisconnectTimeout 5), .wmi (.setKeepalive 0)] ++ wmiConnectCmd ap

def wmiScanCmds : List Out :=
  [.wmi (.targetErrorReportBitmask 0x7F), .wmi (.setHeartbeatTimeout 0), .wmi .getChannelList,
    .wmi (.setBssFilter 0 0), .wmi .setProbedSsid]

end DsiWifi
