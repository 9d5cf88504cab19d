import DsiWifi.Lib.Run
import DsiWifi.Wmi.SecurityType
import DsiWifi.Wmi.Auth

/-!
# The driver as a state machine

The driver runs when its timer fires (`wmi_tick`), when a packet of the card is dispatched
(`wmi_handle_pkt`, `data_handle_pkt`), and once the card is ready (`wmi_scan` at the end of
`wifi_card_wlan_init`).  `drive` is one such step with its emissions; a run is a list of events.

The lemmas after the definitions say once what a step does to each group of variables: the
handshake keys, the selected access point, the connection flags and the channel list.
-/

namespace DsiWifi

open ApSecurityType ApCipherType

/-- What does not change while the driver runs. -/
structure Platform where
  nvram : Nvram
  crypto : Crypto

/-! ## `wmi_handle_pkt` -/

def wmiGetChannelListResp : ℕ := 0x000E
def wmiReadyEvent : ℕ := 0x1001
def wmiConnectEvent : ℕ := 0x1002
def wmiDisconnectEvent : ℕ := 0x1003
def wmiBssInfoEvent : ℕ := 0x1004
def wmiCmdErrorEvent : ℕ := 0x1005
def wmiRegDomainEvent : ℕ := 0x1006
def wmiScanCompleteEvent : ℕ := 0x100A
def wmiTargetErrorReportEvent : ℕ := 0x100D

/-- The number of entries is stored as it is, the copy is limited to the table. -/
def wmiHandleGetChannelList (s : Wmi) (pkt : Mem UInt8) : Wmi :=
  let numEntries := (pkt 1).toNat
  { s with
    deviceNumChannels := numEntries
    channelFreqs := fun i =>
      if i.val < min numEntries 32 then getle16 pkt (2 + 2 * i) else s.channelFreqs i }

def wmiHandleScanComplete (s : Wmi) : Wmi := { s with scanDone := true, scanning := false }

def wmiHandleConnect (s : Wmi) : Wmi × List Out :=
  ({ s with apConnected := true },
    .ipc .connect ::
      if s.ap.securityType = apOpen ∨ s.ap.securityType = apWep then wmiPostHandshake s.ap none
      else [])

def wmiScan (s : Wmi) : Wmi × List Out := ({ s with bScanning := true }, wmiScanCmds)

/-- The body of the branches that give the connection up. -/
def wmiTeardown (s : Wmi) : Wmi × List Out :=
  let (s, out) := wmiScan
    { s with apFound := false, apConnected := false, sentConnect := false, numRoundsScanned := 0 }
  (s, [.wmi .disconnect, .wmi .deleteBadAp] ++ out)

def wmiHandleDisconnect (s : Wmi) (disconnectReason : UInt8) : Wmi × List Out :=
  let (s, out) := if s.apConnected = false ∧ s.sentConnect then wmiTeardown s else (s, [])
  let (s, out') :=
    if s.apConnected ∧ (disconnectReason = 4 ∨ disconnectReason = 1 ∨ disconnectReason = 5) then
      wmiTeardown s
    else (s, [])
  (s, out ++ out')

def wmiHandleTargetError (s : Wmi) (errId : ℕ) : Wmi × List Out :=
  let (s, out) := if errId = 8 then wmiTeardown s else (s, [])
  (s, .wmi (.targetErrorReportBitmask 0x7F) :: out)

/-- Events that only print are the last case. -/
def wmiHandlePkt (P : Platform) (s : Wmi) (pktCmd : ℕ) (pkt : Mem UInt8) (len : ℕ) :
    Wmi × List Out :=
  if pktCmd = wmiReadyEvent then ({ s with deviceMac := arrayAt pkt 0 6 }, [])
  else if pktCmd = wmiRegDomainEvent then
    ({ s with bIsReady := true }, [.wmi .wmiHandshake7, .wmi .dbgoff])
  else if pktCmd = wmiGetChannelListResp then (wmiHandleGetChannelList s pkt, [])
  else if pktCmd = wmiCmdErrorEvent then (s, [.wmi (.targetErrorReportBitmask 0x7F)])
  else if pktCmd = wmiScanCompleteEvent then (wmiHandleScanComplete s, [])
  else if pktCmd = wmiBssInfoEvent then wmiHandleBssInfo P.nvram s pkt len
  else if pktCmd = wmiConnectEvent then wmiHandleConnect s
  else if pktCmd = wmiDisconnectEvent then wmiHandleDisconnect s (pkt 8)
  else if pktCmd = wmiTargetErrorReportEvent then wmiHandleTargetError s (getle32 pkt 0)
  else (s, [])

/-! ## `data_handle_pkt` -/

/-- The packet carries an EAPOL frame. -/
def IsEapol (pkt : Mem UInt8) : Prop := getbe16 pkt 22 = 0x888E

instance (pkt : Mem UInt8) : Decidable (IsEapol pkt) := by unfold IsEapol; infer_instance

/-- `data_snap->body`. -/
def snapBody (pkt : Mem UInt8) : Mem UInt8 := fun i => pkt (24 + i)

/-- The packet at address `addr` of length `len`. -/
def dataHandlePkt (C : Crypto) (s : Wmi) (addr : ℕ) (pkt : Mem UInt8) (len : ℕ) (env : AuthEnv) :
    Wmi × List Out :=
  if IsEapol pkt then
    dataHandleAuth C s (snapBody pkt) (arrayAt pkt 2 6) (arrayAt pkt 8 6) env
  else (s, [.ipc (.pktdata addr (min len (0x600 - 6)))])

/-! ## `wmi_tick` -/

/-- The tick reaches the channel table. -/
def Scans (s : Wmi) : Prop :=
  s.bScanning = true ∧ s.deviceNumChannels ≠ 0 ∧ ¬(s.apFound = true ∧ 4 ≤ s.numRoundsScanned) ∧
    s.scanning = false

instance (s : Wmi) : Decidable (Scans s) := by unfold Scans; infer_instance

/-- The read `channel_freqs[device_cur_channel_idx]`; past the table it gives `past`. -/
def channelFreqAt (s : Wmi) (past : UInt16) : ℕ :=
  if h : s.deviceCurChannelIdx < 32 then s.channelFreqs ⟨s.deviceCurChannelIdx, h⟩ else past.toNat

/-- The body of `if (!scanning)` in `wmi_scantick`. -/
def wmiScanNext (s : Wmi) (past : UInt16) : Wmi × List Out :=
  let mhz := channelFreqAt s past
  let idx := (s.deviceCurChannelIdx + 1) % 2 ^ 8
  let s := if s.deviceNumChannels < idx then
      { s with deviceCurChannelIdx := 0, numRoundsScanned := (s.numRoundsScanned + 1) % 2 ^ 16 }
    else { s with deviceCurChannelIdx := idx }
  let s := if s.numRoundsScanned ≠ 0 ∧ s.numRoundsScanned % 5 = 0 then
      { s with ap := { s.ap with snr := 0 } }
    else s
  if mhz = 0 then (s, [])
  else
    ({ s with scanDone := false, scanning := true },
      [.wmi (.setChannelParams mhz), .wmi (.setScanParams 1 20 50 0), .wmi (.setBssFilter 1 0),
        .wmi .startScan])

def wmiScantick (s : Wmi) (past : UInt16) : Wmi × List Out :=
  if s.deviceNumChannels = 0 then (s, [])
  else
    let (s, out) :=
      if s.apFound = true ∧ s.sentConnect = false ∧ 4 ≤ s.numRoundsScanned then
        ({ s with sentConnect := true }, wmiConnect s.ap)
      else (s, [])
    if s.apFound = true ∧ 4 ≤ s.numRoundsScanned then (s, out)
    else if s.scanning = false then
      let (s, out') := wmiScanNext s past
      (s, out ++ out')
    else (s, out)

def wmiTick (s : Wmi) (past : UInt16) : Wmi × List Out :=
  if s.bScanning then wmiScantick s past else (s, [])

/-! ## Runs -/

/-- What the driver reacts to.  A tick carries the word a read past the channel table would see; a
data packet carries its address in the receive ring. -/
inductive Event
  | tick (past : UInt16)
  | scan
  | wmi (pktCmd : ℕ) (pkt : Mem UInt8) (len : ℕ)
  | data (addr : ℕ) (pkt : Mem UInt8) (len : ℕ) (env : AuthEnv)

def drive (P : Platform) (s : Wmi) : Event → Wmi × List Out
  | .tick past => wmiTick s past
  | .scan => if s.bIsReady then wmiScan s else (s, [])
  | .wmi pktCmd pkt len => wmiHandlePkt P s pktCmd pkt len
  | .data addr pkt len env => dataHandlePkt P.crypto s addr pkt len env

/-- The state after an event. -/
def step (P : Platform) (s : Wmi) (e : Event) : Wmi := (drive P s e).1

/-- The state after a run. -/
abbrev runFrom (P : Platform) (s : Wmi) (es : List Event) : Wmi := Run.exec (step P) s es

end DsiWifi
