import DsiWifi.Wmi.Commands

/-!
# The ARM9 host

`wifi_host_handleMsg` and `wifi_host_tick` of `wifi_host.c`: the messages of the ARM7, the start-up
of lwIP, and the commands sent back.  Calls into lwIP and into the application are emissions.  What
lwIP does on its own (timers, the frames it sends, the address it is given) is left to its
surroundings.
-/

namespace DsiWifi

/-- The `WIFI_IPCCMD` messages from the ARM9 to the ARM7. -/
inductive IpcCmd
  | initIop
  | initBufs (pktData pktLen : ℕ)
  | sendPkt (pktData pktLen : ℕ)
  | getDeviceMac
  | getApMac

/-- What the host does besides changing its variables. -/
inductive HostOut
  | send (cmd : IpcCmd)
  | lwipInit
  | netifAdd (hwaddr : Bytes 6)
  | dhcpStart
  | connectHandler
  | reconnectHandler
  | dataSendToLwip (data len : ℕ)

/-- Which handlers the application has set, and the address of `ip_data_in_buf`. -/
structure HostCfg where
  pfnConnectHandler : Bool
  pfnReconnectHandler : Bool
  ipDataInBuf : ℕ

/-- The static variables of `wifi_host.c`.  `netif` is the hardware address of `ath_netif` once it
was added, and `ipAddr` its address. -/
structure Host where
  deviceMac : Bytes 6
  apMac : Bytes 6
  bInitted : Bool
  bLwipInitted : Bool
  bNeedsDHCPRenew : Bool
  netif : Option (Bytes 6)
  ipAddr : ℕ
  secCnt : ℕ

def Host.init : Host where
  deviceMac := zeros 6
  apMac := zeros 6
  bInitted := false
  bLwipInitted := false
  bNeedsDHCPRenew := false
  netif := none
  ipAddr := 0
  secCnt := 0

/-- The reconnect handler, if any, and then DHCP. -/
def restartDhcp (cfg : HostCfg) (h : Host) : Host × List HostOut :=
  ({ h with bNeedsDHCPRenew := false },
    (if cfg.pfnReconnectHandler then [.reconnectHandler] else []) ++ [.dhcpStart])

/-- `wifi_host_lwip_init`.  `netif_add` fails only when `ath_init_fn` does, which it never does. -/
def wifiHostLwipInit (cfg : HostCfg) (h : Host) : Host × List HostOut :=
  -- If this is just the AP renewing keys, don't redo lwip init.
  if h.bLwipInitted then
    if h.bNeedsDHCPRenew then restartDhcp cfg h else (h, [])
  else
    ({ h with
        netif := some h.deviceMac, ipAddr := 0xFFFFFFFF, bLwipInitted := true
        bNeedsDHCPRenew := false },
      [.lwipInit, .netifAdd h.deviceMac, .dhcpStart] ++
        if cfg.pfnConnectHandler then [.connectHandler] else [])

def wifiHostHandleMsg (cfg : HostCfg) (h : Host) : IpcInt → Host × List HostOut
  | .ready => ({ h with bInitted := true },
      [.send .getDeviceMac, .send .getApMac, .send (.initBufs cfg.ipDataInBuf (0x600 * 6))])
  | .connect => ({ h with bNeedsDHCPRenew := true }, [])
  | .deviceMac mac => ({ h with deviceMac := mac }, [])
  | .apMac mac => wifiHostLwipInit cfg { h with apMac := mac }
  | .pktdata pktData pktLen => (h, [.dataSendToLwip pktData (min pktLen (0x600 - 6))])

/-- `wifi_host_tick`, without the clock and the timers of lwIP. -/
def wifiHostTick (cfg : HostCfg) (h : Host) : Host × List HostOut :=
  if h.secCnt = 1000 then
    let h := { h with secCnt := 0 }
    if h.bLwipInitted = true ∧ h.ipAddr = 0xFFFFFFFF ∨ h.ipAddr = 0 then restartDhcp cfg h
    else (h, [])
  else ({ h with secCnt := h.secCnt + 1 }, [])

/-! ## What a message does -/

/-- lwIP is started by the first `AP_MAC` message, and by nothing else. -/
theorem bLwipInitted_wifiHostHandleMsg (cfg : HostCfg) (h : Host) (m : IpcInt) :
    (wifiHostHandleMsg cfg h m).1.bLwipInitted =
      (h.bLwipInitted || match m with | .apMac _ => true | _ => false) := by
  cases m with
  | apMac mac =>
    unfold wifiHostHandleMsg wifiHostLwipInit restartDhcp
    dsimp only
    split_ifs with hi hr <;> simp [hi]
  | ready => simp [wifiHostHandleMsg]
  | connect => simp [wifiHostHandleMsg]
  | deviceMac mac => simp [wifiHostHandleMsg]
  | pktdata d n => simp [wifiHostHandleMsg]

/-- The interface is added together with the start of lwIP. -/
def Host.Added (h : Host) : Prop := h.bLwipInitted = true → h.netif.isSome = true

theorem added_wifiHostHandleMsg (cfg : HostCfg) {h : Host} (m : IpcInt) (hh : h.Added) :
    (wifiHostHandleMsg cfg h m).1.Added := by
  cases m with
  | apMac mac =>
    unfold wifiHostHandleMsg wifiHostLwipInit
    dsimp only
    by_cases hi : h.bLwipInitted = true
    · rw [if_pos hi]
      split_ifs <;> exact hh
    · rw [if_neg hi]
      exact fun _ => rfl
  | ready => exact hh
  | connect => exact hh
  | deviceMac mac => exact hh
  | pktdata d n => exact hh

theorem wifiHostTick_flags (cfg : HostCfg) (h : Host) :
    (wifiHostTick cfg h).1.bLwipInitted = h.bLwipInitted ∧
      (wifiHostTick cfg h).1.netif = h.netif := by
  unfold wifiHostTick restartDhcp
  dsimp only
  split_ifs <;> exact ⟨rfl, rfl⟩

end DsiWifi
