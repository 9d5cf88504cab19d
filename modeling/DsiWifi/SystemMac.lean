import DsiWifi.System

/-!
# The address of the interface

The card reports its address to the ARM7, the ARM9 asks for it after `READY`, and the interface is
created by the answer to another request.  The address arrives first because requests and answers
keep their order: `GET_DEVICE_MAC` is queued ahead of `GET_AP_MAC` (`Asks`), so `DEVICE_MAC` comes
ahead of `AP_MAC` (`Told`).

Before the card has reported, nothing is asked (`Idle`); after it has, both queues are in order
(`Knows`).  `netif_address` states that the interface gets the reported address.
-/

namespace DsiWifi

/-! ## What the card delivers -/

def Event.IsReady : Event → Prop
  | .wmi pktCmd _ _ => pktCmd = wmiReadyEvent
  | _ => False

instance (e : Event) : Decidable e.IsReady :=
  match e with
  | .wmi .. => inferInstanceAs (Decidable (_ = wmiReadyEvent))
  | .tick _ | .scan | .data .. => inferInstanceAs (Decidable False)

/-- The address a `WMI_READY_EVENT` reports. -/
def Event.readyMac : Event → Bytes 6
  | .wmi _ pkt _ => arrayAt pkt 0 6
  | _ => zeros 6

/-- The card reports `mac` in one `WMI_READY_EVENT`, before any `CONNECT` event or data packet. -/
def ReadyOnceFirst (mac : Bytes 6) : List Event → Prop
  | [] => True
  | e :: es =>
    if e.IsReady then e.readyMac = mac ∧ ∀ e' ∈ es, ¬e'.IsReady
    else ¬e.IsLink ∧ ReadyOnceFirst mac es

instance decidableReadyOnceFirst (mac : Bytes 6) : ∀ es, Decidable (ReadyOnceFirst mac es)
  | [] => inferInstanceAs (Decidable True)
  | e :: es =>
    have : Decidable (ReadyOnceFirst mac es) := decidableReadyOnceFirst mac es
    inferInstanceAs (Decidable (if e.IsReady then e.readyMac = mac ∧ ∀ e' ∈ es, ¬e'.IsReady
      else ¬e.IsLink ∧ ReadyOnceFirst mac es))

section

variable (P : Platform) (cfg : HostCfg)

/-- The events the card delivers along a run. -/
def delivered (s : Sys) : List SysEvent → List Event
  | [] => []
  | .card e :: as =>
    if s.initted then e :: delivered (sysStep P cfg s (.card e)) as
    else delivered (sysStep P cfg s (.card e)) as
  | a :: as => delivered (sysStep P cfg s a) as

/-- The hardware address given to `netif_add` by the step is `mac`. -/
def NetifGets (mac : Bytes 6) (s : Sys) : SysEvent → Prop
  | .arm9 => ∀ m ∈ s.toArm9.head?, ∀ hwaddr,
      HostOut.netifAdd hwaddr ∈ (wifiHostHandleMsg cfg s.host m).2 → hwaddr = mac
  | _ => True

end

/-! ## Steps of the driver -/

theorem wmiHandlePkt_deviceMac {P : Platform} {s : Wmi} {pktCmd : ℕ} {pkt : Mem UInt8} {len : ℕ}
    (h : pktCmd ≠ wmiReadyEvent) :
    (wmiHandlePkt P s pktCmd pkt len).1.deviceMac = s.deviceMac := by
  unfold wmiHandlePkt
  rw [if_neg h]
  split_ifs
  · rfl
  · rfl
  · rfl
  · rfl
  · obtain ⟨_, _, _, _, h, -⟩ := wmiHandleBssInfo_frame P.nvram s pkt len
    rw [h]
  · rfl
  · rw [wmiHandleDisconnect_eq]
    split_ifs <;> rfl
  · unfold wmiHandleTargetError
    split_ifs <;> rfl
  · rfl

/-- Only `WMI_READY_EVENT` writes `device_mac`. -/
theorem step_deviceMac {P : Platform} {s : Wmi} {e : Event} (he : ¬e.IsReady) :
    (step P s e).deviceMac = s.deviceMac := by
  unfold step
  cases e with
  | tick past =>
    change (wmiTick s past).1.deviceMac = _
    rcases wmiTick_cases s past with ⟨h, -⟩ | ⟨-, -, -, -, h⟩ | ⟨-, h⟩
    · rw [h]
    · rw [h]
    · obtain ⟨_, _, _, _, _, hs⟩ := wmiScanNext_fst s past
      rw [h, hs]
  | scan =>
    unfold drive
    split_ifs <;> rfl
  | wmi pktCmd pkt len => exact wmiHandlePkt_deviceMac he
  | data addr pkt len env =>
    obtain ⟨k, hk⟩ := dataHandlePkt_fst P s addr pkt len env
    change (dataHandlePkt P.crypto s addr pkt len env).1.deviceMac = _
    rw [hk]

/-! ## The invariants -/

def IpcInt.IsDeviceMac : IpcInt → Prop
  | .deviceMac _ => True
  | _ => False

/-- Before the card has reported: nothing was asked, and nothing told. -/
structure Idle (s : Sys) : Prop where
  toArm9 : s.toArm9 = []
  toArm7 : ∀ cmd ∈ s.toArm7, cmd ≠ .getDeviceMac ∧ cmd ≠ .getApMac

/-- After the card has reported `mac`: the ARM7 has it, and both queues are in order. -/
structure Knows (mac : Bytes 6) (s : Sys) : Prop where
  wmi : s.wmi.deviceMac = mac
  reported : ∀ m, .deviceMac m ∈ s.toArm9 → m = mac
  told : Queue.Guarded IpcInt.IsDeviceMac IpcInt.IsApMac (s.host.deviceMac = mac) s.toArm9
  asks : Queue.Guarded (· = IpcCmd.getDeviceMac) (· = IpcCmd.getApMac)
    (s.host.deviceMac = mac ∨ ∃ m ∈ s.toArm9, m.IsDeviceMac) s.toArm7

/-- The interface is created by `AP_MAC`, with the address of the host. -/
theorem of_netifAdd_mem {cfg : HostCfg} {h : Host} {m : IpcInt} {hwaddr : Bytes 6}
    (hm : HostOut.netifAdd hwaddr ∈ (wifiHostHandleMsg cfg h m).2) :
    m.IsApMac ∧ hwaddr = h.deviceMac := by
  cases m with
  | apMac mac =>
    refine ⟨trivial, ?_⟩
    unfold wifiHostHandleMsg wifiHostLwipInit restartDhcp at hm
    dsimp only at hm
    by_cases hi : h.bLwipInitted = true
    · rw [if_pos hi] at hm
      split_ifs at hm <;> simp at hm
    · rw [if_neg hi] at hm
      split_ifs at hm <;> simpa using hm
  | ready => simp [wifiHostHandleMsg] at hm
  | connect => simp [wifiHostHandleMsg] at hm
  | deviceMac mac => simp [wifiHostHandleMsg] at hm
  | pktdata d n => simp [wifiHostHandleMsg] at hm

theorem wifiHostHandleMsg_deviceMac (cfg : HostCfg) (h : Host) {m : IpcInt}
    (hm : ¬m.IsDeviceMac) : (wifiHostHandleMsg cfg h m).1.deviceMac = h.deviceMac := by
  cases m with
  | apMac mac =>
    unfold wifiHostHandleMsg wifiHostLwipInit restartDhcp
    dsimp only
    split_ifs <;> rfl
  | deviceMac mac => exact absurd trivial hm
  | ready => rfl
  | connect => rfl
  | pktdata d n => rfl

theorem wifiHostTick_deviceMac (cfg : HostCfg) (h : Host) :
    (wifiHostTick cfg h).1.deviceMac = h.deviceMac := by
  unfold wifiHostTick restartDhcp
  dsimp only
  split_ifs <;> rfl

section Steps

variable {P : Platform} {cfg : HostCfg} {mac : Bytes 6} {s : Sys}

theorem netifGets_of_idle (hs : Idle s) (e : SysEvent) : NetifGets cfg mac s e := by
  cases e with
  | arm9 =>
    intro m hm
    rw [hs.toArm9] at hm
    exact absurd hm (by simp)
  | card e => trivial
  | arm7 => trivial
  | hostTick => trivial
  | dhcpBound ipAddr => trivial
  | hostSend d n => trivial

theorem netifGets_of_knows (hs : Knows mac s) (e : SysEvent) : NetifGets cfg mac s e := by
  cases e with
  | arm9 =>
    intro m hm hwaddr hadd
    obtain ⟨hap, rfl⟩ := of_netifAdd_mem hadd
    have htold := hs.told
    rcases hq : s.toArm9 with _ | ⟨m', rest⟩
    · rw [hq] at hm
      exact absurd hm (by simp)
    · rw [hq] at hm htold
      obtain rfl : m' = m := by simpa using hm
      exact htold.1 hap
  | card e => trivial
  | arm7 => trivial
  | hostTick => trivial
  | dhcpBound ipAddr => trivial
  | hostSend d n => trivial

theorem Idle.card (hs : Idle s) {e : Event} (he : s.initted = true → ¬e.IsLink) :
    Idle (cardStep P s e) := by
  unfold cardStep
  by_cases hi : s.initted = true
  · rw [if_pos hi]
    refine ⟨?_, hs.toArm7⟩
    show s.toArm9 ++ ipcs (drive P s.wmi e).2 = []
    rw [hs.toArm9, List.nil_append]
    apply List.eq_nil_iff_forall_not_mem.2
    intro m hm
    exact he hi (mem_ipcs_drive hm).1
  · rw [if_neg hi]
    exact hs

theorem Idle.arm7 (hs : Idle s) : Idle (arm7Step s) := by
  unfold arm7Step
  rcases hq : s.toArm7 with _ | ⟨cmd, rest⟩
  · exact hs
  · obtain ⟨hcmd, hrest⟩ := List.forall_mem_cons.1 (show ∀ c ∈ cmd :: rest, _ from hq ▸ hs.toArm7)
    dsimp only
    split_ifs
    · exact hs
    · cases cmd with
      | initIop => exact ⟨hs.toArm9, hrest⟩
      | getDeviceMac => exact absurd rfl hcmd.1
      | getApMac => exact absurd rfl hcmd.2
      | initBufs d n => exact ⟨hs.toArm9, hrest⟩
      | sendPkt d n => exact ⟨hs.toArm9, hrest⟩

theorem Idle.arm9 (hs : Idle s) : Idle (arm9Step cfg s) := by
  unfold arm9Step
  rw [hs.toArm9]
  exact hs

/-- A step of either processor keeps the system idle, if the card does not report a connection. -/
theorem idle_step (hs : Idle s) {e : SysEvent}
    (he : ∀ e', e = .card e' → s.initted = true → ¬e'.IsLink) : Idle (sysStep P cfg s e) := by
  cases e with
  | card e => exact hs.card (he e rfl)
  | arm7 => exact hs.arm7
  | arm9 => exact hs.arm9
  | hostTick => exact ⟨hs.toArm9, hs.toArm7⟩
  | dhcpBound ipAddr =>
    unfold sysStep
    split_ifs
    · exact ⟨hs.toArm9, hs.toArm7⟩
    · exact hs
  | hostSend d n =>
    refine ⟨hs.toArm9, fun cmd hcmd => ?_⟩
    rcases List.mem_append.1 hcmd with h | h
    · exact hs.toArm7 cmd h
    · rw [List.mem_singleton.1 h]
      simp

/-- The report of the card. -/
theorem knows_of_ready (hs : Idle s) (hi : s.initted = true) {e : Event} (he : e.IsReady)
    (hmac : e.readyMac = mac) : Knows mac (cardStep P s e) := by
  cases e with
  | wmi pktCmd pkt len =>
    obtain rfl : pktCmd = wmiReadyEvent := he
    have hstep : cardStep P s (.wmi wmiReadyEvent pkt len) =
        { s with wmi := { s.wmi with deviceMac := mac } } := by
      subst hmac
      unfold cardStep
      rw [if_pos hi]
      show ({ s with wmi := _, toArm9 := s.toArm9 ++ [] } : Sys) = _
      rw [List.append_nil]
      rfl
    rw [hstep]
    refine ⟨rfl, ?_, ?_, Queue.guarded_of_forall_not fun cmd hcmd => (hs.toArm7 cmd hcmd).2⟩
    · show ∀ m, .deviceMac m ∈ s.toArm9 → m = mac
      simp [hs.toArm9]
    · show Queue.Guarded _ _ _ s.toArm9
      simp [hs.toArm9]
  | tick past => exact he.elim
  | scan => exact he.elim
  | data addr pkt len env => exact he.elim

theorem Knows.card (hs : Knows mac s) {e : Event} (he : s.initted = true → ¬e.IsReady) :
    Knows mac (cardStep P s e) := by
  unfold cardStep
  by_cases hi : s.initted = true
  · rw [if_pos hi]
    refine ⟨(step_deviceMac (he hi)).trans hs.wmi, ?_, ?_, ?_⟩
    · intro m hm
      rcases List.mem_append.1 hm with h | h
      · exact hs.reported m h
      · rcases (mem_ipcs_drive h).2 with h | h | ⟨h, -⟩
        · cases h
        · cases h
        · exact h.elim
    · refine hs.told.append_of_not fun m hm => ?_
      rcases (mem_ipcs_drive hm).2 with rfl | rfl | ⟨h, -⟩
      · exact id
      · exact id
      · cases m with
        | pktdata d n => exact id
        | _ => exact h.elim
    · refine hs.asks.mono (Or.imp_right ?_)
      rintro ⟨m, hm, hd⟩
      exact ⟨m, List.mem_append_left _ hm, hd⟩
  · rw [if_neg hi]
    exact hs

theorem Knows.arm7 (hs : Knows mac s) : Knows mac (arm7Step s) := by
  unfold arm7Step
  rcases hq : s.toArm7 with _ | ⟨cmd, rest⟩
  · exact hs
  have hasks := hs.asks
  rw [hq, Queue.guarded_cons] at hasks
  obtain ⟨hhead, htail⟩ := hasks
  dsimp only
  split_ifs
  · exact hs
  cases cmd with
  | initIop => exact ⟨hs.wmi, hs.reported, hs.told, htail.mono fun h => h.resolve_right (by simp)⟩
  | getDeviceMac =>
    -- the answer is queued behind everything that was told before
    refine ⟨hs.wmi, ?_, hs.told.append_of_not (by simp [IpcInt.IsApMac]), htail.mono fun _ => ?_⟩
    · intro m hm
      rcases List.mem_append.1 hm with h | h
      · exact hs.reported m h
      · have hm' : m = s.wmi.deviceMac := by simpa using h
        rw [hm', hs.wmi]
    · exact Or.inr ⟨.deviceMac s.wmi.deviceMac, by simp [wifiCardHandleMsg], trivial⟩
  | getApMac =>
    refine ⟨hs.wmi, ?_, Queue.guarded_append.2 ⟨hs.told, fun _ => hhead rfl, trivial⟩, ?_⟩
    · intro m hm
      rcases List.mem_append.1 hm with h | h
      · exact hs.reported m h
      · simp at h
    · refine htail.mono fun h => ?_
      rcases h with (h | ⟨m, hm, hd⟩) | h
      · exact Or.inl h
      · exact Or.inr ⟨m, List.mem_append_left _ hm, hd⟩
      · exact absurd h (by simp)
  | initBufs d n => exact ⟨hs.wmi, hs.reported, hs.told, htail.mono fun h => h.resolve_right (by simp)⟩
  | sendPkt d n => exact ⟨hs.wmi, hs.reported, hs.told, htail.mono fun h => h.resolve_right (by simp)⟩

/-- The requests of a message are in order on their own. -/
theorem guarded_sends (h : Host) (m : IpcInt) (k : Prop) :
    Queue.Guarded (· = IpcCmd.getDeviceMac) (· = IpcCmd.getApMac) k
      (sends (wifiHostHandleMsg cfg h m).2) := by
  cases m with
  | ready => exact ⟨by simp, fun _ => Or.inr rfl, by simp, trivial⟩
  | apMac mac =>
    apply Queue.guarded_of_forall_not
    intro cmd hcmd
    unfold wifiHostHandleMsg wifiHostLwipInit restartDhcp at hcmd
    dsimp only at hcmd
    split_ifs at hcmd <;> exact absurd hcmd List.not_mem_nil
  | connect => trivial
  | deviceMac mac => trivial
  | pktdata d n => trivial

theorem Knows.arm9 (hs : Knows mac s) : Knows mac (arm9Step cfg s) := by
  unfold arm9Step
  rcases hq : s.toArm9 with _ | ⟨m, rest⟩
  · exact hs
  obtain ⟨hwmi, hreported, htold, hasks⟩ := hs
  rw [hq] at hreported htold hasks
  rw [Queue.guarded_cons] at htold
  have hrest : ∀ m', .deviceMac m' ∈ rest → m' = mac := fun m' hm' =>
    hreported m' (List.mem_cons_of_mem _ hm')
  by_cases hd : m.IsDeviceMac
  · -- the host learns the address
    have hhost : (wifiHostHandleMsg cfg s.host m).1.deviceMac = mac := by
      cases m with
      | deviceMac m' => exact hreported m' List.mem_cons_self
      | _ => exact hd.elim
    refine ⟨hwmi, hrest, htold.2.mono fun _ => hhost, ?_⟩
    exact Queue.guarded_append.2 ⟨hasks.mono fun _ => Or.inl hhost, guarded_sends _ _ _⟩
  · have hhost := wifiHostHandleMsg_deviceMac cfg s.host hd
    refine ⟨hwmi, hrest, htold.2.mono fun h => ?_, ?_⟩
    · show (wifiHostHandleMsg cfg s.host m).1.deviceMac = mac
      rw [hhost]
      exact h.resolve_right hd
    · refine Queue.guarded_append.2 ⟨hasks.mono fun h => ?_, guarded_sends _ _ _⟩
      rcases h with h | ⟨m', hm', hd'⟩
      · exact Or.inl (hhost.trans h)
      · rcases List.mem_cons.1 hm' with rfl | hm'
        · exact absurd hd' hd
        · exact Or.inr ⟨m', hm', hd'⟩

/-- A step of either processor keeps the queues in order, if the card does not report again. -/
theorem knows_step (hs : Knows mac s) {e : SysEvent}
    (he : ∀ e', e = .card e' → s.initted = true → ¬e'.IsReady) :
    Knows mac (sysStep P cfg s e) := by
  cases e with
  | card e => exact hs.card (he e rfl)
  | arm7 => exact hs.arm7
  | arm9 => exact hs.arm9
  | hostTick =>
    have hhost := wifiHostTick_deviceMac cfg s.host
    refine ⟨hs.wmi, hs.reported, hs.told.mono hhost.trans, ?_⟩
    exact hs.asks.mono (Or.imp_left hhost.trans)
  | dhcpBound ipAddr =>
    unfold sysStep
    split_ifs
    · exact ⟨hs.wmi, hs.reported, hs.told, hs.asks⟩
    · exact hs
  | hostSend d n =>
    exact ⟨hs.wmi, hs.reported, hs.told, hs.asks.append_of_not (by simp)⟩

end Steps

/-! ## Runs -/

section Runs

variable {P : Platform} {cfg : HostCfg} {mac : Bytes 6}

theorem delivered_card {s : Sys} {e : Event} {es : List SysEvent} (hi : s.initted = true) :
    delivered P cfg s (.card e :: es) = e :: delivered P cfg (sysStep P cfg s (.card e)) es := by
  rw [delivered, if_pos hi]

/-- What is delivered after a step is what is delivered from the state it leaves. -/
theorem mem_delivered_cons {s : Sys} {a : SysEvent} {es : List SysEvent} {e : Event}
    (h : e ∈ delivered P cfg (sysStep P cfg s a) es) : e ∈ delivered P cfg s (a :: es) := by
  cases a with
  | card e' =>
    rw [delivered]
    split_ifs
    · exact List.mem_cons_of_mem _ h
    · exact h
  | _ => exact h

theorem along_of_knows {s : Sys} {es : List SysEvent} (hs : Knows mac s)
    (hno : ∀ e ∈ delivered P cfg s es, ¬e.IsReady) :
    Run.Along (sysStep P cfg) (NetifGets cfg mac) s es := by
  induction es generalizing s with
  | nil => trivial
  | cons a es ih =>
    refine ⟨netifGets_of_knows hs a, ih (knows_step hs ?_) fun e he => hno e (mem_delivered_cons he)⟩
    rintro e rfl hi
    apply hno e
    rw [delivered_card hi]
    exact List.mem_cons_self

theorem along_of_idle {s : Sys} {es : List SysEvent} (hs : Idle s)
    (hready : ReadyOnceFirst mac (delivered P cfg s es)) :
    Run.Along (sysStep P cfg) (NetifGets cfg mac) s es := by
  induction es generalizing s with
  | nil => trivial
  | cons a es ih =>
    refine ⟨netifGets_of_idle hs a, ?_⟩
    cases a with
    | card e =>
      by_cases hi : s.initted = true
      · rw [delivered_card hi, ReadyOnceFirst] at hready
        by_cases he : e.IsReady
        · rw [if_pos he] at hready
          exact along_of_knows (knows_of_ready hs hi he hready.1) hready.2
        · rw [if_neg he] at hready
          refine ih (idle_step hs ?_) hready.2
          rintro _ ⟨⟩ _
          exact hready.1
      · rw [delivered, if_neg hi] at hready
        refine ih (idle_step hs ?_) hready
        intro _ _ hi'
        exact absurd hi' hi
    | arm7 => exact ih (idle_step hs (by simp)) hready
    | arm9 => exact ih (idle_step hs (by simp)) hready
    | hostTick => exact ih (idle_step hs (by simp)) hready
    | dhcpBound ipAddr => exact ih (idle_step hs (by simp)) hready
    | hostSend d n => exact ih (idle_step hs (by simp)) hready

end Runs

/-- **The address of the interface.** In every interleaving in which the card reports `mac` once,
before any `CONNECT` event or data packet, the hardware address of the interface is `mac`. -/
theorem netif_address (P : Platform) (cfg : HostCfg) (mac : Bytes 6) (es : List SysEvent)
    (hready : ReadyOnceFirst mac (delivered P cfg .init es)) :
    Run.Along (sysStep P cfg) (NetifGets cfg mac) .init es :=
  along_of_idle ⟨rfl, by simp [Sys.init]⟩ hready

/-- The address `02:11:22:33:44:55`. -/
def sampleMac : Bytes 6 := arrayOf [0x02, 0x11, 0x22, 0x33, 0x44, 0x55] 6

/-- The card reports its address and connects to the open network `ab`; the ARM9 asks for the
addresses and creates the interface. -/
def connectWithMac : List SysEvent :=
  .arm7 :: (.wmi wmiReadyEvent (.ofList sampleMac.toList 0) 6 ::
    scanHearing openBeacon ++ [.tick 0, connectEvent]).map .card ++
    [.arm9, .arm9, .arm7, .arm7, .arm9, .arm9]

theorem netif_address_sample :
    (Run.exec (sysStep openPlatform sampleHostCfg) .init connectWithMac).host.netif =
        some sampleMac ∧
      Run.Along (sysStep openPlatform sampleHostCfg) (NetifGets sampleHostCfg sampleMac) .init
        connectWithMac :=
  ⟨by decide +kernel, netif_address _ _ _ _ (by decide +kernel)⟩

end DsiWifi
