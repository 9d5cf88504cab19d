import DsiWifi.Lib.Queue
import DsiWifi.Host
import DsiWifi.Wmi.Selection

/-!
# The two processors

The ARM7 driver and the ARM9 host, joined by two message queues that keep their order and lose
nothing.  The card may deliver a packet at any time once the ARM7 has handled `INIT_IOP`.

lwIP is started by the `AP_MAC` message, the end of the round trip `READY`, `GET_AP_MAC`, `AP_MAC`;
data packets are forwarded as soon as they arrive.  `pktdata_after_lwip_init` states that no packet
is handled before lwIP is started, if none is forwarded before the `AP_MAC` message is on its way.
-/

namespace DsiWifi

/-- The FIFO messages among the emissions of the driver. -/
def ipcs (out : List Out) : List IpcInt :=
  out.filterMap fun o => match o with
    | .ipc m => some m
    | _ => none

theorem mem_ipcs {m : IpcInt} {out : List Out} : m ∈ ipcs out ↔ .ipc m ∈ out := by
  unfold ipcs
  rw [List.mem_filterMap]
  constructor
  · rintro ⟨o, ho, hm⟩
    cases o with
    | ipc msg => rwa [← Option.some.inj hm]
    | _ => exact absurd hm (by simp)
  · exact fun h => ⟨.ipc m, h, rfl⟩

def IpcInt.IsPktdata : IpcInt → Prop
  | .pktdata _ _ => True
  | _ => False

def IpcInt.IsApMac : IpcInt → Prop
  | .apMac _ => True
  | _ => False

instance (m : IpcInt) : Decidable m.IsPktdata := by
  cases m <;> unfold IpcInt.IsPktdata <;> infer_instance

instance (m : IpcInt) : Decidable m.IsApMac := by
  cases m <;> unfold IpcInt.IsApMac <;> infer_instance

/-! ## The system -/

structure Sys where
  wmi : Wmi
  initted : Bool
  host : Host
  toArm9 : List IpcInt
  toArm7 : List IpcCmd

/-- After `wifi_host_init`. -/
def Sys.init : Sys where
  wmi := .init
  initted := false
  host := .init
  toArm9 := []
  toArm7 := [.initIop]

/-- `wifi_card_handleMsg`, without the buffers: `INITBUFS` and `SENDPKT` are the subject of the
rings. -/
def wifiCardHandleMsg (s : Sys) : IpcCmd → Sys
  | .initIop => { s with initted := true }
  | .getDeviceMac => { s with toArm9 := s.toArm9 ++ [.deviceMac s.wmi.deviceMac] }
  | .getApMac => { s with toArm9 := s.toArm9 ++ [.apMac s.wmi.ap.bssid] }
  | .initBufs _ _ => s
  | .sendPkt _ _ => s

/-- The commands among the emissions of the host. -/
def sends (out : List HostOut) : List IpcCmd :=
  out.filterMap fun o => match o with
    | .send cmd => some cmd
    | _ => none

/-- `dhcpBound` is lwIP giving the interface an address, `hostSend` a frame of lwIP. -/
inductive SysEvent
  | card (e : Event)
  | arm7
  | arm9
  | hostTick
  | dhcpBound (ipAddr : ℕ)
  | hostSend (pktData pktLen : ℕ)

section

variable (P : Platform) (cfg : HostCfg)

/-- A step of the driver. -/
def cardStep (s : Sys) (e : Event) : Sys :=
  if s.initted then
    { s with wmi := step P s.wmi e, toArm9 := s.toArm9 ++ ipcs (drive P s.wmi e).2 }
  else s

/-- The ARM7 handles a command.  The handler of `INIT_IOP` returns when the card is ready; until
then the next command waits. -/
def arm7Step (s : Sys) : Sys :=
  match s.toArm7 with
  | [] => s
  | cmd :: rest =>
    if s.initted = true ∧ s.wmi.bIsReady = false then s
    else wifiCardHandleMsg { s with toArm7 := rest } cmd

/-- The ARM9 handles a message. -/
def arm9Step (s : Sys) : Sys :=
  match s.toArm9 with
  | [] => s
  | m :: rest =>
    { s with
      host := (wifiHostHandleMsg cfg s.host m).1
      toArm9 := rest
      toArm7 := s.toArm7 ++ sends (wifiHostHandleMsg cfg s.host m).2 }

def sysStep (s : Sys) : SysEvent → Sys
  | .card e => cardStep P s e
  | .arm7 => arm7Step s
  | .arm9 => arm9Step cfg s
  | .hostTick => { s with host := (wifiHostTick cfg s.host).1 }
  | .dhcpBound ipAddr =>
    if s.host.bLwipInitted then { s with host := { s.host with ipAddr := ipAddr } } else s
  | .hostSend pktData pktLen => { s with toArm7 := s.toArm7 ++ [.sendPkt pktData pktLen] }

end

/-! ## Start-up -/

/-- The packet is passed on to the ARM9. -/
def Event.Forwards : Event → Prop
  | .data _ pkt _ _ => ¬IsEapol pkt
  | _ => False

instance (e : Event) : Decidable e.Forwards :=
  match e with
  | .data _ pkt _ _ => inferInstanceAs (Decidable ¬IsEapol pkt)
  | .tick _ | .scan | .wmi .. => inferInstanceAs (Decidable False)

/-- A `CONNECT` event or a data packet. -/
def Event.IsLink : Event → Prop
  | .wmi pktCmd _ _ => pktCmd = wmiConnectEvent
  | .data _ _ _ _ => True
  | _ => False

instance (e : Event) : Decidable e.IsLink :=
  match e with
  | .wmi .. => inferInstanceAs (Decidable (_ = wmiConnectEvent))
  | .data .. => inferInstanceAs (Decidable True)
  | .tick _ | .scan => inferInstanceAs (Decidable False)

/-- A data packet is passed on only when lwIP is started, or will be by a message that is queued. -/
def ForwardsAfterApMac (s : Sys) : SysEvent → Prop
  | .card e => s.initted = true → e.Forwards →
      s.host.bLwipInitted = true ∨ ∃ m ∈ s.toArm9, m.IsApMac
  | _ => True

instance (s : Sys) (e : SysEvent) : Decidable (ForwardsAfterApMac s e) := by
  cases e <;> unfold ForwardsAfterApMac <;> infer_instance

/-- When the ARM9 handles a data packet, lwIP is started and the interface is there. -/
def PktdataAfterInit (s : Sys) : SysEvent → Prop
  | .arm9 => ∀ m ∈ s.toArm9.head?, m.IsPktdata →
      s.host.bLwipInitted = true ∧ s.host.netif.isSome = true
  | _ => True

instance (s : Sys) (e : SysEvent) : Decidable (PktdataAfterInit s e) := by
  cases e <;> unfold PktdataAfterInit <;> infer_instance

/-- No packet is queued ahead of the message that starts lwIP. -/
def Covered (b : Bool) : List IpcInt → Prop
  | [] => True
  | .apMac _ :: _ => True
  | .pktdata _ _ :: q => b = true ∧ Covered b q
  | _ :: q => Covered b q

theorem covered_iff_guarded (b : Bool) (q : List IpcInt) :
    Covered b q ↔ Queue.Guarded IpcInt.IsApMac IpcInt.IsPktdata (b = true) q := by
  induction q with
  | nil => exact Iff.rfl
  | cons m q ih =>
    rw [Queue.guarded_cons]
    cases m with
    | apMac mac => exact iff_of_true trivial ⟨False.elim, Queue.guarded_of_true (Or.inr trivial)⟩
    | pktdata d n =>
      simp only [IpcInt.IsPktdata, IpcInt.IsApMac, or_false, true_implies]
      exact and_congr_right' ih
    | ready | connect | deviceMac mac =>
      simp only [IpcInt.IsPktdata, IpcInt.IsApMac, or_false, false_implies, true_and]
      exact ih

theorem covered_true (q : List IpcInt) : Covered true q :=
  (covered_iff_guarded true q).2 (Queue.guarded_of_true rfl)

/-- Behind the message that starts lwIP, anything may be queued. -/
theorem Covered.append_of_apMac {b : Bool} {q : List IpcInt} (h : Covered b q)
    (hap : b = true ∨ ∃ m ∈ q, m.IsApMac) (ms : List IpcInt) : Covered b (q ++ ms) := by
  rw [covered_iff_guarded] at h ⊢
  exact Queue.guarded_append.2 ⟨h, Queue.guarded_of_true hap⟩

/-- Messages other than packets may be queued at any time. -/
theorem Covered.append {b : Bool} {q ms : List IpcInt} (h : Covered b q)
    (hms : ∀ m ∈ ms, ¬m.IsPktdata) : Covered b (q ++ ms) := by
  rw [covered_iff_guarded] at h ⊢
  exact h.append_of_not hms

/-- The handshake with the access point ends with `READY`. -/
theorem eq_ready_of_mem_dataHandleAuth {C : Crypto} {s : Wmi} {pkt : Mem UInt8}
    {devBssid apBssid : Bytes 6} {env : AuthEnv} {m : IpcInt}
    (hm : m ∈ ipcs (dataHandleAuth C s pkt devBssid apBssid env).2) : m = .ready := by
  rcases dataHandleAuth_snd s C pkt devBssid apBssid env with ⟨-, hout | ⟨f, hout⟩⟩ | ⟨-, f, hout⟩
  · rw [hout] at hm
    exact absurd hm List.not_mem_nil
  · rw [hout] at hm
    exact absurd hm List.not_mem_nil
  · rw [hout] at hm
    rcases List.mem_cons.1 (mem_ipcs.1 hm) with h | h
    · cases h
    · rcases mem_wmiPostHandshake h with h | h | ⟨-, k, h⟩
      · exact h.elim
      · exact Out.ipc.inj h
      · cases h

theorem mem_ipcs_wmiHandlePkt {P : Platform} {s : Wmi} {pktCmd : ℕ} {pkt : Mem UInt8} {len : ℕ}
    {m : IpcInt} (hm : m ∈ ipcs (wmiHandlePkt P s pktCmd pkt len).2) :
    pktCmd = wmiConnectEvent ∧ (m = .connect ∨ m = .ready) := by
  rcases mem_wmiHandlePkt (mem_ipcs.1 hm) with h | ⟨hcmd, h⟩
  · exact h.elim
  · exact ⟨hcmd, h.imp Out.ipc.inj Out.ipc.inj⟩

/-- The driver tells the ARM9 about connections, and forwards the data packets that are not EAPOL
frames. -/
theorem mem_ipcs_drive {P : Platform} {s : Wmi} {e : Event} {m : IpcInt}
    (hm : m ∈ ipcs (drive P s e).2) :
    e.IsLink ∧ (m = .connect ∨ m = .ready ∨ m.IsPktdata ∧ e.Forwards) := by
  cases e with
  | tick past =>
    change m ∈ ipcs (wmiTick s past).2 at hm
    exfalso
    rcases wmiTick_cases s past with ⟨h, -⟩ | ⟨-, -, -, -, h⟩ | ⟨-, h⟩
    · rw [h] at hm
      exact absurd hm List.not_mem_nil
    · rw [h] at hm
      unfold wmiConnect wmiConnectCmd at hm
      cases hsec : s.ap.securityType <;> rw [hsec] at hm <;> exact absurd hm List.not_mem_nil
    · rw [h, wmiScanNext_snd] at hm
      split_ifs at hm <;> exact absurd hm List.not_mem_nil
  | scan =>
    unfold drive at hm
    split_ifs at hm <;> exact absurd hm List.not_mem_nil
  | wmi pktCmd pkt len =>
    obtain ⟨hcmd, h⟩ := mem_ipcs_wmiHandlePkt hm
    exact ⟨hcmd, h.imp_right Or.inl⟩
  | data addr pkt len env =>
    refine ⟨trivial, ?_⟩
    change m ∈ ipcs (dataHandlePkt P.crypto s addr pkt len env).2 at hm
    unfold dataHandlePkt at hm
    split_ifs at hm with hE
    · exact Or.inr (Or.inl (eq_ready_of_mem_dataHandleAuth hm))
    · rw [List.mem_singleton.1 (show m ∈ [IpcInt.pktdata _ _] from hm)]
      exact Or.inr (Or.inr ⟨trivial, hE⟩)

theorem not_isPktdata_drive (P : Platform) (s : Wmi) {e : Event} (he : ¬e.Forwards) :
    ∀ m ∈ ipcs (drive P s e).2, ¬m.IsPktdata := by
  intro m hm
  rcases (mem_ipcs_drive hm).2 with rfl | rfl | ⟨-, hf⟩
  · exact id
  · exact id
  · exact absurd hf he

/-- The invariant of the start-up. -/
structure Starts (s : Sys) : Prop where
  covered : Covered s.host.bLwipInitted s.toArm9
  added : s.host.Added

section

variable {P : Platform} {cfg : HostCfg} {s : Sys}

theorem Starts.card (hs : Starts s) {e : Event} (hf : ForwardsAfterApMac s (.card e)) :
    Starts (cardStep P s e) := by
  unfold cardStep
  by_cases hi : s.initted = true
  · rw [if_pos hi]
    refine ⟨?_, hs.added⟩
    by_cases he : e.Forwards
    · exact hs.covered.append_of_apMac (hf hi he) _
    · exact hs.covered.append (not_isPktdata_drive P s.wmi he)
  · rw [if_neg hi]
    exact hs

theorem Starts.arm7 (hs : Starts s) : Starts (arm7Step s) := by
  unfold arm7Step
  rcases hq : s.toArm7 with _ | ⟨cmd, rest⟩
  · exact hs
  · dsimp only
    split_ifs
    · exact hs
    · cases cmd with
      | initIop => exact ⟨hs.covered, hs.added⟩
      | getDeviceMac => exact ⟨hs.covered.append (by simp [IpcInt.IsPktdata]), hs.added⟩
      | getApMac => exact ⟨hs.covered.append (by simp [IpcInt.IsPktdata]), hs.added⟩
      | initBufs d n => exact ⟨hs.covered, hs.added⟩
      | sendPkt d n => exact ⟨hs.covered, hs.added⟩

theorem Starts.arm9 (hs : Starts s) : Starts (arm9Step cfg s) := by
  unfold arm9Step
  rcases hq : s.toArm9 with _ | ⟨m, rest⟩
  · exact hs
  · refine ⟨?_, added_wifiHostHandleMsg cfg m hs.added⟩
    have hcov := hs.covered
    rw [hq] at hcov
    change Covered (wifiHostHandleMsg cfg s.host m).1.bLwipInitted rest
    rw [bLwipInitted_wifiHostHandleMsg]
    cases m with
    | apMac mac =>
      rw [Bool.or_true]
      exact covered_true rest
    | pktdata d n =>
      rw [Bool.or_false]
      exact hcov.2
    | ready =>
      rw [Bool.or_false]
      exact hcov
    | connect =>
      rw [Bool.or_false]
      exact hcov
    | deviceMac mac =>
      rw [Bool.or_false]
      exact hcov

theorem starts_step {e : SysEvent} (hs : Starts s) (hf : ForwardsAfterApMac s e) :
    Starts (sysStep P cfg s e) := by
  cases e with
  | card e => exact hs.card hf
  | arm7 => exact hs.arm7
  | arm9 => exact hs.arm9
  | hostTick =>
    obtain ⟨hinit, hnetif⟩ := wifiHostTick_flags cfg s.host
    refine ⟨?_, ?_⟩
    · change Covered (wifiHostTick cfg s.host).1.bLwipInitted s.toArm9
      rw [hinit]
      exact hs.covered
    · change (wifiHostTick cfg s.host).1.Added
      unfold Host.Added
      rw [hinit, hnetif]
      exact hs.added
  | dhcpBound ipAddr =>
    unfold sysStep
    split_ifs
    · exact ⟨hs.covered, hs.added⟩
    · exact hs
  | hostSend d n => exact ⟨hs.covered, hs.added⟩

theorem pktdataAfterInit_of_starts {e : SysEvent} (hs : Starts s) : PktdataAfterInit s e := by
  cases e with
  | arm9 =>
    intro m hm hpkt
    have hcov := hs.covered
    rcases hq : s.toArm9 with _ | ⟨m', rest⟩
    · rw [hq] at hm
      exact absurd hm (by simp)
    · rw [hq] at hm hcov
      obtain rfl : m' = m := by simpa using hm
      cases m' with
      | pktdata d n => exact ⟨hcov.1, hs.added hcov.1⟩
      | apMac mac => exact absurd hpkt id
      | ready => exact absurd hpkt id
      | connect => exact absurd hpkt id
      | deviceMac mac => exact absurd hpkt id
  | card e => trivial
  | arm7 => trivial
  | hostTick => trivial
  | dhcpBound ipAddr => trivial
  | hostSend d n => trivial

end

/-- **Start-up.** In every interleaving in which the ARM7 forwards data packets only when lwIP is
started or the `AP_MAC` message is queued, every data packet is handled by the ARM9 after
`wifi_host_lwip_init` has completed. -/
theorem pktdata_after_lwip_init (P : Platform) (cfg : HostCfg) (es : List SysEvent)
    (h : Run.Along (sysStep P cfg) ForwardsAfterApMac .init es) :
    Run.Along (sysStep P cfg) PktdataAfterInit .init es := by
  have hinit : Starts .init := ⟨trivial, fun h => absurd h (by simp [Sys.init, Host.init])⟩
  exact Run.along_of_inv (fun s e hs hf => starts_step hs hf)
    (fun s e hs _ => pktdataAfterInit_of_starts hs) hinit h

/-! ## The condition is needed -/

/-- A packet that is queued behind no `AP_MAC` message reaches a host without lwIP. -/
theorem not_along_of_queued {P : Platform} {cfg : HostCfg} {q : List IpcInt}
    (hq : ∀ m ∈ q, ¬m.IsApMac) {s : Sys} {d n : ℕ} {rest : List IpcInt}
    (hfifo : s.toArm9 = q ++ .pktdata d n :: rest) (hinit : s.host.bLwipInitted = false) :
    ¬Run.Along (sysStep P cfg) PktdataAfterInit s (List.replicate (q.length + 1) .arm9) := by
  induction q generalizing s with
  | nil =>
    rintro ⟨h, -⟩
    have hready := h (.pktdata d n) (by rw [hfifo]; rfl) trivial
    rw [hinit] at hready
    exact absurd hready.1 (by simp)
  | cons m q ih =>
    obtain ⟨hm, hrest⟩ := List.forall_mem_cons.1 hq
    rintro ⟨-, h⟩
    have hstep : sysStep P cfg s .arm9 =
        { s with
          host := (wifiHostHandleMsg cfg s.host m).1
          toArm9 := q ++ .pktdata d n :: rest
          toArm7 := s.toArm7 ++ sends (wifiHostHandleMsg cfg s.host m).2 } := by
      unfold sysStep arm9Step
      rw [hfifo]
      rfl
    rw [hstep] at h
    refine ih hrest rfl ?_ h
    change (wifiHostHandleMsg cfg s.host m).1.bLwipInitted = false
    rw [bLwipInitted_wifiHostHandleMsg, hinit]
    cases m with
    | apMac mac => exact absurd trivial hm
    | ready => rfl
    | connect => rfl
    | deviceMac mac => rfl
    | pktdata d' n' => rfl

/-- A packet that is forwarded too early is handled too early, when the ARM9 goes on handling its
messages before the ARM7 does anything else. -/
theorem exists_pktdata_before_lwip_init (P : Platform) (cfg : HostCfg) {s : Sys} {e : SysEvent}
    (h : ¬ForwardsAfterApMac s e) :
    ∃ n, ¬Run.Along (sysStep P cfg) PktdataAfterInit s (e :: List.replicate n .arm9) := by
  cases e with
  | card e =>
    unfold ForwardsAfterApMac at h
    push Not at h
    obtain ⟨hi, he, hinit, hap⟩ := h
    cases e with
    | data addr pkt len env =>
      have hstep : sysStep P cfg s (.card (.data addr pkt len env)) =
          { s with
            wmi := step P s.wmi (.data addr pkt len env)
            toArm9 := s.toArm9 ++ [.pktdata addr (min len (0x600 - 6))] } := by
        have hout : (drive P s.wmi (.data addr pkt len env)).2 =
            [.ipc (.pktdata addr (min len (0x600 - 6)))] := by
          change (dataHandlePkt P.crypto s.wmi addr pkt len env).2 = _
          unfold dataHandlePkt
          rw [if_neg he]
        change cardStep P s _ = _
        unfold cardStep
        rw [if_pos hi, hout]
        rfl
      refine ⟨s.toArm9.length + 1, fun hrun => ?_⟩
      have htail := hrun.2
      rw [hstep] at htail
      exact not_along_of_queued hap rfl (by simpa using hinit) htail
    | tick past => exact absurd he id
    | scan => exact absurd he id
    | wmi pktCmd pkt len => exact absurd he id
  | arm7 => exact absurd trivial h
  | arm9 => exact absurd trivial h
  | hostTick => exact absurd trivial h
  | dhcpBound ipAddr => exact absurd trivial h
  | hostSend d n => exact absurd trivial h

/-! ### Sample runs -/

/-- The network `ab`, configured and announced without security. -/
def openPlatform : Platform :=
  { samplePlatform with
    nvram := nvramOf { passphraseSlot with pass := zeros 0x40, wpaType := 0 } unusedSlot }

def openBeacon : Event := .wmi wmiBssInfoEvent (.ofList (beacon 0x30 0 ssidAb) 0) 32

def sampleHostCfg : HostCfg := ⟨true, true, 0⟩

/-- A broadcast frame. -/
def dataEvent : Event := .data 6 (fun _ => 0xFF) 0x40 ⟨zeros 32, fun _ => 0⟩

/-- The card starts, finds the open network `ab` and connects to it. -/
def connectToOpen : List SysEvent :=
  .arm7 :: (scanHearing openBeacon ++ [.tick 0, connectEvent]).map .card

/-- The round trip to the ARM7 is over before the first data packet. -/
theorem pktdata_after_lwip_init_sample :
    Run.Along (sysStep openPlatform sampleHostCfg) PktdataAfterInit .init
      (connectToOpen ++ [.arm9, .arm9, .arm7, .arm7, .card dataEvent, .arm9, .arm9, .arm9]) :=
  pktdata_after_lwip_init _ _ _ (by decide +kernel)

/-- A data packet right after the association is handled before lwIP is started. -/
theorem pktdata_before_lwip_init_counterexample :
    ¬∀ (P : Platform) (cfg : HostCfg) (es : List SysEvent),
      Run.Along (sysStep P cfg) PktdataAfterInit .init es := by
  intro h
  have hrun := h openPlatform sampleHostCfg
    (connectToOpen ++ [.card dataEvent, .arm9, .arm9, .arm9])
  revert hrun
  decide +kernel

end DsiWifi
