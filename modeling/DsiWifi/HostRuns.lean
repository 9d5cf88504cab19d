import DsiWifi.Host
import DsiWifi.Lib.Run

/-!
# Runs of the host

The host takes messages of the ARM7 and timer ticks in any order.  `Acts` says once what a step can
do with lwIP: nothing, note a `CONNECT`, create the interface, or restart DHCP.

The interface is created by the first `AP_MAC` message and by nothing else; a later one restarts
DHCP exactly when a `CONNECT` arrived since DHCP was last started (`interface_created_once`).  The
tick restarts DHCP without looking at the interface as long as its address is zero, so it does so
after a thousand ticks without a connection (`live_calls_iff`).
-/

namespace DsiWifi

/-- What the host reacts to.  A message that is too short or has an unknown command is `ignored`;
`address` is lwIP giving the interface an address. -/
inductive HostEvent
  | msg (m : IpcInt)
  | ignored
  | tick
  | address (ipAddr : ℕ)

section

variable (cfg : HostCfg)

def hostDrive (h : Host) : HostEvent → Host × List HostOut
  | .msg m => wifiHostHandleMsg cfg h m
  | .ignored => (h, [])
  | .tick => wifiHostTick cfg h
  | .address ipAddr => (if h.bLwipInitted then { h with ipAddr := ipAddr } else h, [])

/-- The host after an event. -/
def hostStep (h : Host) (e : HostEvent) : Host := (hostDrive cfg h e).1

/-- The host after a run from `wifi_host_init`. -/
abbrev hostRun (es : List HostEvent) : Host := Run.exec (hostStep cfg) .init es

end

/-! ## What a step does -/

/-- The calls the host makes into lwIP and into the application. -/
def HostOut.IsCall : HostOut → Prop
  | .send _ | .dataSendToLwip _ _ => False
  | _ => True

/-- The emissions of a restart of DHCP. -/
def restartCalls (cfg : HostCfg) : List HostOut :=
  (if cfg.pfnReconnectHandler then [.reconnectHandler] else []) ++ [.dhcpStart]

/-- The emissions of the creation of the interface. -/
def createCalls (cfg : HostCfg) (mac : Bytes 6) : List HostOut :=
  [.lwipInit, .netifAdd mac, .dhcpStart] ++ if cfg.pfnConnectHandler then [.connectHandler] else []

/-- The test of `wifi_host_tick` for an interface without an address. -/
def Host.Prodded (h : Host) : Prop :=
  h.bLwipInitted = true ∧ h.ipAddr = 0xFFFFFFFF ∨ h.ipAddr = 0

instance (h : Host) : Decidable h.Prodded := by unfold Host.Prodded; infer_instance

/-- What a step does with lwIP. -/
inductive Acts (cfg : HostCfg) (h : Host) : HostEvent → Host × List HostOut → Prop
  | quiet {e : HostEvent} {h' : Host} {out : List HostOut}
      (lwip : h'.bLwipInitted = h.bLwipInitted) (renew : h'.bNeedsDHCPRenew = h.bNeedsDHCPRenew)
      (calls : ∀ o ∈ out, ¬o.IsCall) (notConnect : e ≠ .msg .connect)
      (apMac : ∀ mac, e = .msg (.apMac mac) → h.bLwipInitted = true ∧ h.bNeedsDHCPRenew = false ∧
        h' = { h with apMac := mac } ∧ out = []) : Acts cfg h e (h', out)
  | connect : Acts cfg h (.msg .connect) ({ h with bNeedsDHCPRenew := true }, [])
  | create (mac : Bytes 6) (h' : Host) (notYet : h.bLwipInitted = false)
      (lwip : h'.bLwipInitted = true) (renew : h'.bNeedsDHCPRenew = false) :
      Acts cfg h (.msg (.apMac mac)) (h', createCalls cfg h.deviceMac)
  | restart {e : HostEvent} (h' : Host)
      (cause : (∃ mac, e = .msg (.apMac mac) ∧ h.bLwipInitted = true ∧ h.bNeedsDHCPRenew = true) ∨
        e = .tick ∧ h.secCnt = 1000 ∧ h.Prodded)
      (lwip : h'.bLwipInitted = h.bLwipInitted) (renew : h'.bNeedsDHCPRenew = false) :
      Acts cfg h e (h', restartCalls cfg)

theorem acts_apMac (cfg : HostCfg) (h : Host) (mac : Bytes 6) :
    Acts cfg h (.msg (.apMac mac)) (wifiHostHandleMsg cfg h (.apMac mac)) := by
  unfold wifiHostHandleMsg wifiHostLwipInit
  dsimp only
  by_cases hi : h.bLwipInitted = true
  · rw [if_pos hi]
    by_cases hr : h.bNeedsDHCPRenew = true
    · rw [if_pos hr]
      exact .restart _ (Or.inl ⟨mac, rfl, hi, hr⟩) rfl rfl
    · rw [if_neg hr]
      refine .quiet rfl rfl (by simp) (by simp) ?_
      rintro _ ⟨⟩
      exact ⟨hi, by simpa using hr, rfl, rfl⟩
  · rw [if_neg hi]
    exact .create mac _ (by simpa using hi) rfl rfl

theorem acts_tick (cfg : HostCfg) (h : Host) : Acts cfg h .tick (wifiHostTick cfg h) := by
  unfold wifiHostTick
  by_cases hs : h.secCnt = 1000
  · rw [if_pos hs]
    dsimp only
    by_cases hp : h.Prodded
    · have hp' : h.bLwipInitted = true ∧ h.ipAddr = 0xFFFFFFFF ∨ h.ipAddr = 0 := hp
      rw [if_pos hp']
      exact .restart _ (Or.inr ⟨rfl, hs, hp⟩) rfl rfl
    · have hp' : ¬(h.bLwipInitted = true ∧ h.ipAddr = 0xFFFFFFFF ∨ h.ipAddr = 0) := hp
      rw [if_neg hp']
      exact .quiet rfl rfl (by simp) (by simp) (by simp)
  · rw [if_neg hs]
    exact .quiet rfl rfl (by simp) (by simp) (by simp)

/-- Every step acts as `Acts` says. -/
theorem acts_hostDrive (cfg : HostCfg) (h : Host) (e : HostEvent) :
    Acts cfg h e (hostDrive cfg h e) := by
  cases e with
  | msg m =>
    cases m with
    | apMac mac => exact acts_apMac cfg h mac
    | connect => exact .connect
    | ready => exact .quiet rfl rfl (by simp [HostOut.IsCall]) (by simp) (by simp)
    | deviceMac mac => exact .quiet rfl rfl (by simp) (by simp) (by simp)
    | pktdata d n => exact .quiet rfl rfl (by simp [HostOut.IsCall]) (by simp) (by simp)
  | ignored => exact .quiet rfl rfl (by simp) (by simp) (by simp)
  | tick => exact acts_tick cfg h
  | address ipAddr =>
    unfold hostDrive
    split_ifs
    · exact .quiet rfl rfl (by simp) (by simp) (by simp)
    · exact .quiet rfl rfl (by simp) (by simp) (by simp)

section

variable {cfg : HostCfg}

@[simp] theorem dhcpStart_mem_restartCalls : HostOut.dhcpStart ∈ restartCalls cfg := by
  simp [restartCalls]

@[simp] theorem dhcpStart_mem_createCalls (mac : Bytes 6) :
    HostOut.dhcpStart ∈ createCalls cfg mac := by
  simp [createCalls]

/-- lwIP is started by an `AP_MAC` message. -/
theorem hostStep_bLwipInitted (h : Host) (e : HostEvent) :
    (hostStep cfg h e).bLwipInitted = true ↔
      h.bLwipInitted = true ∨ ∃ mac, e = .msg (.apMac mac) := by
  have ha := acts_hostDrive cfg h e
  unfold hostStep
  generalize hostDrive cfg h e = r at ha ⊢
  cases ha with
  | quiet lwip _ _ _ apMac =>
    dsimp only
    rw [lwip]
    refine ⟨Or.inl, fun hi => hi.elim id ?_⟩
    rintro ⟨mac, he⟩
    exact (apMac mac he).1
  | connect => simp
  | create mac h' _ lwip => exact iff_of_true lwip (Or.inr ⟨mac, rfl⟩)
  | restart h' cause lwip =>
    dsimp only
    rw [lwip]
    refine ⟨Or.inl, fun hi => hi.elim id ?_⟩
    rintro ⟨mac, rfl⟩
    rcases cause with ⟨_, -, hi, -⟩ | ⟨he, -⟩
    · exact hi
    · exact absurd he (by simp)

variable (cfg) in
theorem hostRun_bLwipInitted (es : List HostEvent) :
    (hostRun cfg es).bLwipInitted = true ↔ ∃ mac, .msg (.apMac mac) ∈ es := by
  induction es using List.reverseRecOn with
  | nil => simp [Host.init]
  | append_singleton es e ih =>
    rw [hostRun, Run.exec_concat, hostStep_bLwipInitted, ih]
    simp only [List.mem_append, List.mem_singleton, exists_or, eq_comm]

end

/-! ## Creation and renewals -/

/-- The step calls `dhcp_start`. -/
def StartsDhcp (cfg : HostCfg) (h : Host) (e : HostEvent) : Prop :=
  HostOut.dhcpStart ∈ (hostDrive cfg h e).2

/-- A `CONNECT` message arrived after the latest call of `dhcp_start`. -/
def ConnectSinceDhcp (cfg : HostCfg) (es : List HostEvent) : Prop :=
  Run.Since (hostStep cfg) (fun _ e => e = .msg .connect) (StartsDhcp cfg) .init es

theorem hostStep_bNeedsDHCPRenew (cfg : HostCfg) (h : Host) (e : HostEvent) :
    (hostStep cfg h e).bNeedsDHCPRenew = true ↔
      e = .msg .connect ∨ ¬StartsDhcp cfg h e ∧ h.bNeedsDHCPRenew = true := by
  have ha := acts_hostDrive cfg h e
  unfold hostStep StartsDhcp
  generalize hostDrive cfg h e = r at ha ⊢
  cases ha with
  | quiet _ renew calls notConnect _ =>
    dsimp only
    rw [renew]
    refine ⟨fun hr => Or.inr ⟨fun hm => calls _ hm trivial, hr⟩, fun hr => ?_⟩
    exact hr.elim (fun he => absurd he notConnect) fun hr => hr.2
  | connect => simp
  | create mac h' _ _ renew => simp [renew]
  | restart h' cause _ renew =>
    have hne : e ≠ .msg .connect := by
      rintro rfl
      simp at cause
    simp [renew, hne]

/-- `host_bNeedsDHCPRenew` tells whether a `CONNECT` arrived since DHCP was started. -/
theorem hostRun_bNeedsDHCPRenew (cfg : HostCfg) (es : List HostEvent) :
    (hostRun cfg es).bNeedsDHCPRenew = true ↔ ConnectSinceDhcp cfg es :=
  Run.since_iff_of_step (f := fun h : Host => h.bNeedsDHCPRenew = true) (by simp [Host.init])
    (hostStep_bNeedsDHCPRenew cfg) es

/-- The calls that create the interface are made by an `AP_MAC` message before lwIP is started. -/
theorem creates_only_first {cfg : HostCfg} {h : Host} {e : HostEvent} {o : HostOut}
    (ho : o ∈ (hostDrive cfg h e).2)
    (hc : o = .lwipInit ∨ (∃ mac, o = .netifAdd mac) ∨ o = .connectHandler) :
    h.bLwipInitted = false ∧ ∃ mac, e = .msg (.apMac mac) := by
  have hno : o ∉ restartCalls cfg := by
    unfold restartCalls
    rcases hc with rfl | ⟨mac, rfl⟩ | rfl <;> split_ifs <;> simp
  have ha := acts_hostDrive cfg h e
  generalize hostDrive cfg h e = r at ha ho
  cases ha with
  | quiet _ _ calls _ _ =>
    refine absurd ?_ (calls o ho)
    rcases hc with rfl | ⟨mac, rfl⟩ | rfl <;> trivial
  | connect => simp at ho
  | create mac h' notYet => exact ⟨notYet, mac, rfl⟩
  | restart => exact absurd ho hno

/-- **The interface is created once.** On every run, `lwip_init`, `netif_add` and the connect handler
are called by the first `AP_MAC` message and by no other step.  A later `AP_MAC` message calls the
reconnect handler and `dhcp_start` when a `CONNECT` arrived since the latest `dhcp_start`, and else
does nothing but note the address. -/
theorem interface_created_once (cfg : HostCfg) (es : List HostEvent) (e : HostEvent) :
    (∀ o ∈ (hostDrive cfg (hostRun cfg es) e).2,
        o = .lwipInit ∨ (∃ mac, o = .netifAdd mac) ∨ o = .connectHandler →
          (∃ mac, e = .msg (.apMac mac)) ∧ ∀ mac, .msg (.apMac mac) ∉ es) ∧
      ∀ mac, e = .msg (.apMac mac) →
        ((∀ mac', .msg (.apMac mac') ∉ es) →
          (hostDrive cfg (hostRun cfg es) e).2 = createCalls cfg (hostRun cfg es).deviceMac) ∧
        ((∃ mac', .msg (.apMac mac') ∈ es) → ConnectSinceDhcp cfg es →
          (hostDrive cfg (hostRun cfg es) e).2 = restartCalls cfg) ∧
        ((∃ mac', .msg (.apMac mac') ∈ es) → ¬ConnectSinceDhcp cfg es →
          hostDrive cfg (hostRun cfg es) e = ({ hostRun cfg es with apMac := mac }, [])) := by
  constructor
  · intro o ho hc
    obtain ⟨hi, he⟩ := creates_only_first ho hc
    refine ⟨he, fun mac hm => ?_⟩
    have hi' := (hostRun_bLwipInitted cfg es).2 ⟨mac, hm⟩
    rw [hi] at hi'
    exact absurd hi' (by simp)
  · rintro mac rfl
    rw [← hostRun_bNeedsDHCPRenew, ← hostRun_bLwipInitted cfg, ← not_exists,
      ← hostRun_bLwipInitted cfg]
    have ha := acts_hostDrive cfg (hostRun cfg es) (.msg (.apMac mac))
    generalize hostDrive cfg (hostRun cfg es) (.msg (.apMac mac)) = r at ha ⊢
    generalize hostRun cfg es = h at ha ⊢
    cases ha with
    | quiet _ _ _ _ apMac =>
      obtain ⟨hi, hr, rfl, rfl⟩ := apMac mac rfl
      exact ⟨fun hn => absurd hi hn, fun _ hr' => by simp [hr] at hr', fun _ _ => rfl⟩
    | create _ h' notYet =>
      exact ⟨fun _ => rfl, fun hi => by simp [notYet] at hi, fun hi => by simp [notYet] at hi⟩
    | restart h' cause =>
      rcases cause with ⟨_, -, hi, hr⟩ | ⟨he, -⟩
      · exact ⟨fun hn => absurd hi hn, fun _ _ => rfl, fun _ hn => absurd hr hn⟩
      · exact absurd he (by simp)

/-! ## Calls before the interface exists -/

/-- Every `dhcp_start` and reconnect handler of the step is called on a live interface: lwIP was
started before, or `lwip_init` and `netif_add` were called earlier in the same step. -/
def LiveCalls (cfg : HostCfg) (h : Host) (e : HostEvent) : Prop :=
  ∀ pre o post, (hostDrive cfg h e).2 = pre ++ o :: post →
    o = .dhcpStart ∨ o = .reconnectHandler →
      h.bLwipInitted = true ∨ HostOut.lwipInit ∈ pre ∧ ∃ mac, HostOut.netifAdd mac ∈ pre

/-- The ticks before the first `AP_MAC` message. -/
def ticksBeforeApMac : List HostEvent → ℕ
  | [] => 0
  | .msg (.apMac _) :: _ => 0
  | .tick :: es => ticksBeforeApMac es + 1
  | _ :: es => ticksBeforeApMac es

theorem ticksBeforeApMac_replicate (n : ℕ) :
    ticksBeforeApMac (List.replicate n .tick) = n := by
  induction n with
  | zero => rfl
  | succ n ih => rw [List.replicate_succ, ticksBeforeApMac, ih]

theorem liveCalls_of_no_call {cfg : HostCfg} {h : Host} {e : HostEvent}
    (hno : ∀ o ∈ (hostDrive cfg h e).2, ¬o.IsCall) : LiveCalls cfg h e := by
  intro pre o post hout ho
  have hm : o ∈ (hostDrive cfg h e).2 := by
    rw [hout]
    simp
  refine absurd ?_ (hno o hm)
  rcases ho with rfl | rfl <;> trivial

/-- The creation of the interface starts DHCP after `netif_add`. -/
theorem liveCalls_create {cfg : HostCfg} {h : Host} (mac : Bytes 6)
    (hi : h.bLwipInitted = false) : LiveCalls cfg h (.msg (.apMac mac)) := by
  intro pre o post hout ho
  have hcalls : (hostDrive cfg h (.msg (.apMac mac))).2 = createCalls cfg h.deviceMac := by
    simp [hostDrive, wifiHostHandleMsg, wifiHostLwipInit, createCalls, hi]
  rw [hcalls] at hout
  right
  rcases pre with _ | ⟨a, _ | ⟨b, pre⟩⟩
  · -- neither of the first two calls is one of those
    simp only [createCalls, List.cons_append, List.nil_append, List.cons.injEq] at hout
    rcases ho with rfl | rfl <;> simp at hout
  · simp only [createCalls, List.cons_append, List.nil_append, List.cons.injEq] at hout
    rcases ho with rfl | rfl <;> simp at hout
  · simp only [createCalls, List.cons_append, List.nil_append, List.cons.injEq] at hout
    obtain ⟨rfl, rfl, -⟩ := hout
    simp

/-- Once lwIP is started, every call is on a live interface. -/
theorem along_liveCalls_of_initted {cfg : HostCfg} {h : Host} (hi : h.bLwipInitted = true)
    (es : List HostEvent) : Run.Along (hostStep cfg) (LiveCalls cfg) h es := by
  induction es generalizing h with
  | nil => trivial
  | cons e es ih =>
    refine ⟨fun _ _ _ _ _ => Or.inl hi, ih ?_⟩
    exact (hostStep_bLwipInitted h e).2 (Or.inl hi)

/-- The tick at which the counter wraps calls `dhcp_start` on an interface without an address. -/
theorem not_liveCalls_tick {cfg : HostCfg} {h : Host} (hi : h.bLwipInitted = false)
    (hip : h.ipAddr = 0) (hs : h.secCnt = 1000) : ¬LiveCalls cfg h .tick := by
  intro hlive
  have hcalls : (hostDrive cfg h .tick).2 = restartCalls cfg := by
    simp [hostDrive, wifiHostTick, restartDhcp, restartCalls, hs, hip]
  have hno : HostOut.lwipInit ∉
      (if cfg.pfnReconnectHandler then [HostOut.reconnectHandler] else []) := by
    split_ifs <;> simp
  rcases hlive _ _ [] hcalls (Or.inl rfl) with h | ⟨h, -⟩
  · rw [hi] at h
    exact absurd h (by simp)
  · exact hno h

/-- The run before lwIP is started, from any value of the counter. -/
theorem along_liveCalls_iff {cfg : HostCfg} {h : Host} (hi : h.bLwipInitted = false)
    (hip : h.ipAddr = 0) (hs : h.secCnt ≤ 1000) (es : List HostEvent) :
    Run.Along (hostStep cfg) (LiveCalls cfg) h es ↔ h.secCnt + ticksBeforeApMac es ≤ 1000 := by
  induction es generalizing h with
  | nil => simpa [ticksBeforeApMac] using hs
  | cons e es ih =>
    rw [Run.along_cons]
    cases e with
    | msg m =>
      cases m with
      | apMac mac =>
        refine iff_of_true ⟨liveCalls_create mac hi, along_liveCalls_of_initted ?_ es⟩ hs
        exact (hostStep_bLwipInitted h _).2 (Or.inr ⟨mac, rfl⟩)
      | ready =>
        refine (and_iff_right (liveCalls_of_no_call ?_)).trans (ih hi hip hs)
        simp [hostDrive, wifiHostHandleMsg, HostOut.IsCall]
      | connect =>
        refine (and_iff_right (liveCalls_of_no_call ?_)).trans (ih hi hip hs)
        simp [hostDrive, wifiHostHandleMsg]
      | deviceMac mac =>
        refine (and_iff_right (liveCalls_of_no_call ?_)).trans (ih hi hip hs)
        simp [hostDrive, wifiHostHandleMsg]
      | pktdata d n =>
        refine (and_iff_right (liveCalls_of_no_call ?_)).trans (ih hi hip hs)
        simp [hostDrive, wifiHostHandleMsg, HostOut.IsCall]
    | ignored =>
      exact (and_iff_right (liveCalls_of_no_call (by simp [hostDrive]))).trans (ih hi hip hs)
    | tick =>
      by_cases hw : h.secCnt = 1000
      · refine iff_of_false (fun hlive => not_liveCalls_tick hi hip hw hlive.1) ?_
        change ¬h.secCnt + (ticksBeforeApMac es + 1) ≤ 1000
        omega
      · have hstep : hostDrive cfg h .tick = ({ h with secCnt := h.secCnt + 1 }, []) := by
          simp [hostDrive, wifiHostTick, hw]
        have hlive : LiveCalls cfg h .tick := liveCalls_of_no_call (by simp [hstep])
        rw [and_iff_right hlive, hostStep, hstep]
        refine (ih (h := { h with secCnt := h.secCnt + 1 }) hi hip ?_).trans ?_
        · change h.secCnt + 1 ≤ 1000
          omega
        change h.secCnt + 1 + _ ≤ 1000 ↔ h.secCnt + (ticksBeforeApMac es + 1) ≤ 1000
        omega
    | address ipAddr =>
      have hstep : hostDrive cfg h (.address ipAddr) = (h, []) := by simp [hostDrive, hi]
      have hlive : LiveCalls cfg h (.address ipAddr) := liveCalls_of_no_call (by simp [hstep])
      rw [and_iff_right hlive, hostStep, hstep]
      exact ih hi hip hs

/-- **Calls on a live interface.** Every `dhcp_start` and every reconnect handler of a run is called
on a live interface if and only if at most 1000 ticks come before the first `AP_MAC` message. -/
theorem live_calls_iff (cfg : HostCfg) (es : List HostEvent) :
    Run.Along (hostStep cfg) (LiveCalls cfg) .init es ↔ ticksBeforeApMac es ≤ 1000 := by
  rw [along_liveCalls_iff rfl rfl (Nat.zero_le _)]
  simp [Host.init]

/-- After 1001 ticks without a connection, `dhcp_start` is called before `lwip_init`. -/
theorem live_calls_counterexample :
    ¬∀ (cfg : HostCfg) (es : List HostEvent),
      Run.Along (hostStep cfg) (LiveCalls cfg) .init es := by
  intro h
  have hticks := (along_liveCalls_iff rfl rfl (Nat.zero_le _) _).1
    (h ⟨true, true, 0⟩ (List.replicate 1001 .tick))
  rw [ticksBeforeApMac_replicate] at hticks
  exact absurd hticks (by decide)

end DsiWifi
