import DsiWifi.Wmi.DriverSpec

/-!
# Pairwise keys over a run

`device_ptk` is written by message 1 only (`step_devicePtk`) and read by every message 3 and group
message (`cipherKeys_data`), whatever was answered or installed before.  So the keys that are
installed are those of the last message 1 of the run (`installed_keys_of_last_message1`), and a
pairwise key is installed once for each key message that follows its message 1
(`pairwise_installed_once_iff`).
-/

namespace DsiWifi

open ApSecurityType ApCipherType

/-! ## Frames and commands -/

/-- The key information of the EAPOL-Key frame an event carries. -/
def Event.keyinfo : Event → Option ℕ
  | .data _ pkt _ _ => if IsEapol pkt then some (authKeyinfo (snapBody pkt)) else none
  | _ => none

/-- Handshake message 1. -/
def Event.IsMessage1 (e : Event) : Prop := e.keyinfo = some 0x008A

/-- Handshake message 3 or a group message. -/
def Event.IsKeyMessage (e : Event) : Prop := e.keyinfo = some 0x13CA ∨ e.keyinfo = some 0x1382

instance (e : Event) : Decidable e.IsMessage1 := by unfold Event.IsMessage1; infer_instance

instance (e : Event) : Decidable e.IsKeyMessage := by unfold Event.IsKeyMessage; infer_instance

/-- The pairwise key that answering the event derives, when it is a message 1. -/
def Event.derivedPtk (C : Crypto) (ap : Ap) : Event → PtkKeyinfo
  | .data _ pkt _ env => answerPtk C ap (snapBody pkt) (arrayAt pkt 2 6) (arrayAt pkt 8 6) env
  | _ => .zero

/-- The `ADD_CIPHER_KEY` commands among the emissions. -/
def cipherKeys (out : List Out) : List CipherKey :=
  out.filterMap fun o => match o with
    | .wmi (.addCipherKey k) => some k
    | _ => none

/-- Those with usage 0, which install a pairwise key. -/
def pairwiseKeys (out : List Out) : List CipherKey := (cipherKeys out).filter (·.keyUsage = 0)

/-- The pairwise command of `wmi_post_handshake`. -/
def pairwiseCmd (ap : Ap) (ptk : PtkKeyinfo) : CipherKey := wmiAddCipherKey ap 0 0 ptk.tk.toList none

/-- The group command of `wmi_post_handshake`. -/
def groupCmd (ap : Ap) (gtk : GtkKeyinfo) (rsc : Bytes 8) : CipherKey :=
  wmiAddCipherKey ap gtk.keyidx 1 gtk.key.toList (some rsc)

@[simp] theorem cipherKeys_append (a b : List Out) :
    cipherKeys (a ++ b) = cipherKeys a ++ cipherKeys b := List.filterMap_append

@[simp] theorem cipherKeys_data_cons (pkt : List UInt8) (out : List Out) :
    cipherKeys (.data pkt :: out) = cipherKeys out := rfl

/-! ## What a step derives and installs -/

theorem cipherKeys_wmiPostHandshake_some (ap : Ap) (k : PostKeys) :
    cipherKeys (wmiPostHandshake ap (some k)) =
      if ap.securityType = apWpa2 then
        [wmiAddCipherKey ap 0 0 k.tk.toList none, groupCmd ap k.gtkInfo k.rsc]
      else [] := by
  unfold wmiPostHandshake
  by_cases h : ap.securityType = apWpa2
  · simp only [h, if_true]
    rfl
  · simp only [h, if_false]
    rfl

/-- Connecting installs WEP keys only, and none of them is pairwise. -/
theorem pairwiseKeys_wmiConnect (ap : Ap) : pairwiseKeys (wmiConnect ap) = [] := by
  unfold pairwiseKeys wmiConnect wmiConnectCmd
  rw [cipherKeys_append]
  cases ap.securityType with
  | apOpen => rfl
  | apWep => rfl
  | apWpa => rfl
  | apWpa2 => rfl

theorem cipherKeys_wmiScanNext (s : Wmi) (past : UInt16) :
    cipherKeys (wmiScanNext s past).2 = [] := by
  rw [wmiScanNext_snd]
  split_ifs <;> rfl

theorem cipherKeys_wmiHandlePkt (P : Platform) (s : Wmi) (pktCmd : ℕ) (pkt : Mem UInt8) (len : ℕ) :
    cipherKeys (wmiHandlePkt P s pktCmd pkt len).2 = [] := by
  apply List.filterMap_eq_nil_iff.2
  intro o ho
  rcases mem_wmiHandlePkt ho with h | ⟨-, rfl | rfl⟩
  · cases o with
    | wmi cmd =>
      cases cmd with
      | addCipherKey k => exact h.elim
      | _ => rfl
    | _ => rfl
  · rfl
  · rfl

/-- The group key that the event carries under the pairwise key `ptk`. -/
def Event.gtk (C : Crypto) (ptk : PtkKeyinfo) : Event → GtkKeyinfo
  | .data _ pkt _ env => carriedGtk C ptk (snapBody pkt) env
  | _ => .zero

def Event.rsc : Event → Bytes 8
  | .data _ pkt _ _ => authRsc (snapBody pkt)
  | _ => zeros 8

theorem cipherKeys_dataHandleAuth (C : Crypto) (s : Wmi) (pkt : Mem UInt8)
    (devBssid apBssid : Bytes 6) (env : AuthEnv) :
    cipherKeys (dataHandleAuth C s pkt devBssid apBssid env).2 =
      if (authKeyinfo pkt = 0x13CA ∨ authKeyinfo pkt = 0x1382) ∧ s.ap.securityType = apWpa2 then
        [pairwiseCmd s.ap s.keys.devicePtk,
          groupCmd s.ap (carriedGtk C s.keys.devicePtk pkt env) (authRsc pkt)]
      else [] := by
  rcases dataHandleAuth_snd s C pkt devBssid apBssid env with ⟨hn, hout⟩ | ⟨hk, f, hout⟩
  · rw [if_neg fun h => hn h.1]
    rcases hout with hout | ⟨f, hout⟩
    · rw [hout]
      rfl
    · rw [hout]
      rfl
  · rw [hout]
    rw [cipherKeys_data_cons, cipherKeys_wmiPostHandshake_some]
    simp only [hk, true_and]
    rfl

theorem isKeyMessage_data {addr : ℕ} {pkt : Mem UInt8} {len : ℕ} {env : AuthEnv} :
    (Event.data addr pkt len env).IsKeyMessage ↔
      IsEapol pkt ∧ (authKeyinfo (snapBody pkt) = 0x13CA ∨ authKeyinfo (snapBody pkt) = 0x1382) := by
  unfold Event.IsKeyMessage Event.keyinfo
  by_cases he : IsEapol pkt <;> simp [he]

/-- A key message installs the current pairwise key and the group key it carries, in any state
with WPA2; no other data packet installs a key. -/
theorem cipherKeys_data (P : Platform) (s : Wmi) (addr : ℕ) (pkt : Mem UInt8) (len : ℕ)
    (env : AuthEnv) :
    let e := Event.data addr pkt len env
    cipherKeys (drive P s e).2 =
      if e.IsKeyMessage ∧ s.ap.securityType = apWpa2 then
        [pairwiseCmd s.ap s.keys.devicePtk,
          groupCmd s.ap (e.gtk P.crypto s.keys.devicePtk) e.rsc]
      else [] := by
  change cipherKeys (dataHandlePkt P.crypto s addr pkt len env).2 = _
  unfold dataHandlePkt
  simp only [isKeyMessage_data]
  by_cases he : IsEapol pkt
  · rw [if_pos he, cipherKeys_dataHandleAuth]
    simp only [he, true_and]
    rfl
  · simp only [he, if_false, false_and]
    rfl

/-- The pairwise keys a step installs. -/
theorem pairwiseKeys_drive (P : Platform) (s : Wmi) (e : Event) :
    pairwiseKeys (drive P s e).2 =
      if e.IsKeyMessage ∧ s.ap.securityType = apWpa2 then [pairwiseCmd s.ap s.keys.devicePtk]
      else [] := by
  cases e with
  | tick past =>
    rw [if_neg (by simp [Event.IsKeyMessage, Event.keyinfo])]
    change pairwiseKeys (wmiTick s past).2 = []
    rcases wmiTick_cases s past with ⟨h, -⟩ | ⟨-, -, -, -, h⟩ | ⟨-, h⟩
    · rw [h]
      rfl
    · rw [h]
      exact pairwiseKeys_wmiConnect s.ap
    · rw [h, pairwiseKeys, cipherKeys_wmiScanNext]
      rfl
  | scan =>
    rw [if_neg (by simp [Event.IsKeyMessage, Event.keyinfo])]
    unfold drive
    split_ifs <;> rfl
  | wmi pktCmd pkt len =>
    rw [if_neg (by simp [Event.IsKeyMessage, Event.keyinfo])]
    change pairwiseKeys (wmiHandlePkt P s pktCmd pkt len).2 = []
    rw [pairwiseKeys, cipherKeys_wmiHandlePkt]
    rfl
  | data addr pkt len env =>
    rw [pairwiseKeys, cipherKeys_data]
    split_ifs <;> rfl

theorem wmiHandlePkt_keys (P : Platform) (s : Wmi) (pktCmd : ℕ) (pkt : Mem UInt8) (len : ℕ) :
    (wmiHandlePkt P s pktCmd pkt len).1.keys = s.keys := by
  have hh := handles_wmi P s pktCmd pkt len
  generalize wmiHandlePkt P s pktCmd pkt len = r at hh ⊢
  cases hh with
  | noted => rfl
  | channelList => rfl
  | bssInfo =>
    obtain ⟨ap, found, done, out, h, -⟩ := wmiHandleBssInfo_frame P.nvram s pkt len
    rw [h]
  | connect => rfl
  | teardown => rfl

/-- Only message 1 changes the pairwise key. -/
theorem step_devicePtk (P : Platform) (s : Wmi) (e : Event) :
    (step P s e).keys.devicePtk =
      if e.IsMessage1 then e.derivedPtk P.crypto s.ap else s.keys.devicePtk := by
  cases e with
  | tick past =>
    rw [if_neg (by simp [Event.IsMessage1, Event.keyinfo])]
    change (wmiTick s past).1.keys.devicePtk = _
    rcases wmiTick_cases s past with ⟨h, -⟩ | ⟨-, -, -, -, h⟩ | ⟨-, h⟩
    · rw [h]
    · rw [h]
    · rw [h, wmiScanNext_keys]
  | scan =>
    rw [if_neg (by simp [Event.IsMessage1, Event.keyinfo])]
    unfold step drive
    split_ifs <;> rfl
  | wmi pktCmd pkt len =>
    rw [if_neg (by simp [Event.IsMessage1, Event.keyinfo])]
    change (wmiHandlePkt P s pktCmd pkt len).1.keys.devicePtk = _
    rw [wmiHandlePkt_keys]
  | data addr pkt len env =>
    change (dataHandlePkt P.crypto s addr pkt len env).1.keys.devicePtk = _
    unfold dataHandlePkt dataHandleAuth Event.IsMessage1 Event.keyinfo
    by_cases he : IsEapol pkt
    · rw [if_pos he]
      simp only [he, if_true, Option.some.injEq]
      split_ifs <;> rfl
    · rw [if_neg he]
      simp [he]

/-! ## Over a run -/

theorem devicePtk_of_no_message1 {P : Platform} {s : Wmi} {es : List Event}
    (h : ∀ e ∈ es, ¬e.IsMessage1) : (runFrom P s es).keys.devicePtk = s.keys.devicePtk := by
  induction es generalizing s with
  | nil => rfl
  | cons e es ih =>
    obtain ⟨he, hes⟩ := List.forall_mem_cons.1 h
    rw [runFrom, Run.exec_cons, ih hes, step_devicePtk, if_neg he]

/-- The pairwise key in use is that of the last message 1. -/
theorem devicePtk_of_last_message1 {P : Platform} {s : Wmi} {pre seg : List Event} {m : Event}
    (hm : m.IsMessage1) (h : ∀ e ∈ seg, ¬e.IsMessage1) :
    (runFrom P s (pre ++ m :: seg)).keys.devicePtk = m.derivedPtk P.crypto (runFrom P s pre).ap := by
  rw [runFrom, Run.exec_append_cons]
  have hseg := devicePtk_of_no_message1 (P := P) (s := step P (runFrom P s pre) m) h
  rw [runFrom] at hseg
  rw [hseg, step_devicePtk, if_pos hm]

/-- A run has a last message 1, or none. -/
theorem last_message1_or_none (es : List Event) :
    (∀ e ∈ es, ¬e.IsMessage1) ∨
      ∃ pre m seg, es = pre ++ m :: seg ∧ m.IsMessage1 ∧ ∀ e ∈ seg, ¬e.IsMessage1 := by
  induction es with
  | nil => exact Or.inl (by simp)
  | cons e es ih =>
    rcases ih with hnone | ⟨pre, m, seg, rfl, hm, hseg⟩
    · by_cases he : e.IsMessage1
      · exact Or.inr ⟨[], e, es, rfl, he, hnone⟩
      · exact Or.inl (List.forall_mem_cons.2 ⟨he, hnone⟩)
    · exact Or.inr ⟨e :: pre, m, seg, rfl, hm, hseg⟩

/-- The number of pairwise installations along a run. -/
def pairwiseInstalls (P : Platform) : Wmi → List Event → ℕ :=
  Run.total (step P) fun s e => (pairwiseKeys (drive P s e).2).length

/-- The number of message 3 and group frames that meet an access point with WPA2. -/
def keyMessages (P : Platform) : Wmi → List Event → ℕ :=
  Run.total (step P) fun s e => if e.IsKeyMessage ∧ s.ap.securityType = apWpa2 then 1 else 0

theorem pairwiseInstalls_eq_keyMessages (P : Platform) (s : Wmi) (es : List Event) :
    pairwiseInstalls P s es = keyMessages P s es := by
  refine Run.total_congr (fun s e => ?_) s es
  rw [pairwiseKeys_drive]
  split_ifs <;> rfl

/-- `n` counts at most one from each message 1 of the run up to any point before the next. -/
def OncePerMessage1 (P : Platform) (n : Wmi → List Event → ℕ) (s : Wmi) (es : List Event) : Prop :=
  ∀ pre m seg post, es = pre ++ m :: (seg ++ post) → m.IsMessage1 → (∀ e ∈ seg, ¬e.IsMessage1) →
    n (runFrom P s (pre ++ [m])) seg ≤ 1

/-- **Installations of a pairwise key.** Each pairwise key of a run is installed at most once if
and only if its message 1 is followed by at most one message 3 or group frame. -/
theorem pairwise_installed_once_iff (P : Platform) (s : Wmi) (es : List Event) :
    OncePerMessage1 P (pairwiseInstalls P) s es ↔ OncePerMessage1 P (keyMessages P) s es := by
  unfold OncePerMessage1
  simp only [pairwiseInstalls_eq_keyMessages]

/-! ### Sample frames -/

/-- A data packet with an EAPOL-Key frame without key data. -/
def authPkt (keyinfo replay : ℕ) : List UInt8 :=
  List.replicate 22 0 ++ [0x88, 0x8E] ++ [1, 3, 0, 95, 2] ++ putbe16 keyinfo ++ putbe16 16 ++
    putbe64 replay ++ List.replicate 82 0

def authEvent (keyinfo replay : ℕ) : Event :=
  .data 0 (.ofList (authPkt keyinfo replay) 0) 0x80 ⟨zeros 32, fun _ => 0⟩

/-- A beacon of the network `ab` with CCMP and PSK. -/
def wpa2Beacon : Event :=
  .wmi wmiBssInfoEvent (.ofList (beacon 0x30 0x10 (ssidAb ++ rsnCcmp 2)) 0) 54

def connectEvent : Event := .wmi wmiConnectEvent (fun _ => 0) 0

/-- The network `ab` in the first flash slot, with primitives that return zeros. -/
def samplePlatform : Platform where
  nvram := nvramOf passphraseSlot unusedSlot
  crypto := ⟨fun _ _ => zeros 20, fun _ _ => none⟩

/-- A repeated message 3 installs the pairwise key again. -/
theorem pairwise_installed_twice_counterexample :
    ¬∀ (P : Platform) (es : List Event), OncePerMessage1 P (pairwiseInstalls P) .init es := by
  intro h
  have := h samplePlatform
    [wpa2Beacon, connectEvent, authEvent 0x008A 1, authEvent 0x13CA 2, authEvent 0x13CA 3]
    [wpa2Beacon, connectEvent] (authEvent 0x008A 1) [authEvent 0x13CA 2, authEvent 0x13CA 3] []
    rfl (by decide +kernel) (by decide +kernel)
  revert this
  decide +kernel

/-! ## Associations -/

def Event.IsConnect : Event → Prop
  | .wmi pktCmd _ _ => pktCmd = wmiConnectEvent
  | _ => False

instance (e : Event) : Decidable e.IsConnect :=
  match e with
  | .wmi .. => inferInstanceAs (Decidable (_ = wmiConnectEvent))
  | .tick _ | .scan | .data .. => inferInstanceAs (Decidable False)

/-- The replay counter of the frame an event carries. -/
def Event.replay : Event → ℕ
  | .data _ pkt _ _ => authReplay (snapBody pkt)
  | _ => 0

/-- The event is a data packet that makes the driver install a key. -/
def Event.Installs (P : Platform) (s : Wmi) (e : Event) : Prop :=
  e.IsKeyMessage ∧ cipherKeys (drive P s e).2 ≠ []

/-- A message 1 has been answered since the last `CONNECT` event. -/
def AnsweredSinceConnect (es : List Event) : Prop :=
  ∃ pre m seg, es = pre ++ m :: seg ∧ m.IsMessage1 ∧ ∀ e ∈ seg, ¬e.IsConnect

/-- Every frame that installed a key since the last `CONNECT` event has a smaller counter. -/
def ReplayIncreases (P : Platform) (es : List Event) (replay : ℕ) : Prop :=
  ∀ pre f seg, es = pre ++ f :: seg → f.Installs P (runFrom P .init pre) →
    (∀ e ∈ seg, ¬e.IsConnect) → f.replay < replay

/-- The events are the same but for the bytes of the replay counter of an EAPOL-Key frame. -/
def Event.SameButReplay : Event → Event → Prop
  | .data addr pkt len env, .data addr' pkt' len' env' =>
    addr = addr' ∧ len = len' ∧ env = env' ∧ ∀ i, ¬(33 ≤ i ∧ i < 41) → pkt i = pkt' i
  | e, e' => e = e'

/-- Whatever the replay counter of a data packet is, it leads to the same state, and to the same
emissions behind the first. -/
theorem dataHandlePkt_congr_replay {C : Crypto} {s : Wmi} {addr len : ℕ} {pkt pkt' : Mem UInt8}
    {env : AuthEnv} (h : ∀ i, ¬(33 ≤ i ∧ i < 41) → pkt i = pkt' i) :
    (dataHandlePkt C s addr pkt len env).1 = (dataHandlePkt C s addr pkt' len env).1 ∧
      (dataHandlePkt C s addr pkt len env).2.tail =
        (dataHandlePkt C s addr pkt' len env).2.tail := by
  have heapol : IsEapol pkt ↔ IsEapol pkt' := by
    unfold IsEapol getbe16
    rw [h 22 (by omega), h (22 + 1) (by omega)]
  have haddr : ∀ a n, a + n ≤ 33 → arrayAt pkt a n = arrayAt pkt' a n := fun a n ha =>
    funext fun i => h _ (by omega)
  have hbody : ∀ i, ¬(9 ≤ i ∧ i < 17) → snapBody pkt i = snapBody pkt' i := fun i hi =>
    h _ (by omega)
  unfold dataHandlePkt
  rw [haddr 2 6 (by omega), haddr 8 6 (by omega)]
  by_cases he : IsEapol pkt
  · rw [if_pos he, if_pos (heapol.1 he)]
    exact dataHandleAuth_congr_replay hbody
  · rw [if_neg he, if_neg fun he' => he (heapol.2 he')]
    exact ⟨rfl, rfl⟩

/-- No state remembers a replay counter. -/
theorem step_congr_replay {P : Platform} (s : Wmi) {e e' : Event} (h : e.SameButReplay e') :
    step P s e = step P s e' := by
  cases e with
  | data addr pkt len env =>
    cases e' with
    | data addr' pkt' len' env' =>
      obtain ⟨rfl, rfl, rfl, h⟩ := h
      exact (dataHandlePkt_congr_replay h).1
    | _ => exact nomatch h
  | _ => exact congrArg (step P s) h

theorem runFrom_congr_replay {P : Platform} (s : Wmi) {es es' : List Event}
    (h : List.Forall₂ Event.SameButReplay es es') : runFrom P s es = runFrom P s es' :=
  have hstep : ∀ s e e', e.SameButReplay e' → step P s e = step P s e' := fun s _ _ =>
    step_congr_replay s
  Run.exec_congr hstep s h

/-- The first emission of a data packet is never a key. -/
theorem cipherKeys_tail_data (P : Platform) (s : Wmi) (addr : ℕ) (pkt : Mem UInt8) (len : ℕ)
    (env : AuthEnv) : cipherKeys (drive P s (.data addr pkt len env)).2.tail =
      cipherKeys (drive P s (.data addr pkt len env)).2 := by
  change cipherKeys (dataHandlePkt P.crypto s addr pkt len env).2.tail =
    cipherKeys (dataHandlePkt P.crypto s addr pkt len env).2
  unfold dataHandlePkt
  by_cases he : IsEapol pkt
  · rw [if_pos he]
    rcases dataHandleAuth_snd s P.crypto (snapBody pkt) (arrayAt pkt 2 6) (arrayAt pkt 8 6) env with
      ⟨-, hout | ⟨f, hout⟩⟩ | ⟨-, f, hout⟩
    · rw [hout]
      rfl
    · rw [hout]
      rfl
    · rw [hout]
      rfl
  · rw [if_neg he]
    rfl

theorem echo_of_data {P : Platform} {s : Wmi} {addr len : ℕ} {pkt : Mem UInt8} {env : AuthEnv}
    {frame : List UInt8} (h : (drive P s (.data addr pkt len env)).2.head? = some (.data frame)) :
    Octets.slice frame 33 8 = putbe64 (authReplay (snapBody pkt)) := by
  change (dataHandlePkt P.crypto s addr pkt len env).2.head? = _ at h
  unfold dataHandlePkt at h
  split_ifs at h
  · exact replay_of_reply h
  · simp at h

/-- **Provenance of the installed keys.** A data packet installs keys only as a key message under
WPA2; the pairwise key it installs, and the key it unwraps the group key with, are those of the
last message 1 of the run, and the initial zeros when there was none.  When a message 1 has been
answered since the last `CONNECT` event, they were derived in the current association.

The replay counter of a frame is put into its reply and used for nothing else: with any other
counters in the frames of the run, and in this one, the states, the installed keys and all else
that is emitted behind the reply are the same. -/
theorem installed_keys_of_last_message1 (P : Platform) (es : List Event) (addr : ℕ)
    (pkt : Mem UInt8) (len : ℕ) (env : AuthEnv) :
    let s := runFrom P .init es
    let e := Event.data addr pkt len env
    (∃ ptk : PtkKeyinfo,
      cipherKeys (drive P s e).2 =
        (if e.IsKeyMessage ∧ s.ap.securityType = apWpa2 then
          [pairwiseCmd s.ap ptk, groupCmd s.ap (e.gtk P.crypto ptk) e.rsc]
        else []) ∧
      ((∀ f ∈ es, ¬f.IsMessage1) → ptk = .zero) ∧
      (∀ pre m seg, es = pre ++ m :: seg → m.IsMessage1 → (∀ f ∈ seg, ¬f.IsMessage1) →
        ptk = m.derivedPtk P.crypto (runFrom P .init pre).ap) ∧
      (AnsweredSinceConnect es →
        ∃ pre m seg, es = pre ++ m :: seg ∧ m.IsMessage1 ∧ (∀ f ∈ seg, ¬f.IsConnect) ∧
          ptk = m.derivedPtk P.crypto (runFrom P .init pre).ap)) ∧
    (∀ frame, (drive P s e).2.head? = some (.data frame) →
      Octets.slice frame 33 8 = putbe64 e.replay) ∧
    ∀ es' e', List.Forall₂ Event.SameButReplay es es' → e.SameButReplay e' →
      runFrom P .init es' = s ∧ step P s e' = step P s e ∧
        cipherKeys (drive P s e').2 = cipherKeys (drive P s e).2 ∧
        (drive P s e').2.tail = (drive P s e).2.tail := by
  intro s e
  refine ⟨⟨s.keys.devicePtk, cipherKeys_data P s addr pkt len env, ?_, ?_, ?_⟩,
    fun frame => echo_of_data, ?_⟩
  · intro hnone
    exact devicePtk_of_no_message1 hnone
  · rintro pre m seg rfl hm hseg
    exact devicePtk_of_last_message1 hm hseg
  · rintro ⟨pre, m, seg, rfl, hm, hconn⟩
    rcases last_message1_or_none seg with hnone | ⟨pre', m', seg', rfl, hm', hseg'⟩
    · exact ⟨pre, m, seg, rfl, hm, hconn, devicePtk_of_last_message1 hm hnone⟩
    · have hsplit : pre ++ m :: (pre' ++ m' :: seg') = (pre ++ m :: pre') ++ m' :: seg' := by
        simp
      refine ⟨pre ++ m :: pre', m', seg', hsplit, hm', ?_, ?_⟩
      · intro f hf
        exact hconn f (by simp [hf])
      · have hlast : (runFrom P .init ((pre ++ m :: pre') ++ m' :: seg')).keys.devicePtk =
            m'.derivedPtk P.crypto (runFrom P .init (pre ++ m :: pre')).ap :=
          devicePtk_of_last_message1 hm' hseg'
        rwa [← hsplit] at hlast
  · intro es' e' hes he
    refine ⟨(runFrom_congr_replay _ hes).symm, (step_congr_replay s he).symm, ?_⟩
    cases e' with
    | data addr' pkt' len' env' =>
      obtain ⟨rfl, rfl, rfl, he⟩ := he
      have htail : (drive P s (.data addr pkt' len env)).2.tail = (drive P s e).2.tail :=
        (dataHandlePkt_congr_replay he).2.symm
      refine ⟨?_, htail⟩
      rw [← cipherKeys_tail_data, htail]
      exact cipherKeys_tail_data ..
    | _ => exact nomatch he

/-- Each half fails on its own.  A message 3 right after the association installs the
initial zeros; and after an answered message 1, a message 3 that comes twice with the same counter
installs the keys twice. -/
theorem installed_without_message1_counterexample :
    (¬∀ (P : Platform) (es : List Event) (e : Event), e.Installs P (runFrom P .init es) →
      AnsweredSinceConnect es) ∧
    ¬∀ (P : Platform) (es : List Event) (e : Event), e.Installs P (runFrom P .init es) →
      AnsweredSinceConnect es → ReplayIncreases P es e.replay := by
  constructor
  · intro h
    obtain ⟨pre, m, seg, hes, hm, -⟩ := h samplePlatform [wpa2Beacon, connectEvent]
      (authEvent 0x13CA 1) (by unfold Event.Installs; decide +kernel)
    have hmem : m ∈ [wpa2Beacon, connectEvent] := by rw [hes]; simp
    rcases List.mem_cons.1 hmem with rfl | hmem
    · revert hm
      decide +kernel
    · rw [List.mem_singleton.1 hmem] at hm
      revert hm
      decide +kernel
  · intro h
    have hlt := h samplePlatform [wpa2Beacon, connectEvent, authEvent 0x008A 1, authEvent 0x13CA 2]
      (authEvent 0x13CA 2) (by unfold Event.Installs; decide +kernel)
      ⟨[wpa2Beacon, connectEvent], authEvent 0x008A 1, [authEvent 0x13CA 2], rfl,
        by decide +kernel, by decide +kernel⟩
      [wpa2Beacon, connectEvent, authEvent 0x008A 1] (authEvent 0x13CA 2) [] rfl
      (by unfold Event.Installs; decide +kernel) (by decide +kernel)
    exact absurd hlt (Nat.lt_irrefl _)

end DsiWifi
