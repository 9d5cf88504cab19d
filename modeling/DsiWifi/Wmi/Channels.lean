import DsiWifi.Wmi.Selection

/-!
# The channels the scanner tunes to

The channel table always starts with the most recent list (`tuned_run`), so a scan tunes to a listed
channel exactly when its index is below the number of entries and of table slots.  The index is
compared with `>` after it was advanced, so it takes one value too many in every round; it is not
reset by a new list; and a list may announce more entries than the table holds.  Hence the scanner
is right only as long as it has taken fewer steps than the table has entries
(`scanner_tunes_listed_iff`).
-/

namespace DsiWifi

/-! ## What a step does to the channel list -/

@[simp] theorem wmiScanNext_deviceNumChannels (s : Wmi) (past : UInt16) :
    (wmiScanNext s past).1.deviceNumChannels = s.deviceNumChannels := by
  obtain ⟨_, _, _, _, _, h⟩ := wmiScanNext_fst s past
  rw [h]

@[simp] theorem wmiScanNext_channelFreqs (s : Wmi) (past : UInt16) :
    (wmiScanNext s past).1.channelFreqs = s.channelFreqs := by
  obtain ⟨_, _, _, _, _, h⟩ := wmiScanNext_fst s past
  rw [h]

theorem wmiScanNext_deviceCurChannelIdx (s : Wmi) (past : UInt16) :
    (wmiScanNext s past).1.deviceCurChannelIdx =
      if s.deviceNumChannels < (s.deviceCurChannelIdx + 1) % 2 ^ 8 then 0
      else (s.deviceCurChannelIdx + 1) % 2 ^ 8 := by
  unfold wmiScanNext; dsimp only; split_ifs <;> rfl

/-- The step is a tick that reaches the channel table. -/
def Event.Scanning (s : Wmi) : Event → Prop
  | .tick _ => Scans s
  | _ => False

instance (s : Wmi) (e : Event) : Decidable (e.Scanning s) :=
  match e with
  | .tick _ => inferInstanceAs (Decidable (Scans s))
  | .scan | .wmi .. | .data .. => inferInstanceAs (Decidable False)

/-- The entries of a channel list. -/
def channelEntries (pkt : Mem UInt8) : List ℕ :=
  (List.range (pkt 1).toNat).map fun i => getle16 pkt (2 + 2 * i)

/-- The most recent channel list after an event. -/
def listAfter (last : List ℕ) : Event → List ℕ
  | .wmi pktCmd pkt _ => if pktCmd = wmiGetChannelListResp then channelEntries pkt else last
  | _ => last

/-- The most recent channel list of a run. -/
def lastChannelList (es : List Event) : List ℕ := es.foldl listAfter []

/-- What an event does to the channel list. -/
inductive Tunes (s : Wmi) : Event → Wmi → Prop
  | other {e : Event} {s' : Wmi} (num : s'.deviceNumChannels = s.deviceNumChannels)
      (idx : s'.deviceCurChannelIdx = s.deviceCurChannelIdx)
      (freqs : s'.channelFreqs = s.channelFreqs) (notScanning : ¬e.Scanning s)
      (notList : ∀ last, listAfter last e = last) : Tunes s e s'
  | list (pkt : Mem UInt8) (len : ℕ) :
      Tunes s (.wmi wmiGetChannelListResp pkt len) (wmiHandleGetChannelList s pkt)
  | scan (past : UInt16) (h : Scans s) : Tunes s (.tick past) (wmiScanNext s past).1

theorem tunes_wmi (P : Platform) (s : Wmi) (pktCmd : ℕ) (pkt : Mem UInt8) (len : ℕ) :
    Tunes s (.wmi pktCmd pkt len) (wmiHandlePkt P s pktCmd pkt len).1 := by
  have hother : pktCmd ≠ wmiGetChannelListResp → ∀ s' : Wmi,
      s'.deviceNumChannels = s.deviceNumChannels →
      s'.deviceCurChannelIdx = s.deviceCurChannelIdx → s'.channelFreqs = s.channelFreqs →
      Tunes s (.wmi pktCmd pkt len) s' :=
    fun hl s' h₁ h₂ h₃ => .other h₁ h₂ h₃ (fun h => h) (fun _ => if_neg hl)
  have hh := handles_wmi P s pktCmd pkt len
  generalize wmiHandlePkt P s pktCmd pkt len = r at hh ⊢
  cases hh with
  | noted _ _ _ _ hl _ _ => exact hother hl _ rfl rfl rfl
  | channelList => exact .list pkt len
  | bssInfo =>
    obtain ⟨ap, found, done, out, h, -⟩ := wmiHandleBssInfo_frame P.nvram s pkt len
    rw [h]
    exact hother (by decide) _ rfl rfl rfl
  | connect => exact hother (by decide) _ rfl rfl rfl
  | teardown hl _ _ => exact hother hl _ rfl rfl rfl

/-- Every step tunes as `Tunes` says. -/
theorem tunes_step (P : Platform) (s : Wmi) (e : Event) : Tunes s e (step P s e) := by
  unfold step
  cases e with
  | tick past =>
    change Tunes s (.tick past) (wmiTick s past).1
    rcases wmiTick_cases s past with ⟨h, hs⟩ | ⟨-, -, -, hs, h⟩ | ⟨hs, h⟩
    · rw [h]
      exact .other rfl rfl rfl hs fun _ => rfl
    · rw [h]
      exact .other rfl rfl rfl hs fun _ => rfl
    · rw [h]
      exact .scan past hs
  | scan =>
    unfold drive
    split_ifs <;> exact .other rfl rfl rfl (fun h => h) fun _ => rfl
  | wmi pktCmd pkt len => exact tunes_wmi P s pktCmd pkt len
  | data addr pkt len env =>
    obtain ⟨k, hk⟩ := dataHandlePkt_fst P s addr pkt len env
    change Tunes s _ (dataHandlePkt P.crypto s addr pkt len env).1
    rw [hk]
    exact .other rfl rfl rfl (fun h => h) fun _ => rfl

/-! ## The table over a run -/

/-- The table starts with the entries of the list `last`. -/
structure Tuned (last : List ℕ) (s : Wmi) : Prop where
  num : s.deviceNumChannels = last.length
  entry : ∀ i : Fin 32, ∀ h : i.val < last.length, s.channelFreqs i = last[i.val]

theorem tuned_list (s : Wmi) (pkt : Mem UInt8) :
    Tuned (channelEntries pkt) (wmiHandleGetChannelList s pkt) := by
  refine ⟨by simp [channelEntries, wmiHandleGetChannelList], fun i hi => ?_⟩
  have hnum : i.val < (pkt 1).toNat := by simpa [channelEntries] using hi
  have hmin : i.val < min (pkt 1).toNat 32 := by omega
  have hfreq : (wmiHandleGetChannelList s pkt).channelFreqs i = getle16 pkt (2 + 2 * i) :=
    if_pos hmin
  rw [hfreq]
  simp [channelEntries]

theorem tuned_step (P : Platform) {last : List ℕ} {s : Wmi} (e : Event) (h : Tuned last s) :
    Tuned (listAfter last e) (step P s e) := by
  have ht := tunes_step P s e
  generalize step P s e = s' at ht ⊢
  cases ht with
  | other hnum _ hfreqs _ hlist =>
    rw [hlist]
    exact ⟨by rw [hnum, h.num], by rw [hfreqs]; exact h.entry⟩
  | list pkt len =>
    rw [show listAfter last (.wmi wmiGetChannelListResp pkt len) = channelEntries pkt from rfl]
    exact tuned_list s pkt
  | scan past _ =>
    exact ⟨by rw [wmiScanNext_deviceNumChannels, h.num]; rfl,
      by rw [wmiScanNext_channelFreqs]; exact h.entry⟩

theorem tuned_run (P : Platform) (es : List Event) :
    Tuned (lastChannelList es) (runFrom P .init es) := by
  induction es using List.reverseRecOn with
  | nil => exact ⟨rfl, fun i h => absurd h (by simp [lastChannelList])⟩
  | append_singleton es e ih =>
    rw [lastChannelList, List.foldl_append, runFrom, Run.exec_concat]
    exact tuned_step P e ih

/-! ## The index over a run -/

/-- The number of scanning ticks of a run. -/
def scanCount (P : Platform) (es : List Event) : ℕ :=
  Run.total (step P) (fun s e => if e.Scanning s then 1 else 0) .init es

theorem scanCount_append_singleton (P : Platform) (es : List Event) (e : Event) :
    scanCount P (es ++ [e]) =
      scanCount P es + if e.Scanning (runFrom P .init es) then 1 else 0 := by
  rw [scanCount, Run.total_append, Run.total_cons, Run.total_nil, Nat.add_zero]
  rfl

/-- While the index stays inside the list, it counts the scanning ticks. -/
theorem deviceCurChannelIdx_eq_scanCount {P : Platform} {es : List Event}
    (h : ∀ pre past post, es = pre ++ .tick past :: post → Scans (runFrom P .init pre) →
      (runFrom P .init pre).deviceCurChannelIdx <
          min (runFrom P .init pre).deviceNumChannels 32 ∨
        scanCount P pre < min (runFrom P .init pre).deviceNumChannels 32) :
    (runFrom P .init es).deviceCurChannelIdx = scanCount P es := by
  induction es using List.reverseRecOn with
  | nil => rfl
  | append_singleton es e ih =>
    have hih := ih fun pre past post hes => h pre past (post ++ [e]) (by simp [hes])
    rw [scanCount_append_singleton, runFrom, Run.exec_concat]
    have ht := tunes_step P (runFrom P .init es) e
    generalize step P (runFrom P .init es) e = s' at ht ⊢
    cases ht with
    | other _ hidx _ hscan _ => rw [hidx, hih, if_neg hscan, Nat.add_zero]
    | list pkt len =>
      rw [if_neg (show ¬Event.Scanning _ (.wmi wmiGetChannelListResp pkt len) from fun h => h),
        Nat.add_zero, ← hih]
      rfl
    | scan past hs =>
      have hlt := h es past [] rfl hs
      rw [hih, or_self] at hlt
      rw [wmiScanNext_deviceCurChannelIdx, hih, if_pos (show Event.Scanning _ (.tick past) from hs)]
      rw [Nat.mod_eq_of_lt (by omega), if_neg (by omega)]

/-- A scanning tick tunes to the frequency it reads. -/
theorem mem_drive_setChannelParams {P : Platform} {s : Wmi} {past : UInt16} {mhz : ℕ}
    (hs : Scans s) (h : .wmi (.setChannelParams mhz) ∈ (drive P s (.tick past)).2) :
    mhz = channelFreqAt s past := by
  have hdrive : drive P s (.tick past) = wmiScanNext s past := by
    rcases wmiTick_cases s past with ⟨-, hn⟩ | ⟨-, -, -, hn, -⟩ | ⟨-, ht⟩
    · exact absurd hs hn
    · exact absurd hs hn
    · exact ht
  rw [hdrive, wmiScanNext_snd] at h
  split_ifs at h
  · exact absurd h List.not_mem_nil
  · simpa using h

/-- **Listed channels.** Every scanning tick of a run reads the table inside the most recent list,
and tunes to one of its entries, if and only if each comes after fewer scanning ticks than the list
has entries in the table. -/
theorem scanner_tunes_listed_iff (P : Platform) (es : List Event) :
    (∀ pre past post, es = pre ++ .tick past :: post → Scans (runFrom P .init pre) →
      (runFrom P .init pre).deviceCurChannelIdx <
          min (runFrom P .init pre).deviceNumChannels 32 ∧
        ∀ mhz, .wmi (.setChannelParams mhz) ∈ (drive P (runFrom P .init pre) (.tick past)).2 →
          mhz ∈ lastChannelList pre) ↔
      ∀ pre past post, es = pre ++ .tick past :: post → Scans (runFrom P .init pre) →
        scanCount P pre < min (lastChannelList pre).length 32 := by
  constructor
  · intro h pre past post hes hs
    have hidx : (runFrom P .init pre).deviceCurChannelIdx = scanCount P pre := by
      refine deviceCurChannelIdx_eq_scanCount fun pre' past' post' hpre hs' => Or.inl ?_
      exact (h pre' past' (post' ++ .tick past :: post) (by simp [hes, hpre]) hs').1
    have hlt := (h pre past post hes hs).1
    rwa [hidx, (tuned_run P pre).num] at hlt
  · intro h pre past post hes hs
    have htuned := tuned_run P pre
    have hidx : (runFrom P .init pre).deviceCurChannelIdx = scanCount P pre := by
      refine deviceCurChannelIdx_eq_scanCount fun pre' past' post' hpre hs' => Or.inr ?_
      rw [(tuned_run P pre').num]
      exact h pre' past' (post' ++ .tick past :: post) (by simp [hes, hpre]) hs'
    have hlt : (runFrom P .init pre).deviceCurChannelIdx < min (lastChannelList pre).length 32 := by
      rw [hidx]
      exact h pre past post hes hs
    refine ⟨by rwa [htuned.num], fun mhz hmhz => ?_⟩
    have h32 : (runFrom P .init pre).deviceCurChannelIdx < 32 := by omega
    have hlen : (runFrom P .init pre).deviceCurChannelIdx < (lastChannelList pre).length := by omega
    rw [mem_drive_setChannelParams hs hmhz, channelFreqAt, dif_pos h32, htuned.entry _ hlen]
    exact List.getElem_mem hlen

/-- The second tick of a list with one channel reads past the list. -/
theorem scanner_past_list_counterexample :
    ¬∀ (P : Platform) (es pre : List Event) (past : UInt16) (post : List Event),
      es = pre ++ .tick past :: post → Scans (runFrom P .init pre) →
        (runFrom P .init pre).deviceCurChannelIdx <
          min (runFrom P .init pre).deviceNumChannels 32 := by
  intro h
  have hlt := h samplePlatform (scanFourRounds.take 7) (scanFourRounds.take 6) 0 [] rfl
    (by decide +kernel)
  revert hlt
  decide +kernel

end DsiWifi
