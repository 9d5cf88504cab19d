import DsiWifi.Bmi.Commands
import DsiWifi.Lib.Proc

/-!
# Extended target ids

`wifi_card_bmi_get_version` reads the reply to `BMI_GET_TARGET_ID` word by word.  An extended reply
has a length and a version behind its marker, and the function reads on to the end of it.

The bound of that loop is an unsigned difference: a length below 8 makes it wrap, and the words of
later replies are read as well.  `extended_reply_drained_iff` states for which lengths the reply is
read to its end.
-/

namespace DsiWifi

open Proc

/-! ## The mailbox -/

/-- What the driver has written to the mailbox, what the card answers and the driver has not read
yet, the number of bytes read, and the number of looks since the last of them. -/
structure BmiState where
  sent : List UInt8
  replies : List UInt8
  bytesRead : ℕ
  waited : ℕ

/-- A look at bit 0 of `F1_RX_LOOKAHEAD_VALID`: a word is in the mailbox.  After `n` bytes, the next
word is not seen in the first `delay n` looks. -/
def rxLookaheadValid (delay : ℕ → ℕ) : Proc BmiState Bool := do
  let s ← get
  modify fun s => { s with waited := s.waited + 1 }
  pure (decide (4 ≤ s.replies.length ∧ delay s.bytesRead ≤ s.waited))

/-- `wifi_card_read_func1_u8(0xFF)`. -/
def readMbox0U8 : Proc BmiState UInt8 := do
  let s ← get
  modify fun s => { s with replies := s.replies.tail, bytesRead := s.bytesRead + 1, waited := 0 }
  pure (s.replies.headD 0)

/-- Four bytes as a word, from LSB to MSB. -/
def mbox0Word (b0 b1 b2 b3 : UInt8) : UInt32 :=
  b0.toUInt32 ||| (b1.toUInt32 <<< 8) ||| (b2.toUInt32 <<< 16) ||| (b3.toUInt32 <<< 24)

/-- The loop that waits for a word. -/
def waitLookahead (delay : ℕ → ℕ) (fuel : ℕ) : Proc BmiState Unit :=
  repeats (fun _ => do
    let valid ← rxLookaheadValid delay
    pure (if valid then Sum.inr () else Sum.inl ())) fuel ()

def wifiCardReadMbox0U32 (delay : ℕ → ℕ) (fuel : ℕ) : Proc BmiState UInt32 := do
  waitLookahead delay fuel
  let b0 ← readMbox0U8
  let b1 ← readMbox0U8
  let b2 ← readMbox0U8
  let b3 ← readMbox0U8
  pure (mbox0Word b0 b1 b2 b3)

def bmiGetTargetId : UInt32 := 0x8

/-- The loop `for (int i = 0; i < (len/4)-2; i++)`: the bound is unsigned, and so is the comparison. -/
def drainWords (delay : ℕ → ℕ) (fuel : ℕ) (len : UInt32) : Proc BmiState Unit :=
  repeats (fun i : UInt32 =>
    if i < len / 4 - 2 then do
      let _ ← wifiCardReadMbox0U32 delay fuel
      pure (Sum.inl (i + 1))
    else pure (Sum.inr ())) fuel 0

def wifiCardBmiGetVersion (delay : ℕ → ℕ) (fuel : ℕ) : Proc BmiState UInt32 := do
  modify fun s => { s with
    sent := s.sent ++ mailboxStream (wifiCardWriteMbox0U32 bmiGetTargetId) }
  let ret ← wifiCardReadMbox0U32 delay fuel
  -- Extended
  if ret = 0xFFFFFFFF then do
    let len ← wifiCardReadMbox0U32 delay fuel
    if len ≠ 0xFFFFFFFF then do
      let version ← wifiCardReadMbox0U32 delay fuel
      drainWords delay fuel len
      pure version
    else pure ret
  else pure ret

/-! ## Words -/

/-- A byte above the `n` bits of a word. -/
theorem toNat_or_shiftLeft {x : UInt32} (b : UInt8) {k : UInt32} {n : ℕ} (hk : k.toNat = n)
    (hn : n ≤ 24) (hx : x.toNat < 2 ^ n) :
    (x ||| (b.toUInt32 <<< k)).toNat = 2 ^ n * b.toNat + x.toNat := by
  have hb : b.toNat <<< n < 2 ^ 32 := by
    rw [Nat.shiftLeft_eq]
    calc b.toNat * 2 ^ n < 2 ^ 8 * 2 ^ n := Nat.mul_lt_mul_of_pos_right b.toNat_lt (Nat.two_pow_pos n)
      _ ≤ 2 ^ 8 * 2 ^ 24 := Nat.mul_le_mul_left _ (Nat.pow_le_pow_right (by decide) hn)
      _ = 2 ^ 32 := by decide
  rw [UInt32.toNat_or, UInt32.toNat_shiftLeft, hk, UInt8.toNat_toUInt32,
    Nat.mod_eq_of_lt (show n < 32 by omega), Nat.mod_eq_of_lt hb, Nat.or_comm,
    ← Nat.shiftLeft_add_eq_or_of_lt hx, Nat.shiftLeft_eq, Nat.mul_comm]

theorem toNat_mbox0Word (b0 b1 b2 b3 : UInt8) :
    (mbox0Word b0 b1 b2 b3).toNat = getle32 (.ofList [b0, b1, b2, b3] 0) 0 := by
  have h0 := b0.toNat_lt
  have h1 := b1.toNat_lt
  have h2 := b2.toNat_lt
  have e0 : b0.toUInt32.toNat = b0.toNat := b0.toNat_toUInt32
  have e1 := toNat_or_shiftLeft b1 (show (8 : UInt32).toNat = 8 from rfl) (by decide)
    (show b0.toUInt32.toNat < 2 ^ 8 by omega)
  have e2 := toNat_or_shiftLeft b2 (show (16 : UInt32).toNat = 16 from rfl) (by decide)
    (show (b0.toUInt32 ||| (b1.toUInt32 <<< 8)).toNat < 2 ^ 16 by omega)
  have e3 := toNat_or_shiftLeft b3 (show (24 : UInt32).toNat = 24 from rfl) (by decide)
    (show (b0.toUInt32 ||| (b1.toUInt32 <<< 8) ||| (b2.toUInt32 <<< 16)).toNat < 2 ^ 24 by omega)
  unfold mbox0Word
  rw [e3, e2, e1, e0]
  show _ = b0.toNat + 256 * b1.toNat + 0x10000 * (b2.toNat + 256 * b3.toNat)
  omega

/-- The bytes of a word make up the word. -/
theorem mbox0Word_putle32 (w : UInt32) {b0 b1 b2 b3 : UInt8}
    (h : putle32 w.toNat = [b0, b1, b2, b3]) : mbox0Word b0 b1 b2 b3 = w := by
  rw [← UInt32.toNat_inj, toNat_mbox0Word, ← h]
  exact getle32_ofList [] [] w

/-! ## Reads -/

section Reads

variable {delay : ℕ → ℕ} {fuel : ℕ} {s : BmiState}

/-- A word is read when all of it is there. -/
theorem post_waitLookahead : Post (waitLookahead delay fuel)
    (fun _ s' => 4 ≤ s.replies.length ∧ ∃ n, s' = { s with waited := n }) s := by
  refine post_repeats (I := fun _ s' => ∃ n, s' = { s with waited := n }) ?_ fuel ⟨s.waited, rfl⟩
  rintro _ _ ⟨n, rfl⟩
  unfold rxLookaheadValid
  simp only [post_bind, post_get, post_modify, post_pure]
  split_ifs with h
  · exact ⟨(of_decide_eq_true h).1, n + 1, rfl⟩
  · exact ⟨n + 1, rfl⟩

theorem ends_waitLookahead (hword : 4 ≤ s.replies.length) (hfuel : delay s.bytesRead < fuel) :
    Ends (waitLookahead delay fuel) (fun _ _ => True) s := by
  refine ends_repeats (I := fun _ s' => s'.replies = s.replies ∧ s'.bytesRead = s.bytesRead)
    (fun _ s' => delay s.bytesRead - s'.waited) ?_ ⟨rfl, rfl⟩ (by omega)
  rintro _ s' ⟨hreplies, hread⟩
  unfold rxLookaheadValid
  simp only [ends_bind, ends_get, ends_modify, ends_pure]
  rw [hreplies, hread]
  split_ifs with h
  · trivial
  · have hlate : ¬delay s.bytesRead ≤ s'.waited := fun hle => h (decide_eq_true ⟨hword, hle⟩)
    refine ⟨⟨rfl, rfl⟩, ?_⟩
    show delay s.bytesRead - (s'.waited + 1) < delay s.bytesRead - s'.waited
    omega

theorem post_readMbox0U8 {Q : UInt8 → BmiState → Prop} : Post readMbox0U8 Q s ↔
    Q (s.replies.headD 0)
      { s with replies := s.replies.tail, bytesRead := s.bytesRead + 1, waited := 0 } := by
  unfold readMbox0U8
  simp only [post_bind, post_get, post_modify, post_pure]

/-- The state after a word was read. -/
def BmiState.skip (s : BmiState) : BmiState :=
  { s with replies := s.replies.drop 4, bytesRead := s.bytesRead + 4, waited := 0 }

/-- A word was read: the first of the replies. -/
def ReadsWord (s : BmiState) (w : UInt32) (s' : BmiState) : Prop :=
  s' = s.skip ∧ ∀ (w' : UInt32) (bs : List UInt8), s.replies = putle32 w'.toNat ++ bs → w = w'

theorem post_readMbox0U32 : Post (wifiCardReadMbox0U32 delay fuel) (ReadsWord s) s := by
  unfold wifiCardReadMbox0U32
  rw [post_bind]
  refine post_mono post_waitLookahead ?_
  rintro _ _ ⟨hword, n, rfl⟩
  simp only [post_bind, post_readMbox0U8, post_pure]
  obtain ⟨b0, b1, b2, b3, bs, hs⟩ : ∃ b0 b1 b2 b3 bs, s.replies = b0 :: b1 :: b2 :: b3 :: bs := by
    rcases hs : s.replies with _ | ⟨b0, _ | ⟨b1, _ | ⟨b2, _ | ⟨b3, bs⟩⟩⟩⟩
    iterate 4 exact absurd hword (by simp [hs])
    exact ⟨b0, b1, b2, b3, bs, rfl⟩
  unfold ReadsWord BmiState.skip
  rw [hs]
  refine ⟨rfl, fun w' bs' h => mbox0Word_putle32 w' ?_⟩
  have hhead := congrArg (List.take 4) h
  exact hhead.symm

theorem ends_readMbox0U32 (hword : 4 ≤ s.replies.length) (hfuel : delay s.bytesRead < fuel) :
    Ends (wifiCardReadMbox0U32 delay fuel) (ReadsWord s) s := by
  refine ends_iff.2 ⟨post_readMbox0U32, ?_⟩
  unfold wifiCardReadMbox0U32
  rw [ends_bind]
  refine ends_mono (ends_waitLookahead hword hfuel) fun _ _ _ => ?_
  unfold readMbox0U8
  simp only [ends_bind, ends_get, ends_modify, ends_pure]

end Reads

/-! ## The drain loop -/

/-- The bound of the loop. -/
theorem toNat_drainBound (len : UInt32) : (len / 4 - 2).toNat =
    if 8 ≤ len.toNat then len.toNat / 4 - 2 else 2 ^ 32 - 2 + len.toNat / 4 := by
  have hlt := len.toNat_lt
  have hdiv : (len / 4).toNat = len.toNat / 4 := UInt32.toNat_div len 4
  have htwo : (2 : UInt32).toNat = 2 := rfl
  rw [UInt32.toNat_sub, hdiv, htwo]
  split_ifs with h
  · omega
  · omega

section Drain

variable {delay : ℕ → ℕ} {fuel : ℕ} {s : BmiState}

/-- The state after `n` words were read. -/
def BmiState.Skipped (s : BmiState) (n : ℕ) (s' : BmiState) : Prop :=
  s'.bytesRead = s.bytesRead + 4 * n ∧ s'.replies = s.replies.drop (4 * n)

theorem BmiState.Skipped.skip {n : ℕ} {s' : BmiState} (h : s.Skipped n s') :
    s.Skipped (n + 1) s'.skip := by
  refine ⟨?_, ?_⟩
  · show s'.bytesRead + 4 = _
    rw [h.1]
    omega
  · show s'.replies.drop 4 = _
    rw [h.2, List.drop_drop]
    congr 1

/-- A counter below its bound does not wrap. -/
theorem toNat_add_one {i bound : UInt32} (h : i < bound) : (i + 1).toNat = i.toNat + 1 := by
  have hlt := UInt32.lt_iff_toNat_lt.1 h
  have hbound := bound.toNat_lt
  have hone : (1 : UInt32).toNat = 1 := rfl
  rw [UInt32.toNat_add, hone]
  omega

/-- The loop reads as many words as its bound says. -/
theorem post_drainWords (len : UInt32) :
    Post (drainWords delay fuel len) (fun _ s' => s.Skipped (len / 4 - 2).toNat s') s := by
  refine post_repeats (I := fun i s' => i.toNat ≤ (len / 4 - 2).toNat ∧ s.Skipped i.toNat s')
    ?_ fuel ⟨Nat.zero_le _, rfl, rfl⟩
  rintro i s' ⟨hle, hs'⟩
  split_ifs with hi
  · rw [post_bind]
    refine post_mono post_readMbox0U32 ?_
    rintro w _ ⟨rfl, -⟩
    rw [post_pure]
    have hnext := toNat_add_one hi
    refine ⟨?_, ?_⟩
    · rw [hnext]
      exact UInt32.lt_iff_toNat_lt.1 hi
    · rw [hnext]
      exact hs'.skip
  · rw [post_pure]
    have hend : i.toNat = (len / 4 - 2).toNat :=
      Nat.le_antisymm hle (Nat.not_lt.1 fun h => hi (UInt32.lt_iff_toNat_lt.2 h))
    show s.Skipped _ s'
    rw [← hend]
    exact hs'

/-- The loop ends when the words it reads are sent, with fuel for the waits and the rounds. -/
theorem ends_drainWords {len : UInt32} (hwords : 4 * (len / 4 - 2).toNat ≤ s.replies.length)
    (hdelay : ∀ n ≤ s.bytesRead + 4 * (len / 4 - 2).toNat, delay n < fuel)
    (hfuel : (len / 4 - 2).toNat < fuel) :
    Ends (drainWords delay fuel len) (fun _ s' => s.Skipped (len / 4 - 2).toNat s') s := by
  refine ends_iff.2 ⟨post_drainWords len, ?_⟩
  refine ends_repeats (I := fun i s' => i.toNat ≤ (len / 4 - 2).toNat ∧ s.Skipped i.toNat s')
    (fun i _ => (len / 4 - 2).toNat - i.toNat) ?_ ⟨Nat.zero_le _, rfl, rfl⟩ (by omega)
  rintro i s' ⟨hle, hs'⟩
  split_ifs with hi
  · have hlt := UInt32.lt_iff_toNat_lt.1 hi
    have hword : 4 ≤ s'.replies.length := by
      rw [hs'.2, List.length_drop]
      omega
    rw [ends_bind]
    refine ends_mono (ends_readMbox0U32 hword (hdelay _ (by rw [hs'.1]; omega))) ?_
    rintro w _ ⟨rfl, -⟩
    rw [ends_pure]
    have hnext := toNat_add_one hi
    refine ⟨⟨by omega, ?_⟩, by omega⟩
    rw [hnext]
    exact hs'.skip
  · rw [ends_pure]
    trivial

end Drain

/-! ## Replies -/

section Reply

variable {delay : ℕ → ℕ} {fuel : ℕ} {s : BmiState} {len version : UInt32} {rest : List UInt8}

/-- An extended reply at the head of what the card answers: the marker, the length, the version, and
the bytes behind them. -/
def BmiState.Extended (s : BmiState) (len version : UInt32) (rest : List UInt8) : Prop :=
  s.replies = putle32 (0xFFFFFFFF : UInt32).toNat ++
    (putle32 len.toNat ++ (putle32 version.toNat ++ rest))

theorem ReadsWord.of_replies {w v : UInt32} {s' : BmiState} {bs : List UInt8}
    (h : ReadsWord s w s') (hs : s.replies = putle32 v.toNat ++ bs) :
    w = v ∧ s'.replies = bs ∧ s'.bytesRead = s.bytesRead + 4 := by
  obtain ⟨rfl, hw⟩ := h
  refine ⟨hw v bs hs, ?_, rfl⟩
  show s.replies.drop 4 = bs
  rw [hs]
  exact List.drop_left' rfl

/-- A call on an extended reply returns the version, and reads as many words behind it as the bound of
the loop says. -/
theorem post_getVersion (hs : s.Extended len version rest) (hlen : len ≠ 0xFFFFFFFF) :
    Post (wifiCardBmiGetVersion delay fuel)
      (fun ret s' => ret = version ∧ s'.bytesRead = s.bytesRead + 4 * (3 + (len / 4 - 2).toNat) ∧
        s'.replies = rest.drop (4 * (len / 4 - 2).toNat)) s := by
  unfold wifiCardBmiGetVersion
  rw [post_bind, post_modify, post_bind]
  refine post_mono post_readMbox0U32 fun w₁ s₁ h₁ => ?_
  obtain ⟨rfl, hr₁, hb₁⟩ := h₁.of_replies hs
  rw [if_pos rfl, post_bind]
  refine post_mono post_readMbox0U32 fun w₂ s₂ h₂ => ?_
  obtain ⟨rfl, hr₂, hb₂⟩ := h₂.of_replies hr₁
  rw [if_pos hlen, post_bind]
  refine post_mono post_readMbox0U32 fun w₃ s₃ h₃ => ?_
  obtain ⟨rfl, hr₃, hb₃⟩ := h₃.of_replies hr₂
  rw [post_bind]
  refine post_mono (post_drainWords w₂) fun _ s₄ h₄ => ?_
  rw [post_pure, h₄.1, h₄.2, hr₃, hb₃, hb₂, hb₁]
  refine ⟨rfl, ?_, rfl⟩
  show s.bytesRead + 4 + 4 + 4 + _ = _
  omega

/-- It does return when these words are sent. -/
theorem ends_getVersion (hs : s.Extended len version rest) (hlen : len ≠ 0xFFFFFFFF)
    (hwords : 4 * (len / 4 - 2).toNat ≤ rest.length)
    (hdelay : ∀ n ≤ s.bytesRead + 4 * (3 + (len / 4 - 2).toNat), delay n < fuel)
    (hfuel : (len / 4 - 2).toNat < fuel) :
    Ends (wifiCardBmiGetVersion delay fuel) (fun _ _ => True) s := by
  have hfour : ∀ (w : UInt32) (bs : List UInt8), 4 ≤ (putle32 w.toNat ++ bs).length := by
    intro w bs
    rw [List.length_append]
    exact Nat.le_add_right 4 _
  unfold wifiCardBmiGetVersion
  rw [ends_bind, ends_modify, ends_bind]
  refine ends_mono (ends_readMbox0U32 (hs ▸ hfour _ _) (hdelay _ (Nat.le_add_right _ _)))
    fun w₁ s₁ h₁ => ?_
  obtain ⟨rfl, hr₁, hb₁⟩ := h₁.of_replies hs
  change s₁.bytesRead = s.bytesRead + 4 at hb₁
  rw [if_pos rfl, ends_bind]
  refine ends_mono (ends_readMbox0U32 (hr₁ ▸ hfour _ _) (hdelay _ (by omega))) fun w₂ s₂ h₂ => ?_
  obtain ⟨rfl, hr₂, hb₂⟩ := h₂.of_replies hr₁
  rw [if_pos hlen, ends_bind]
  refine ends_mono (ends_readMbox0U32 (hr₂ ▸ hfour _ _) (hdelay _ (by omega))) fun w₃ s₃ h₃ => ?_
  obtain ⟨rfl, hr₃, hb₃⟩ := h₃.of_replies hr₂
  rw [ends_bind]
  refine ends_mono (ends_drainWords (hr₃ ▸ hwords) (fun n hn => hdelay n (by omega)) hfuel)
    fun _ _ _ => ?_
  rw [ends_pure]
  trivial

end Reply

/-- A call returns the version of an extended reply and reads the marker and `max (len / 4) 2` words
behind it, so that the bytes `next` of the replies after it are left. -/
def DrainsReply (delay : ℕ → ℕ) (s : BmiState) (len version : UInt32) (next : List UInt8) : Prop :=
  ∃ fuel, Ends (wifiCardBmiGetVersion delay fuel)
    (fun ret s' => ret = version ∧ s'.bytesRead = s.bytesRead + 4 * (1 + max (len.toNat / 4) 2) ∧
      s'.replies = next) s

/-- Fuel for all waits up to byte `n`. -/
theorem exists_fuel (delay : ℕ → ℕ) (n k : ℕ) : ∃ fuel, k < fuel ∧ ∀ i ≤ n, delay i < fuel := by
  induction n with
  | zero =>
    refine ⟨k + delay 0 + 1, by omega, fun i hi => ?_⟩
    rw [Nat.le_zero.1 hi]
    omega
  | succ n ih =>
    obtain ⟨fuel, hk, hall⟩ := ih
    refine ⟨fuel + delay (n + 1), by omega, fun i hi => ?_⟩
    rcases Nat.lt_or_eq_of_le hi with hi | rfl
    · have := hall i (Nat.le_of_lt_succ hi)
      omega
    · omega

/-- **Extended target ids.** However late the words of an extended reply come, a call returns its
version and reads the reply to its end, and no further, exactly when its length is at least 8. -/
theorem extended_reply_drained_iff (delay : ℕ → ℕ) (s : BmiState) (len version : UInt32)
    (further : List UInt32) (next : List UInt8) (hlen : len ≠ 0xFFFFFFFF)
    (hfurther : further.length = max (len.toNat / 4) 2 - 2)
    (hs : s.Extended len version (wordBytes further ++ next)) :
    DrainsReply delay s len version next ↔ 8 ≤ len.toNat := by
  have hbound := toNat_drainBound len
  constructor
  · rintro ⟨fuel, hends⟩
    obtain ⟨ret, hret, -, hread, -⟩ := hends
    have hcount := (post_getVersion hs hlen ret hret).2.1
    by_contra hshort
    rw [if_neg hshort] at hbound
    omega
  · intro hlong
    rw [if_pos hlong] at hbound
    have hrest : (wordBytes further).length = 4 * (len / 4 - 2).toNat := by
      rw [length_wordBytes, hfurther, hbound]
      omega
    obtain ⟨fuel, hfuel, hdelay⟩ := exists_fuel delay
      (s.bytesRead + 4 * (3 + (len / 4 - 2).toNat)) (len / 4 - 2).toNat
    refine ⟨fuel, ends_iff.2 ⟨?_, ?_⟩⟩
    · refine post_mono (post_getVersion hs hlen) fun ret s' h => ⟨h.1, ?_, ?_⟩
      · rw [h.2.1]
        omega
      · rw [h.2.2, ← hrest, List.drop_left]
    · refine ends_getVersion hs hlen ?_ hdelay hfuel
      rw [List.length_append, hrest]
      exact Nat.le_add_right _ _

/-- A driver that waits for an extended reply, with the reply to a later command behind it. -/
def sampleReply (len : UInt32) (further : List UInt32) : BmiState where
  sent := []
  replies := putle32 (0xFFFFFFFF : UInt32).toNat ++ (putle32 len.toNat ++
    (putle32 (0x20000188 : UInt32).toNat ++ (wordBytes further ++ [1, 0, 0, 0])))
  bytesRead := 0
  waited := 0

theorem extended_reply_drained_sample :
    DrainsReply (fun _ => 5) (sampleReply 12 [0x3]) 12 0x20000188 [1, 0, 0, 0] :=
  (extended_reply_drained_iff (fun _ => 5) (sampleReply 12 [0x3]) 12 0x20000188 [0x3] [1, 0, 0, 0]
    (by decide) rfl rfl).2 (by decide)

/-- A reply of length 4: the loop does not end with the reply. -/
theorem extended_reply_drained_counterexample :
    ¬∀ (delay : ℕ → ℕ) (s : BmiState) (len version : UInt32) (further : List UInt32)
      (next : List UInt8), len ≠ 0xFFFFFFFF → further.length = max (len.toNat / 4) 2 - 2 →
        s.Extended len version (wordBytes further ++ next) →
          DrainsReply delay s len version next := by
  intro h
  have hs : (sampleReply 4 []).Extended 4 0x20000188 (wordBytes [] ++ [1, 0, 0, 0]) := rfl
  obtain ⟨fuel, ret, hret, -, hread, -⟩ := h (fun _ => 0) _ 4 0x20000188 [] [1, 0, 0, 0] (by decide)
    rfl hs
  have hcount := (post_getVersion hs (by decide) ret hret).2.1
  have hbound := toNat_drainBound 4
  rw [if_neg (by decide)] at hbound
  rw [hread, hbound] at hcount
  exact absurd hcount (by decide)

end DsiWifi
