import DsiWifi.Bmi.Commands

/-!
# Uploads

What the card makes of the accesses: its boot loader takes `BMI_WRITE_MEMORY` commands from the
mailbox and stores the bytes behind them, and a write to the window address stores the word of the
window.  `bmi_upload_stores` states that `wifi_card_bmi_write_memory` comes down to one store, in
whatever pieces it sends the data.
-/

namespace DsiWifi

open Func1Access

/-! ## The card -/

/-- What the boot loader waits for: the rest of a header, or `left` bytes to store from `addr` on. -/
inductive BmiPhase
  | header (bytes : List UInt8)
  | store (addr left : ℕ)

/-- The memory of the card, the registers of function 1, and the boot loader. -/
structure Card where
  mem : Mem UInt8
  regs : Mem UInt8
  phase : BmiPhase

/-- At a command boundary. -/
def Card.Idle (c : Card) : Prop := c.phase = .header []

/-- The phase with `left` bytes to store. -/
def storePhase (addr left : ℕ) : BmiPhase := if left = 0 then .header [] else .store addr left

/-- A word of a header. -/
def headerWord (bytes : List UInt8) (i : ℕ) : ℕ := getle32 (.ofList bytes 0) (4 * i)

/-- The phase after the header `bytes`: `BMI_WRITE_MEMORY` has an address and a length, and other
commands are skipped. -/
def headerPhase (bytes : List UInt8) : BmiPhase :=
  if bytes.length = 4 ∧ headerWord bytes 0 ≠ bmiWriteMemory.toNat then .header []
  else if bytes.length = 12 then storePhase (headerWord bytes 1) (headerWord bytes 2)
  else .header bytes

/-- A byte of the mailbox. -/
def Card.mailboxByte (c : Card) (val : UInt8) : Card :=
  match c.phase with
  | .header bytes => { c with phase := headerPhase (bytes ++ [val]) }
  | .store addr left =>
    { c with mem := c.mem.write addr [val], phase := storePhase (addr + 1) (left - 1) }

/-- A register; the least significant byte of the window address stores the word. -/
def Card.register (c : Card) (addr : ℕ) (val : UInt8) : Card :=
  let regs := c.regs.write addr [val]
  if addr = windowWriteAddr then
    { c with
      regs := regs
      mem := c.mem.write (getle32 regs windowWriteAddr) (regs.read windowData 4) }
  else { c with regs := regs }

def Card.access (c : Card) : Func1Access → Card
  | write8 addr val => if addr = mbox0 then c.mailboxByte val else c.register addr val
  | writeBlock b => (mailboxWrites (.writeBlock b)).foldl mailboxByte c
  | _ => c

/-- The card after some accesses. -/
def Card.run (c : Card) (as : List Func1Access) : Card := as.foldl Card.access c

theorem Card.run_append (c : Card) (as bs : List Func1Access) :
    c.run (as ++ bs) = (c.run as).run bs := List.foldl_append

theorem Card.run_map_write8 (c : Card) (bs : List UInt8) :
    c.run (bs.map (write8 mbox0)) = bs.foldl Card.mailboxByte c := by
  unfold Card.run
  rw [List.foldl_map]
  rfl

/-! ## Through the mailbox -/

/-- The boot loader stores what it waits for. -/
theorem foldl_mailboxByte_store (bs : List UInt8) (mem regs : Mem UInt8) (addr : ℕ) :
    bs.foldl Card.mailboxByte ⟨mem, regs, storePhase addr bs.length⟩ =
      ⟨mem.write addr bs, regs, .header []⟩ := by
  induction bs generalizing mem addr with
  | nil =>
    rw [Mem.write_nil]
    rfl
  | cons b bs ih =>
    have hbyte : Card.mailboxByte ⟨mem, regs, storePhase addr (b :: bs).length⟩ b =
        ⟨mem.write addr [b], regs, storePhase (addr + 1) bs.length⟩ := by
      unfold Card.mailboxByte storePhase
      rw [if_neg (by simp)]
      rfl
    have hwrite : mem.write addr (b :: bs) = (mem.write addr [b]).write (addr + 1) bs :=
      (Mem.write_append mem addr [b] bs).1
    rw [List.foldl_cons, hbyte, ih, hwrite]

/-- Behind the command word, the boot loader collects its arguments. -/
theorem foldl_mailboxByte_arguments (mem regs : Mem UInt8) {bytes cs : List UInt8}
    (h4 : 4 ≤ bytes.length) (h12 : bytes.length + cs.length < 12) :
    cs.foldl Card.mailboxByte ⟨mem, regs, .header bytes⟩ = ⟨mem, regs, .header (bytes ++ cs)⟩ := by
  induction cs generalizing bytes with
  | nil => rw [List.append_nil, List.foldl_nil]
  | cons c cs ih =>
    rw [List.length_cons] at h12
    have hlen : (bytes ++ [c]).length = bytes.length + 1 := List.length_append
    have hbyte : Card.mailboxByte ⟨mem, regs, .header bytes⟩ c = ⟨mem, regs, .header (bytes ++ [c])⟩ := by
      unfold Card.mailboxByte headerPhase
      dsimp only
      rw [if_neg fun h => absurd h.1 (by omega), if_neg (by omega)]
    rw [List.foldl_cons, hbyte, ih (by omega) (by omega), List.append_assoc, List.singleton_append]

/-- The header of `BMI_WRITE_MEMORY`. -/
theorem foldl_mailboxByte_header (mem regs : Mem UInt8) (addr len : UInt32) :
    (putle32 bmiWriteMemory.toNat ++ (putle32 addr.toNat ++ putle32 len.toNat)).foldl
        Card.mailboxByte ⟨mem, regs, .header []⟩ =
      ⟨mem, regs, storePhase addr.toNat len.toNat⟩ := by
  have hcmd : (putle32 bmiWriteMemory.toNat).foldl Card.mailboxByte ⟨mem, regs, .header []⟩ =
      ⟨mem, regs, .header (putle32 bmiWriteMemory.toNat)⟩ := rfl
  have haddr : headerWord (putle32 bmiWriteMemory.toNat ++ (putle32 addr.toNat ++
      putle32 len.toNat)) 1 = addr.toNat :=
    getle32_ofList (putle32 bmiWriteMemory.toNat) (putle32 len.toNat) addr
  have hlen : headerWord (putle32 bmiWriteMemory.toNat ++ (putle32 addr.toNat ++
      putle32 len.toNat)) 2 = len.toNat := by
    have h := getle32_ofList (putle32 bmiWriteMemory.toNat ++ putle32 addr.toNat) [] len
    rwa [List.append_nil, List.append_assoc] at h
  rw [List.foldl_append, hcmd]
  have hcount : (putle32 addr.toNat ++ putle32 len.toNat).length = 8 := rfl
  generalize putle32 addr.toNat ++ putle32 len.toNat = args at haddr hlen hcount ⊢
  -- the last byte completes the header
  rcases List.eq_nil_or_concat args with rfl | ⟨cs, c, rfl⟩
  · exact absurd hcount (by decide)
  · rw [List.concat_eq_append] at haddr hlen hcount ⊢
    rw [List.length_append, List.length_singleton] at hcount
    have hfour : (putle32 bmiWriteMemory.toNat).length = 4 := rfl
    have htwelve : (putle32 bmiWriteMemory.toNat ++ (cs ++ [c])).length = 12 := by
      rw [List.length_append, List.length_append, List.length_singleton]
      omega
    rw [List.foldl_append, foldl_mailboxByte_arguments mem regs (by omega) (by omega),
      List.foldl_cons, List.foldl_nil]
    unfold Card.mailboxByte headerPhase
    dsimp only
    rw [List.append_assoc, if_neg fun h => absurd h.1 (by omega), if_pos htwelve, haddr, hlen]

/-! ## Through the window -/

/-- A word written to registers, from MSB to LSB. -/
theorem wifiCardWriteFunc1U32_eq (addr : ℕ) (val : UInt32) :
    ∃ b0 b1 b2 b3, putle32 val.toNat = [b0, b1, b2, b3] ∧ wifiCardWriteFunc1U32 addr val =
      [write8 (addr + 3) b3, write8 (addr + 2) b2, write8 (addr + 1) b1, write8 addr b0] := by
  have hbyte : ∀ (x : UInt16) (n : ℕ), x.toNat % 2 ^ 8 = n % 2 ^ 8 → x.toUInt8 = .ofNat n := by
    intro x n h
    rw [eq_comm, UInt8.ofNat_eq_iff_mod_eq_toNat, UInt16.toNat_toUInt8, h]
  have hshift : ∀ x : UInt16, (x >>> 8).toNat = x.toNat / 2 ^ 8 := by
    intro x
    rw [UInt16.toNat_shiftRight, Nat.shiftRight_eq_div_pow]
    rfl
  have hhigh : (val >>> 16).toUInt16.toNat = val.toNat / 2 ^ 16 % 2 ^ 16 := by
    rw [UInt32.toNat_toUInt16, toNat_shiftRight (n := 16) val rfl (by decide)]
  have hlow : val.toUInt16.toNat = val.toNat % 2 ^ 16 := UInt32.toNat_toUInt16 val
  refine ⟨.ofNat val.toNat, .ofNat (val.toNat / 256), .ofNat (val.toNat / 2 ^ 16),
    .ofNat (val.toNat / 2 ^ 16 / 256), rfl, ?_⟩
  unfold wifiCardWriteFunc1U32 wifiCardWriteFunc1U16
  rw [hbyte ((val >>> 16).toUInt16 >>> 8) (val.toNat / 2 ^ 16 / 256) (by rw [hshift, hhigh]; omega),
    hbyte (val >>> 16).toUInt16 (val.toNat / 2 ^ 16) (by rw [hhigh]; omega),
    hbyte (val.toUInt16 >>> 8) (val.toNat / 256) (by rw [hshift, hlow]; omega),
    hbyte val.toUInt16 val.toNat (by rw [hlow]; omega)]
  rfl

/-- The bytes of a word, from MSB to LSB. -/
theorem write_word (m : Mem UInt8) (addr : ℕ) (b0 b1 b2 b3 : UInt8) :
    (((m.write (addr + 3) [b3]).write (addr + 2) [b2]).write (addr + 1) [b1]).write addr [b0] =
      m.write addr [b0, b1, b2, b3] := by
  have h1 : (m.write (addr + 3) [b3]).write (addr + 2) [b2] = m.write (addr + 2) [b2, b3] :=
    (Mem.write_append m (addr + 2) [b2] [b3]).2.symm
  have h2 : (m.write (addr + 2) [b2, b3]).write (addr + 1) [b1] = m.write (addr + 1) [b1, b2, b3] :=
    (Mem.write_append m (addr + 1) [b1] [b2, b3]).2.symm
  rw [h1, h2]
  exact (Mem.write_append m addr [b0] [b1, b2, b3]).2.symm

/-- A write of a word to the window stores it. -/
theorem run_writeInternWord (c : Card) (addr data : UInt32) :
    ∃ regs, c.run (wifiCardWriteInternWord addr data) =
      ⟨c.mem.write addr.toNat (putle32 data.toNat), regs, c.phase⟩ := by
  obtain ⟨d0, d1, d2, d3, hd, hdata⟩ := wifiCardWriteFunc1U32_eq windowData data
  obtain ⟨a0, a1, a2, a3, ha, haddr⟩ := wifiCardWriteFunc1U32_eq windowWriteAddr addr
  let regs := (c.regs.write windowData (putle32 data.toNat)).write windowWriteAddr (putle32 addr.toNat)
  have hfirst : c.run (wifiCardWriteFunc1U32 windowData data) =
      ⟨c.mem, c.regs.write windowData (putle32 data.toNat), c.phase⟩ := by
    rw [hdata, hd, ← write_word]
    rfl
  have hregs := write_word (c.regs.write windowData (putle32 data.toNat)) windowWriteAddr a0 a1 a2 a3
  rw [← ha] at hregs
  have hsecond : (c.run (wifiCardWriteFunc1U32 windowData data)).run
      (wifiCardWriteFunc1U32 windowWriteAddr addr) =
      ⟨c.mem.write (getle32 regs windowWriteAddr) (regs.read windowData 4), regs, c.phase⟩ := by
    rw [hfirst, haddr]
    show _ = (⟨c.mem.write (getle32 (Mem.write _ _ _) _) (Mem.read (Mem.write _ _ _) _ _),
      Mem.write _ _ _, _⟩ : Card)
    rw [← hregs]
    rfl
  have hread : regs.read windowData 4 = putle32 data.toNat := by
    rw [Mem.read_write_of_disjoint _ (Or.inl (by decide))]
    exact Mem.read_write_self _ _ _
  have haddr' : getle32 regs windowWriteAddr = addr.toNat :=
    getle32_of_read (Mem.read_write_self _ _ _) addr.toNat_lt
  refine ⟨regs, ?_⟩
  unfold wifiCardWriteInternWord
  rw [Card.run_append, hsecond, hread, haddr']

/-! ## A command -/

theorem putle32_getle32 (m : Mem UInt8) (p : ℕ) :
    putle32 (UInt32.ofNat (getle32 m p)).toNat = m.read p 4 := by
  have h0 := (m p).toNat_lt
  have h1 := (m (p + 1)).toNat_lt
  have h2 := (m (p + 2)).toNat_lt
  have h3 := (m (p + 2 + 1)).toNat_lt
  have hval : (UInt32.ofNat (getle32 m p)).toNat = getle32 m p := by
    rw [UInt32.toNat_ofNat']
    apply Nat.mod_eq_of_lt
    unfold getle32 getle16
    omega
  rw [hval]
  show [_, _, _, _] = [m p, m (p + 1), m (p + 2), m (p + 2 + 1)]
  unfold getle32 getle16
  simp only [List.cons.injEq, and_true, UInt8.ofNat_eq_iff_mod_eq_toNat]
  refine ⟨?_, ?_, ?_, ?_⟩ <;> omega

/-- `wifi_card_bmi_cmd_write_memory` stores the data, with zeros behind them. -/
theorem run_cmdWriteMemory {c : Card} (hc : c.Idle) (addr : UInt32) (data : Mem UInt8)
    {len : UInt32} (hlen : len.toNat + 3 < 2 ^ 32) :
    (c.run (wifiCardBmiCmdWriteMemory addr data len)).Idle ∧
      (c.run (wifiCardBmiCmdWriteMemory addr data len)).mem =
        c.mem.write addr.toNat (data.read 0 len.toNat ++ List.replicate (len.toNat % 4) 0) := by
  unfold wifiCardBmiCmdWriteMemory
  by_cases hfour : len = 4
  · obtain ⟨regs, hrun⟩ := run_writeInternWord c addr (.ofNat (getle32 data 0))
    subst hfour
    rw [if_pos rfl, hrun, putle32_getle32]
    exact ⟨hc, congrArg (c.mem.write addr.toNat) (List.append_nil _).symm⟩
  · have hsum : (len + len % 4).toNat = (data.read 0 len.toNat ++
        List.replicate (len.toNat % 4) 0).length := by
      rw [UInt32.toNat_add, toNat_mod_four, List.length_append, Mem.length_read, List.length_replicate]
      omega
    have hstate : c = ⟨c.mem, c.regs, .header []⟩ := by rw [← hc]
    rw [if_neg hfour, ← List.map_replicate, List.append_assoc, ← List.map_append, toNat_mod_four]
    simp only [wifiCardWriteMbox0U32_eq]
    rw [← List.map_append, ← List.map_append, Card.run_append, Card.run_map_write8,
      Card.run_map_write8, hstate, List.append_assoc, foldl_mailboxByte_header, hsum,
      foldl_mailboxByte_store]
    exact ⟨rfl, rfl⟩

/-! ## The upload -/

/-- The size of the piece at `i`. -/
theorem toNat_fragSize {len i : UInt32} (hlen : len.toNat < 2 ^ 31 - 0x1F0) (hi : i < len) :
    (if i + 0x1F0 > len then len - i else 0x1F0).toNat = min (len.toNat - i.toNat) 0x1F0 ∧
      (i + 0x1F0).toNat = i.toNat + 0x1F0 := by
  rw [UInt32.lt_iff_toNat_lt] at hi
  have hchunk : (0x1F0 : UInt32).toNat = 0x1F0 := rfl
  have hnext : (i + 0x1F0).toNat = i.toNat + 0x1F0 := by
    rw [UInt32.toNat_add, hchunk]
    omega
  refine ⟨?_, hnext⟩
  by_cases hlast : i + 0x1F0 > len
  · rw [if_pos hlast, UInt32.toNat_sub_of_le _ _ (UInt32.le_iff_toNat_le.2 hi.le)]
    rw [gt_iff_lt, UInt32.lt_iff_toNat_lt, hnext] at hlast
    omega
  · rw [if_neg hlast, hchunk]
    rw [gt_iff_lt, UInt32.lt_iff_toNat_lt, hnext] at hlast
    omega

/-- The loop from `i` on stores the rest of the data, and leaves what is below alone. -/
theorem run_bmiWriteMemoryLoop {addr : UInt32} (data : Mem UInt8) {len : UInt32}
    (hlen : len.toNat < 2 ^ 31 - 0x1F0) (hend : addr.toNat + len.toNat + 3 < 2 ^ 32) (fuel : ℕ)
    {i : UInt32} (hfuel : len.toNat ≤ i.toNat + 0x1F0 * fuel) {c : Card} (hc : c.Idle) :
    ∃ as, bmiWriteMemoryLoop addr data len (fuel + 1) i = some as ∧ (c.run as).Idle ∧
      (∀ k, i.toNat ≤ k → k < len.toNat → (c.run as).mem (addr.toNat + k) = data k) ∧
      ∀ p < addr.toNat + i.toNat, (c.run as).mem p = c.mem p := by
  induction fuel generalizing i c with
  | zero =>
    have hi : ¬i < len := by
      rw [UInt32.lt_iff_toNat_lt]
      omega
    refine ⟨[], if_neg hi, hc, fun k hk hk' => ?_, fun _ _ => rfl⟩
    omega
  | succ fuel ih =>
    unfold bmiWriteMemoryLoop
    by_cases hi : i < len
    · obtain ⟨hfrag, hnext⟩ := toNat_fragSize hlen hi
      rw [UInt32.lt_iff_toNat_lt] at hi
      generalize (if i + 0x1F0 > len then len - i else 0x1F0) = fragSize at hfrag
      have haddr : (addr + i).toNat = addr.toNat + i.toNat := by
        rw [UInt32.toNat_add]
        omega
      obtain ⟨hidle, hmem⟩ := run_cmdWriteMemory hc (addr + i) (fun k => data (i.toNat + k))
        (show fragSize.toNat + 3 < 2 ^ 32 by omega)
      rw [haddr] at hmem
      obtain ⟨as, has, hidle', hdata, hbelow⟩ := ih (i := i + 0x1F0) (by omega) hidle
      refine ⟨_, by rw [if_pos (UInt32.lt_iff_toNat_lt.2 hi), has]; rfl, ?_⟩
      rw [Card.run_append]
      refine ⟨hidle', fun k hk hk' => ?_, fun p hp => ?_⟩
      · by_cases hpiece : k < (i + 0x1F0).toNat
        · obtain ⟨j, rfl⟩ := Nat.exists_eq_add_of_le hk
          have hj : j < (Mem.read (fun k => data (i.toNat + k)) 0 fragSize.toNat).length := by
            rw [Mem.length_read]
            omega
          rw [hbelow _ (by omega), hmem, ← Nat.add_assoc, Mem.write_apply_of_lt _ _ _
            (by rw [List.length_append]; omega), List.getElem_append_left hj, Mem.getElem_read,
            Nat.zero_add]
        · exact hdata k (by omega) hk'
      · rw [hbelow p (by omega), hmem, Mem.write_apply_of_not _ _ _ (Or.inl hp)]
    · rw [if_neg hi]
      refine ⟨[], rfl, hc, fun k hk hk' => ?_, fun _ _ => rfl⟩
      rw [UInt32.lt_iff_toNat_lt] at hi
      omega

/-- **Chunked upload.** From a command boundary, `wifi_card_bmi_write_memory` leaves the card at a
command boundary, with the data in its memory from `addr` on and what is below `addr` as it was. -/
theorem bmi_upload_stores (c : Card) (addr : UInt32) (data : Mem UInt8) (len : UInt32)
    (hc : c.Idle) (hlen : len.toNat < 2 ^ 31 - 0x1F0) (hend : addr.toNat + len.toNat + 3 < 2 ^ 32)
    (fuel : ℕ) (hfuel : len.toNat / 0x1F0 + 2 ≤ fuel) :
    ∃ as, wifiCardBmiWriteMemory fuel addr data len = some as ∧ (c.run as).Idle ∧
      (c.run as).mem.read addr.toNat len.toNat = data.read 0 len.toNat ∧
      ∀ p < addr.toNat, (c.run as).mem p = c.mem p := by
  obtain ⟨rounds, rfl⟩ : ∃ rounds, fuel = rounds + 1 := ⟨fuel - 1, by omega⟩
  have hzero : (0 : UInt32).toNat = 0 := rfl
  obtain ⟨as, has, hidle, hdata, hbelow⟩ :=
    run_bmiWriteMemoryLoop data hlen hend rounds (i := 0) (by omega) hc
  refine ⟨as, has, hidle, ?_, fun p hp => hbelow p (by omega)⟩
  apply Mem.read_congr
  intro k hk
  rw [Nat.zero_add]
  exact hdata k (by omega) hk

/-- An upload of 0x1F4 bytes: a piece through the mailbox, and a word through the window. -/
theorem bmi_upload_sample :
    ∃ as, wifiCardBmiWriteMemory 3 0x524C00 (fun i => .ofNat i) 0x1F4 = some as ∧
      ((⟨fun _ => 0xFF, fun _ => 0, .header []⟩ : Card).run as).mem.read 0x524C00 0x1F4 =
        Mem.read (fun i => .ofNat i) 0 0x1F4 := by
  obtain ⟨as, has, -, hdata, -⟩ := bmi_upload_stores ⟨fun _ => 0xFF, fun _ => 0, .header []⟩ 0x524C00
    (fun i => .ofNat i) 0x1F4 rfl (by decide) (by decide) 3 (by decide)
  exact ⟨as, has, hdata⟩

end DsiWifi
