import DsiWifi.Bmi.Commands

/-!
# Lengths of BMI commands

The length of a command's data is rounded up by `len + len % 4`, and as many bytes are exchanged.
That is a multiple of four for even lengths only, and `wifi_card_bmi_lz_data` sends most of its data
as one block write, whose command counts at most 255 blocks.

`bmi_lengths_iff` says for which lengths the word sent is the length rounded up to words and the
data that follow have just that length.
-/

namespace DsiWifi

open Func1Access

/-- The length word, the last of a header of `header` bytes. -/
def lengthWord (header : ℕ) (as : List Func1Access) : ℕ :=
  getle32 (.ofList (mailboxStream as) 0) (header - 4)

/-- The length word is `len` rounded up to words, and the data behind the header have that length. -/
structure HonestLength (header len : ℕ) (as : List Func1Access) : Prop where
  aligned : lengthWord header as % 4 = 0
  enough : len ≤ lengthWord header as
  smallest : lengthWord header as < len + 4
  exchanged : mailboxBytes as = header + lengthWord header as

/-! ## The words -/

@[simp] theorem mailboxBytes_writeMbox0U32 (val : UInt32) :
    mailboxBytes (wifiCardWriteMbox0U32 val) = 4 := rfl

theorem mailboxStream_writeMbox0U32 (val : UInt32) :
    mailboxStream (wifiCardWriteMbox0U32 val) = putle32 val.toNat := by
  rw [wifiCardWriteMbox0U32_eq, mailboxStream_map_write8]

/-- The number the three commands send as the length. -/
theorem toNat_len_add (len : UInt32) :
    (len + len % 4).toNat = (len.toNat + len.toNat % 4) % 2 ^ 32 := by
  rw [UInt32.toNat_add, toNat_mod_four]

/-- The length rounded as the commands do it. -/
theorem rounded_iff (len : UInt32) :
    (len + len % 4).toNat % 4 = 0 ∧ len.toNat ≤ (len + len % 4).toNat ∧
        (len + len % 4).toNat < len.toNat + 4 ↔
      len.toNat % 2 = 0 ∧ len.toNat ≠ 0xFFFFFFFE := by
  have hlen : len.toNat < 2 ^ 32 := len.toNat_lt
  rw [toNat_len_add]
  omega

/-- A command whose length word is `len + len % 4`, by the number of its data bytes. -/
theorem honestLength_iff (len : UInt32) (n : ℕ) {header : ℕ} {as : List Func1Access}
    (hword : lengthWord header as = (len + len % 4).toNat) (hbytes : mailboxBytes as = header + n) :
    HonestLength header len.toNat as ↔
      (len.toNat % 2 = 0 ∧ len.toNat ≠ 0xFFFFFFFE) ∧ n = (len + len % 4).toNat := by
  rw [← rounded_iff]
  constructor
  · rintro ⟨haligned, henough, hsmallest, hexchanged⟩
    rw [hword] at haligned henough hsmallest hexchanged
    exact ⟨⟨haligned, henough, hsmallest⟩, by omega⟩
  · rintro ⟨⟨haligned, henough, hsmallest⟩, hn⟩
    rw [← hword] at haligned henough hsmallest hn
    exact ⟨haligned, henough, hsmallest, by omega⟩

/-! ## Reading and writing memory -/

theorem lengthWord_mbox (cmd addr len : UInt32) (rest : List Func1Access) :
    lengthWord 12 (wifiCardWriteMbox0U32 cmd ++ wifiCardWriteMbox0U32 addr ++
      wifiCardWriteMbox0U32 len ++ rest) = len.toNat := by
  unfold lengthWord
  simp only [mailboxStream_append, mailboxStream_writeMbox0U32]
  rw [List.append_assoc]
  exact getle32_ofList (putle32 cmd.toNat ++ putle32 addr.toNat) (mailboxStream rest) len

/-- As many bytes as the length says, but for an overflow. -/
theorem data_eq_of_even {len : UInt32} (h : len.toNat % 2 = 0 ∧ len.toNat ≠ 0xFFFFFFFE) :
    len.toNat + len.toNat % 4 = (len + len % 4).toNat := by
  have hlen : len.toNat < 2 ^ 32 := len.toNat_lt
  rw [toNat_len_add]
  omega

section Memory

variable {len : UInt32} (hlen : len ≠ 4)

include hlen in
theorem readMemory_honest_iff (answers : Mem UInt8) (word addr : UInt32) (out : Mem UInt8) :
    HonestLength 12 len.toNat (wifiCardBmiCmdReadMemory answers word addr len out).1 ↔
      len.toNat % 2 = 0 ∧ len.toNat ≠ 0xFFFFFFFE := by
  unfold wifiCardBmiCmdReadMemory
  rw [if_neg hlen]
  dsimp only
  rw [honestLength_iff len (len.toNat + len.toNat % 4)]
  · exact and_iff_left_of_imp data_eq_of_even
  · rw [List.append_assoc]
    exact lengthWord_mbox _ _ _ _
  · simp only [mailboxBytes_append, mailboxBytes_writeMbox0U32, mailboxBytes_replicate_read8,
      toNat_mod_four]
    omega

include hlen in
theorem writeMemory_honest_iff (addr : UInt32) (data : Mem UInt8) :
    HonestLength 12 len.toNat (wifiCardBmiCmdWriteMemory addr data len) ↔
      len.toNat % 2 = 0 ∧ len.toNat ≠ 0xFFFFFFFE := by
  unfold wifiCardBmiCmdWriteMemory
  rw [if_neg hlen, honestLength_iff len (len.toNat + len.toNat % 4)]
  · exact and_iff_left_of_imp data_eq_of_even
  · rw [List.append_assoc]
    exact lengthWord_mbox _ _ _ _
  · rw [← List.map_replicate]
    simp only [mailboxBytes_append, mailboxBytes_writeMbox0U32, mailboxBytes_map_write8,
      Mem.length_read, List.length_replicate, toNat_mod_four]
    omega

end Memory

/-! ## Compressed data -/

/-- The block count of a block write survives in its command. -/
theorem cmd53Count_writeArg (addr : ℕ) {k : ℕ} (hk : k < 2 ^ 9) :
    cmd53Count (cmd53WriteArg addr k) = k := by
  have hshift : ∀ x : ℕ, (x <<< 9) % 2 ^ 9 = 0 := by
    intro x
    rw [Nat.shiftLeft_eq, Nat.mul_mod_left]
  unfold cmd53Count cmd53WriteArg
  simp only [Nat.or_mod_two_pow, hshift, Nat.mod_eq_of_lt hk]
  simp

/-- A block write moves the blocks its command counts. -/
theorem mailboxBytes_sendbytes (intval : UInt32) {data : List UInt8} :
    mailboxBytes (wifiCardMbox0Sendbytes intval data) = data.length / 128 % 256 * 128 := by
  have hcount : cmd53Count (mbox0Sendbytes data).arg = data.length / 128 % 256 :=
    cmd53Count_writeArg _ (by omega)
  have hstream : mailboxStream [writeBlock (mbox0Sendbytes data)] =
      data.take (128 * (data.length / 128 % 256)) := by
    show data.take (128 * cmd53Count (mbox0Sendbytes data).arg) ++ [] = _
    rw [List.append_nil, hcount]
  have hblock : mailboxBytes [writeBlock (mbox0Sendbytes data)] =
      data.length / 128 % 256 * 128 := by
    unfold mailboxBytes
    rw [hstream, List.length_take]
    show min _ _ + 0 = _
    omega
  have hstatus : mailboxBytes (wifiCardReadFunc1U32 f1HostIntStatus) = 0 := rfl
  unfold wifiCardMbox0Sendbytes
  rw [mailboxBytes_append, mailboxBytes_append, hblock, hstatus]
  split_ifs <;> rfl

theorem lzData_honest_iff (intval : UInt32) (data : Mem UInt8) (len : UInt32) :
    HonestLength 8 len.toNat (wifiCardBmiLzData intval data len) ↔
      len.toNat % 2 = 0 ∧ len.toNat < 0x8000 := by
  have hlen : len.toNat < 2 ^ 32 := len.toNat_lt
  have hbulk : (len - len % 0x80).toNat = len.toNat - len.toNat % 0x80 := by
    have hmod : (len % 0x80).toNat = len.toNat % 0x80 := by
      rw [UInt32.toNat_mod]
      rfl
    rw [UInt32.toNat_sub_of_le _ _ ?_, hmod]
    rw [UInt32.le_iff_toNat_le, hmod]
    exact Nat.mod_le _ _
  unfold wifiCardBmiLzData
  dsimp only
  rw [hbulk, honestLength_iff len ((len.toNat - len.toNat % 0x80) / 128 % 256 * 128 +
    len.toNat % 0x80 + len.toNat % 4), toNat_len_add]
  · omega
  · unfold lengthWord
    simp only [mailboxStream_append, mailboxStream_writeMbox0U32, List.append_assoc]
    exact getle32_ofList (putle32 bmiLzData.toNat) _ (len + len % 4)
  · rw [← List.map_replicate]
    simp only [mailboxBytes_append, mailboxBytes_writeMbox0U32, mailboxBytes_map_write8,
      mailboxBytes_sendbytes, Mem.length_read, List.length_replicate, toNat_mod_four]
    omega

/-- **BMI lengths.** The length word is the length rounded up to words, and as many bytes follow it,
exactly when the length is even and the sum does not wrap; for `wifi_card_bmi_lz_data`, exactly when
it is even and below the 256 blocks that a block write cannot count. -/
theorem bmi_lengths_iff (answers out data : Mem UInt8) (word addr intval len : UInt32) :
    (len ≠ 4 →
      (HonestLength 12 len.toNat (wifiCardBmiCmdReadMemory answers word addr len out).1 ↔
        len.toNat % 2 = 0 ∧ len.toNat ≠ 0xFFFFFFFE)) ∧
    (len ≠ 4 →
      (HonestLength 12 len.toNat (wifiCardBmiCmdWriteMemory addr data len) ↔
        len.toNat % 2 = 0 ∧ len.toNat ≠ 0xFFFFFFFE)) ∧
    (HonestLength 8 len.toNat (wifiCardBmiLzData intval data len) ↔
      len.toNat % 2 = 0 ∧ len.toNat < 0x8000) :=
  ⟨fun hlen => readMemory_honest_iff hlen answers word addr out,
    fun hlen => writeMemory_honest_iff hlen addr data, lzData_honest_iff intval data len⟩

/-- Six bytes go out as eight. -/
theorem bmi_lengths_sample :
    HonestLength 12 6 (wifiCardBmiCmdWriteMemory 0x500400 (fun _ => 0) 6) :=
  ((bmi_lengths_iff (fun _ => 0) (fun _ => 0) (fun _ => 0) 0 0x500400 0 6).2.1 (by decide)).2
    (by decide)

/-- For five bytes the length word is six. -/
theorem bmi_lengths_counterexample :
    ¬∀ (answers out data : Mem UInt8) (word addr intval len : UInt32), len ≠ 4 →
      HonestLength 12 len.toNat (wifiCardBmiCmdReadMemory answers word addr len out).1 ∧
        HonestLength 12 len.toNat (wifiCardBmiCmdWriteMemory addr data len) ∧
        HonestLength 8 len.toNat (wifiCardBmiLzData intval data len) := by
  intro h
  have hwrite := (h (fun _ => 0) (fun _ => 0) (fun _ => 0) 0 0x500400 0 5 (by decide)).2.1
  rw [writeMemory_honest_iff (by decide)] at hwrite
  exact absurd hwrite (by decide)

end DsiWifi
