import DsiWifi.Util
import Mathlib.Data.Nat.Find

/-!
# Log messages

The driver prints through the ARM9: a text is formatted into `_print_buffer` and sent in pieces, each
in the 60 bytes of a `DBGLOG` message.  A piece is copied with all of the 60 bytes, but the last one is
overwritten by the terminator and copied again at the start of the next piece.

`log_messages_survive` states that the pieces make up the text.
-/

namespace DsiWifi

/-! ## Strings in memory -/

/-- A pointer to a string with a terminator. -/
structure CString where
  mem : Mem UInt8
  ptr : ℕ
  terminated : ∃ n, mem (ptr + n) = 0

def CString.strlen (s : CString) : ℕ := Nat.find s.terminated

/-- The characters before the terminator. -/
def CString.text (s : CString) : List UInt8 := s.mem.read s.ptr s.strlen

/-- `strcat(s, src)`: `src` is copied to the terminator of `s`, with its own. -/
def CString.strcat (s : CString) (src : List UInt8) : CString where
  mem := s.mem.write (s.ptr + s.strlen) (src ++ [0])
  ptr := s.ptr
  terminated := by
    refine ⟨s.strlen + src.length, ?_⟩
    rw [← Nat.add_assoc, Mem.write_apply_of_lt _ _ _ (by simp)]
    exact List.getElem_concat_length rfl _

/-- `vsnprintf(dst, n, ..)`, where `text` is the formatted text: it is cut to what fits with a
terminator. -/
def vsnprintf (mem : Mem UInt8) (dst n : ℕ) (text : List UInt8) : Mem UInt8 :=
  if n = 0 then mem else mem.write dst (text.take (n - 1) ++ [0])

/-! ## `wifi_debug.twl.c` -/

def wifiIpcintDbglog : ℕ := 6

/-- `Wifi_FifoMsgExt`, with the member of the union that log messages use. -/
structure WifiFifoMsgExt where
  cmd : ℕ
  logStr : Bytes 60

/-- The message of the piece from character `i` on: `strncpy` of 60 bytes, and a terminator in the
last one.  `logStr` are the bytes from before. -/
def logPiece (s : CString) (logStr : Bytes 60) (i : ℕ) : Bytes 60 :=
  arrayOf ((strncpy logStr.toList (s.mem.read (s.ptr + i) 60)).set 59 0) 60

/-- The loop of `wifi_ipcSendStringAlt` from `i` on: the messages it sends.  A string is shorter than
the range of `i`. -/
def sendPieces (s : CString) (logStr : Bytes 60) (i : ℕ) : List WifiFifoMsgExt :=
  if i ≤ s.strlen then
    ⟨wifiIpcintDbglog, logPiece s logStr i⟩ :: sendPieces s (logPiece s logStr i) (i + 59)
  else []
termination_by s.strlen + 1 - i

/-- The messages `wifi_ipcSendStringAlt` sends; `logStr` is what its message holds before. -/
def wifiIpcSendStringAlt (wifiPrintfAllowed : Bool) (logStr : Bytes 60) (s : CString) :
    List WifiFifoMsgExt :=
  if wifiPrintfAllowed then sendPieces s logStr 0 else []

/-- The memory, with the text in `_print_buffer`. -/
def printBuffer (mem : Mem UInt8) (buf n : ℕ) (text : List UInt8) (hn : n ≠ 0) : CString where
  mem := vsnprintf mem buf n text
  ptr := buf
  terminated := by
    refine ⟨(text.take (n - 1)).length, ?_⟩
    have hlast : (text.take (n - 1)).length < (text.take (n - 1) ++ [0]).length := by
      rw [List.length_append]
      exact Nat.lt_succ_self _
    rw [vsnprintf, if_neg hn, Mem.write_apply_of_lt _ _ _ hlast]
    exact List.getElem_concat_length rfl _

/-- The messages `wifi_printf` sends for a formatted text, and the memory after it; `_print_buffer` is
at `buf`. -/
def wifiPrintf (wifiPrintfAllowed : Bool) (logStr : Bytes 60) (mem : Mem UInt8) (buf : ℕ)
    (text : List UInt8) : List WifiFifoMsgExt × Mem UInt8 :=
  if wifiPrintfAllowed then
    let s := printBuffer mem buf (0x7C - 1) text (by decide)
    (wifiIpcSendStringAlt wifiPrintfAllowed logStr s, s.mem)
  else ([], mem)

/-- The same for `wifi_printlnf`: one character less, and a newline. -/
def wifiPrintlnf (wifiPrintfAllowed : Bool) (logStr : Bytes 60) (mem : Mem UInt8) (buf : ℕ)
    (text : List UInt8) : List WifiFifoMsgExt × Mem UInt8 :=
  if wifiPrintfAllowed then
    let s := (printBuffer mem buf (0x7C - 2) text (by decide)).strcat [0x0A]
    (wifiIpcSendStringAlt wifiPrintfAllowed logStr s, s.mem)
  else ([], mem)

/-- What the messages say, put together. -/
def logText (msgs : List WifiFifoMsgExt) : List UInt8 := msgs.flatMap fun m => cstr m.logStr.toList

/-! ## Lengths of strings -/

theorem CString.strlen_eq_iff (s : CString) (n : ℕ) :
    s.strlen = n ↔ s.mem (s.ptr + n) = 0 ∧ ∀ i < n, s.mem (s.ptr + i) ≠ 0 :=
  Nat.find_eq_iff s.terminated

theorem CString.length_text (s : CString) : s.text.length = s.strlen := Mem.length_read _ _ _

theorem CString.zero_notMem_text (s : CString) : (0 : UInt8) ∉ s.text := by
  intro h
  obtain ⟨i, hi, hzero⟩ := List.mem_map.1 h
  exact ((s.strlen_eq_iff _).1 rfl).2 i (List.mem_range.1 hi) hzero

/-- A text in memory, with a terminator behind it. -/
theorem CString.text_eq {s : CString} {text : List UInt8} (htext : (0 : UInt8) ∉ text)
    (h : s.mem.read s.ptr (text.length + 1) = text ++ [0]) : s.text = text := by
  rw [show text.length + 1 = (text ++ [0]).length by simp, Mem.read_eq_append] at h
  have hlen : s.strlen = text.length := by
    refine (s.strlen_eq_iff _).2 ⟨List.head_eq_of_cons_eq h.2, fun i hi hzero => htext ?_⟩
    rw [← h.1, ← hzero]
    exact List.mem_map_of_mem (List.mem_range.2 hi)
  rw [CString.text, hlen, h.1]

/-- Bytes in memory, with a terminator behind them: the string may end before it. -/
theorem CString.text_eq_cstr {s : CString} {bytes : List UInt8}
    (h : s.mem.read s.ptr (bytes.length + 1) = bytes ++ [0]) : s.text = cstr bytes := by
  obtain ⟨w, hw⟩ : ∃ w, cstr bytes = w := ⟨_, rfl⟩
  rw [hw]
  obtain ⟨hzero, rfl | ⟨t, rfl⟩⟩ := cstr_eq_iff.1 hw
  · exact CString.text_eq hzero h
  · have happend : w ++ 0 :: t ++ [0] = (w ++ [0]) ++ (t ++ [0]) := by simp
    have hlen : (w ++ 0 :: t).length + 1 = (w ++ 0 :: t ++ [0]).length := by
      simp only [List.length_append, List.length_cons, List.length_nil]
    rw [hlen, happend, Mem.read_eq_append] at h
    exact CString.text_eq hzero (by simpa using h.1)

/-- The string at character `i` of a string, in a window of `n` bytes. -/
theorem CString.cstr_read (s : CString) {i : ℕ} (hi : i ≤ s.strlen) (n : ℕ) :
    cstr (s.mem.read (s.ptr + i) n) = (s.text.drop i).take n := by
  obtain ⟨k, hk⟩ := Nat.exists_eq_add_of_le hi
  have hdrop : s.text.drop i = s.mem.read (s.ptr + i) k := by
    rw [CString.text, hk, Mem.read_add, List.drop_left' (Mem.length_read _ _ _)]
  have hzero : (0 : UInt8) ∉ (s.text.drop i).take n := fun h =>
    s.zero_notMem_text (List.mem_of_mem_drop (List.mem_of_mem_take h))
  refine cstr_eq_iff.2 ⟨hzero, ?_⟩
  rw [hdrop]
  rcases Nat.le_total n k with hn | hn
  · left
    obtain ⟨l, rfl⟩ := Nat.exists_eq_add_of_le hn
    rw [Mem.read_add, List.take_left' (Mem.length_read _ _ _)]
  · -- the terminator follows, unless the window ends before it
    rw [List.take_of_length_le (by rwa [Mem.length_read])]
    obtain ⟨l, rfl⟩ := Nat.exists_eq_add_of_le hn
    rw [Mem.read_add]
    cases l with
    | zero => exact Or.inl (List.append_nil _)
    | succ l =>
      have hterm : s.mem (s.ptr + i + k) = 0 := by
        rw [Nat.add_assoc, ← hk]
        exact ((s.strlen_eq_iff _).1 rfl).1
      rw [Mem.read_succ, hterm]
      exact Or.inr ⟨_, rfl⟩

theorem CString.text_strcat (s : CString) {src : List UInt8} (h : (0 : UInt8) ∉ src) :
    (s.strcat src).text = s.text ++ src := by
  refine CString.text_eq (by simp [s.zero_notMem_text, h]) ?_
  have hlen : (s.text ++ src).length + 1 = s.strlen + (src ++ [0]).length := by
    rw [List.length_append, List.length_append, s.length_text, Nat.add_assoc]
    rfl
  unfold CString.strcat
  dsimp only
  rw [hlen, Mem.read_add, Mem.read_write_self, Mem.read_write_of_disjoint _ (Or.inl (Nat.le_refl _)),
    List.append_assoc]
  rfl

theorem text_printBuffer (mem : Mem UInt8) (buf n : ℕ) (text : List UInt8) (hn : n ≠ 0) :
    (printBuffer mem buf n text hn).text = (cstr text).take (n - 1) := by
  have hcut : (cstr text).take (n - 1) = cstr (text.take (n - 1)) := List.take_takeWhile
  rw [hcut]
  refine CString.text_eq_cstr ?_
  unfold printBuffer vsnprintf
  dsimp only
  rw [if_neg hn]
  have hlen : (text.take (n - 1)).length + 1 = (text.take (n - 1) ++ [0]).length := by
    rw [List.length_append]
    rfl
  rw [hlen, Mem.read_write_self]

/-! ## Pieces -/

/-- A buffer of `n + 1` bytes with a string copied into it, and a terminator in the last byte. -/
theorem cstr_strncpy_set {n : ℕ} {dst src : List UInt8} (hdst : dst.length = n + 1)
    (hsrc : src.length = n + 1) : ((strncpy dst src).set n 0).length = n + 1 ∧
      cstr ((strncpy dst src).set n 0) = (cstr src).take n := by
  obtain ⟨hzero, -⟩ := cstr_eq_iff.1 (rfl : cstr src = cstr src)
  have hle : (cstr src).length ≤ n + 1 := hsrc ▸ (List.takeWhile_prefix _).length_le
  have hcopy : strncpy dst src =
      cstr src ++ List.replicate (n + 1 - (cstr src).length) 0 := by
    unfold strncpy
    rw [hsrc, List.drop_of_length_le (Nat.le_of_eq hdst), List.append_nil]
  have hlen : (strncpy dst src).length = n + 1 := by
    rw [hcopy, List.length_append, List.length_replicate]
    omega
  refine ⟨by rw [List.length_set, hlen], ?_⟩
  rw [List.set_eq_take_append_cons_drop, if_pos (by omega), List.drop_of_length_le (Nat.le_of_eq hlen)]
  rw [cstr_append_zero, cstr, ← List.take_takeWhile, ← cstr, hcopy, cstr_append_replicate hzero]

variable (s : CString)

/-- A piece is terminated, and holds 59 characters or the rest of the string. -/
theorem cstr_logPiece (logStr : Bytes 60) {i : ℕ} (hi : i ≤ s.strlen) :
    logPiece s logStr i (Fin.last 59) = 0 ∧
      cstr (logPiece s logStr i).toList = (s.text.drop i).take 59 := by
  obtain ⟨hlen, hcstr⟩ := cstr_strncpy_set
    (show logStr.toList.length = 59 + 1 from List.length_ofFn)
    (show (s.mem.read (s.ptr + i) 60).length = 59 + 1 from Mem.length_read _ _ _)
  unfold logPiece
  constructor
  · show List.getD _ 59 0 = 0
    rw [List.length_set] at hlen
    rw [List.getD_eq_getElem?_getD, List.getElem?_set_self (by omega)]
    rfl
  · rw [toList_arrayOf (Nat.le_of_eq hlen.symm), List.take_of_length_le (Nat.le_of_eq hlen), hcstr,
      s.cstr_read hi, List.take_take]
    rfl

/-- The pieces from character `i` on. -/
theorem logText_sendPieces (logStr : Bytes 60) (i : ℕ) :
    logText (sendPieces s logStr i) = s.text.drop i := by
  fun_induction sendPieces s logStr i with
  | case1 logStr i hi ih =>
    unfold logText at ih ⊢
    rw [List.flatMap_cons, ih, (cstr_logPiece s logStr hi).2, ← List.drop_drop,
      List.take_append_drop]
  | case2 logStr i hi =>
    rw [List.drop_of_length_le (by rw [s.length_text]; omega)]
    rfl

theorem terminated_of_mem_sendPieces (logStr : Bytes 60) (i : ℕ) {m : WifiFifoMsgExt}
    (h : m ∈ sendPieces s logStr i) : m.cmd = wifiIpcintDbglog ∧ m.logStr (Fin.last 59) = 0 := by
  fun_induction sendPieces s logStr i with
  | case1 logStr i hi ih =>
    rcases List.mem_cons.1 h with rfl | h
    · exact ⟨rfl, (cstr_logPiece s logStr hi).1⟩
    · exact ih h
  | case2 logStr i hi => exact absurd h List.not_mem_nil

/-! ## Messages -/

/-- The pieces of a string say what the string says, each with a terminator. -/
theorem logText_wifiIpcSendStringAlt (logStr : Bytes 60) :
    logText (wifiIpcSendStringAlt true logStr s) = s.text ∧
      ∀ m ∈ wifiIpcSendStringAlt true logStr s,
        m.cmd = wifiIpcintDbglog ∧ m.logStr (Fin.last 59) = 0 := by
  unfold wifiIpcSendStringAlt
  rw [if_pos rfl]
  exact ⟨logText_sendPieces s logStr 0, fun m => terminated_of_mem_sendPieces s logStr 0⟩

/-- A formatted text changes its first `n` bytes only. -/
theorem printBuffer_outside (mem : Mem UInt8) (buf : ℕ) {n : ℕ} (text : List UInt8) (hn : n ≠ 0)
    {a : ℕ} (ha : a < buf ∨ buf + n ≤ a) : (printBuffer mem buf n text hn).mem a = mem a := by
  have hlen : (text.take (n - 1) ++ [0]).length ≤ n := by
    rw [List.length_append, List.length_take, List.length_singleton]
    omega
  unfold printBuffer vsnprintf
  dsimp only
  rw [if_neg hn, Mem.write_apply_of_not _ _ _ (by omega)]

/-- `wifi_printf` says the first 0x7A characters of the text, and stays inside `_print_buffer`. -/
theorem wifiPrintf_spec (logStr : Bytes 60) (mem : Mem UInt8) (buf : ℕ) (text : List UInt8) :
    logText (wifiPrintf true logStr mem buf text).1 = (cstr text).take 0x7A ∧
      ∀ a, a < buf ∨ buf + 0x7C ≤ a → (wifiPrintf true logStr mem buf text).2 a = mem a := by
  unfold wifiPrintf
  rw [if_pos rfl]
  dsimp only
  constructor
  · rw [(logText_wifiIpcSendStringAlt _ logStr).1, text_printBuffer]
  · intro a ha
    exact printBuffer_outside mem buf text _ (by omega)

/-- `wifi_printlnf` says the first 0x79 characters and a newline, and stays inside `_print_buffer`. -/
theorem wifiPrintlnf_spec (logStr : Bytes 60) (mem : Mem UInt8) (buf : ℕ) (text : List UInt8) :
    logText (wifiPrintlnf true logStr mem buf text).1 = (cstr text).take 0x79 ++ [0x0A] ∧
      ∀ a, a < buf ∨ buf + 0x7C ≤ a → (wifiPrintlnf true logStr mem buf text).2 a = mem a := by
  have htext := text_printBuffer mem buf (0x7C - 2) text (by decide)
  unfold wifiPrintlnf
  rw [if_pos rfl]
  dsimp only
  constructor
  · rw [(logText_wifiIpcSendStringAlt _ logStr).1, CString.text_strcat _ (by decide), htext]
  · intro a ha
    -- the terminator is in the first 0x7A bytes, the newline and its own go behind it
    have hstrlen : (printBuffer mem buf (0x7C - 2) text (by decide)).strlen ≤ 0x79 := by
      rw [← CString.length_text, htext]
      exact List.length_take_le _ _
    have hptr : (printBuffer mem buf (0x7C - 2) text (by decide)).ptr = buf := rfl
    have hline : ([0x0A] ++ [0] : List UInt8).length = 2 := rfl
    unfold CString.strcat
    dsimp only
    rw [hptr, Mem.write_apply_of_not _ _ _ (by omega)]
    exact printBuffer_outside mem buf text _ (by omega)

/-- **Log messages.** While printing is allowed, the messages of a string say what the string says,
each with a terminator in its 60 bytes, and those of `wifi_printlnf` say the first 0x79 characters of
the formatted text and a newline, with no write outside `_print_buffer`.  Otherwise nothing is sent. -/
theorem log_messages_survive (logStr : Bytes 60) :
    (∀ s : CString, logText (wifiIpcSendStringAlt true logStr s) = s.text ∧
      ∀ m ∈ wifiIpcSendStringAlt true logStr s,
        m.cmd = wifiIpcintDbglog ∧ m.logStr (Fin.last 59) = 0) ∧
    (∀ (mem : Mem UInt8) (buf : ℕ) (text : List UInt8),
      logText (wifiPrintlnf true logStr mem buf text).1 = (cstr text).take 0x79 ++ [0x0A] ∧
        ∀ a, a < buf ∨ buf + 0x7C ≤ a → (wifiPrintlnf true logStr mem buf text).2 a = mem a) ∧
    ∀ (s : CString) (mem : Mem UInt8) (buf : ℕ) (text : List UInt8),
      wifiIpcSendStringAlt false logStr s = [] ∧
        wifiPrintlnf false logStr mem buf text = ([], mem) :=
  ⟨fun s => logText_wifiIpcSendStringAlt s logStr, wifiPrintlnf_spec logStr,
    fun _ _ _ _ => ⟨rfl, rfl⟩⟩

/-- A line that is cut. -/
theorem log_messages_survive_sample :
    logText (wifiPrintlnf true (fun _ => 0xDD) (fun _ => 0xDD) 0x1000 (List.replicate 0x100 0x61)).1 =
      List.replicate 0x79 0x61 ++ [0x0A] := by
  have h := ((log_messages_survive fun _ => 0xDD).2.1 (fun _ => 0xDD) 0x1000
    (List.replicate 0x100 0x61)).1
  rwa [cstr_eq_iff.2 ⟨by decide, Or.inl rfl⟩, List.take_replicate] at h

/-- Before printing is allowed, a string is not sent. -/
theorem log_messages_counterexample :
    ¬∀ (wifiPrintfAllowed : Bool) (logStr : Bytes 60) (s : CString),
      logText (wifiIpcSendStringAlt wifiPrintfAllowed logStr s) = s.text := by
  intro h
  have hs := h false (fun _ => 0) ⟨.ofList [0x61] 0, 0, ⟨1, rfl⟩⟩
  have htext : (⟨.ofList [0x61] 0, 0, ⟨1, rfl⟩⟩ : CString).text = [0x61] :=
    CString.text_eq (by decide) rfl
  rw [htext] at hs
  exact absurd hs (by decide)

end DsiWifi
