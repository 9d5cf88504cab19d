import DsiWifi.Lib.Reading
import DsiWifi.Wmi.GroupKey

/-!
# The GTK element of the key data

Key data are elements and up to seven bytes of padding, `0xDD` and zeros.  The scan of
`wpa_decrypt_gtk` stops by the start of a record only: a single padding byte reads as a vendor
element whose length is a byte of the stack, and the comparison of a vendor element's prefix looks
at four bytes whatever its length.  `gtk_extracted_iff` says when neither matters.

`group_key_installed_iff` is about the command that installs the key: its index is the whole byte
that holds the KeyID bits.
-/

namespace DsiWifi

open ApSecurityType ApCipherType

/-! ## The scan, byte by byte -/

namespace GtkReading

open Reading

/-- One round: the length of the record at `i`, and the output after it.  `memcmp` looks at the four
bytes of the prefix. -/
def gtkRound (out : Bytes 38) (i : ℕ) : Reading ℕ UInt8 (ℕ × Bytes 38) := do
  let entType ← cell i
  let entSize ← cell (i + 1)
  if entType = 0xDD then do
    let keytype ← block (i + 2) 4
    if keytype = [0x00, 0x0F, 0xAC, 0x01] ∧ (entSize.toNat = 0x16 ∨ entSize.toNat = 0x26) then do
      let body ← block (i + 2) entSize.toNat
      pure (entSize.toNat, fun k : Fin 38 => if k.val < entSize.toNat then body.getD k 0 else out k)
    else pure (entSize.toNat, out)
  else pure (entSize.toNat, out)

/-- The loop over `n` bytes, with at most `fuel` rounds. -/
def gtkLoop (n : ℕ) : ℕ → ℕ → Bytes 38 → Reading ℕ UInt8 (Bytes 38)
  | 0, _, out => pure out
  | fuel + 1, i, out =>
    if i < n then do
      let r ← gtkRound out i
      gtkLoop n fuel (i + 2 + r.1) r.2
    else pure out

/-- The scan of `n` unwrapped bytes. -/
def wpaDecryptGtk (n : ℕ) : Reading ℕ UInt8 (Bytes 38) := gtkLoop n n 0 (zeros 38)

theorem run_gtkRound (m : Mem UInt8) (out : Bytes 38) (i : ℕ) :
    (gtkRound out i).run m = ((m (i + 1)).toNat, DsiWifi.gtkRound m out i) := by
  unfold gtkRound DsiWifi.gtkRound
  rw [run_bind, run_cell, run_bind, run_cell]
  by_cases htype : m i = 0xDD
  · rw [if_pos htype, run_bind, run_block]
    by_cases hgtk : m.read (i + 2) 4 = [0x00, 0x0F, 0xAC, 0x01] ∧
        ((m (i + 1)).toNat = 0x16 ∨ (m (i + 1)).toNat = 0x26)
    · rw [if_pos hgtk, if_pos (show IsGtk m i from ⟨htype, hgtk⟩), run_bind, run_block, run_pure]
      congr 1
      funext k
      by_cases hk : k.val < (m (i + 1)).toNat
      · have hget := Mem.getElem_read m (i + 2) (m (i + 1)).toNat (i := k.val)
          (by rwa [Mem.length_read])
        rw [if_pos hk, if_pos hk, List.getD_eq_getElem?_getD, List.getElem?_eq_getElem
          (by rwa [Mem.length_read]), Option.getD_some, hget]
      · rw [if_neg hk, if_neg hk]
    · rw [if_neg hgtk, if_neg fun h : IsGtk m i => hgtk h.2, run_pure]
  · rw [if_neg htype, if_neg fun h : IsGtk m i => htype h.1, run_pure]

/-- The loop computes the output of the model. -/
theorem run_gtkLoop (m : Mem UInt8) (n fuel i : ℕ) (out : Bytes 38) :
    (gtkLoop n fuel i out).run m = DsiWifi.gtkLoop m n fuel i out := by
  induction fuel generalizing i out with
  | zero => rfl
  | succ fuel ih =>
    unfold gtkLoop DsiWifi.gtkLoop
    by_cases hi : i < n
    · rw [if_pos hi, if_pos hi, run_bind, run_gtkRound, ih]
      rfl
    · rw [if_neg hi, if_neg hi, run_pure]

/-- The round at `i` looks at bytes below `stop` only. -/
def RoundInside (m : Mem UInt8) (stop i : ℕ) : Prop :=
  i + 1 < stop ∧ (m i = 0xDD → i + 6 ≤ stop) ∧ (IsGtk m i → i + 2 + (m (i + 1)).toNat ≤ stop)

theorem within_gtkRound (m : Mem UInt8) (stop : ℕ) (out : Bytes 38) (i : ℕ) :
    Within m (· < stop) (gtkRound out i) ↔ RoundInside m stop i := by
  unfold gtkRound RoundInside IsGtk
  rw [within_bind, within_cell, run_cell, within_bind, within_cell, run_cell]
  by_cases htype : m i = 0xDD
  · rw [if_pos htype, within_bind, within_block, run_block]
    by_cases hgtk : m.read (i + 2) 4 = [0x00, 0x0F, 0xAC, 0x01] ∧
        ((m (i + 1)).toNat = 0x16 ∨ (m (i + 1)).toNat = 0x26)
    · rw [if_pos hgtk, within_bind, within_block, and_iff_left (within_pure _)]
      simp only [htype, hgtk, true_and, forall_const]
      omega
    · rw [if_neg hgtk, and_iff_left (within_pure _)]
      simp only [htype, hgtk, and_false, false_imp_iff, and_true, forall_const]
      omega
  · rw [if_neg htype, and_iff_left (within_pure _)]
    simp only [htype, false_and, false_imp_iff, and_true]
    omega

/-- The loop looks at bytes below `stop` only, if each round does. -/
theorem within_gtkLoop (m : Mem UInt8) (stop n fuel i : ℕ) (out : Bytes 38) :
    Within m (· < stop) (gtkLoop n fuel i out) ↔
      ∀ p ∈ Tlv.starts m n fuel i, RoundInside m stop p := by
  induction fuel generalizing i out with
  | zero => exact iff_of_true (within_pure _) fun p hp => absurd hp List.not_mem_nil
  | succ fuel ih =>
    unfold gtkLoop Tlv.starts
    by_cases hi : i < n
    · rw [if_pos hi, if_pos hi, within_bind, within_gtkRound, run_gtkRound, ih,
        List.forall_mem_cons]
      rfl
    · rw [if_neg hi, if_neg hi]
      exact iff_of_true (within_pure _) fun p hp => absurd hp List.not_mem_nil

end GtkReading

/-! ## Key data -/

/-- The record is a GTK element. -/
def IsGtkRecord (r : Tlv.Record) : Prop :=
  r.type = 0xDD ∧ r.body.take 4 = [0x00, 0x0F, 0xAC, 0x01] ∧
    (r.body.length = 0x16 ∨ r.body.length = 0x26)

instance (r : Tlv.Record) : Decidable (IsGtkRecord r) := by unfold IsGtkRecord; infer_instance

/-- The padding of key data to `k` bytes. -/
def keyPadding : ℕ → List UInt8
  | 0 => []
  | k + 1 => 0xDD :: List.replicate k 0

/-- The unwrapped bytes: elements and padding. -/
def keyData (es : List Tlv.Record) (k : ℕ) : List UInt8 := Tlv.encode es ++ keyPadding k

/-- The body of the GTK element, with zeros behind it, or zeros when there is none. -/
def gtkBody (es : List Tlv.Record) : Bytes 38 :=
  match es.find? IsGtkRecord with
  | some r => arrayOf r.body 38
  | none => zeros 38

theorem length_keyPadding (k : ℕ) : (keyPadding k).length = k := by
  cases k with
  | zero => rfl
  | succ k => simp [keyPadding]

theorem length_keyData (es : List Tlv.Record) (k : ℕ) :
    (keyData es k).length = (Tlv.encode es).length + k := by
  unfold keyData
  rw [List.length_append, length_keyPadding]

/-- A record in a memory reads as a GTK element when it is one. -/
theorem isGtk_iff_of_at {m : Mem UInt8} {i : ℕ} {r : Tlv.Record} (h : Tlv.At m i r) :
    IsGtk m i ↔ IsGtkRecord r := by
  have hread : r.body.length = 0x16 ∨ r.body.length = 0x26 → m.read (i + 2) 4 = r.body.take 4 := by
    intro hlen
    obtain ⟨n, hn⟩ : ∃ n, r.body.length = 4 + n := ⟨r.body.length - 4, by omega⟩
    have hbody := h.body
    rw [hn, Mem.read_add] at hbody
    rw [← hbody, List.take_left' (Mem.length_read _ _ _)]
  unfold IsGtk IsGtkRecord
  rw [h.type, h.length]
  constructor
  · rintro ⟨htype, hpre, hlen⟩
    exact ⟨htype, hread hlen ▸ hpre, hlen⟩
  · rintro ⟨htype, hpre, hlen⟩
    exact ⟨htype, (hread hlen).trans hpre, hlen⟩

section Scan

variable {es : List Tlv.Record} {k : ℕ} {m : Mem UInt8}

/-- The memory holds the key data. -/
structure HoldsKeyData (m : Mem UInt8) (es : List Tlv.Record) (k : ℕ) : Prop where
  elements : Tlv.Holds m 0 es
  padding : m.read (Tlv.encode es).length k = keyPadding k

theorem holdsKeyData_write (stack : Mem UInt8) (es : List Tlv.Record) (k : ℕ) :
    HoldsKeyData (stack.write 0 (keyData es k)) es k := by
  have h := Mem.read_write_self stack 0 (keyData es k)
  obtain ⟨hes, hpad⟩ := Mem.read_eq_append.1 h
  rw [Nat.zero_add, length_keyPadding] at hpad
  exact ⟨hes, hpad⟩

/-- The bytes of the padding. -/
theorem HoldsKeyData.padding_apply (h : HoldsKeyData m es (k + 1)) :
    m (Tlv.encode es).length = 0xDD ∧
      ∀ p, (Tlv.encode es).length < p → p < (Tlv.encode es).length + (k + 1) → m p = 0 := by
  have hpad := h.padding
  rw [Mem.read_succ, keyPadding, List.cons.injEq] at hpad
  refine ⟨hpad.1, fun p hp hp' => ?_⟩
  obtain ⟨j, rfl⟩ := Nat.exists_eq_add_of_le (show (Tlv.encode es).length + 1 ≤ p from hp)
  have hj : j < (m.read ((Tlv.encode es).length + 1) k).length := by
    rw [Mem.length_read]
    omega
  have hget := Mem.getElem_read m _ _ hj
  simp only [hpad.2, List.getElem_replicate] at hget
  exact hget.symm

/-- The output after the round of the GTK element. -/
theorem gtkRound_of_at {i : ℕ} {r : Tlv.Record} (h : Tlv.At m i r) (hr : IsGtkRecord r) :
    gtkRound m (zeros 38) i = arrayOf r.body 38 := by
  unfold gtkRound
  rw [if_pos ((isGtk_iff_of_at h).2 hr), h.length]
  funext j
  unfold arrayOf
  by_cases hj : j.val < r.body.length
  · have hread : j.val < (m.read (i + 2) r.body.length).length := by rwa [Mem.length_read]
    have hget := Mem.getElem_read m (i + 2) _ hread
    simp only [h.body] at hget
    rw [if_pos hj, List.getD_eq_getElem?_getD, List.getElem?_eq_getElem hj, Option.getD_some, hget]
  · rw [if_neg hj, List.getD_eq_getElem?_getD, List.getElem?_eq_none (by omega)]
    rfl

/-- The scan of the elements finds the GTK element. -/
theorem foldl_elements (h : Tlv.Holds m 0 es) (hone : (es.filter IsGtkRecord).length ≤ 1)
    {n : ℕ} (hn : (Tlv.encode es).length ≤ n) :
    (Tlv.walk m n 0).foldl (gtkRound m) (zeros 38) =
      (Tlv.walk m n (Tlv.encode es).length).foldl (gtkRound m) (gtkBody es) := by
  have hignored : ∀ r, ¬IsGtkRecord r → ∀ out i, Tlv.At m i r → gtkRound m out i = out :=
    fun r hr out i hi => if_neg fun hg => hr ((isGtk_iff_of_at hi).1 hg)
  rcases hfind : es.find? IsGtkRecord with _ | r
  · have hbody : gtkBody es = zeros 38 := by
      unfold gtkBody
      rw [hfind]
    have hnone : ∀ r ∈ es, ¬IsGtkRecord r := by simpa using hfind
    have hfold := Tlv.foldl_walk_of_ignored h (show 0 + (Tlv.encode es).length ≤ n by omega)
      (fun r hr => hignored r (hnone r hr)) (zeros 38)
    rw [Nat.zero_add] at hfold
    rw [hbody, hfold]
  · have hbody : gtkBody es = arrayOf r.body 38 := by
      unfold gtkBody
      rw [hfind]
    obtain ⟨hr, pre, post, rfl, hpre⟩ := List.find?_eq_some_iff_append.1 hfind
    have hr' : IsGtkRecord r := by simpa using hr
    have hpre' : ∀ r ∈ pre, ¬IsGtkRecord r := by simpa using hpre
    have hpost : ∀ r ∈ post, ¬IsGtkRecord r := by
      rw [List.filter_append, List.filter_cons, if_pos hr, List.length_append,
        List.length_cons] at hone
      have hnil := List.eq_nil_of_length_eq_zero (l := post.filter IsGtkRecord) (by omega)
      simpa using hnil
    obtain ⟨hfold, hat⟩ := Tlv.foldl_walk_of_one h
      (show 0 + (Tlv.encode (pre ++ r :: post)).length ≤ n by omega)
      (fun r' hr' => hignored r' ((List.mem_append.1 hr').elim (hpre' r') (hpost r'))) (zeros 38)
    rw [hfold, gtkRound_of_at hat hr', Nat.zero_add, hbody]

/-- Records that do not read as GTK elements leave the output. -/
theorem foldl_gtkRound_of_not {ps : List ℕ} (h : ∀ p ∈ ps, ¬IsGtk m p) (out : Bytes 38) :
    ps.foldl (gtkRound m) out = out := by
  induction ps with
  | nil => rfl
  | cons p ps ih =>
    have hround : gtkRound m out p = out := if_neg (h p List.mem_cons_self)
    rw [List.foldl_cons, hround]
    exact ih fun q hq => h q (List.mem_cons_of_mem _ hq)

/-- Two or more bytes of padding hold no GTK element. -/
theorem foldl_padding (h : HoldsKeyData m es k) (hk : k ≠ 1) (out : Bytes 38) :
    (Tlv.walk m ((Tlv.encode es).length + k) (Tlv.encode es).length).foldl (gtkRound m) out =
      out := by
  have hno : ∀ p ∈ Tlv.walk m ((Tlv.encode es).length + k) (Tlv.encode es).length,
      ¬IsGtk m p := by
    intro p hp hg
    obtain ⟨hle, hlt⟩ := Tlv.lt_of_mem_walk hp
    obtain ⟨j, rfl⟩ : ∃ j, k = j + 1 := ⟨k - 1, by omega⟩
    obtain ⟨-, hzero⟩ := h.padding_apply
    by_cases hfirst : p = (Tlv.encode es).length
    · -- the length of the first record is the second byte of the padding
      have hsize := hg.2.2
      rw [hzero (p + 1) (by omega) (by omega)] at hsize
      exact absurd hsize (by decide)
    · have htype := hg.1
      rw [hzero p (by omega) hlt] at htype
      exact absurd htype (by decide)
  exact foldl_gtkRound_of_not hno out

/-! ### Where it looks -/

open GtkReading

/-- The rounds over zeros look behind the end when a single byte is left. -/
theorem forall_zeros {stop n i : ℕ} (hn : n ≤ stop) (hzero : ∀ p, i ≤ p → p < n → m p = 0) :
    (∀ p ∈ Tlv.walk m n i, RoundInside m stop p) ↔ ((n - i) % 2 = 1 → n < stop) := by
  induction i using Tlv.walk_induction (m := m) n with
  | hend i hi =>
    rw [Tlv.walk_of_le hi]
    exact iff_of_true (fun p hp => absurd hp List.not_mem_nil) fun h => absurd h (by omega)
  | hrec i hi ih =>
    have hround : RoundInside m stop i ↔ i + 1 < stop := by
      have htype : m i ≠ 0xDD := by
        rw [hzero i (Nat.le_refl i) hi]
        decide
      exact ⟨fun h => h.1, fun h => ⟨h, fun hd => absurd hd htype, fun hg => absurd hg.1 htype⟩⟩
    rw [Tlv.walk_of_lt hi, List.forall_mem_cons, hround]
    by_cases hlast : i + 1 < n
    · have hnext : Tlv.next m i = i + 2 := by
        unfold Tlv.next
        rw [hzero (i + 1) (by omega) hlast]
        rfl
      rw [ih fun p hp hp' => hzero p (by omega) hp', hnext]
      omega
    · have hnext : i + 2 ≤ Tlv.next m i := Nat.le_add_right _ _
      rw [Tlv.walk_of_le (by omega)]
      refine ⟨fun h _ => by omega, fun h => ⟨by omega, fun p hp => absurd hp List.not_mem_nil⟩⟩

/-- The rounds over the padding. -/
theorem forall_padding {stop : ℕ} (h : HoldsKeyData m es k) (hk : k ≠ 1)
    (hstop : (Tlv.encode es).length + k ≤ stop) :
    (∀ p ∈ Tlv.walk m ((Tlv.encode es).length + k) (Tlv.encode es).length,
        RoundInside m stop p) ↔
      (k ≠ 0 → (Tlv.encode es).length + 6 ≤ stop) ∧
        (k % 2 = 1 → (Tlv.encode es).length + k < stop) := by
  rcases Nat.eq_zero_or_pos k with rfl | hpos
  · rw [Tlv.walk_of_le (by omega)]
    exact iff_of_true (fun p hp => absurd hp List.not_mem_nil)
      ⟨fun h => absurd rfl h, fun h => absurd h (by decide)⟩
  · obtain ⟨j, rfl⟩ : ∃ j, k = j + 1 := ⟨k - 1, by omega⟩
    obtain ⟨hfirst, hzero⟩ := h.padding_apply
    generalize (Tlv.encode es).length = e at *
    have hsize : m (e + 1) = 0 := hzero (e + 1) (by omega) (by omega)
    have hnext : Tlv.next m e = e + 2 := by
      unfold Tlv.next
      rw [hsize]
      rfl
    have hround : RoundInside m stop e ↔ e + 6 ≤ stop := by
      have hno : ¬IsGtk m e := fun hg => by
        have hg' := hg.2.2
        rw [hsize] at hg'
        exact absurd hg' (by decide)
      exact ⟨fun h => h.2.1 hfirst, fun h => ⟨by omega, fun _ => h, fun hg => absurd hg hno⟩⟩
    rw [Tlv.walk_of_lt (by omega), List.forall_mem_cons, hround, hnext,
      forall_zeros hstop fun p hp hp' => hzero p (by omega) hp']
    omega

/-- A single byte of padding is taken for a record. -/
theorem walk_single (m : Mem UInt8) (i : ℕ) : Tlv.walk m (i + 1) i = [i] := by
  have hnext : i + 2 ≤ Tlv.next m i := Nat.le_add_right _ _
  rw [Tlv.walk_of_lt (by omega), Tlv.walk_of_le (by omega)]

/-- A whole element is looked at inside, but for the prefix of a short vendor element. -/
theorem roundInside_of_at {stop i : ℕ} {r : Tlv.Record} (h : Tlv.At m i r)
    (hstop : i + 2 + r.body.length ≤ stop) :
    RoundInside m stop i ↔ (r.type = 0xDD → i + 6 ≤ stop) := by
  unfold RoundInside
  rw [h.type, h.length]
  exact ⟨fun hr => hr.2.1, fun hr => ⟨by omega, hr, fun _ => hstop⟩⟩

/-- Where the scan of elements and padding looks. -/
theorem within_wpaDecryptGtk {stop : ℕ} (h : HoldsKeyData m es k) (hk : k ≠ 1)
    (hstop : (Tlv.encode es).length + k ≤ stop) :
    Reading.Within m (· < stop) (GtkReading.wpaDecryptGtk ((Tlv.encode es).length + k)) ↔
      (∀ pre r post, es = pre ++ r :: post → r.type = 0xDD → (Tlv.encode pre).length + 6 ≤ stop) ∧
        (k ≠ 0 → (Tlv.encode es).length + 6 ≤ stop) ∧
        (k % 2 = 1 → (Tlv.encode es).length + k < stop) := by
  unfold GtkReading.wpaDecryptGtk
  rw [within_gtkLoop, Tlv.starts_eq_walk (Nat.sub_le _ _),
    Tlv.forall_walk_of_holds h.elements (by omega), Nat.zero_add, forall_padding h hk hstop]
  refine and_congr_left fun _ => forall_congr' fun pre => forall_congr' fun r =>
    forall_congr' fun post => forall_congr' fun he => ?_
  subst he
  obtain ⟨hr, -⟩ := Tlv.holds_cons (Tlv.holds_append.1 h.elements).2
  have hlen := Tlv.length_encode_cons r post
  have hall : (Tlv.encode (pre ++ r :: post)).length =
      (Tlv.encode pre).length + (Tlv.encode (r :: post)).length := by
    rw [Tlv.encode_append, List.length_append]
  rw [Nat.zero_add] at hr ⊢
  exact roundInside_of_at hr (by omega)

end Scan

/-! ## Extraction -/

/-- The scan finds the GTK element, if any, and looks at the buffer only. -/
def ExtractsGtk (C : Crypto) (kek : Bytes 0x10) (data : List UInt8) (es : List Tlv.Record) (k : ℕ)
    (stack : Mem UInt8) : Prop :=
  wpaDecryptGtk C kek data stack = .ofBytes (gtkBody es) ∧
    Reading.Within (stack.write 0 (keyData es k)) (· < 0x200)
      (GtkReading.wpaDecryptGtk (keyData es k).length)

/-- The padding is not a single byte, and nothing is looked at behind the buffer: neither the prefix
of a vendor element or of the padding, nor the length of the last byte of an odd padding. -/
structure KeyDataFits (es : List Tlv.Record) (k : ℕ) : Prop where
  notSingle : k ≠ 1
  vendor : ∀ pre r post, es = pre ++ r :: post → r.type = 0xDD → (Tlv.encode pre).length + 6 ≤ 0x200
  padding : k ≠ 0 → (Tlv.encode es).length + 6 ≤ 0x200
  odd : k % 2 = 1 → (Tlv.encode es).length + k < 0x200

section Extraction

variable {C : Crypto} {kek : Bytes 0x10} {data : List UInt8} {es : List Tlv.Record} {k : ℕ}

theorem wpaDecryptGtk_eq_foldl (hunwrap : C.nistKwUnwrap kek data = some (keyData es k))
    (hone : (es.filter IsGtkRecord).length ≤ 1) (stack : Mem UInt8) :
    let m := stack.write 0 (keyData es k)
    wpaDecryptGtk C kek data stack = .ofBytes
      ((Tlv.walk m ((Tlv.encode es).length + k) (Tlv.encode es).length).foldl (gtkRound m)
        (gtkBody es)) := by
  unfold wpaDecryptGtk
  rw [hunwrap, Option.getD_some]
  dsimp only
  rw [gtkLoop_eq_foldl, Tlv.starts_eq_walk (Nat.sub_le _ _),
    foldl_elements (holdsKeyData_write stack es k).elements hone (by rw [length_keyData]; omega),
    length_keyData]

/-- Behind a single byte of padding, the stack can hold a key. -/
theorem not_extractsGtk_of_single (hunwrap : C.nistKwUnwrap kek data = some (keyData es 1))
    (hone : (es.filter IsGtkRecord).length ≤ 1) :
    ¬∀ stack, ExtractsGtk C kek data es 1 stack := by
  intro hall
  -- the rest of a GTK element whose KeyID byte is not the one that was received
  let e := (Tlv.encode es).length
  let stack := Mem.write (fun _ => gtkBody es 4 + 1) (e + 1) [0x16, 0x00, 0x0F, 0xAC, 0x01]
  let m := stack.write 0 (keyData es 1)
  have hbehind : ∀ i, m (e + 1 + i) = stack (e + 1 + i) := fun i =>
    Mem.write_apply_of_not stack 0 (keyData es 1) (Or.inr (by rw [length_keyData]; omega))
  have hstack : ∀ i, ∀ h : i < 5,
      m (e + 1 + i) = [(0x16 : UInt8), 0x00, 0x0F, 0xAC, 0x01][i] := fun i h =>
    (hbehind i).trans (Mem.write_apply_of_lt _ _ _ h)
  have hgtk : IsGtk m e := by
    refine ⟨(holdsKeyData_write stack es 1).padding_apply.1, ?_, Or.inl ?_⟩
    · show [m (e + 1 + 1), m (e + 1 + 2), m (e + 1 + 3), m (e + 1 + 4)] = _
      rw [hstack 1 (by decide), hstack 2 (by decide), hstack 3 (by decide), hstack 4 (by decide)]
      rfl
    · rw [show e + 1 = e + 1 + 0 from rfl, hstack 0 (by decide)]
      rfl
  have hkey : m (e + 2 + 4) = gtkBody es 4 + 1 :=
    (hbehind 5).trans (Mem.write_apply_of_not _ _ _ (Or.inr (Nat.le_refl _)))
  have heq := (hall stack).1
  rw [wpaDecryptGtk_eq_foldl hunwrap hone, walk_single, List.foldl_cons, List.foldl_nil] at heq
  have hidx : gtkRound m (gtkBody es) e 4 = gtkBody es 4 := congrArg GtkKeyinfo.keyidx heq
  have hsize : (m (e + 1)).toNat = 0x16 ∨ (m (e + 1)).toNat = 0x26 := hgtk.2.2
  have hround : gtkRound m (gtkBody es) e 4 = m (e + 2 + 4) := by
    unfold gtkRound
    rw [if_pos hgtk]
    exact if_pos (show 4 < (m (e + 1)).toNat by omega)
  rw [hround, hkey] at hidx
  exact absurd hidx (by simp)

/-- **GTK extraction.** For key data of elements, at most one of them a GTK element, and padding,
`wpa_decrypt_gtk` yields the body of the GTK element, or zeros, and looks at its buffer only,
whatever the buffer held before, exactly when the padding is not a single byte and no prefix or
length is looked for behind the buffer. -/
theorem gtk_extracted_iff (C : Crypto) (kek : Bytes 0x10) (data : List UInt8)
    (es : List Tlv.Record) (k : ℕ) (hk : k ≤ 7) (hone : (es.filter IsGtkRecord).length ≤ 1)
    (htotal : (keyData es k).length ≤ 0x200)
    (hunwrap : C.nistKwUnwrap kek data = some (keyData es k)) :
    (∀ stack, ExtractsGtk C kek data es k stack) ↔ KeyDataFits es k := by
  rw [length_keyData] at htotal
  constructor
  · intro hall
    have hsingle : k ≠ 1 := by
      rintro rfl
      exact not_extractsGtk_of_single hunwrap hone hall
    have hwithin := (hall fun _ => 0).2
    rw [length_keyData, within_wpaDecryptGtk (holdsKeyData_write _ es k) hsingle htotal] at hwithin
    exact ⟨hsingle, hwithin.1, hwithin.2.1, hwithin.2.2⟩
  · rintro ⟨hsingle, hvendor, hpadding, hodd⟩ stack
    have hholds := holdsKeyData_write stack es k
    refine ⟨?_, ?_⟩
    · rw [wpaDecryptGtk_eq_foldl hunwrap hone, foldl_padding hholds hsingle]
    · rw [length_keyData, within_wpaDecryptGtk hholds hsingle htotal]
      exact ⟨hvendor, hpadding, hodd⟩

end Extraction

/-- Six bytes before the end of the buffer, only a single byte of padding matters. -/
theorem keyDataFits_of_length_le {es : List Tlv.Record} {k : ℕ} (hk : k ≠ 1)
    (h : (keyData es k).length ≤ 0x1FA) : KeyDataFits es k := by
  rw [length_keyData] at h
  refine ⟨hk, ?_, fun _ => by omega, fun _ => by omega⟩
  rintro pre r post rfl -
  rw [Tlv.encode_append, List.length_append] at h
  omega

/-! ### Sample key data -/

/-- A key wrap of which a single output is known. -/
def unwrapOnly (data plain : List UInt8) : Crypto :=
  ⟨fun _ _ => zeros 20, fun kek d => if kek = zeros 0x10 ∧ d = data then some plain else none⟩

theorem nistKwUnwrap_unwrapOnly (data plain : List UInt8) :
    (unwrapOnly data plain).nistKwUnwrap (zeros 0x10) data = some plain := if_pos ⟨rfl, rfl⟩

/-- An RSN element and a GTK element. -/
def gtkElements : List Tlv.Record :=
  [⟨0x30, [1, 0], by decide⟩,
    ⟨0xDD, [0x00, 0x0F, 0xAC, 0x01, 0x01, 0x00, 0x10, 0x11, 0x12, 0x13, 0x14, 0x15, 0x16, 0x17, 0x18,
      0x19, 0x1A, 0x1B, 0x1C, 0x1D, 0x1E, 0x1F], by decide⟩]

/-- `gtkElements` and four bytes of padding, wrapped with a key of zeros. -/
def wrappedGtk : List UInt8 :=
  [0xE3, 0x2A, 0xE2, 0xE3, 0xF9, 0x2B, 0xB1, 0x01, 0x22, 0x58, 0x14, 0x8D, 0xDA, 0xC2, 0xCA, 0x69,
    0xF0, 0x1A, 0xE6, 0xBA, 0x02, 0x28, 0x62, 0xAD, 0xD6, 0xD2, 0xA2, 0x36, 0x28, 0x79, 0x7C, 0x4F,
    0x17, 0xD2, 0xEC, 0xBF, 0x65, 0xA3, 0x15, 0x24]

/-- Whatever is behind the data, here a buffer of the byte `0xDD`. -/
theorem gtk_extracted_sample :
    ExtractsGtk (unwrapOnly wrappedGtk (keyData gtkElements 4)) (zeros 0x10) wrappedGtk gtkElements 4
      fun _ => 0xDD :=
  (gtk_extracted_iff _ _ _ gtkElements 4 (by decide) (by decide) (by decide)
    (nistKwUnwrap_unwrapOnly _ _)).2 (keyDataFits_of_length_le (by decide) (by decide)) _

/-- An RSN element of 15 bytes. -/
def rsnOnly : List Tlv.Record := [⟨0x30, [1, 0, 0, 0, 0, 0, 0, 0, 0, 0, 0, 0, 0], by decide⟩]

/-- `rsnOnly` and a byte of padding, wrapped with a key of zeros. -/
def wrappedRsn : List UInt8 :=
  [0x52, 0x7B, 0x86, 0xDC, 0x03, 0xDA, 0x6F, 0x8B, 0x0B, 0x83, 0xDB, 0x33, 0x5A, 0xBF, 0xC8, 0xC5,
    0x75, 0xDB, 0x44, 0x48, 0xA1, 0x23, 0x50, 0x0D]

/-- Key data without a GTK element and with a single byte of padding yield what the stack held. -/
theorem gtk_extracted_counterexample :
    ¬∀ (C : Crypto) (kek : Bytes 0x10) (data : List UInt8) (es : List Tlv.Record) (k : ℕ), k ≤ 7 →
      (es.filter IsGtkRecord).length ≤ 1 → (keyData es k).length ≤ 0x200 →
        C.nistKwUnwrap kek data = some (keyData es k) →
          ∀ stack, ExtractsGtk C kek data es k stack := by
  intro h
  have hsample := nistKwUnwrap_unwrapOnly wrappedRsn (keyData rsnOnly 1)
  have hone : (rsnOnly.filter IsGtkRecord).length ≤ 1 := by decide
  exact not_extractsGtk_of_single hsample hone
    (h _ (zeros 0x10) wrappedRsn rsnOnly 1 (by decide) hone (by decide) hsample)

/-! ## Installation -/

/-- The body of a GTK element: its prefix, the byte that holds the KeyID and Tx bits, a reserved
byte and the key. -/
def gtkElement (keyid reserved : UInt8) (key : List UInt8) : List UInt8 :=
  [0x00, 0x0F, 0xAC, 0x01, keyid, reserved] ++ key

/-- What `wpa_decrypt_gtk` makes of the body of a GTK element. -/
def gtkOf (keyid reserved : UInt8) (key : List UInt8) : GtkKeyinfo :=
  .ofBytes (arrayOf (gtkElement keyid reserved key) 38)

/-- The key with the MIC halves of its last 16 bytes exchanged. -/
def swapMics (key : List UInt8) : List UInt8 :=
  key.take 0x10 ++ ((key.drop 0x18).take 8 ++ (key.drop 0x10).take 8)

/-- The key a receiver of the command finds in its key field. -/
def recoverGtk (cryptType : ApCipherType) (field : List UInt8) : List UInt8 :=
  if cryptType = cryptTkip then swapMics field else field.take 0x10

/-- The command carries the key of a GTK element. -/
structure CarriesGtk (cryptType : ApCipherType) (keyid : UInt8) (key : List UInt8) (rsc : Bytes 8)
    (c : CipherKey) : Prop where
  keyIndex : c.keyIndex.toNat = keyid.toNat % 4
  keyLength : c.keyLength.toNat = key.length
  keyRSC : c.keyRSC = rsc.toList
  length : c.key.length = 0x20
  recovered : recoverGtk cryptType c.key = key
  rest : c.key.drop key.length = List.replicate (0x20 - key.length) 0

theorem swapMics_append {low a b : List UInt8} (hlow : low.length = 0x10) (ha : a.length = 8)
    (hb : b.length = 8) : swapMics (low ++ (a ++ b)) = low ++ (b ++ a) := by
  have hhigh : (low ++ (a ++ b)).drop 0x10 = a ++ b := List.drop_left' hlow
  have htail : (low ++ (a ++ b)).drop 0x18 = b := by
    rw [show 0x18 = 0x10 + 8 from rfl, ← List.drop_drop, hhigh, List.drop_left' ha]
  unfold swapMics
  rw [List.take_left' hlow, hhigh, htail, List.take_left' ha, List.take_of_length_le hb.le]

theorem exists_of_length_tkip {key : List UInt8} (h : key.length = 0x20) :
    ∃ low a b, key = low ++ (a ++ b) ∧ low.length = 0x10 ∧ a.length = 8 ∧ b.length = 8 := by
  refine ⟨key.take 0x10, (key.drop 0x10).take 8, (key.drop 0x10).drop 8, ?_, ?_, ?_, ?_⟩
  · rw [List.take_append_drop, List.take_append_drop]
  · rw [List.length_take, h]
    rfl
  · rw [List.length_take, List.length_drop, h]
    rfl
  · rw [List.length_drop, List.length_drop, h]

/-- The key field of the element, zero behind the key. -/
theorem toList_key_gtkOf (keyid reserved : UInt8) {key : List UInt8} (h : key.length ≤ 0x20) :
    (gtkOf keyid reserved key).key.toList = key ++ List.replicate (0x20 - key.length) 0 := by
  apply List.ext_getElem
  · rw [Bytes.toList, List.length_ofFn, List.length_append, List.length_replicate]
    omega
  · intro i h₁ h₂
    have hget : (gtkOf keyid reserved key).key.toList[i] = key.getD i 0 := by
      unfold Bytes.toList
      rw [List.getElem_ofFn]
      rfl
    rw [hget, List.getD_eq_getElem?_getD]
    by_cases hi : i < key.length
    · rw [List.getElem_append_left hi, List.getElem?_eq_getElem hi, Option.getD_some]
    · rw [List.getElem_append_right (by omega), List.getElem_replicate,
        List.getElem?_eq_none (by omega), Option.getD_none]

theorem groupKeys_wmiPostHandshake {ap : Ap} (h : ap.securityType = apWpa2) (k : PostKeys) :
    groupKeys (wmiPostHandshake ap (some k)) = [groupCmd ap k.gtkInfo k.rsc] := by
  unfold groupKeys
  rw [cipherKeys_wmiPostHandshake_some, if_pos h]
  rfl

section Installation

variable {ap : Ap} {key : List UInt8}

/-- The command for an AES key. -/
theorem key_groupCmd_aes (hs : ap.securityType = apWpa2) (hc : ap.groupCryptType = cryptAes)
    (hkey : key.length = 0x10) (keyid reserved : UInt8) (rsc : Bytes 8) :
    let c := groupCmd ap (gtkOf keyid reserved key) rsc
    c.keyLength = 0x10 ∧ c.key = key ++ List.replicate 0x10 0 := by
  unfold groupCmd wmiAddCipherKey
  simp only [hs, hc, toList_key_gtkOf keyid reserved (show key.length ≤ 0x20 by omega), if_true,
    reduceCtorEq, if_false]
  refine ⟨rfl, ?_⟩
  have hlow : (key ++ List.replicate (0x20 - key.length) 0).take 0x10 = key := List.take_left' hkey
  show (key ++ List.replicate (0x20 - key.length) 0).take 0x10 ++ _ ++ List.replicate 0x10 0 = _
  rw [hlow, hkey]
  simp

/-- The command for a TKIP key. -/
theorem key_groupCmd_tkip (hs : ap.securityType = apWpa2) (hc : ap.groupCryptType = cryptTkip)
    (hkey : key.length = 0x20) (keyid reserved : UInt8) (rsc : Bytes 8) :
    let c := groupCmd ap (gtkOf keyid reserved key) rsc
    c.keyLength = 0x20 ∧ c.key = swapMics key := by
  unfold groupCmd wmiAddCipherKey
  simp only [hs, hc, toList_key_gtkOf keyid reserved (show key.length ≤ 0x20 by omega), if_true,
    reduceCtorEq, if_false]
  refine ⟨rfl, ?_⟩
  have hzero : 0x20 - key.length = 0 := by omega
  have hlow : (key.take 0x10).length = 0x10 := by
    rw [List.length_take, hkey]
    rfl
  rw [hzero, List.replicate_zero, List.append_nil]
  show key.take 0x10 ++ List.replicate (0x10 - (key.take 0x10).length) 0 ++ _ = _
  rw [hlow, Nat.sub_self, List.replicate_zero, List.append_nil]
  rfl

/-- **Group key installation.** The group command of `wmi_post_handshake` carries the received key
exactly when the byte of the KeyID bits holds nothing else: key, length and RSC are right in any
case, but the index is the whole byte. -/
theorem group_key_installed_iff (ap : Ap) (tk : Bytes 0x10) (keyid reserved : UInt8)
    (key : List UInt8) (rsc : Bytes 8) (hs : ap.securityType = apWpa2)
    (hkey : ap.groupCryptType = cryptAes ∧ key.length = 0x10 ∨
      ap.groupCryptType = cryptTkip ∧ key.length = 0x20) :
    (∃ c, groupKeys (wmiPostHandshake ap (some ⟨tk, gtkOf keyid reserved key, rsc⟩)) = [c] ∧
        CarriesGtk ap.groupCryptType keyid key rsc c) ↔
      keyid.toNat < 4 := by
  rw [groupKeys_wmiPostHandshake hs]
  constructor
  · rintro ⟨c, hc, hcarries⟩
    have hidx := hcarries.keyIndex
    rw [← List.singleton_inj.1 hc] at hidx
    have hkeyid : keyid.toNat = keyid.toNat % 4 := hidx
    omega
  · intro hlt
    have hidx : (groupCmd ap (gtkOf keyid reserved key) rsc).keyIndex.toNat = keyid.toNat % 4 :=
      (Nat.mod_eq_of_lt hlt).symm
    rcases hkey with ⟨hcrypt, hlen⟩ | ⟨hcrypt, hlen⟩
    · obtain ⟨hkl, hk⟩ := key_groupCmd_aes hs hcrypt hlen keyid reserved rsc
      refine ⟨_, rfl, hidx, ?_, rfl, ?_, ?_, ?_⟩
      · rw [hkl, hlen]
        rfl
      · rw [hk, List.length_append, hlen, List.length_replicate]
      · rw [hk, hcrypt, recoverGtk, if_neg (by decide), List.take_left' hlen]
      · rw [hk, List.drop_left, hlen]
    · obtain ⟨hkl, hk⟩ := key_groupCmd_tkip hs hcrypt hlen keyid reserved rsc
      obtain ⟨low, a, b, rfl, hlow, ha, hb⟩ := exists_of_length_tkip hlen
      rw [swapMics_append hlow ha hb] at hk
      have hklen : (low ++ (b ++ a)).length = 0x20 := by
        rw [List.length_append, List.length_append, hlow, hb, ha]
      refine ⟨_, rfl, hidx, ?_, rfl, ?_, ?_, ?_⟩
      · rw [hkl, hlen]
        rfl
      · rw [hk, hklen]
      · rw [hk, hcrypt, recoverGtk, if_pos rfl, swapMics_append hlow hb ha]
      · rw [hk, hlen, List.drop_of_length_le hklen.le]
        rfl

end Installation

/-- A WPA2 network with AES as its group cipher. -/
def aesNetwork : Ap := { Wmi.init.ap with securityType := apWpa2, groupCryptType := cryptAes }

theorem group_key_installed_sample :
    ∃ c, groupKeys (wmiPostHandshake aesNetwork
        (some ⟨zeros 0x10, gtkOf 1 0 (List.replicate 0x10 0xAB), zeros 8⟩)) = [c] ∧
      CarriesGtk cryptAes 1 (List.replicate 0x10 0xAB) (zeros 8) c :=
  (group_key_installed_iff aesNetwork (zeros 0x10) 1 0 (List.replicate 0x10 0xAB) (zeros 8) rfl
    (Or.inl ⟨rfl, rfl⟩)).2 (by decide)

/-- A GTK with its Tx bit set is installed under index 5. -/
theorem group_key_installed_counterexample :
    ¬∀ (ap : Ap) (tk : Bytes 0x10) (keyid reserved : UInt8) (key : List UInt8) (rsc : Bytes 8),
      ap.securityType = apWpa2 →
        (ap.groupCryptType = cryptAes ∧ key.length = 0x10 ∨
          ap.groupCryptType = cryptTkip ∧ key.length = 0x20) →
        ∃ c, groupKeys (wmiPostHandshake ap (some ⟨tk, gtkOf keyid reserved key, rsc⟩)) = [c] ∧
          CarriesGtk ap.groupCryptType keyid key rsc c := by
  intro h
  obtain ⟨c, hc, hcarries⟩ := h aesNetwork (zeros 0x10) 5 0 (List.replicate 0x10 0xAB) (zeros 8) rfl
    (Or.inl ⟨rfl, rfl⟩)
  rw [groupKeys_wmiPostHandshake rfl] at hc
  have hidx := hcarries.keyIndex
  rw [← List.singleton_inj.1 hc] at hidx
  exact absurd hidx (by decide)

end DsiWifi
