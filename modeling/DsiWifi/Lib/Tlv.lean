import DsiWifi.Lib.Mem

/-!
# Records of type, length and body

A record is a type byte, a length byte and a body.  A reader walks over the records of a memory
by their length bytes (`walk`), whatever the bytes are.  `Holds m a rs` says that the memory does
hold the records `rs` from address `a` on; then a fold over the walk sees just these, and skips the
records its step ignores (`foldl_walk_of_ignored`, `foldl_walk_of_sole`).
-/

namespace Tlv

variable {m : Mem UInt8} {stop i : ℕ}

/-! ## The walk -/

/-- The address behind the record at `i`. -/
def next (m : Mem UInt8) (i : ℕ) : ℕ := i + 2 + (m (i + 1)).toNat

/-- The addresses at which the walk from `i` finds a record before `stop`, in at most `fuel`
rounds. -/
def starts (m : Mem UInt8) (stop : ℕ) : ℕ → ℕ → List ℕ
  | 0, _ => []
  | fuel + 1, i => if i < stop then i :: starts m stop fuel (next m i) else []

/-- The addresses at which the walk from `i` finds a record before `stop`.  A round moves by at
least two. -/
def walk (m : Mem UInt8) (stop i : ℕ) : List ℕ := starts m stop (stop - i) i

theorem starts_of_le (fuel : ℕ) (h : stop ≤ i) : starts m stop fuel i = [] := by
  cases fuel with
  | zero => rfl
  | succ fuel =>
    unfold starts
    rw [if_neg (by omega)]

/-- Rounds beyond the distance to `stop` change nothing. -/
theorem starts_congr {fuel fuel' : ℕ} (h : stop - i ≤ fuel) (h' : stop - i ≤ fuel') :
    starts m stop fuel i = starts m stop fuel' i := by
  induction fuel generalizing fuel' i with
  | zero => rw [starts_of_le _ (by omega), starts_of_le _ (by omega)]
  | succ fuel ih =>
    cases fuel' with
    | zero => rw [starts_of_le _ (by omega), starts_of_le _ (by omega)]
    | succ fuel' =>
      have hnext : i + 2 ≤ next m i := Nat.le_add_right _ _
      have hrest : starts m stop fuel (next m i) = starts m stop fuel' (next m i) :=
        ih (by omega) (by omega)
      unfold starts
      rw [hrest]

theorem starts_eq_walk {fuel : ℕ} (h : stop - i ≤ fuel) : starts m stop fuel i = walk m stop i :=
  starts_congr h (Nat.le_refl _)

theorem walk_of_le (h : stop ≤ i) : walk m stop i = [] := starts_of_le _ h

theorem walk_of_lt (h : i < stop) : walk m stop i = i :: walk m stop (next m i) := by
  have hnext : i + 2 ≤ next m i := Nat.le_add_right _ _
  obtain ⟨k, hk⟩ : ∃ k, stop - i = k + 1 := ⟨stop - i - 1, by omega⟩
  unfold walk
  rw [hk, starts, if_pos h]
  exact congrArg (List.cons i) (starts_congr (by omega) (Nat.le_refl _))

/-- Induction along the walk: past the end, or at a record with the walk behind it. -/
theorem walk_induction {P : ℕ → Prop} (stop : ℕ) (hend : ∀ i, stop ≤ i → P i)
    (hrec : ∀ i, i < stop → P (next m i) → P i) (i : ℕ) : P i := by
  induction hn : stop - i using Nat.strongRecOn generalizing i with
  | ind n ih =>
    by_cases hi : i < stop
    · have hnext : i + 2 ≤ next m i := Nat.le_add_right _ _
      exact hrec i hi (ih (stop - next m i) (by omega) (next m i) rfl)
    · exact hend i (by omega)

theorem lt_of_mem_walk {p : ℕ} (h : p ∈ walk m stop i) : i ≤ p ∧ p < stop := by
  induction i using walk_induction (m := m) stop with
  | hend i hi =>
    rw [walk_of_le hi] at h
    exact absurd h List.not_mem_nil
  | hrec i hi ih =>
    have hnext : i + 2 ≤ next m i := Nat.le_add_right _ _
    rw [walk_of_lt hi] at h
    rcases List.mem_cons.1 h with rfl | h
    · exact ⟨Nat.le_refl _, hi⟩
    · have hp := ih h
      omega

/-- The walk only looks at the bytes before `stop`. -/
theorem walk_congr {m' : Mem UInt8} (h : ∀ k < stop, m k = m' k) (i : ℕ) :
    walk m stop i = walk m' stop i := by
  induction i using walk_induction (m := m) stop with
  | hend i hi => rw [walk_of_le hi, walk_of_le hi]
  | hrec i hi ih =>
    rw [walk_of_lt hi, walk_of_lt hi, ih]
    by_cases hi' : i + 1 < stop
    · have hnext : next m i = next m' i := by
        unfold next
        rw [h (i + 1) hi']
      rw [hnext]
    · -- the length byte is behind `stop`, and so is the next record
      have hnext : i + 2 ≤ next m i := Nat.le_add_right _ _
      have hnext' : i + 2 ≤ next m' i := Nat.le_add_right _ _
      rw [walk_of_le (by omega), walk_of_le (by omega)]

/-! ## Records in a memory -/

/-- A record: a type and a body whose length fits one byte. -/
structure Record where
  type : UInt8
  body : List UInt8
  short : body.length < 256

/-- The bytes of a list of records. -/
def encode : List Record → List UInt8
  | [] => []
  | r :: rs => r.type :: .ofNat r.body.length :: (r.body ++ encode rs)

theorem encode_append (rs rs' : List Record) : encode (rs ++ rs') = encode rs ++ encode rs' := by
  induction rs with
  | nil => rfl
  | cons r rs ih => simp only [List.cons_append, encode, ih, List.append_assoc]

theorem length_encode_cons (r : Record) (rs : List Record) :
    (encode (r :: rs)).length = 2 + r.body.length + (encode rs).length := by
  simp only [encode, List.length_cons, List.length_append]
  omega

/-- The memory holds the records `rs` from address `a` on. -/
def Holds (m : Mem UInt8) (a : ℕ) (rs : List Record) : Prop :=
  m.read a (encode rs).length = encode rs

theorem holds_append {a : ℕ} {rs rs' : List Record} :
    Holds m a (rs ++ rs') ↔ Holds m a rs ∧ Holds m (a + (encode rs).length) rs' := by
  unfold Holds
  rw [encode_append]
  exact Mem.read_eq_append

/-- The type, the length and the body of a record in a memory. -/
structure At (m : Mem UInt8) (i : ℕ) (r : Record) : Prop where
  type : m i = r.type
  length : (m (i + 1)).toNat = r.body.length
  body : m.read (i + 2) r.body.length = r.body

theorem At.next_eq {r : Record} (h : At m i r) : next m i = i + 2 + r.body.length := by
  unfold next
  rw [h.length]

theorem holds_cons {a : ℕ} {r : Record} {rs : List Record} (h : Holds m a (r :: rs)) :
    At m a r ∧ Holds m (a + 2 + r.body.length) rs := by
  unfold Holds at h
  rw [length_encode_cons, Nat.add_assoc, Mem.read_add, Mem.read_add] at h
  have hhead : m.read a 2 = [m a, m (a + 1)] := rfl
  rw [hhead, encode, List.cons_append, List.cons_append, List.cons.injEq, List.cons.injEq,
    List.nil_append] at h
  obtain ⟨htype, hlen, hrest⟩ := h
  obtain ⟨hbody, hrs⟩ := List.append_inj hrest (Mem.length_read _ _ _)
  refine ⟨⟨htype, ?_, hbody⟩, hrs⟩
  rw [hlen, UInt8.toNat_ofNat', Nat.mod_eq_of_lt r.short]

/-- A fold over the walk across records that the step ignores. -/
theorem foldl_walk_of_ignored {σ : Type*} {f : σ → ℕ → σ} {a : ℕ} {rs : List Record}
    (h : Holds m a rs) (hstop : a + (encode rs).length ≤ stop)
    (hf : ∀ r ∈ rs, ∀ s i, At m i r → f s i = s) (s : σ) :
    (walk m stop a).foldl f s = (walk m stop (a + (encode rs).length)).foldl f s := by
  induction rs generalizing a with
  | nil => rfl
  | cons r rs ih =>
    obtain ⟨hr, hrs⟩ := holds_cons h
    have hlen := length_encode_cons r rs
    rw [walk_of_lt (by omega), List.foldl_cons, hf r List.mem_cons_self s a hr, hr.next_eq,
      ih hrs (by omega) fun r' hr' => hf r' (List.mem_cons_of_mem _ hr'), hlen]
    congr 2
    omega

/-- A fold over the walk across records of which the step ignores all but one. -/
theorem foldl_walk_of_one {σ : Type*} {f : σ → ℕ → σ} {a : ℕ} {pre post : List Record} {r : Record}
    (h : Holds m a (pre ++ r :: post)) (hstop : a + (encode (pre ++ r :: post)).length ≤ stop)
    (hf : ∀ r' ∈ pre ++ post, ∀ s i, At m i r' → f s i = s) (s : σ) :
    (walk m stop a).foldl f s =
        (walk m stop (a + (encode (pre ++ r :: post)).length)).foldl f
          (f s (a + (encode pre).length)) ∧
      At m (a + (encode pre).length) r := by
  obtain ⟨hpre, hrest⟩ := holds_append.1 h
  obtain ⟨hr, hpost⟩ := holds_cons hrest
  have hlen := length_encode_cons r post
  have hall : (encode (pre ++ r :: post)).length =
      (encode pre).length + (2 + r.body.length + (encode post).length) := by
    rw [encode_append, List.length_append, hlen]
  have hbehind : a + (encode pre).length + 2 + r.body.length + (encode post).length =
      a + (encode (pre ++ r :: post)).length := by omega
  refine ⟨?_, hr⟩
  rw [foldl_walk_of_ignored hpre (by omega) fun r' hr' => hf r' (List.mem_append_left _ hr'),
    walk_of_lt (by omega), List.foldl_cons, hr.next_eq,
    foldl_walk_of_ignored hpost (by omega) fun r' hr' => hf r' (List.mem_append_right _ hr'),
    hbehind]

/-- A fold over records of which the step ignores all but one. -/
theorem foldl_walk_of_sole {σ : Type*} {f : σ → ℕ → σ} {a : ℕ} {pre post : List Record} {r : Record}
    (h : Holds m a (pre ++ r :: post)) (hstop : stop = a + (encode (pre ++ r :: post)).length)
    (hf : ∀ r' ∈ pre ++ post, ∀ s i, At m i r' → f s i = s) (s : σ) :
    (walk m stop a).foldl f s = f s (a + (encode pre).length) ∧
      At m (a + (encode pre).length) r := by
  obtain ⟨hfold, hat⟩ := foldl_walk_of_one h (Nat.le_of_eq hstop.symm) hf s
  rw [walk_of_le (Nat.le_of_eq hstop)] at hfold
  exact ⟨hfold, hat⟩

/-- What holds at every record of the walk holds at each of the records in the memory, and behind
them. -/
theorem forall_walk_of_holds {Q : ℕ → Prop} {a : ℕ} {rs : List Record} (h : Holds m a rs)
    (hstop : a + (encode rs).length ≤ stop) :
    (∀ p ∈ walk m stop a, Q p) ↔
      (∀ pre r post, rs = pre ++ r :: post → Q (a + (encode pre).length)) ∧
        ∀ p ∈ walk m stop (a + (encode rs).length), Q p := by
  induction rs generalizing a with
  | nil =>
    refine ⟨fun hQ => ⟨fun pre r post he => absurd he (by simp), hQ⟩, fun hQ => hQ.2⟩
  | cons r rs ih =>
    obtain ⟨hr, hrs⟩ := holds_cons h
    have hlen := length_encode_cons r rs
    have hbehind : a + (encode (r :: rs)).length = a + 2 + r.body.length + (encode rs).length := by
      omega
    rw [walk_of_lt (by omega), List.forall_mem_cons, hr.next_eq, ih hrs (by omega), ← and_assoc,
      hbehind]
    refine and_congr_left fun _ => ⟨?_, fun hQ => ⟨?_, fun pre r' post he => ?_⟩⟩
    · rintro ⟨hfirst, hrest⟩ pre r' post he
      cases pre with
      | nil => exact hfirst
      | cons r₀ pre =>
        obtain ⟨rfl, he'⟩ := List.cons.inj he
        have hpre := length_encode_cons r pre
        have hQ := hrest pre r' post he'
        rwa [show a + (encode (r :: pre)).length = a + 2 + r.body.length + (encode pre).length by
          omega]
    · exact hQ [] r rs rfl
    · have hpre := length_encode_cons r pre
      have hQ' := hQ (r :: pre) r' post (by rw [he, List.cons_append])
      rwa [show a + (encode (r :: pre)).length = a + 2 + r.body.length + (encode pre).length by
        omega] at hQ'

end Tlv
