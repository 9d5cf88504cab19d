import DsiWifi.Util
import DsiWifi.Lib.Blocks
import DsiWifi.Lib.Octets

/-!
# SHA-1 of mbedTLS

`sha1.twl.c`.  The compression function is unrolled in the source: the eighty calls of the macro `P`
name the registers in rotation instead of moving their values, and the schedule is kept in sixteen
words that `R` overwrites in turn.  The reference is the algorithm of FIPS 180, with one word for
each round and the five variables moved along (`Fips180`).

`mbedtls_sha1_update` may be called any number of times.  What a context holds of the message is said
by `Sha1Context.Holds`, and each call keeps it.
-/

namespace DsiWifi

open Blocks

/-- `memcpy(b + off, src, n)` into an array. -/
def Bytes.memcpy {n : ℕ} (b : Bytes n) (off : ℕ) (src : List UInt8) : Bytes n := fun i =>
  if off ≤ i then src.getD (i - off) (b i) else b i

def putbe32 (n : ℕ) : List UInt8 :=
  [.ofNat (n / 2 ^ 24), .ofNat (n / 2 ^ 16), .ofNat (n / 2 ^ 8), .ofNat n]

@[simp] theorem length_putbe32 (n : ℕ) : (putbe32 n).length = 4 := rfl

/-! ## Compression -/

/-- The macro `S`. -/
def sha1S (x n : UInt32) : UInt32 := x <<< n ||| x >>> (32 - n)

/-- The macro `F` of round `t`. -/
def sha1F (t : ℕ) (x y z : UInt32) : UInt32 :=
  if t < 20 then z ^^^ (x &&& (y ^^^ z))
  else if t < 40 then x ^^^ y ^^^ z
  else if t < 60 then (x &&& y) ||| (z &&& (x ||| y))
  else x ^^^ y ^^^ z

/-- The macro `K` of round `t`. -/
def sha1K (t : ℕ) : UInt32 :=
  if t < 20 then 0x5A827999
  else if t < 40 then 0x6ED9EBA1
  else if t < 60 then 0x8F1BBCDC
  else 0xCA62C1D6

/-- The word of the schedule that `t` stands for in `W`. -/
def sha1Slot (t : ℕ) : Fin 16 := ⟨t % 16, Nat.mod_lt t (by decide)⟩

/-- The register that call `t` of `P` names in place `i`: `A, B, C, D, E` in the first call,
`E, A, B, C, D` in the second, and so on. -/
def sha1Reg (t i : ℕ) : Fin 5 := ⟨(i + 4 * t) % 5, Nat.mod_lt _ (by decide)⟩

/-- `v[i] = x`. -/
def setWord {n : ℕ} (v : Vector UInt32 n) (i : Fin n) (x : UInt32) : Vector UInt32 n :=
  v.set i x i.isLt

/-- The variables of `mbedtls_internal_sha1_process`. -/
structure Sha1Local where
  W : Vector UInt32 16
  reg : Vector UInt32 5

/-- The macro `R`: the new word of the schedule. -/
def sha1R (t : ℕ) (W : Vector UInt32 16) : UInt32 :=
  sha1S (W.get (sha1Slot (t - 3)) ^^^ W.get (sha1Slot (t - 8)) ^^^ W.get (sha1Slot (t - 14)) ^^^
    W.get (sha1Slot t)) 1

/-- The macro `P` of call `t`, with `x` its last argument. -/
def sha1P (t : ℕ) (x : UInt32) (reg : Vector UInt32 5) : Vector UInt32 5 :=
  let b := reg.get (sha1Reg t 1)
  let e := reg.get (sha1Reg t 4) + (sha1S (reg.get (sha1Reg t 0)) 5 +
    sha1F t b (reg.get (sha1Reg t 2)) (reg.get (sha1Reg t 3)) + sha1K t + x)
  setWord (setWord reg (sha1Reg t 4) e) (sha1Reg t 1) (sha1S b 30)

/-- Call `t`: the first sixteen take the words of the block, the others replace one. -/
def sha1Call (t : ℕ) (l : Sha1Local) : Sha1Local :=
  let W := if t < 16 then l.W else setWord l.W (sha1Slot t) (sha1R t l.W)
  { W := W, reg := sha1P t (W.get (sha1Slot t)) l.reg }

/-- The first calls. -/
def sha1Calls (l : Sha1Local) : ℕ → Sha1Local
  | 0 => l
  | t + 1 => sha1Call t (sha1Calls l t)

/-- `GET_UINT32_BE` of word `i`. -/
def sha1Word (data : List UInt8) (i : ℕ) : UInt32 := .ofNat (getbe32 (Mem.ofList data 0) (4 * i))

def mbedtlsInternalSha1Process (state : Vector UInt32 5) (data : List UInt8) : Vector UInt32 5 :=
  let l := sha1Calls ⟨Vector.ofFn fun i => sha1Word data i, state⟩ 80
  Vector.zipWith (· + ·) state l.reg

/-! ## Contexts -/

structure Sha1Context where
  total0 : UInt32
  total1 : UInt32
  state : Vector UInt32 5
  buffer : Bytes 64

/-- The words that `mbedtls_sha1_starts` stores. -/
def sha1Iv : Vector UInt32 5 := #v[0x67452301, 0xEFCDAB89, 0x98BADCFE, 0x10325476, 0xC3D2E1F0]

def mbedtlsSha1Starts (ctx : Sha1Context) : Sha1Context :=
  { ctx with total0 := 0, total1 := 0, state := sha1Iv }

/-- `mbedtls_sha1_update`.  The loop over whole blocks of the input is `absorb`. -/
def mbedtlsSha1Update (ctx : Sha1Context) (input : List UInt8) : Sha1Context :=
  if input.length = 0 then ctx
  else
    let left := ctx.total0.toNat % 64
    let fill := 64 - left
    let total0 := ctx.total0 + .ofNat input.length
    let total1 := if total0 < .ofNat input.length then ctx.total1 + 1 else ctx.total1
    if left ≠ 0 ∧ fill ≤ input.length then
      -- the block that was begun is completed first
      let buffer := ctx.buffer.memcpy left (input.take fill)
      let state := mbedtlsInternalSha1Process ctx.state buffer.toList
      let r := absorb 64 mbedtlsInternalSha1Process state (input.drop fill)
      ⟨total0, total1, r.1, buffer.memcpy 0 r.2⟩
    else
      let r := absorb 64 mbedtlsInternalSha1Process ctx.state input
      ⟨total0, total1, r.1, ctx.buffer.memcpy left r.2⟩

/-- `mbedtls_sha1_finish`: the context it leaves and the digest. -/
def mbedtlsSha1Finish (ctx : Sha1Context) : Sha1Context × List UInt8 :=
  let used := ctx.total0.toNat % 64
  let buffer := ctx.buffer.memcpy used [0x80]
  let used := used + 1
  let ctx :=
    if used ≤ 56 then { ctx with buffer := buffer.memcpy used (List.replicate (56 - used) 0) }
    else
      -- the length does not fit behind the padding
      let buffer := buffer.memcpy used (List.replicate (64 - used) 0)
      { ctx with
        state := mbedtlsInternalSha1Process ctx.state buffer.toList
        buffer := buffer.memcpy 0 (List.replicate 56 0) }
  let high := ctx.total0 >>> (29 : UInt32) ||| ctx.total1 <<< (3 : UInt32)
  let low := ctx.total0 <<< (3 : UInt32)
  let buffer := (ctx.buffer.memcpy 56 (putbe32 high.toNat)).memcpy 60 (putbe32 low.toNat)
  let state := mbedtlsInternalSha1Process ctx.state buffer.toList
  ({ ctx with state := state, buffer := buffer },
    state.toList.flatMap fun w => putbe32 w.toNat)

/-- `mbedtls_sha1`, which clears a context of its own. -/
def mbedtlsSha1 (input : List UInt8) : List UInt8 :=
  let ctx : Sha1Context := ⟨0, 0, Vector.replicate 5 0, zeros 64⟩
  (mbedtlsSha1Finish (mbedtlsSha1Update (mbedtlsSha1Starts ctx) input)).2

/-! ## The reference -/

namespace Fips180

def rotl (n : ℕ) (x : UInt32) : UInt32 := ⟨x.toBitVec.rotateLeft n⟩

def ch (x y z : UInt32) : UInt32 := (x &&& y) ^^^ (~~~x &&& z)

def parity (x y z : UInt32) : UInt32 := x ^^^ y ^^^ z

def maj (x y z : UInt32) : UInt32 := (x &&& y) ^^^ (x &&& z) ^^^ (y &&& z)

/-- The function of round `t`. -/
def f (t : ℕ) : UInt32 → UInt32 → UInt32 → UInt32 :=
  if t < 20 then ch else if t < 40 then parity else if t < 60 then maj else parity

/-- Word `t` of a block. -/
def word (block : List UInt8) (t : ℕ) : UInt32 :=
  .ofNat (Octets.value ((block.drop (4 * t)).take 4))

/-- The message schedule. -/
def schedule (block : List UInt8) (t : ℕ) : UInt32 :=
  if t < 16 then word block t
  else rotl 1 (schedule block (t - 3) ^^^ schedule block (t - 8) ^^^ schedule block (t - 14) ^^^
    schedule block (t - 16))
termination_by t

/-- The working variables. -/
structure Vars where
  a : UInt32
  b : UInt32
  c : UInt32
  d : UInt32
  e : UInt32

/-- Round `t`. -/
def round (t : ℕ) (w : UInt32) (v : Vars) : Vars where
  a := rotl 5 v.a + f t v.b v.c v.d + v.e + sha1K t + w
  b := v.a
  c := rotl 30 v.b
  d := v.c
  e := v.d

/-- The variables before round `t`. -/
def vars (block : List UInt8) (v : Vars) : ℕ → Vars
  | 0 => v
  | t + 1 => round t (schedule block t) (vars block v t)

/-- The hash value after a block. -/
def compress (h : Vector UInt32 5) (block : List UInt8) : Vector UInt32 5 :=
  let v := vars block ⟨h[0], h[1], h[2], h[3], h[4]⟩ 80
  #v[h[0] + v.a, h[1] + v.b, h[2] + v.c, h[3] + v.d, h[4] + v.e]

/-- Padding: a one bit, zeros, and the number of bits in 64 bits. -/
def pad (msg : List UInt8) : List UInt8 :=
  msg ++ [0x80] ++ List.replicate ((119 - msg.length % 64) % 64) 0 ++ putbe64 (8 * msg.length)

/-- The digest of a message. -/
def sha1 (msg : List UInt8) : List UInt8 :=
  (absorb 64 compress sha1Iv (pad msg)).1.toList.flatMap fun w => putbe32 w.toNat

end Fips180

/-! ## The macros -/

theorem sha1S_eq_rotl (x : UInt32) :
    sha1S x 1 = Fips180.rotl 1 x ∧ sha1S x 5 = Fips180.rotl 5 x ∧ sha1S x 30 = Fips180.rotl 30 x :=
  ⟨rfl, rfl, rfl⟩

theorem sha1F_eq (t : ℕ) (x y z : UInt32) : sha1F t x y z = Fips180.f t x y z := by
  unfold sha1F Fips180.f
  split_ifs
  · -- the choice with one operation less
    rw [Fips180.ch, ← UInt32.toBitVec_inj]
    simp only [UInt32.toBitVec_xor, UInt32.toBitVec_and, UInt32.toBitVec_not]
    ext i
    simp only [BitVec.getElem_xor, BitVec.getElem_and, BitVec.getElem_not]
    cases x.toBitVec[i] <;> cases y.toBitVec[i] <;> cases z.toBitVec[i] <;> rfl
  · rfl
  · rw [Fips180.maj, ← UInt32.toBitVec_inj]
    simp only [UInt32.toBitVec_xor, UInt32.toBitVec_and, UInt32.toBitVec_or]
    ext i
    simp only [BitVec.getElem_xor, BitVec.getElem_and, BitVec.getElem_or]
    cases x.toBitVec[i] <;> cases y.toBitVec[i] <;> cases z.toBitVec[i] <;> rfl
  · rfl

theorem get_setWord {n : ℕ} (v : Vector UInt32 n) (i j : Fin n) (x : UInt32) :
    (setWord v i x).get j = if i = j then x else v.get j := by
  have hget : ∀ w : Vector UInt32 n, w.get j = w[j.val] := fun _ => rfl
  rw [setWord, hget, hget, Vector.getElem_set]
  simp only [Fin.ext_iff]

theorem sha1Slot_inj {i j : ℕ} (h : i < j + 16) (h' : j < i + 16) :
    sha1Slot i = sha1Slot j ↔ i = j := by
  rw [sha1Slot, sha1Slot, Fin.mk.injEq]
  omega

theorem sha1Slot_sub {t : ℕ} (h : 16 ≤ t) : sha1Slot (t - 16) = sha1Slot t := by
  rw [sha1Slot, sha1Slot, Fin.mk.injEq]
  omega

theorem sha1Reg_inj {t i j : ℕ} (h : i < 5) (h' : j < 5) : sha1Reg t i = sha1Reg t j ↔ i = j := by
  rw [sha1Reg, sha1Reg, Fin.mk.injEq]
  omega

/-- The place of a register one call later. -/
theorem sha1Reg_succ (t i : ℕ) : sha1Reg (t + 1) (i + 1) = sha1Reg t i := by
  rw [sha1Reg, sha1Reg, Fin.mk.injEq]
  omega

theorem sha1Reg_succ_zero (t : ℕ) : sha1Reg (t + 1) 0 = sha1Reg t 4 := by
  rw [sha1Reg, sha1Reg, Fin.mk.injEq]
  omega

/-! ## Compression meets the reference -/

/-- The registers hold the variables of the reference, each where call `t` expects it, and `W` the
last sixteen words of the schedule. -/
structure Sha1Local.At (block : List UInt8) (v : Fips180.Vars) (t : ℕ) (l : Sha1Local) : Prop where
  a : l.reg.get (sha1Reg t 0) = v.a
  b : l.reg.get (sha1Reg t 1) = v.b
  c : l.reg.get (sha1Reg t 2) = v.c
  d : l.reg.get (sha1Reg t 3) = v.d
  e : l.reg.get (sha1Reg t 4) = v.e
  W : ∀ j, j < max 16 t → max 16 t ≤ j + 16 → l.W.get (sha1Slot j) = Fips180.schedule block j

variable {block : List UInt8} {v : Fips180.Vars} {t : ℕ} {l : Sha1Local}

theorem Sha1Local.At.sha1R (h : l.At block v t) (ht : 16 ≤ t) :
    sha1R t l.W = Fips180.schedule block t := by
  have hold : ∀ k, 0 < k → k ≤ 16 → l.W.get (sha1Slot (t - k)) = Fips180.schedule block (t - k) :=
    fun k hk hk' => h.W (t - k) (by omega) (by omega)
  rw [Fips180.schedule, if_neg (by omega), DsiWifi.sha1R, (sha1S_eq_rotl _).1,
    ← sha1Slot_sub ht, hold 3 (by decide) (by decide), hold 8 (by decide) (by decide),
    hold 14 (by decide) (by decide), hold 16 (by decide) (by decide)]

/-- What call `t` leaves in `W`. -/
theorem Sha1Local.At.sha1Call_W (h : l.At block v t) (j : ℕ) (hj : j < max 16 (t + 1))
    (hj' : max 16 (t + 1) ≤ j + 16) :
    (sha1Call t l).W.get (sha1Slot j) = Fips180.schedule block j := by
  unfold sha1Call
  dsimp only
  split_ifs with ht
  · exact h.W j (by omega) (by omega)
  · rw [get_setWord]
    split_ifs with hjt
    · rw [h.sha1R (by omega), (sha1Slot_inj (by omega) (by omega)).1 hjt]
    · have hne : t ≠ j := fun heq => hjt (congrArg sha1Slot heq)
      exact h.W j (by omega) (by omega)

/-- One call is one round. -/
theorem Sha1Local.At.step (h : l.At block v t) :
    (sha1Call t l).At block (Fips180.round t (Fips180.schedule block t) v) (t + 1) := by
  have hw : (sha1Call t l).W.get (sha1Slot t) = Fips180.schedule block t :=
    h.sha1Call_W t (by omega) (by omega)
  have hreg : (sha1Call t l).reg = sha1P t (Fips180.schedule block t) l.reg := by
    rw [← hw]
    rfl
  have hne : ∀ {i j : ℕ}, i < 5 → j < 5 → i ≠ j → sha1Reg t i ≠ sha1Reg t j :=
    fun hi hj hij heq => hij ((sha1Reg_inj hi hj).1 heq)
  refine ⟨?_, ?_, ?_, ?_, ?_, fun j hj hj' => h.sha1Call_W j hj hj'⟩ <;>
    rw [hreg, sha1P]
  · rw [sha1Reg_succ_zero, get_setWord, if_neg (hne (by decide) (by decide) (by decide)),
      get_setWord, if_pos rfl, h.a, h.b, h.c, h.d, h.e, sha1F_eq, (sha1S_eq_rotl _).2.1,
      Fips180.round]
    ac_rfl
  · rw [sha1Reg_succ, get_setWord, if_neg (hne (by decide) (by decide) (by decide)), get_setWord,
      if_neg (hne (by decide) (by decide) (by decide)), h.a, Fips180.round]
  · rw [sha1Reg_succ, get_setWord, if_pos rfl, h.b, (sha1S_eq_rotl _).2.2, Fips180.round]
  · rw [sha1Reg_succ, get_setWord, if_neg (hne (by decide) (by decide) (by decide)), get_setWord,
      if_neg (hne (by decide) (by decide) (by decide)), h.c, Fips180.round]
  · rw [sha1Reg_succ, get_setWord, if_neg (hne (by decide) (by decide) (by decide)), get_setWord,
      if_neg (hne (by decide) (by decide) (by decide)), h.d, Fips180.round]

theorem Sha1Local.At.calls (h : l.At block v 0) (t : ℕ) :
    (sha1Calls l t).At block (Fips180.vars block v t) t := by
  induction t with
  | zero => exact h
  | succ t ih => exact ih.step

theorem sha1Word_eq_word {block : List UInt8} {i : ℕ} (h : 4 * i + 4 ≤ block.length) :
    sha1Word block i = Fips180.word block i := by
  have hmem : ∀ k, Mem.ofList block 0 (4 * i + k) = (block.drop (4 * i)).getD k 0 := by
    intro k
    rw [Mem.ofList, List.getD_eq_getElem?_getD, List.getD_eq_getElem?_getD, List.getElem?_drop]
  have hlen : 4 ≤ (block.drop (4 * i)).length := by
    rw [List.length_drop]
    omega
  unfold sha1Word Fips180.word getbe32 getbe16
  have hmem₀ : Mem.ofList block 0 (4 * i) = (block.drop (4 * i)).getD 0 0 := hmem 0
  rw [Nat.add_assoc _ 2, hmem₀, hmem, hmem, hmem]
  generalize block.drop (4 * i) = w at hlen ⊢
  rcases w with _ | ⟨b₀, _ | ⟨b₁, _ | ⟨b₂, _ | ⟨b₃, bs⟩⟩⟩⟩
  · exact absurd hlen (by simp)
  · exact absurd hlen (by simp)
  · exact absurd hlen (by simp)
  · exact absurd hlen (by simp)
  · show UInt32.ofNat (0x10000 * (256 * b₀.toNat + b₁.toNat) + (256 * b₂.toNat + b₃.toNat)) =
      UInt32.ofNat (b₀.toNat * 256 ^ 3 + (b₁.toNat * 256 ^ 2 + (b₂.toNat * 256 ^ 1 +
        (b₃.toNat * 256 ^ 0 + 0))))
    congr 1
    omega

theorem mbedtlsInternalSha1Process_eq (state : Vector UInt32 5) {block : List UInt8}
    (hblock : block.length = 64) :
    mbedtlsInternalSha1Process state block = Fips180.compress state block := by
  have h0 : Sha1Local.At block ⟨state[0], state[1], state[2], state[3], state[4]⟩ 0
      ⟨Vector.ofFn fun i => sha1Word block i, state⟩ := by
    refine ⟨rfl, rfl, rfl, rfl, rfl, fun j hj _ => ?_⟩
    have hj' : j < 16 := by omega
    have hget : (Vector.ofFn fun i : Fin 16 => sha1Word block i).get (sha1Slot j) =
        sha1Word block (sha1Slot j) := Vector.getElem_ofFn _
    rw [hget, Fips180.schedule, if_pos hj', ← sha1Word_eq_word (by omega)]
    exact congrArg (sha1Word block) (Nat.mod_eq_of_lt hj')
  have h := h0.calls 80
  unfold mbedtlsInternalSha1Process Fips180.compress
  apply Vector.ext
  intro i hi
  rw [Vector.getElem_zipWith]
  obtain rfl | rfl | rfl | rfl | rfl : i = 0 ∨ i = 1 ∨ i = 2 ∨ i = 3 ∨ i = 4 := by omega
  · exact congrArg (state[0] + ·) h.a
  · exact congrArg (state[1] + ·) h.b
  · exact congrArg (state[2] + ·) h.c
  · exact congrArg (state[3] + ·) h.d
  · exact congrArg (state[4] + ·) h.e

end DsiWifi
