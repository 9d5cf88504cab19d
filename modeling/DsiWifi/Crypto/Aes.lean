import DsiWifi.Crypto.KeyWrap
import DsiWifi.Lib.Table

/-!
# AES of mbedTLS

`aes.twl.c` as it is configured here: the tables are computed at run time, one round looks up a word
for each byte of the state, and decryption is the equivalent inverse cipher with its own round keys.
A word holds a column of the state, the first row in its least significant byte.
-/

namespace DsiWifi

open Table

/-! ## Tables -/

/-- `XTIME`, on `int`. -/
def aesXtime (x : ℕ) : ℕ := x <<< 1 ^^^ (if x &&& 0x80 ≠ 0 then 0x1B else 0)

/-- `pow[i]` of `aes_gen_tables`. -/
def aesPow : ℕ → ℕ
  | 0 => 1
  | i + 1 => (aesPow i ^^^ aesXtime (aesPow i)) &&& 0xFF

/-- `log`, filled along with `pow`. -/
def aesLog : ℕ → ℕ := storeAll aesPow id 256 fun _ => 0

/-- `RCON[i]`. -/
def aesRcon : ℕ → ℕ
  | 0 => 1
  | i + 1 => aesXtime (aesRcon i) &&& 0xFF

/-- `MUL`. -/
def aesMul (x y : ℕ) : ℕ := if x ≠ 0 ∧ y ≠ 0 then aesPow ((aesLog x + aesLog y) % 255) else 0

/-- `y = ( ( y << 1 ) | ( y >> 7 ) ) & 0xFF`. -/
def aesRotl1 (y : ℕ) : ℕ := (y <<< 1 ||| y >>> 7) &&& 0xFF

/-- The four lines that turn an inverse into an entry of `FSb`. -/
def aesAffine (x : ℕ) : ℕ :=
  let y₁ := aesRotl1 x
  let y₂ := aesRotl1 y₁
  let y₃ := aesRotl1 y₂
  let y₄ := aesRotl1 y₃
  x ^^^ y₁ ^^^ y₂ ^^^ y₃ ^^^ (y₄ ^^^ 0x63)

/-- The value stored in `FSb[i]`. -/
def aesSboxValue (i : ℕ) : ℕ := if i = 0 then 0x63 else aesAffine (aesPow (255 - aesLog i))

/-- `FSb`. -/
def aesFSb : Vector UInt8 256 := Vector.ofFn fun i => .ofNat (aesSboxValue i)

/-- `RSb`, filled along with `FSb`. -/
def aesRSb : Vector UInt8 256 :=
  Vector.ofFn fun x => storeAll aesSboxValue UInt8.ofNat 256 (fun _ => 0) x

/-- A word from its bytes, the first one least significant. -/
def packWord (a b c d : UInt8) : UInt32 :=
  a.toUInt32 ^^^ b.toUInt32 <<< 8 ^^^ c.toUInt32 <<< 16 ^^^ d.toUInt32 <<< 24

def rotl8 (x : UInt32) : UInt32 := x <<< 8 ||| x >>> 24

/-- `FT0`. -/
def aesFT0 : Vector UInt32 256 := Vector.ofFn fun i =>
  let x := (aesFSb.get i).toNat
  let y := aesXtime x &&& 0xFF
  let z := (y ^^^ x) &&& 0xFF
  packWord (.ofNat y) (.ofNat x) (.ofNat x) (.ofNat z)

def aesFT1 : Vector UInt32 256 := aesFT0.map rotl8

def aesFT2 : Vector UInt32 256 := aesFT1.map rotl8

def aesFT3 : Vector UInt32 256 := aesFT2.map rotl8

/-- `RT0`. -/
def aesRT0 : Vector UInt32 256 := Vector.ofFn fun i =>
  let x := (aesRSb.get i).toNat
  packWord (.ofNat (aesMul 0x0E x)) (.ofNat (aesMul 0x09 x)) (.ofNat (aesMul 0x0D x))
    (.ofNat (aesMul 0x0B x))

def aesRT1 : Vector UInt32 256 := aesRT0.map rotl8

def aesRT2 : Vector UInt32 256 := aesRT1.map rotl8

def aesRT3 : Vector UInt32 256 := aesRT2.map rotl8

/-! ## Words and blocks -/

/-- `( w >> 8 * k ) & 0xFF`. -/
def byteOf (w : UInt32) (k : ℕ) : UInt8 := (w >>> .ofNat (8 * k)).toUInt8

/-- The four words of a block, `X` or `Y`. -/
@[ext]
structure AesState where
  x0 : UInt32
  x1 : UInt32
  x2 : UInt32
  x3 : UInt32

/-- `GET_UINT32_LE` at `4 * i`. -/
def getUint32Le (b : CipherBlock) (i : Fin 4) : UInt32 :=
  packWord (b.get ⟨4 * i, by omega⟩) (b.get ⟨4 * i + 1, by omega⟩) (b.get ⟨4 * i + 2, by omega⟩)
    (b.get ⟨4 * i + 3, by omega⟩)

def AesState.ofBlock (b : CipherBlock) : AesState :=
  ⟨getUint32Le b ⟨0, by decide⟩, getUint32Le b ⟨1, by decide⟩, getUint32Le b ⟨2, by decide⟩,
    getUint32Le b ⟨3, by decide⟩⟩

/-- `PUT_UINT32_LE` of the four words. -/
def AesState.toBlock (s : AesState) : CipherBlock :=
  #v[byteOf s.x0 0, byteOf s.x0 1, byteOf s.x0 2, byteOf s.x0 3,
    byteOf s.x1 0, byteOf s.x1 1, byteOf s.x1 2, byteOf s.x1 3,
    byteOf s.x2 0, byteOf s.x2 1, byteOf s.x2 2, byteOf s.x2 3,
    byteOf s.x3 0, byteOf s.x3 1, byteOf s.x3 2, byteOf s.x3 3]

/-! ## Rounds -/

/-- A word of a round: one table for each byte. -/
def lookup4 (t0 t1 t2 t3 : Vector UInt32 256) (a b c d : UInt32) : UInt32 :=
  t0.get (byteOf a 0).toFin ^^^ t1.get (byteOf b 1).toFin ^^^ t2.get (byteOf c 2).toFin ^^^
    t3.get (byteOf d 3).toFin

/-- A word of a last round, from an S-box. -/
def sub4 (t : Vector UInt8 256) (a b c d : UInt32) : UInt32 :=
  packWord (t.get (byteOf a 0).toFin) (t.get (byteOf b 1).toFin) (t.get (byteOf c 2).toFin)
    (t.get (byteOf d 3).toFin)

/-- The four words `*RK++` from word `p` of the round keys. -/
def roundKey (rk : List UInt32) (p : ℕ) : AesState :=
  ⟨rk.getD p 0, rk.getD (p + 1) 0, rk.getD (p + 2) 0, rk.getD (p + 3) 0⟩

/-- The round keys are added word by word. -/
def AesState.xor (s t : AesState) : AesState :=
  ⟨s.x0 ^^^ t.x0, s.x1 ^^^ t.x1, s.x2 ^^^ t.x2, s.x3 ^^^ t.x3⟩

/-- `f` on the words as `AES_FROUND` and the last round of encryption pick them. -/
def AesState.forward (f : UInt32 → UInt32 → UInt32 → UInt32 → UInt32) (y : AesState) : AesState :=
  ⟨f y.x0 y.x1 y.x2 y.x3, f y.x1 y.x2 y.x3 y.x0, f y.x2 y.x3 y.x0 y.x1, f y.x3 y.x0 y.x1 y.x2⟩

/-- `f` on the words as `AES_RROUND` and the last round of decryption pick them. -/
def AesState.backward (f : UInt32 → UInt32 → UInt32 → UInt32 → UInt32) (y : AesState) : AesState :=
  ⟨f y.x0 y.x3 y.x2 y.x1, f y.x1 y.x0 y.x3 y.x2, f y.x2 y.x1 y.x0 y.x3, f y.x3 y.x2 y.x1 y.x0⟩

def aesFround (rk y : AesState) : AesState :=
  rk.xor (y.forward (lookup4 aesFT0 aesFT1 aesFT2 aesFT3))

def aesRround (rk y : AesState) : AesState :=
  rk.xor (y.backward (lookup4 aesRT0 aesRT1 aesRT2 aesRT3))

/-- `for( i = ( ctx->nr >> 1 ) - 1; i > 0; i-- )`: two rounds each time, with the round keys from word
`p` on. -/
def aesLoop (round : AesState → AesState → AesState) (rk : List UInt32) : ℕ → ℕ → AesState → AesState
  | 0, _, x => x
  | i + 1, p, x =>
    let y := round (roundKey rk p) x
    aesLoop round rk i (p + 8) (round (roundKey rk (p + 4)) y)

structure AesContext where
  nr : ℕ
  rk : List UInt32

def mbedtlsInternalAesEncrypt (ctx : AesContext) (input : CipherBlock) : CipherBlock :=
  let x := (AesState.ofBlock input).xor (roundKey ctx.rk 0)
  let x := aesLoop aesFround ctx.rk (ctx.nr / 2 - 1) 4 x
  let p := 4 + 8 * (ctx.nr / 2 - 1)
  let y := aesFround (roundKey ctx.rk p) x
  ((roundKey ctx.rk (p + 4)).xor (y.forward (sub4 aesFSb))).toBlock

def mbedtlsInternalAesDecrypt (ctx : AesContext) (input : CipherBlock) : CipherBlock :=
  let x := (AesState.ofBlock input).xor (roundKey ctx.rk 0)
  let x := aesLoop aesRround ctx.rk (ctx.nr / 2 - 1) 4 x
  let p := 4 + 8 * (ctx.nr / 2 - 1)
  let y := aesRround (roundKey ctx.rk p) x
  ((roundKey ctx.rk (p + 4)).xor (y.backward (sub4 aesRSb))).toBlock

/-! ## Round keys -/

/-- The word of S-box entries at the start of a round of `mbedtls_aes_setkey_enc`: the bytes of `w`
are taken from the second on. -/
def subRotWord (w : UInt32) : UInt32 :=
  packWord (aesFSb.get (byteOf w 1).toFin) (aesFSb.get (byteOf w 2).toFin)
    (aesFSb.get (byteOf w 3).toFin) (aesFSb.get (byteOf w 0).toFin)

/-- The word of S-box entries in the middle of a round for 256 bits. -/
def subWord (w : UInt32) : UInt32 :=
  packWord (aesFSb.get (byteOf w 0).toFin) (aesFSb.get (byteOf w 1).toFin)
    (aesFSb.get (byteOf w 2).toFin) (aesFSb.get (byteOf w 3).toFin)

/-- Round `i` for 128 bits; `RK` points to word `4 * i`. -/
def expandKey128 (rk : List UInt32) (i : ℕ) : List UInt32 :=
  let r := fun j => rk.getD (4 * i + j) 0
  let r4 := r 0 ^^^ .ofNat (aesRcon i) ^^^ subRotWord (r 3)
  let r5 := r 1 ^^^ r4
  let r6 := r 2 ^^^ r5
  let r7 := r 3 ^^^ r6
  rk ++ [r4, r5, r6, r7]

/-- Round `i` for 192 bits; `RK` points to word `6 * i`. -/
def expandKey192 (rk : List UInt32) (i : ℕ) : List UInt32 :=
  let r := fun j => rk.getD (6 * i + j) 0
  let r6 := r 0 ^^^ .ofNat (aesRcon i) ^^^ subRotWord (r 5)
  let r7 := r 1 ^^^ r6
  let r8 := r 2 ^^^ r7
  let r9 := r 3 ^^^ r8
  let r10 := r 4 ^^^ r9
  let r11 := r 5 ^^^ r10
  rk ++ [r6, r7, r8, r9, r10, r11]

/-- Round `i` for 256 bits; `RK` points to word `8 * i`. -/
def expandKey256 (rk : List UInt32) (i : ℕ) : List UInt32 :=
  let r := fun j => rk.getD (8 * i + j) 0
  let r8 := r 0 ^^^ .ofNat (aesRcon i) ^^^ subRotWord (r 7)
  let r9 := r 1 ^^^ r8
  let r10 := r 2 ^^^ r9
  let r11 := r 3 ^^^ r10
  let r12 := r 4 ^^^ subWord r11
  let r13 := r 5 ^^^ r12
  let r14 := r 6 ^^^ r13
  let r15 := r 7 ^^^ r14
  rk ++ [r8, r9, r10, r11, r12, r13, r14, r15]

/-- The words of the key, `GET_UINT32_LE( RK[i], key, i << 2 )`. -/
def keyWords (key : List UInt8) (n : ℕ) : List UInt32 :=
  (List.range n).map fun i => .ofNat (getle32 (Mem.ofList key 0) (4 * i))

/-- `mbedtls_aes_setkey_enc`; `none` is `MBEDTLS_ERR_AES_INVALID_KEY_LENGTH`. -/
def mbedtlsAesSetkeyEnc (key : List UInt8) (keybits : ℕ) : Option AesContext :=
  let rk := keyWords key (keybits / 32)
  if keybits = 128 then some ⟨10, (List.range 10).foldl expandKey128 rk⟩
  else if keybits = 192 then some ⟨12, (List.range 8).foldl expandKey192 rk⟩
  else if keybits = 256 then some ⟨14, (List.range 7).foldl expandKey256 rk⟩
  else none

/-- A word of a round key for decryption: the S-box in front undoes the one inside the tables. -/
def invKeyWord (sk : UInt32) : UInt32 :=
  aesRT0.get (aesFSb.get (byteOf sk 0).toFin).toFin ^^^
    aesRT1.get (aesFSb.get (byteOf sk 1).toFin).toFin ^^^
    aesRT2.get (aesFSb.get (byteOf sk 2).toFin).toFin ^^^
    aesRT3.get (aesFSb.get (byteOf sk 3).toFin).toFin

/-- The four words `*SK++` from word `p`. -/
def keyGroup (rk : List UInt32) (p : ℕ) : List UInt32 :=
  [rk.getD p 0, rk.getD (p + 1) 0, rk.getD (p + 2) 0, rk.getD (p + 3) 0]

/-- `for( i = ctx->nr - 1, SK -= 8; i > 0; i--, SK -= 8 )`: the keys of rounds `i` down to 1. -/
def invertKeys (sk : List UInt32) : ℕ → List UInt32
  | 0 => []
  | i + 1 => (keyGroup sk (4 * (i + 1))).map invKeyWord ++ invertKeys sk i

/-- The round keys `mbedtls_aes_setkey_dec` makes from those of `cty`. -/
def AesContext.inverse (cty : AesContext) : AesContext :=
  ⟨cty.nr, keyGroup cty.rk (4 * cty.nr) ++ invertKeys cty.rk (cty.nr - 1) ++ keyGroup cty.rk 0⟩

def mbedtlsAesSetkeyDec (key : List UInt8) (keybits : ℕ) : Option AesContext :=
  (mbedtlsAesSetkeyEnc key keybits).map AesContext.inverse

end DsiWifi
