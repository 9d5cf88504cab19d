import DsiWifi.Wmi.State

/-!
# WPA key derivation

The functions of `wpa.twl.c`.  HMAC-SHA1 and the NIST key unwrap of mbedTLS are parameters
(`Crypto`); everything the driver does around them is modelled: the order of the addresses and
nonces, the PRF input, and the scan of the unwrapped key data for a GTK element.
-/

namespace DsiWifi

/-- The cryptographic primitives. -/
structure Crypto where
  /-- `sha1_hmac(key, input)`. -/
  sha1Hmac : List UInt8 → List UInt8 → Bytes 20
  /-- `mbedtls_nist_kw_unwrap(kek, data)`; `none` is an error, which sets the output length to 0. -/
  nistKwUnwrap : Bytes 0x10 → List UInt8 → Option (List UInt8)

/-! ## Pairwise keys -/

/-- The flag `a_is_max` of `get_arr_min` and `get_arr_max`. -/
def aIsMax : List UInt8 → List UInt8 → Bool
  | a :: as, b :: bs => if a = b then aIsMax as bs else b < a
  | _, _ => false

def getArrMin (a b : List UInt8) : List UInt8 := if aIsMax a b then b else a

def getArrMax (a b : List UInt8) : List UInt8 := if aIsMax a b then a else b

/-- The string `Pairwise key expansion` with its terminator. -/
def ptkLabel : List UInt8 :=
  [0x50, 0x61, 0x69, 0x72, 0x77, 0x69, 0x73, 0x65, 0x20, 0x6B, 0x65, 0x79, 0x20, 0x65, 0x78, 0x70,
    0x61, 0x6E, 0x73, 0x69, 0x6F, 0x6E, 0]

/-- The PRF input `ptk_data` of key iteration `i`. -/
def ptkData (devMac apMac : Bytes 6) (devNonce apNonce : Bytes 32) (i : UInt8) : List UInt8 :=
  ptkLabel ++ getArrMin devMac.toList apMac.toList ++ getArrMax devMac.toList apMac.toList ++
    getArrMin apNonce.toList devNonce.toList ++ getArrMax apNonce.toList devNonce.toList ++ [i]

def PtkKeyinfo.ofList (out : List UInt8) : PtkKeyinfo where
  kck := arrayOf out 0x10
  kek := arrayOf (out.drop 0x10) 0x10
  tk := arrayOf (out.drop 0x20) 0x10
  micTx := arrayOf (out.drop 0x30) 8
  micRx := arrayOf (out.drop 0x38) 8

def wpaCalcPtk (C : Crypto) (devMac apMac : Bytes 6) (devNonce apNonce : Bytes 32)
    (pmk : Bytes 0x20) : PtkKeyinfo :=
  let prf := fun i => (C.sha1Hmac pmk.toList (ptkData devMac apMac devNonce apNonce i)).toList
  .ofList (prf 0 ++ prf 1 ++ prf 2 ++ prf 3)

def wpaCalcMic (C : Crypto) (kck : Bytes 0x10) (pktData : List UInt8) : Bytes 16 :=
  arrayOf (C.sha1Hmac kck.toList pktData).toList 16

/-! ## Group keys -/

def GtkKeyinfo.ofBytes (out : Bytes 38) : GtkKeyinfo where
  keytype := fun i => out ⟨i, by omega⟩
  keyidx := out 4
  unk := out 5
  key := fun i => out ⟨i + 6, by omega⟩

/-- The scan of the unwrapped data for GTK elements: `n` is `decrypted_length`, `out` the bytes of
the result.  Each round moves `i` by at least two, so `n` bounds the rounds. -/
def gtkLoop (gtkDec : Mem UInt8) (n : ℕ) : ℕ → ℕ → Bytes 38 → Bytes 38
  | 0, _, out => out
  | fuel + 1, i, out =>
    if i < n then
      let entType := gtkDec i
      let entSize := (gtkDec (i + 1)).toNat
      let i := i + 2
      let out := if entType = 0xDD ∧ gtkDec.read i 4 = [0x00, 0x0F, 0xAC, 0x01] ∧
          (entSize = 0x16 ∨ entSize = 0x26)
        then fun k : Fin 38 => if k.val < entSize then gtkDec (i + k) else out k
        else out
      gtkLoop gtkDec n fuel (i + entSize) out
    else out

/-- `wpa_decrypt_gtk`; `stack` is what the scratch buffer `gtk_dec` held before. -/
def wpaDecryptGtk (C : Crypto) (kek : Bytes 0x10) (data : List UInt8) (stack : Mem UInt8) :
    GtkKeyinfo :=
  let plain := (C.nistKwUnwrap kek data).getD []
  .ofBytes (gtkLoop (stack.write 0 plain) plain.length plain.length 0 (zeros 38))

end DsiWifi
