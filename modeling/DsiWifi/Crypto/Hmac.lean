import DsiWifi.Crypto.Sha1Stream

/-!
# HMAC-SHA1

The driver has two implementations: `sha1_hmac` at the end of `sha1.twl.c`, used for the PRF and the
MIC, and `mbedtls_md_hmac_*` of `md.twl.c`, used by PBKDF2.  They differ in where a long key is
hashed: `sha1_hmac_starts` takes a context of its own, `mbedtls_md_hmac_starts` the one that is being
set up.  A context keeps its pads, so that `reset` starts another message under the same key.

The reference is RFC 2104 (`Rfc2104.hmac`).
-/

namespace DsiWifi

open Blocks

/-- `ipad` and `opad` of `mbedtls_sha1_context`, which in an `mbedtls_md_context_t` are the two halves
of `hmac_ctx`, beside the state of the digest. -/
structure HmacContext where
  md : Sha1Context
  ipad : Bytes 64
  opad : Bytes 64

/-- A pad: `memset(pad, b, 64)`, and the loop over the bytes of the key. -/
def hmacPad (b : UInt8) (key : List UInt8) : Bytes 64 := fun i =>
  if i < key.length then b ^^^ key.getD i 0 else b

/-- The part that the two functions share: the pads of a key of at most 64 bytes, and the first block.
-/
def hmacStarts (ctx : HmacContext) (key : List UInt8) : HmacContext :=
  let ipad := hmacPad 0x36 key
  { md := mbedtlsSha1Update (mbedtlsSha1Starts ctx.md) ipad.toList
    ipad := ipad
    opad := hmacPad 0x5C key }

def sha1HmacStarts (ctx : HmacContext) (key : List UInt8) : HmacContext :=
  hmacStarts ctx (if 64 < key.length then mbedtlsSha1 key else key)

def sha1HmacUpdate (ctx : HmacContext) (input : List UInt8) : HmacContext :=
  { ctx with md := mbedtlsSha1Update ctx.md input }

/-- `sha1_hmac_finish`: the context it leaves and the output. -/
def sha1HmacFinish (ctx : HmacContext) : HmacContext × List UInt8 :=
  let inner := mbedtlsSha1Finish ctx.md
  let md := mbedtlsSha1Update (mbedtlsSha1Starts inner.1) ctx.opad.toList
  let outer := mbedtlsSha1Finish (mbedtlsSha1Update md inner.2)
  ({ ctx with md := outer.1 }, outer.2)

def sha1HmacReset (ctx : HmacContext) : HmacContext :=
  { ctx with md := mbedtlsSha1Update (mbedtlsSha1Starts ctx.md) ctx.ipad.toList }

/-- `sha1_hmac`; `ctx` is what its context on the stack held before. -/
def sha1Hmac (ctx : HmacContext) (key input : List UInt8) : List UInt8 :=
  (sha1HmacFinish (sha1HmacUpdate (sha1HmacStarts ctx key) input)).2

def mbedtlsMdHmacStarts (ctx : HmacContext) (key : List UInt8) : HmacContext :=
  if 64 < key.length then
    let sum := mbedtlsSha1Finish (mbedtlsSha1Update (mbedtlsSha1Starts ctx.md) key)
    hmacStarts { ctx with md := sum.1 } sum.2
  else hmacStarts ctx key

def mbedtlsMdHmacUpdate (ctx : HmacContext) (input : List UInt8) : HmacContext :=
  sha1HmacUpdate ctx input

def mbedtlsMdHmacFinish (ctx : HmacContext) : HmacContext × List UInt8 := sha1HmacFinish ctx

def mbedtlsMdHmacReset (ctx : HmacContext) : HmacContext := sha1HmacReset ctx

/-! ## The reference -/

namespace Rfc2104

/-- The key as one block: hashed when it is longer, and padded with zeros. -/
def keyBlock (key : List UInt8) : List UInt8 :=
  let k := if 64 < key.length then Fips180.sha1 key else key
  k ++ List.replicate (64 - k.length) 0

/-- `H(K XOR opad, H(K XOR ipad, text))`. -/
def hmac (key text : List UInt8) : List UInt8 :=
  Fips180.sha1 ((keyBlock key).map (· ^^^ 0x5C) ++
    Fips180.sha1 ((keyBlock key).map (· ^^^ 0x36) ++ text))

end Rfc2104

/-! ## Pads -/

theorem length_sha1 (msg : List UInt8) : (Fips180.sha1 msg).length = 20 := by
  unfold Fips180.sha1
  rw [List.length_flatMap]
  simp only [length_putbe32, List.map_const', List.sum_replicate, Vector.length_toList]
  rfl

/-- The key that the pads are made from. -/
def hmacKey (key : List UInt8) : List UInt8 := if 64 < key.length then Fips180.sha1 key else key

theorem length_hmacKey_le (key : List UInt8) : (hmacKey key).length ≤ 64 := by
  unfold hmacKey
  split_ifs with h
  · rw [length_sha1]
    decide
  · omega

theorem toList_hmacPad (b : UInt8) {key : List UInt8} (h : key.length ≤ 64) :
    (hmacPad b key).toList = (key ++ List.replicate (64 - key.length) 0).map (· ^^^ b) := by
  apply List.ext_getElem
  · simp only [List.length_ofFn, List.length_map, List.length_append, List.length_replicate]
    omega
  · intro i h₁ h₂
    rw [List.getElem_ofFn, List.getElem_map, hmacPad]
    dsimp only
    split_ifs with hi
    · rw [List.getElem_append_left hi, List.getD_eq_getElem?_getD, List.getElem?_eq_getElem hi,
        Option.getD_some, UInt8.xor_comm]
    · rw [List.getElem_append_right (by omega), List.getElem_replicate, UInt8.zero_xor]

theorem toList_hmacPad_hmacKey (b : UInt8) (key : List UInt8) :
    (hmacPad b (hmacKey key)).toList = (Rfc2104.keyBlock key).map (· ^^^ b) :=
  toList_hmacPad b (length_hmacKey_le key)

/-! ## Contexts -/

/-- The context has been set up with `key` and fed `msg` since. -/
structure HmacContext.Holds (ctx : HmacContext) (key msg : List UInt8) : Prop where
  ipad : ctx.ipad = hmacPad 0x36 (hmacKey key)
  opad : ctx.opad = hmacPad 0x5C (hmacKey key)
  md : ctx.md.Holds ((hmacPad 0x36 (hmacKey key)).toList ++ msg)

variable {ctx : HmacContext} {key msg : List UInt8}

theorem pad_short (p : Bytes 64) : p.toList.length < 2 ^ 32 := by
  rw [List.length_ofFn]
  decide

theorem holds_hmacStarts (ctx : HmacContext) (key : List UInt8) :
    (hmacStarts ctx (hmacKey key)).Holds key [] := by
  refine ⟨rfl, rfl, ?_⟩
  have h := (holds_starts ctx.md).update (pad_short (hmacPad 0x36 (hmacKey key)))
  rw [List.nil_append] at h
  rw [List.append_nil]
  exact h

theorem holds_sha1HmacStarts (ctx : HmacContext) {key : List UInt8} (hkey : key.length < 2 ^ 32) :
    (sha1HmacStarts ctx key).Holds key [] := by
  have heq : sha1HmacStarts ctx key = hmacStarts ctx (hmacKey key) := by
    unfold sha1HmacStarts hmacKey
    rw [mbedtlsSha1_eq hkey]
  rw [heq]
  exact holds_hmacStarts ctx key

theorem holds_mbedtlsMdHmacStarts (ctx : HmacContext) {key : List UInt8}
    (hkey : key.length < 2 ^ 32) : (mbedtlsMdHmacStarts ctx key).Holds key [] := by
  unfold mbedtlsMdHmacStarts
  split_ifs with hlong
  · -- the key is hashed in the context itself, which `starts` then clears
    have hsum := ((holds_starts ctx.md).update hkey).finish
    rw [List.nil_append] at hsum
    have hk : hmacKey key = Fips180.sha1 key := if_pos hlong
    dsimp only
    rw [hsum, ← hk]
    exact holds_hmacStarts _ key
  · have hk : hmacKey key = key := if_neg hlong
    have h := holds_hmacStarts ctx key
    rw [hk] at h
    exact h

theorem HmacContext.Holds.update (h : ctx.Holds key msg) {input : List UInt8}
    (hlen : input.length < 2 ^ 32) : (sha1HmacUpdate ctx input).Holds key (msg ++ input) := by
  refine ⟨h.ipad, h.opad, ?_⟩
  rw [← List.append_assoc]
  exact h.md.update hlen

theorem HmacContext.Holds.updates (h : ctx.Holds key msg) {inputs : List (List UInt8)}
    (hlen : ∀ input ∈ inputs, input.length < 2 ^ 32) :
    (inputs.foldl sha1HmacUpdate ctx).Holds key (msg ++ inputs.flatten) := by
  induction inputs generalizing ctx msg with
  | nil =>
    rw [List.flatten_nil, List.append_nil]
    exact h
  | cons input inputs ih =>
    have hrest := ih (h.update (hlen input (List.mem_cons_self ..)))
      fun i hi => hlen i (List.mem_cons_of_mem _ hi)
    rw [List.append_assoc] at hrest
    exact hrest

/-- The output is the HMAC of what the context holds. -/
theorem HmacContext.Holds.finish (h : ctx.Holds key msg) :
    (sha1HmacFinish ctx).2 = Rfc2104.hmac key msg := by
  have hinner := h.md.finish
  have hshort : (mbedtlsSha1Finish ctx.md).2.length < 2 ^ 32 := by
    rw [hinner, length_sha1]
    decide
  have hopad := (holds_starts (mbedtlsSha1Finish ctx.md).1).update (pad_short ctx.opad)
  have houter := (hopad.update hshort).finish
  rw [List.nil_append, hinner, h.opad, toList_hmacPad_hmacKey, toList_hmacPad_hmacKey] at houter
  unfold sha1HmacFinish
  dsimp only
  rw [h.opad, hinner, toList_hmacPad_hmacKey, toList_hmacPad_hmacKey]
  exact houter

/-- After the output, `reset` begins a new message under the same key. -/
theorem HmacContext.Holds.reset (h : ctx.Holds key msg) :
    (sha1HmacReset (sha1HmacFinish ctx).1).Holds key [] := by
  refine ⟨h.ipad, h.opad, ?_⟩
  have hpad := (holds_starts (sha1HmacFinish ctx).1.md).update (pad_short ctx.ipad)
  have hkeep : (sha1HmacFinish ctx).1.ipad = ctx.ipad := rfl
  rw [List.nil_append, h.ipad] at hpad
  unfold sha1HmacReset
  rw [List.append_nil, hkeep, h.ipad]
  exact hpad

/-! ## Messages under one key -/

/-- One message in pieces, and the context reset behind it. -/
def hmacMessage (ctx : HmacContext) (pieces : List (List UInt8)) : HmacContext × List UInt8 :=
  let r := mbedtlsMdHmacFinish (pieces.foldl mbedtlsMdHmacUpdate ctx)
  (mbedtlsMdHmacReset r.1, r.2)

/-- The outputs for message after message. -/
def hmacMessages : HmacContext → List (List (List UInt8)) → List (List UInt8)
  | _, [] => []
  | ctx, pieces :: msgs =>
    (hmacMessage ctx pieces).2 :: hmacMessages (hmacMessage ctx pieces).1 msgs

theorem HmacContext.Holds.message (h : ctx.Holds key []) {pieces : List (List UInt8)}
    (hlen : ∀ piece ∈ pieces, piece.length < 2 ^ 32) :
    (hmacMessage ctx pieces).1.Holds key [] ∧
      (hmacMessage ctx pieces).2 = Rfc2104.hmac key pieces.flatten := by
  have hfed := h.updates hlen
  rw [List.nil_append] at hfed
  exact ⟨hfed.reset, hfed.finish⟩

theorem HmacContext.Holds.messages (h : ctx.Holds key []) {msgs : List (List (List UInt8))}
    (hlen : ∀ pieces ∈ msgs, ∀ piece ∈ pieces, piece.length < 2 ^ 32) :
    hmacMessages ctx msgs = msgs.map fun pieces => Rfc2104.hmac key pieces.flatten := by
  induction msgs generalizing ctx with
  | nil => rfl
  | cons pieces msgs ih =>
    obtain ⟨hnext, hout⟩ := h.message (hlen pieces (List.mem_cons_self ..))
    rw [hmacMessages, hout, ih hnext fun p hp => hlen p (List.mem_cons_of_mem _ hp), List.map_cons]

/-- Both implementations compute RFC 2104 for every message that is fed under one key, however it is
cut into pieces and whatever the context held before. -/
theorem hmacMessages_eq_hmac (ctx : HmacContext) {key : List UInt8} (hkey : key.length < 2 ^ 32)
    {msgs : List (List (List UInt8))}
    (hlen : ∀ pieces ∈ msgs, ∀ piece ∈ pieces, piece.length < 2 ^ 32) :
    hmacMessages (sha1HmacStarts ctx key) msgs =
        msgs.map (fun pieces => Rfc2104.hmac key pieces.flatten) ∧
      hmacMessages (mbedtlsMdHmacStarts ctx key) msgs =
        msgs.map fun pieces => Rfc2104.hmac key pieces.flatten :=
  ⟨(holds_sha1HmacStarts ctx hkey).messages hlen, (holds_mbedtlsMdHmacStarts ctx hkey).messages hlen⟩

/-- A key longer than a block, and two messages. -/
theorem hmacMessages_eq_hmac_two :
    let ctx : HmacContext := ⟨⟨7, 7, sha1Iv, zeros 64⟩, zeros 64, zeros 64⟩
    let key := List.replicate 65 (1 : UInt8)
    let msgs : List (List (List UInt8)) := [[[1, 2], [3]], [[], [4]]]
    hmacMessages (sha1HmacStarts ctx key) msgs =
        msgs.map (fun pieces => Rfc2104.hmac key pieces.flatten) ∧
      hmacMessages (mbedtlsMdHmacStarts ctx key) msgs =
        msgs.map fun pieces => Rfc2104.hmac key pieces.flatten :=
  hmacMessages_eq_hmac _ (by decide) (by decide)

/-- `sha1_hmac`. -/
theorem sha1Hmac_eq_hmac (ctx : HmacContext) {key input : List UInt8} (hkey : key.length < 2 ^ 32)
    (hlen : input.length < 2 ^ 32) : sha1Hmac ctx key input = Rfc2104.hmac key input :=
  ((holds_sha1HmacStarts ctx hkey).update hlen).finish

end DsiWifi
