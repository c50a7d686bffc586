import Ebbnc.Lib.Buffer
import Mathlib.Logic.Function.Iterate
import Mathlib.Tactic.IntervalCases

/-!
# The XTEA block cipher and its two modes

The functions of `xtea.c` over bounds-checked buffers.

* `encryptBlock`, `decryptBlock` — the 32-round cipher on one block under four key words, all
  arithmetic modulo `2 ^ 32`, words stored least significant byte first;
  **`decryptBlock_encryptBlock`** and **`encryptBlock_decryptBlock`** say each undoes the other. The
  argument is per round: `decryptRound` takes back `encryptRound` on the two words *and the running
  sum*, so thirty-two of them take back thirty-two (`Function.LeftInverse.iterate`).
* `encryptWords`, `decryptWords` — the rounds on two words, however these are held in memory.
* `xteaEncrypt`, `xteaDecrypt` — the same on memory, reading sixteen key bytes through a pointer.
* `xteaEncryptECB`, `xteaEncryptCBC`, `xteaDecryptECB`, `xteaDecryptCBC` — the modes, each with
  its loop over the full blocks as a definition of its own.

Lengths and capacities are those of objects in memory and stay far below `2 ^ 63`, so `size_t`
and `ssize_t` are `ℕ` and `ℤ`.
-/

namespace Ebbnc

open Lib

/-- `XTEA_BLOCK_SIZE`. Source: `xtea.h` -/
abbrev xteaBlockSize : ℕ := 8

theorem xteaBlockSize_pos : 0 < xteaBlockSize := by decide

/-- `XTEA_KEY_SIZE`. Source: `xtea.h` -/
abbrev xteaKeySize : ℕ := 16

/-- `XTEA_DELTA`. Source: `xtea.c` -/
def xteaDelta : UInt32 := 0x9E3779B9

/-- `XTEA_NUM_ROUNDS`. Source: `xtea.c` -/
def xteaNumRounds : ℕ := 32

/-- The bytes of one cipher block. -/
abbrev Block := Vector UInt8 xteaBlockSize

/-- The bytes of a key. -/
abbrev Key := Vector UInt8 xteaKeySize

/-! ## Words in memory -/

/-- The `uint32_t` stored in four bytes, least significant first. -/
def loadWord (b0 b1 b2 b3 : UInt8) : UInt32 :=
  UInt32.ofNat (b0.toNat + 2 ^ 8 * b1.toNat + 2 ^ 16 * b2.toNat + 2 ^ 24 * b3.toNat)

/-- Byte `i` of a stored `uint32_t`. -/
def wordByte (w : UInt32) (i : ℕ) : UInt8 := UInt8.ofNat (w.toNat / 2 ^ (8 * i))

/-- The value of a loaded word: its bytes never overflow it. -/
theorem toNat_loadWord (b0 b1 b2 b3 : UInt8) :
    (loadWord b0 b1 b2 b3).toNat =
      b0.toNat + 2 ^ 8 * b1.toNat + 2 ^ 16 * b2.toNat + 2 ^ 24 * b3.toNat := by
  have h0 := b0.toNat_lt
  have h1 := b1.toNat_lt
  have h2 := b2.toNat_lt
  have h3 := b3.toNat_lt
  simp only [loadWord, UInt32.toNat_ofNat']
  omega

/-- Loading a stored word gives it back. -/
theorem loadWord_wordByte (w : UInt32) :
    loadWord (wordByte w 0) (wordByte w 1) (wordByte w 2) (wordByte w 3) = w := by
  apply UInt32.toNat_inj.mp
  have hw := w.toNat_lt
  simp only [loadWord, wordByte, UInt32.toNat_ofNat', UInt8.toNat_ofNat']
  omega

/-- Storing a loaded word gives its bytes back. -/
theorem wordByte_loadWord (b0 b1 b2 b3 : UInt8) :
    wordByte (loadWord b0 b1 b2 b3) 0 = b0 ∧ wordByte (loadWord b0 b1 b2 b3) 1 = b1 ∧
      wordByte (loadWord b0 b1 b2 b3) 2 = b2 ∧ wordByte (loadWord b0 b1 b2 b3) 3 = b3 := by
  have h0 := b0.toNat_lt
  have h1 := b1.toNat_lt
  have h2 := b2.toNat_lt
  have h3 := b3.toNat_lt
  refine ⟨?_, ?_, ?_, ?_⟩ <;> apply UInt8.toNat_inj.mp <;>
    simp only [wordByte, toNat_loadWord, UInt8.toNat_ofNat'] <;> omega

/-- The two words of a block, as `(const uint32_t*)src` reads them. -/
def blockWords (b : Block) : UInt32 × UInt32 :=
  (loadWord b[0] b[1] b[2] b[3], loadWord b[4] b[5] b[6] b[7])

/-- The block two words are stored as. -/
def ofWords (d : UInt32 × UInt32) : Block :=
  #v[wordByte d.1 0, wordByte d.1 1, wordByte d.1 2, wordByte d.1 3,
    wordByte d.2 0, wordByte d.2 1, wordByte d.2 2, wordByte d.2 3]

theorem blockWords_ofWords (d : UInt32 × UInt32) : blockWords (ofWords d) = d :=
  Prod.ext (loadWord_wordByte d.1) (loadWord_wordByte d.2)

theorem ofWords_blockWords (b : Block) : ofWords (blockWords b) = b := by
  obtain ⟨h0, h1, h2, h3⟩ := wordByte_loadWord b[0] b[1] b[2] b[3]
  obtain ⟨h4, h5, h6, h7⟩ := wordByte_loadWord b[4] b[5] b[6] b[7]
  simp only [ofWords, blockWords, h0, h1, h2, h3, h4, h5, h6, h7]
  ext i hi
  interval_cases i <;> rfl

/-- The four key words, as `(uint32_t*)ckey` reads them. -/
def keyWords (key : Key) : Vector UInt32 4 :=
  #v[loadWord key[0] key[1] key[2] key[3], loadWord key[4] key[5] key[6] key[7],
    loadWord key[8] key[9] key[10] key[11], loadWord key[12] key[13] key[14] key[15]]

/-- `key[i & 3]`. -/
def keyWord (key : Vector UInt32 4) (i : UInt32) : UInt32 :=
  key.get ⟨(i &&& 3).toNat, by
    rw [UInt32.toNat_and]
    exact Nat.lt_of_le_of_lt Nat.and_le_right (by decide)⟩

/-! ## The cipher on one block -/

/-- The variables of the round loop. -/
structure RoundState where
  /-- The first word. -/
  s0 : UInt32
  /-- The second word. -/
  s1 : UInt32
  /-- The running sum of `XTEA_DELTA`. -/
  sum : UInt32

/-- `((v << 4) ^ (v >> 5)) + v`. -/
def mixWord (v : UInt32) : UInt32 := ((v <<< 4) ^^^ (v >>> 5)) + v

/-- The body of the loop of `XTeaEncrypt`.
Source: `xtea.c` `XTeaEncrypt` -/
def encryptRound (key : Vector UInt32 4) (st : RoundState) : RoundState :=
  let s0 := st.s0 + (mixWord st.s1 ^^^ (st.sum + keyWord key st.sum))
  let sum := st.sum + xteaDelta
  let s1 := st.s1 + (mixWord s0 ^^^ (sum + keyWord key (sum >>> 11)))
  ⟨s0, s1, sum⟩

/-- The body of the loop of `XTeaDecrypt`.
Source: `xtea.c` `XTeaDecrypt` -/
def decryptRound (key : Vector UInt32 4) (st : RoundState) : RoundState :=
  let s1 := st.s1 - (mixWord st.s0 ^^^ (st.sum + keyWord key (st.sum >>> 11)))
  let sum := st.sum - xteaDelta
  let s0 := st.s0 - (mixWord s1 ^^^ (sum + keyWord key sum))
  ⟨s0, s1, sum⟩

/-- The 32 rounds of `XTeaEncrypt` on the two words of a block.
Source: `xtea.c` `XTeaEncrypt` -/
def encryptWords (key : Vector UInt32 4) (d : UInt32 × UInt32) : UInt32 × UInt32 :=
  let st := (encryptRound key)^[xteaNumRounds] ⟨d.1, d.2, 0⟩
  (st.s0, st.s1)

/-- The 32 rounds of `XTeaDecrypt` on the two words of a block, the sum starting at
`XTEA_DELTA * XTEA_NUM_ROUNDS`.
Source: `xtea.c` `XTeaDecrypt` -/
def decryptWords (key : Vector UInt32 4) (d : UInt32 × UInt32) : UInt32 × UInt32 :=
  let st := (decryptRound key)^[xteaNumRounds]
    ⟨d.1, d.2, xteaDelta * UInt32.ofNat xteaNumRounds⟩
  (st.s0, st.s1)

/-- `XTeaEncrypt` on one block.
Source: `xtea.c` `XTeaEncrypt` -/
def encryptBlock (key : Vector UInt32 4) (src : Block) : Block :=
  ofWords (encryptWords key (blockWords src))

/-- `XTeaDecrypt` on one block.
Source: `xtea.c` `XTeaDecrypt` -/
def decryptBlock (key : Vector UInt32 4) (src : Block) : Block :=
  ofWords (decryptWords key (blockWords src))

/-- A decrypting round takes back an encrypting round, sum included. -/
theorem decryptRound_encryptRound (key : Vector UInt32 4) :
    Function.LeftInverse (decryptRound key) (encryptRound key) := by
  rintro ⟨s0, s1, sum⟩
  simp only [encryptRound, decryptRound, UInt32.add_sub_cancel]

/-- An encrypting round takes back a decrypting round, sum included. -/
theorem encryptRound_decryptRound (key : Vector UInt32 4) :
    Function.LeftInverse (encryptRound key) (decryptRound key) := by
  rintro ⟨s0, s1, sum⟩
  simp only [encryptRound, decryptRound, UInt32.sub_add_cancel]

/-- After `n` encrypting rounds the sum has grown by `n` times `XTEA_DELTA`. -/
theorem sum_encryptRound_iterate (key : Vector UInt32 4) (n : ℕ) (st : RoundState) :
    ((encryptRound key)^[n] st).sum = st.sum + xteaDelta * UInt32.ofNat n := by
  induction n with
  | zero => simp
  | succ n ih =>
      rw [Function.iterate_succ_apply', encryptRound, ih, UInt32.ofNat_add, UInt32.mul_add,
        ← UInt32.add_assoc]
      simp

/-- After `n` decrypting rounds the sum has shrunk by `n` times `XTEA_DELTA`. -/
theorem sum_decryptRound_iterate (key : Vector UInt32 4) (n : ℕ) (st : RoundState) :
    ((decryptRound key)^[n] st).sum + xteaDelta * UInt32.ofNat n = st.sum := by
  have h := sum_encryptRound_iterate key n ((decryptRound key)^[n] st)
  rw [(encryptRound_decryptRound key).iterate n st] at h
  exact h.symm

/-- **The decrypting rounds take back the encrypting ones**, which end with the sum the decrypting
loop starts from. -/
theorem decryptWords_encryptWords (key : Vector UInt32 4) :
    Function.LeftInverse (decryptWords key) (encryptWords key) := by
  intro d
  have hsum := sum_encryptRound_iterate key xteaNumRounds ⟨d.1, d.2, 0⟩
  rw [UInt32.zero_add] at hsum
  have hinv := (decryptRound_encryptRound key).iterate xteaNumRounds ⟨d.1, d.2, 0⟩
  simp only [encryptWords, decryptWords]
  rw [← hsum, hinv]

/-- **The encrypting rounds take back the decrypting ones**, which end with the sum zero. -/
theorem encryptWords_decryptWords (key : Vector UInt32 4) :
    Function.LeftInverse (encryptWords key) (decryptWords key) := by
  intro d
  have hsum := sum_decryptRound_iterate key xteaNumRounds
    ⟨d.1, d.2, xteaDelta * UInt32.ofNat xteaNumRounds⟩
  have hzero := (UInt32.add_left_inj _).mp (hsum.trans (UInt32.zero_add _).symm)
  have hinv := (encryptRound_decryptRound key).iterate xteaNumRounds
    ⟨d.1, d.2, xteaDelta * UInt32.ofNat xteaNumRounds⟩
  simp only [encryptWords, decryptWords]
  rw [← hzero, hinv]

/-- **Decrypting a block takes back encrypting it.** -/
theorem decryptBlock_encryptBlock (key : Vector UInt32 4) (b : Block) :
    decryptBlock key (encryptBlock key b) = b := by
  rw [decryptBlock, encryptBlock, blockWords_ofWords, decryptWords_encryptWords key,
    ofWords_blockWords]

/-- **Encrypting a block takes back decrypting it.** -/
theorem encryptBlock_decryptBlock (key : Vector UInt32 4) (b : Block) :
    encryptBlock key (decryptBlock key b) = b := by
  rw [encryptBlock, decryptBlock, blockWords_ofWords, encryptWords_decryptWords key,
    ofWords_blockWords]

/-! ## The cipher on memory -/

/-- `XTeaEncrypt` writing to `dst` under the key `ckey` points to.
Source: `xtea.c` `XTeaEncrypt` -/
def xteaEncrypt (src : Block) (dst ckey : Cursor UInt8) : Mem (Cursor UInt8) := do
  let key ← ckey.read xteaKeySize
  dst.write (encryptBlock (keyWords key) src)

/-- `XTeaDecrypt` writing to `dst` under the key `ckey` points to.
Source: `xtea.c` `XTeaDecrypt` -/
def xteaDecrypt (src : Block) (dst ckey : Cursor UInt8) : Mem (Cursor UInt8) := do
  let key ← ckey.read xteaKeySize
  dst.write (decryptBlock (keyWords key) src)

/-- The bytewise exclusive or of two blocks. -/
def xorBlock (a b : Block) : Block := Vector.zipWith (· ^^^ ·) a b

/-- Mixing in a block twice leaves the other as it was. -/
theorem xorBlock_xorBlock (a b : Block) : xorBlock (xorBlock a b) b = a := by
  ext i hi
  simp only [xorBlock, Vector.getElem_zipWith, UInt8.xor_assoc, UInt8.xor_self, UInt8.xor_zero]

/-- The padding byte `'0' + padding`. -/
def padByte (padding : ℕ) : UInt8 := UInt8.ofNat (48 + padding)

/-- The block left after its first bytes are overwritten by the last `n` bytes of the source and
the rest by the padding byte.
Source: `xtea.c`, the `memcpy` and `memset` before the last `XTeaEncrypt` of both modes -/
def fillLast (last : Block) (src : Cursor UInt8) (n padding : ℕ) : Mem Block := do
  let head ← src.read n
  let p ← (Cursor.start last.toList).write head
  let p ← p.advance n
  let p ← p.write (Vector.replicate padding (padByte padding))
  (Cursor.start p.buffer).read xteaBlockSize

/-- The result the last decrypted byte leads to: `-1` unless it is a padding byte.
Source: `xtea.c`, the end of `XTeaDecryptECB` and of `XTeaDecryptCBC` -/
def withoutPadding (last : UInt8) (dstLen : ℤ) : ℤ :=
  let padding : ℤ := last.toNat - 48
  if padding < 1 ∨ padding > xteaBlockSize then -1 else dstLen - padding

/-- The padding check, reading the last byte as `*(dst - 1)`.
Source: `xtea.c`, the end of `XTeaDecryptECB` and of `XTeaDecryptCBC` -/
def checkPadding (dst : Cursor UInt8) (dstLen : ℤ) : Mem ℤ := do
  let last ← dst.back
  pure (withoutPadding last dstLen)

/-! ## ECB -/

/-- The loop over the full blocks of `XTeaEncryptECB`: what is left of the source, and `dst`.
Source: `xtea.c` `XTeaEncryptECB` -/
def encryptECBLoop (key : Cursor UInt8) (remaining : ℕ) (src dst : Cursor UInt8) :
    Mem (ℕ × Cursor UInt8 × Cursor UInt8) :=
  if xteaBlockSize ≤ remaining then do
    let block ← src.read xteaBlockSize
    let dst ← xteaEncrypt block dst key
    let src ← src.advance xteaBlockSize
    let dst ← dst.advance xteaBlockSize
    encryptECBLoop key (remaining - xteaBlockSize) src dst
  else pure (remaining, src, dst)
termination_by remaining
decreasing_by exact Nat.sub_lt (by unfold xteaBlockSize at *; omega) (by decide)

/-- The returned length, or `-1`, and the object `dst` points into afterwards. The array `last`
is not initialised; every byte of it is overwritten before it is read.
Source: `xtea.c` `XTeaEncryptECB` -/
def xteaEncryptECB (src : Cursor UInt8) (srcLen : ℕ) (dst : Cursor UInt8) (dstSize : ℕ)
    (key : Cursor UInt8) : Mem (ℤ × Bytes) := do
  if dstSize < srcLen then pure (-1, dst.buffer)
  else
    let (remaining, src, dst) ← encryptECBLoop key srcLen src dst
    let last : Block := Vector.replicate xteaBlockSize 0
    if 0 < remaining then
      let padding := xteaBlockSize - remaining
      let last ← fillLast last src remaining padding
      let dst ← xteaEncrypt last dst key
      pure ((srcLen + padding : ℕ), dst.buffer)
    else if srcLen + xteaBlockSize ≤ dstSize then
      let last ← fillLast last src remaining xteaBlockSize
      let dst ← xteaEncrypt last dst key
      pure ((srcLen + xteaBlockSize : ℕ), dst.buffer)
    else pure (-1, dst.buffer)

/-- The loop of `XTeaDecryptECB`: `dst` after the last block.
Source: `xtea.c` `XTeaDecryptECB` -/
def decryptECBLoop (key : Cursor UInt8) (remaining : ℕ) (src dst : Cursor UInt8) :
    Mem (Cursor UInt8) :=
  if 0 < remaining then do
    let block ← src.read xteaBlockSize
    let dst ← xteaDecrypt block dst key
    let src ← src.advance xteaBlockSize
    let dst ← dst.advance xteaBlockSize
    decryptECBLoop key (remaining - xteaBlockSize) src dst
  else pure dst
termination_by remaining

/-- The returned length, or `-1`, and the object `dst` points into afterwards.
Source: `xtea.c` `XTeaDecryptECB` -/
def xteaDecryptECB (src : Cursor UInt8) (srcLen : ℕ) (dst : Cursor UInt8) (dstSize : ℕ)
    (key : Cursor UInt8) : Mem (ℤ × Bytes) := do
  if dstSize < srcLen ∨ srcLen % xteaBlockSize ≠ 0 then pure (-1, dst.buffer)
  else
    let dst ← decryptECBLoop key srcLen src dst
    let ret ← checkPadding dst srcLen
    pure (ret, dst.buffer)

/-! ## CBC -/

/-- The loop over the full blocks of `XTeaEncryptCBC`: what is left of the source, `dst`, and the
local arrays `block` and `iv`.
Source: `xtea.c` `XTeaEncryptCBC` -/
def encryptCBCLoop (key : Cursor UInt8) (remaining : ℕ) (src dst : Cursor UInt8)
    (block iv : Block) : Mem (ℕ × Cursor UInt8 × Cursor UInt8 × Block × Block) :=
  if xteaBlockSize ≤ remaining then do
    let block ← src.read xteaBlockSize
    let block := xorBlock block iv
    let dst ← xteaEncrypt block dst key
    let iv ← dst.read xteaBlockSize
    let src ← src.advance xteaBlockSize
    let dst ← dst.advance xteaBlockSize
    encryptCBCLoop key (remaining - xteaBlockSize) src dst block iv
  else pure (remaining, src, dst, block, iv)
termination_by remaining
decreasing_by exact Nat.sub_lt (by unfold xteaBlockSize at *; omega) (by decide)

/-- The returned length, or `-1`, and the object `dst` points into afterwards. The array `block`
is not initialised when there is no full block; every byte of it is overwritten before it is read.
Source: `xtea.c` `XTeaEncryptCBC` -/
def xteaEncryptCBC (src : Cursor UInt8) (srcLen : ℕ) (dst : Cursor UInt8) (dstSize : ℕ)
    (ivec key : Cursor UInt8) : Mem (ℤ × Bytes) := do
  if dstSize < srcLen then pure (-1, dst.buffer)
  else
    let block : Block := Vector.replicate xteaBlockSize 0
    let iv ← ivec.read xteaBlockSize
    let (remaining, src, dst, block, iv) ← encryptCBCLoop key srcLen src dst block iv
    if 0 < remaining then
      let padding := xteaBlockSize - remaining
      let block ← fillLast block src remaining padding
      let dst ← xteaEncrypt (xorBlock block iv) dst key
      pure ((srcLen + padding : ℕ), dst.buffer)
    else if srcLen + xteaBlockSize ≤ dstSize then
      let block ← fillLast block src remaining xteaBlockSize
      let dst ← xteaEncrypt (xorBlock block iv) dst key
      pure ((srcLen + xteaBlockSize : ℕ), dst.buffer)
    else pure (-1, dst.buffer)

/-- The loop of `XTeaDecryptCBC`: `dst` after the last block. The ciphertext block is saved in
`temp` before `dst` is written, and becomes the next `iv`.
Source: `xtea.c` `XTeaDecryptCBC` -/
def decryptCBCLoop (key : Cursor UInt8) (remaining : ℕ) (src dst : Cursor UInt8) (iv : Block) :
    Mem (Cursor UInt8) :=
  if 0 < remaining then do
    let temp ← src.read xteaBlockSize
    let dst ← xteaDecrypt temp dst key
    let plain ← dst.read xteaBlockSize
    let dst ← dst.write (xorBlock plain iv)
    let src ← src.advance xteaBlockSize
    let dst ← dst.advance xteaBlockSize
    decryptCBCLoop key (remaining - xteaBlockSize) src dst temp
  else pure dst
termination_by remaining

/-- The returned length, or `-1`, and the object `dst` points into afterwards.
Source: `xtea.c` `XTeaDecryptCBC` -/
def xteaDecryptCBC (src : Cursor UInt8) (srcLen : ℕ) (dst : Cursor UInt8) (dstSize : ℕ)
    (ivec key : Cursor UInt8) : Mem (ℤ × Bytes) := do
  if dstSize < srcLen ∨ srcLen % xteaBlockSize ≠ 0 then pure (-1, dst.buffer)
  else
    let iv ← ivec.read xteaBlockSize
    let dst ← decryptCBCLoop key srcLen src dst iv
    let ret ← checkPadding dst srcLen
    pure (ret, dst.buffer)

/-- Eight bytes from `/dev/urandom` into `ivec`: `urandom` is what `open` and `read` deliver,
`none` when `open` fails.
Source: `xtea.c` `XTeaGenerateIVec` -/
def xteaGenerateIVec (urandom : Option Bytes) (ivec : Cursor UInt8) : Mem (ℤ × Cursor UInt8) :=
  match urandom with
  | none => pure (-1, ivec)
  | some delivered => do
      let bytes := delivered.take xteaBlockSize
      let ivec ← ivec.write (⟨bytes.toArray, rfl⟩ : Vector UInt8 bytes.toArray.size)
      pure (if bytes.length = xteaBlockSize then 0 else -1, ivec)

end Ebbnc
