import Ebbnc.Xtea
import Mathlib.Data.Fin.Rev
import Mathlib.SetTheory.Cardinal.Finite
import Mathlib.Tactic.FinCases

/-!
# The block cipher as a permutation

The rounds compute on words; how these are held in memory is up to the machine. Whatever bytes a
word has, as long as they are always the same, each key permutes the blocks.

* `wordCipher` — the rounds as a permutation of pairs of words.
* `ByteOrder` — how a word is held in four bytes; `byteOrder`, by the places of the bytes, and
  `littleEndian`, the order of `Ebbnc.Xtea`.
* `ByteOrder.cipher` — the permutation of the blocks for a byte order and a key;
  `ByteOrder.encryptBlock`, `ByteOrder.decryptBlock` — the functions of the source in that order.
* **`ByteOrder.xtea_permutes`** — each undoes the other, in memory, too, and there are `2 ^ 64`
  blocks.
-/

namespace Ebbnc

open Lib

/-- The rounds, as a permutation of pairs of words. -/
def wordCipher (key : Vector UInt32 4) : Equiv.Perm (UInt32 × UInt32) where
  toFun := encryptWords key
  invFun := decryptWords key
  left_inv := decryptWords_encryptWords key
  right_inv := encryptWords_decryptWords key

/-! ## Byte orders -/

/-- A way to hold a `uint32_t` in four bytes. -/
abbrev ByteOrder := Vector UInt8 4 ≃ UInt32

/-- Reading back an element of a vector. -/
theorem get_ofFn {n : ℕ} (f : Fin n → UInt8) (i : Fin n) : (Vector.ofFn f).get i = f i :=
  Vector.getElem_ofFn i.isLt

/-- The byte that a loaded word has at a place. -/
theorem wordByte_load (f : Fin 4 → UInt8) (i : Fin 4) :
    wordByte (loadWord (f 0) (f 1) (f 2) (f 3)) i = f i := by
  obtain ⟨h0, h1, h2, h3⟩ := wordByte_loadWord (f 0) (f 1) (f 2) (f 3)
  fin_cases i
  exacts [h0, h1, h2, h3]

/-- The byte order that has byte `i` of a word at place `place i`, the least significant one being
byte 0. -/
def byteOrder (place : Equiv.Perm (Fin 4)) : ByteOrder where
  toFun w := loadWord (w.get (place 0)) (w.get (place 1)) (w.get (place 2)) (w.get (place 3))
  invFun v := Vector.ofFn fun j => wordByte v (place.symm j)
  left_inv w := by
    refine Vector.ext fun j hj => ?_
    rw [Vector.getElem_ofFn, wordByte_load fun i => w.get (place i), Equiv.apply_symm_apply]
    rfl
  right_inv v := by
    simp only [get_ofFn, Equiv.symm_apply_apply]
    exact loadWord_wordByte v

/-- Least significant byte first. -/
def littleEndian : ByteOrder := byteOrder (Equiv.refl _)

/-- Most significant byte first. -/
def bigEndian : ByteOrder := byteOrder Fin.revPerm

namespace ByteOrder

variable (order : ByteOrder)

/-- The four bytes of a word in memory. -/
def wordBytes {n : ℕ} (memory : Vector UInt8 (4 * n)) (i : Fin n) : Vector UInt8 4 :=
  Vector.ofFn fun j => memory.get ⟨4 * i + j, by omega⟩

/-- The two words of a block, as `(const uint32_t*)src` reads them. -/
def blockWords (b : Block) : UInt32 × UInt32 :=
  (order (@wordBytes 2 b 0), order (@wordBytes 2 b 1))

/-- The block two words are stored as. -/
def ofWords (d : UInt32 × UInt32) : Block :=
  Vector.ofFn fun k : Fin 8 => if h : k.val < 4 then (order.symm d.1).get ⟨k, h⟩
    else (order.symm d.2).get ⟨k - 4, by omega⟩

/-- The four key words, as `(uint32_t*)ckey` reads them. -/
def keyWords (key : Key) : Vector UInt32 4 := Vector.ofFn fun i => order (@wordBytes 4 key i)

/-- The bytes of a stored block are those of its words. -/
theorem wordBytes_ofWords (d : UInt32 × UInt32) :
    @wordBytes 2 (order.ofWords d) 0 = order.symm d.1 ∧
      @wordBytes 2 (order.ofWords d) 1 = order.symm d.2 := by
  constructor
  · ext j hj
    interval_cases j <;> rfl
  · ext j hj
    interval_cases j <;> rfl

/-- Blocks are pairs of words. -/
def blockEquiv : Block ≃ UInt32 × UInt32 where
  toFun := order.blockWords
  invFun := order.ofWords
  left_inv b := by
    ext k hk
    simp only [ofWords, blockWords, Equiv.symm_apply_apply]
    interval_cases k <;> rfl
  right_inv d := by
    obtain ⟨h0, h1⟩ := order.wordBytes_ofWords d
    simp only [blockWords, h0, h1, Equiv.apply_symm_apply]

/-! ## The cipher -/

/-- The permutation of the blocks under a key. -/
def cipher (key : Key) : Equiv.Perm Block :=
  order.blockEquiv.symm.permCongr (wordCipher (order.keyWords key))

/-- `XTeaEncrypt` on one block. Source: `xtea.c` `XTeaEncrypt` -/
def encryptBlock (key : Key) (src : Block) : Block :=
  order.ofWords (encryptWords (order.keyWords key) (order.blockWords src))

/-- `XTeaDecrypt` on one block. Source: `xtea.c` `XTeaDecrypt` -/
def decryptBlock (key : Key) (src : Block) : Block :=
  order.ofWords (decryptWords (order.keyWords key) (order.blockWords src))

theorem cipher_apply (key : Key) (b : Block) : order.cipher key b = order.encryptBlock key b := rfl

theorem cipher_symm_apply (key : Key) (b : Block) :
    (order.cipher key).symm b = order.decryptBlock key b := rfl

/-- `XTeaEncrypt`, writing to `dst` under the key `ckey` points to. -/
def xteaEncrypt (src : Block) (dst ckey : Cursor UInt8) : Mem (Cursor UInt8) := do
  let key ← ckey.read xteaKeySize
  dst.write (order.encryptBlock key src)

/-- `XTeaDecrypt`, writing to `dst` under the key `ckey` points to. -/
def xteaDecrypt (src : Block) (dst ckey : Cursor UInt8) : Mem (Cursor UInt8) := do
  let key ← ckey.read xteaKeySize
  dst.write (order.decryptBlock key src)

end ByteOrder

/-! ## The order of the model -/

section littleEndian

theorem blockWords_littleEndian (b : Block) :
    ByteOrder.blockWords littleEndian b = blockWords b := rfl

theorem ofWords_littleEndian (d : UInt32 × UInt32) :
    ByteOrder.ofWords littleEndian d = ofWords d := by
  ext k hk
  interval_cases k <;> rfl

theorem keyWords_littleEndian (key : Key) :
    ByteOrder.keyWords littleEndian key = keyWords key := by
  ext i hi
  interval_cases i <;> rfl

/-- The functions of the model are those of the little-endian order. -/
theorem xteaEncrypt_littleEndian (src : Block) (dst ckey : Cursor UInt8) :
    ByteOrder.xteaEncrypt littleEndian src dst ckey = xteaEncrypt src dst ckey := by
  simp only [ByteOrder.xteaEncrypt, ByteOrder.encryptBlock, blockWords_littleEndian,
    ofWords_littleEndian, keyWords_littleEndian, xteaEncrypt, encryptBlock]

theorem xteaDecrypt_littleEndian (src : Block) (dst ckey : Cursor UInt8) :
    ByteOrder.xteaDecrypt littleEndian src dst ckey = xteaDecrypt src dst ckey := by
  simp only [ByteOrder.xteaDecrypt, ByteOrder.decryptBlock, blockWords_littleEndian,
    ofWords_littleEndian, keyWords_littleEndian, xteaDecrypt, decryptBlock]

end littleEndian

/-! ## Inversion -/

namespace ByteOrder

theorem decryptBlock_encryptBlock (order : ByteOrder) (key : Key) :
    Function.LeftInverse (order.decryptBlock key) (order.encryptBlock key) := by
  intro b
  rw [← cipher_apply, ← cipher_symm_apply, Equiv.symm_apply_apply]

theorem encryptBlock_decryptBlock (order : ByteOrder) (key : Key) :
    Function.LeftInverse (order.encryptBlock key) (order.decryptBlock key) := by
  intro b
  rw [← cipher_symm_apply, ← cipher_apply, Equiv.apply_symm_apply]

/-- There are as many blocks as numbers of 64 bits. -/
theorem card_block : Nat.card Block = 2 ^ 64 := by
  have hword : Nat.card UInt32 = 2 ^ 32 :=
    (Nat.card_congr ⟨UInt32.toFin, UInt32.ofFin, fun _ => rfl, fun _ => rfl⟩).trans
      (Nat.card_fin _)
  rw [Nat.card_congr (blockEquiv littleEndian), Nat.card_prod, hword]
  norm_num

/-- **Each key permutes the blocks**: whatever the order of the bytes in a word, what is encrypted
to memory under a key is decrypted from there under the same key, and the other way round. -/
theorem xtea_permutes (order : ByteOrder) {ckey : Cursor UInt8} {key : Key}
    (hkey : ckey.read xteaKeySize = .ok key) :
    (∀ (b : Block) (dst dst' : Cursor UInt8), xteaBlockSize ≤ dst.after.length →
      xteaBlockSize ≤ dst'.after.length →
      (do
        let dst ← order.xteaEncrypt b dst ckey
        let c ← dst.read xteaBlockSize
        let dst' ← order.xteaDecrypt c dst' ckey
        dst'.read xteaBlockSize) = .ok b ∧
      (do
        let dst ← order.xteaDecrypt b dst ckey
        let c ← dst.read xteaBlockSize
        let dst' ← order.xteaEncrypt c dst' ckey
        dst'.read xteaBlockSize) = .ok b) ∧
    Function.Bijective (order.encryptBlock key) ∧ Function.Bijective (order.decryptBlock key) ∧
    Nat.card Block = 2 ^ 64 := by
  have hencrypt : ∀ src dst, order.xteaEncrypt src dst ckey =
      dst.write (order.encryptBlock key src) := fun src dst => by
    rw [xteaEncrypt, hkey, Mem.ok_bind]
  have hdecrypt : ∀ src dst, order.xteaDecrypt src dst ckey =
      dst.write (order.decryptBlock key src) := fun src dst => by
    rw [xteaDecrypt, hkey, Mem.ok_bind]
  refine ⟨fun b dst dst' hdst hdst' => ⟨?_, ?_⟩, (order.cipher key).bijective,
    (order.cipher key).symm.bijective, card_block⟩
  · simp only [hencrypt, hdecrypt]
    exact Cursor.read_of_leftInverse (order.decryptBlock_encryptBlock key) b hdst hdst'
  · simp only [hencrypt, hdecrypt]
    exact Cursor.read_of_leftInverse (order.encryptBlock_decryptBlock key) b hdst hdst'

/-- One block and one key, most significant byte first. -/
theorem xtea_permutes_bigEndian :
    (do
      let dst ← ByteOrder.xteaEncrypt bigEndian (Vector.replicate xteaBlockSize 65)
        (Cursor.start (List.replicate 8 0))
        (Cursor.start ((Vector.replicate xteaKeySize 7).toList ++ [0]))
      let c ← dst.read xteaBlockSize
      let dst' ← ByteOrder.xteaDecrypt bigEndian c (Cursor.start (List.replicate 9 0))
        (Cursor.start ((Vector.replicate xteaKeySize 7).toList ++ [0]))
      dst'.read xteaBlockSize) = .ok (Vector.replicate xteaBlockSize 65) ∧
    Function.Bijective (ByteOrder.encryptBlock bigEndian (Vector.replicate xteaKeySize 7)) :=
  have h := xtea_permutes bigEndian (Cursor.read_start (Vector.replicate xteaKeySize 7) [0])
  ⟨(h.1 _ _ _ (by decide) (by decide)).1, h.2.1⟩

end ByteOrder

end Ebbnc
