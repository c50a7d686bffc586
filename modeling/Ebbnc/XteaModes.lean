import Ebbnc.Lib.Chaining
import Ebbnc.Xtea
import Mathlib.Tactic.Ring

/-!
# The modes as the code runs them

What the functions of both modes leave in memory, in terms of the textbook modes of
`Lib.Chaining`. The loops walk the source and destination block by block; their invariant is that
the destination already holds the mode's output on the blocks passed, and, in CBC, that `iv` is the
last ciphertext block.

* **`xteaEncryptCBC_eq`** — the padded message, chained, at the destination;
  `xteaEncryptCBC_overruns` — what is left there when only the padding does not fit.
* **`xteaDecryptCBC_eq`** — the unchained blocks at the destination, and the length the last byte
  calls for.
* `xteaDecryptCBC_misaligned` — a source that is not whole blocks is refused before any access.
* `xteaEncryptECB_pads`, `xteaEncryptECB_overruns`, `xteaDecryptECB_eq` — the same of ECB.
-/

namespace Ebbnc

open Lib

/-- The padding of both modes. -/
abbrev padded (m : Bytes) : Bytes := pad xteaBlockSize padByte m

/-- The ciphertext blocks of a message under the textbook mode. -/
def cbcBlocks (key : Key) (iv : Block) (m : Bytes) : List Block :=
  cbcEncrypt xorBlock (encryptBlock (keyWords key)) iv (blocks xteaBlockSize (padded m))

/-- The plaintext blocks of a ciphertext under the textbook mode. -/
def cbcPlain (key : Key) (iv : Block) (cs : List Block) : List Block :=
  cbcDecrypt xorBlock (decryptBlock (keyWords key)) iv cs

/-- The ciphertext blocks of a message, block by block. -/
def ecbBlocks (key : Key) (m : Bytes) : List Block :=
  (blocks xteaBlockSize (padded m)).map (encryptBlock (keyWords key))

@[simp] theorem length_cbcPlain (key : Key) (iv : Block) (cs : List Block) :
    (cbcPlain key iv cs).length = cs.length := length_cbcDecrypt _ _ iv cs

theorem length_padded (m : Bytes) :
    (padded m).length = (m.length / xteaBlockSize + 1) * xteaBlockSize :=
  length_pad xteaBlockSize_pos padByte m

/-- A padded message is made of one block more than the message has whole ones. -/
theorem length_blocks_padded (m : Bytes) :
    (blocks xteaBlockSize (padded m)).length = m.length / xteaBlockSize + 1 := by
  obtain ⟨bs, hbs⟩ := exists_join xteaBlockSize_pos ⟨m.length / xteaBlockSize + 1,
    (length_padded m).trans (Nat.mul_comm _ _)⟩
  have hlen := length_padded m
  rw [hbs, length_join, Nat.mul_comm] at hlen
  rw [hbs, blocks_join xteaBlockSize_pos]
  exact Nat.eq_of_mul_eq_mul_right xteaBlockSize_pos hlen

theorem length_cbcBlocks (key : Key) (iv : Block) (m : Bytes) :
    (cbcBlocks key iv m).length = m.length / xteaBlockSize + 1 := by
  rw [cbcBlocks, length_cbcEncrypt, length_blocks_padded]

/-- Unchaining the ciphertext of a message gives its padded blocks. -/
theorem cbcPlain_cbcBlocks (key : Key) (iv : Block) (m : Bytes) :
    join (cbcPlain key iv (cbcBlocks key iv m)) = padded m := by
  obtain ⟨bs, hbs⟩ := exists_join xteaBlockSize_pos ⟨m.length / xteaBlockSize + 1,
    (length_padded m).trans (Nat.mul_comm _ _)⟩
  rw [cbcPlain, cbcBlocks, cbcDecrypt_cbcEncrypt xorBlock_xorBlock (decryptBlock_encryptBlock _),
    hbs, blocks_join xteaBlockSize_pos]

/-! ## One block on memory -/

section memory

variable {ckey : Cursor UInt8} {key : Key} (hkey : ckey.read xteaKeySize = .ok key)

include hkey

/-- `XTeaEncrypt` where there is room for a block. -/
theorem xteaEncrypt_eq (src : Block) {dst : Cursor UInt8} (h : xteaBlockSize ≤ dst.after.length) :
    xteaEncrypt src dst ckey =
      .ok ⟨dst.before,
        (encryptBlock (keyWords key) src).toList ++ dst.after.drop xteaBlockSize⟩ := by
  rw [xteaEncrypt, hkey, Mem.ok_bind, Cursor.write_of_le _ h]

/-- `XTeaDecrypt` where there is room for a block. -/
theorem xteaDecrypt_eq (src : Block) {dst : Cursor UInt8} (h : xteaBlockSize ≤ dst.after.length) :
    xteaDecrypt src dst ckey =
      .ok ⟨dst.before,
        (decryptBlock (keyWords key) src).toList ++ dst.after.drop xteaBlockSize⟩ := by
  rw [xteaDecrypt, hkey, Mem.ok_bind, Cursor.write_of_le _ h]

/-! ## The encrypting loop -/

/-- The loop over the full blocks: the destination holds the chained blocks, and `iv` is the last
of them. -/
theorem encryptCBCLoop_join (ps : List Block) {r : ℕ} (hr : r < xteaBlockSize) (l rest : Bytes)
    (dst : Cursor UInt8) (hdst : xteaBlockSize * ps.length ≤ dst.after.length) (block iv : Block) :
    ∃ block',
      encryptCBCLoop ckey (xteaBlockSize * ps.length + r) ⟨l, join ps ++ rest⟩ dst block iv =
      .ok (r, ⟨l ++ join ps, rest⟩,
        ⟨dst.before ++ join (cbcEncrypt xorBlock (encryptBlock (keyWords key)) iv ps),
          dst.after.drop (xteaBlockSize * ps.length)⟩, block',
        (cbcEncrypt xorBlock (encryptBlock (keyWords key)) iv ps).getLastD iv) := by
  induction ps generalizing l dst block iv with
  | nil =>
      refine ⟨block, ?_⟩
      rw [encryptCBCLoop, if_neg (by simpa using hr)]
      simp [cbcEncrypt]
  | cons p ps ih =>
      rw [List.length_cons, Nat.mul_succ] at hdst
      have hroom : xteaBlockSize ≤ dst.after.length := by omega
      obtain ⟨block', hloop⟩ := ih (l ++ p.toList)
        ⟨dst.before ++ (encryptBlock (keyWords key) (xorBlock p iv)).toList,
          dst.after.drop xteaBlockSize⟩ (by simp; omega) (xorBlock p iv)
        (encryptBlock (keyWords key) (xorBlock p iv))
      refine ⟨block', ?_⟩
      rw [List.length_cons, Nat.mul_succ, encryptCBCLoop, if_pos (by omega)]
      simp only [join_cons, List.append_assoc, Cursor.read_append, Mem.ok_bind,
        xteaEncrypt_eq hkey _ hroom, Cursor.advance_append]
      rw [show xteaBlockSize * ps.length + xteaBlockSize + r - xteaBlockSize =
        xteaBlockSize * ps.length + r by omega, hloop]
      simp only [cbcEncrypt, join_cons, List.append_assoc, List.drop_drop, List.getLastD_cons,
        Nat.add_comm xteaBlockSize]

omit hkey in
/-- The last block is the rest of the message filled up with padding bytes. -/
theorem fillLast_eq (last : Block) (l tail rest : Bytes) (htail : tail.length < xteaBlockSize) :
    ∃ q : Block, q.toList = padded tail ∧
      fillLast last ⟨l, tail ++ rest⟩ tail.length (xteaBlockSize - tail.length) = .ok q := by
  have hpad : padLength xteaBlockSize tail.length = xteaBlockSize - tail.length := by
    rw [padLength, Nat.mod_eq_of_lt htail]
  have hlen : (padded tail).toArray.size = xteaBlockSize := by
    rw [List.size_toArray, padded, pad, List.length_append, List.length_replicate, hpad]
    omega
  let head : Vector UInt8 tail.length := ⟨tail.toArray, by simp⟩
  have hread : (Cursor.mk l (tail ++ rest)).read tail.length = .ok head := by
    simpa [head, Vector.toList] using Cursor.read_append l rest head
  have hhead : head.toList = tail := rfl
  refine ⟨⟨(padded tail).toArray, hlen⟩, rfl, ?_⟩
  unfold fillLast
  rw [hread, Mem.ok_bind, Cursor.write_of_le _ (by simp [Cursor.start]; omega), Mem.ok_bind,
    Cursor.advance_append, Mem.ok_bind, Cursor.write_of_le _ (by simp [Cursor.start]), Mem.ok_bind]
  have hbuf : (Cursor.start last.toList).before ++ head.toList ++
      ((Vector.replicate (xteaBlockSize - tail.length)
        (padByte (xteaBlockSize - tail.length))).toList ++
        ((Cursor.start last.toList).after.drop tail.length).drop (xteaBlockSize - tail.length)) =
      padded tail := by
    simp only [Cursor.start, List.nil_append, hhead, List.drop_drop, padded, pad, hpad]
    rw [List.drop_eq_nil_of_le (by simp; omega)]
    simp
  have hres := Cursor.read_append [] [] (⟨(padded tail).toArray, hlen⟩ : Block)
  simp only [Cursor.buffer, hbuf]
  simpa [Vector.toList, Cursor.start] using hres

/-- The last block, filled up, mixed and encrypted where there is room for it. -/
theorem encryptLast_eq (mix : Block → Block) (last : Block) (l tail rest : Bytes)
    (htail : tail.length < xteaBlockSize) (dst : Cursor UInt8)
    (hroom : xteaBlockSize ≤ dst.after.length) :
    ∃ q : Block, q.toList = padded tail ∧
      (do
        let block ← fillLast last ⟨l, tail ++ rest⟩ tail.length (xteaBlockSize - tail.length)
        xteaEncrypt (mix block) dst ckey) =
        .ok ⟨dst.before,
          (encryptBlock (keyWords key) (mix q)).toList ++ dst.after.drop xteaBlockSize⟩ := by
  obtain ⟨q, hq, hfill⟩ := fillLast_eq last l tail rest htail
  refine ⟨q, hq, ?_⟩
  rw [hfill, Mem.ok_bind]
  exact xteaEncrypt_eq hkey _ hroom

omit hkey in
/-- The padded blocks of some blocks and a rest. -/
theorem blocks_padded (ps : List Block) {tail : Bytes} {q : Block} (hq : q.toList = padded tail) :
    blocks xteaBlockSize (padded (join ps ++ tail)) = ps ++ [q] := by
  have hpad : pad xteaBlockSize padByte tail = q.toList := hq.symm
  rw [padded, pad_join_append, hpad]
  simpa using blocks_join xteaBlockSize_pos (ps ++ [q])

omit hkey in
/-- The padded length of some blocks and a rest. -/
theorem padded_div (ps : List Block) {tail : Bytes} (htail : tail.length < xteaBlockSize) :
    ((join ps ++ tail).length / xteaBlockSize + 1) * xteaBlockSize =
      xteaBlockSize * ps.length + xteaBlockSize := by
  rw [List.length_append, length_join, Nat.mul_add_div xteaBlockSize_pos, Nat.div_eq_of_lt htail,
    Nat.add_zero, Nat.succ_mul, Nat.mul_comm]

/-- `XTeaEncryptCBC` past its checks: the padded length, and the chained blocks at the destination.
The room for a whole block of padding is checked, the room for a part of one is not. -/
theorem xteaEncryptCBC_pads (l m rest : Bytes) (dst : Cursor UInt8) {dstSize : ℕ}
    {ivec : Cursor UInt8} {iv : Block} (hiv : ivec.read xteaBlockSize = .ok iv)
    (hsize : m.length ≤ dstSize)
    (hwhole : m.length % xteaBlockSize = 0 → m.length + xteaBlockSize ≤ dstSize)
    (hdst : (m.length / xteaBlockSize + 1) * xteaBlockSize ≤ dst.after.length) :
    xteaEncryptCBC ⟨l, m ++ rest⟩ m.length dst dstSize ivec ckey =
      .ok (((m.length / xteaBlockSize + 1) * xteaBlockSize : ℕ),
        dst.before ++ join (cbcBlocks key iv m) ++
          dst.after.drop ((m.length / xteaBlockSize + 1) * xteaBlockSize)) := by
  obtain ⟨ps, tail, rfl, htail⟩ := exists_join_append xteaBlockSize_pos m
  rw [padded_div ps htail] at hdst ⊢
  have hlen : (join ps ++ tail).length = xteaBlockSize * ps.length + tail.length := by simp
  obtain ⟨block', hloop⟩ := encryptCBCLoop_join hkey ps htail l (tail ++ rest) dst (by omega)
    (Vector.replicate xteaBlockSize 0) iv
  have hroom : xteaBlockSize ≤ (dst.after.drop (xteaBlockSize * ps.length)).length := by
    rw [List.length_drop]
    omega
  obtain ⟨q, hq, hlast⟩ := encryptLast_eq hkey
    (fun block => xorBlock block
      ((cbcEncrypt xorBlock (encryptBlock (keyWords key)) iv ps).getLastD iv))
    block' (l ++ join ps) tail rest htail
    ⟨dst.before ++ join (cbcEncrypt xorBlock (encryptBlock (keyWords key)) iv ps),
      dst.after.drop (xteaBlockSize * ps.length)⟩ hroom
  -- the ciphertext is that of the full blocks and then of the filled-up one
  have hblocks : cbcBlocks key iv (join ps ++ tail) =
      cbcEncrypt xorBlock (encryptBlock (keyWords key)) iv ps ++
        [encryptBlock (keyWords key) (xorBlock q
          ((cbcEncrypt xorBlock (encryptBlock (keyWords key)) iv ps).getLastD iv))] := by
    rw [cbcBlocks, blocks_padded ps hq, cbcEncrypt_concat]
  unfold xteaEncryptCBC
  rw [if_neg hsize.not_gt, hiv, Mem.ok_bind, hlen, List.append_assoc, hloop, Mem.ok_bind, hblocks]
  rw [hlen] at hwhole
  dsimp only
  by_cases hr : 0 < tail.length
  · rw [if_pos hr, ← bind_assoc, hlast, Mem.ok_bind]
    simp only [Mem.pure_eq_ok, Cursor.buffer, join_append, join_cons, join_nil, List.append_nil,
      List.append_assoc, List.drop_drop]
    rw [show xteaBlockSize * ps.length + tail.length + (xteaBlockSize - tail.length) =
      xteaBlockSize * ps.length + xteaBlockSize by omega]
  · have hnil : tail = [] := List.length_eq_zero_iff.mp (by omega)
    subst hnil
    rw [if_neg hr, if_pos (by simpa using hwhole)]
    simp only [List.length_nil, Nat.sub_zero, List.nil_append] at hlast ⊢
    rw [← bind_assoc, hlast, Mem.ok_bind]
    simp [Cursor.buffer]

/-- **`XTeaEncryptCBC` is the textbook mode**: with room for the padded message it returns the
padded length and leaves the chained blocks at the destination, and nothing else changed. -/
theorem xteaEncryptCBC_eq (l m rest : Bytes) (dst : Cursor UInt8) {dstSize : ℕ}
    {ivec : Cursor UInt8} {iv : Block} (hiv : ivec.read xteaBlockSize = .ok iv)
    (hsize : (m.length / xteaBlockSize + 1) * xteaBlockSize ≤ dstSize)
    (hdst : (m.length / xteaBlockSize + 1) * xteaBlockSize ≤ dst.after.length) :
    xteaEncryptCBC ⟨l, m ++ rest⟩ m.length dst dstSize ivec ckey =
      .ok (((m.length / xteaBlockSize + 1) * xteaBlockSize : ℕ),
        dst.before ++ join (cbcBlocks key iv m) ++
          dst.after.drop ((m.length / xteaBlockSize + 1) * xteaBlockSize)) := by
  have hpad := add_padLength xteaBlockSize_pos m.length
  apply xteaEncryptCBC_pads hkey l m rest dst hiv (by omega) ?_ hdst
  intro hwhole
  have h8 : padLength xteaBlockSize m.length = xteaBlockSize := by
    rw [padLength, hwhole, Nat.sub_zero]
  omega

/-- Whole blocks without room for another one: they are chained, and then the call fails. -/
theorem xteaEncryptCBC_overruns (ps : List Block) (l rest : Bytes) (dst : Cursor UInt8)
    {dstSize : ℕ} {ivec : Cursor UInt8} {iv : Block} (hiv : ivec.read xteaBlockSize = .ok iv)
    (hsize : xteaBlockSize * ps.length ≤ dstSize)
    (hfull : dstSize < xteaBlockSize * ps.length + xteaBlockSize)
    (hdst : xteaBlockSize * ps.length ≤ dst.after.length) :
    xteaEncryptCBC ⟨l, join ps ++ rest⟩ (xteaBlockSize * ps.length) dst dstSize ivec ckey =
      .ok (-1, dst.before ++ join (cbcEncrypt xorBlock (encryptBlock (keyWords key)) iv ps) ++
        dst.after.drop (xteaBlockSize * ps.length)) := by
  obtain ⟨block', hloop⟩ := encryptCBCLoop_join hkey ps xteaBlockSize_pos l rest
    dst hdst (Vector.replicate xteaBlockSize 0) iv
  rw [Nat.add_zero] at hloop
  unfold xteaEncryptCBC
  rw [if_neg hsize.not_gt, hiv, Mem.ok_bind, hloop, Mem.ok_bind]
  dsimp only
  rw [if_neg (lt_irrefl 0), if_neg hfull.not_ge]
  rfl

/-! ## The decrypting loop -/

/-- The loop: the destination holds the unchained blocks. -/
theorem decryptCBCLoop_join (cs : List Block) (l rest : Bytes) (dst : Cursor UInt8)
    (hdst : xteaBlockSize * cs.length ≤ dst.after.length) (iv : Block) :
    decryptCBCLoop ckey (xteaBlockSize * cs.length) ⟨l, join cs ++ rest⟩ dst iv =
      .ok ⟨dst.before ++ join (cbcPlain key iv cs),
        dst.after.drop (xteaBlockSize * cs.length)⟩ := by
  induction cs generalizing l dst iv with
  | nil =>
      rw [decryptCBCLoop, if_neg (by simp)]
      simp [cbcPlain, cbcDecrypt]
  | cons c cs ih =>
      rw [List.length_cons, Nat.mul_succ] at hdst
      have hroom : xteaBlockSize ≤ dst.after.length := by omega
      rw [decryptCBCLoop, if_pos (by simp)]
      simp only [join_cons, List.append_assoc, Cursor.read_append, Mem.ok_bind,
        xteaDecrypt_eq hkey _ hroom, Cursor.advance_append]
      rw [Cursor.write_of_le _ (by simp)]
      simp only [Mem.ok_bind, List.drop_left' (Vector.length_toList), Cursor.advance_append]
      rw [List.length_cons, Nat.mul_succ, Nat.add_sub_cancel, ih _ _ (by simp; omega)]
      simp only [cbcPlain, cbcDecrypt, join_cons, List.append_assoc, List.drop_drop,
        Nat.add_comm xteaBlockSize]

/-- `XTeaDecryptCBC` leaves the unchained blocks at the destination, and the last of their bytes
decides the result. -/
theorem xteaDecryptCBC_of_join {cs : List Block} {plain : Bytes} {last : UInt8} {iv : Block}
    (hplain : join (cbcPlain key iv cs) = plain ++ [last]) (l rest : Bytes) (dst : Cursor UInt8)
    {dstSize : ℕ} {ivec : Cursor UInt8} (hiv : ivec.read xteaBlockSize = .ok iv)
    (hsize : xteaBlockSize * cs.length ≤ dstSize)
    (hdst : xteaBlockSize * cs.length ≤ dst.after.length) :
    xteaDecryptCBC ⟨l, join cs ++ rest⟩ (xteaBlockSize * cs.length) dst dstSize ivec ckey =
      .ok (withoutPadding last (xteaBlockSize * cs.length : ℕ),
        dst.before ++ (plain ++ [last]) ++ dst.after.drop (xteaBlockSize * cs.length)) := by
  unfold xteaDecryptCBC
  rw [if_neg (by simp; omega), hiv, Mem.ok_bind, decryptCBCLoop_join hkey cs l rest dst hdst iv,
    Mem.ok_bind, checkPadding, hplain, ← List.append_assoc, Cursor.back_append]
  simp [Cursor.buffer]

omit hkey in
/-- Blocks, at least one, end with a byte. -/
theorem exists_join_cbcPlain (key : Key) (iv : Block) {cs : List Block} (hcs : cs ≠ []) :
    ∃ plain last, join (cbcPlain key iv cs) = plain ++ [last] := by
  have hne : join (cbcPlain key iv cs) ≠ [] := by
    rw [← List.length_pos_iff, length_join, length_cbcPlain]
    exact Nat.mul_pos xteaBlockSize_pos (List.length_pos_iff.mpr hcs)
  obtain ⟨plain, last, hlast⟩ := (List.eq_nil_or_concat _).resolve_left hne
  exact ⟨plain, last, by rw [hlast, List.concat_eq_append]⟩

/-- **`XTeaDecryptCBC` is the textbook mode**: on a source of whole blocks, at least one, it leaves
the unchained blocks at the destination, and the last of their bytes decides the result. -/
theorem xteaDecryptCBC_eq {cs : List Block} (hcs : cs ≠ []) (l rest : Bytes) (dst : Cursor UInt8)
    {dstSize : ℕ} {ivec : Cursor UInt8} {iv : Block} (hiv : ivec.read xteaBlockSize = .ok iv)
    (hsize : xteaBlockSize * cs.length ≤ dstSize)
    (hdst : xteaBlockSize * cs.length ≤ dst.after.length) :
    ∃ plain last, join (cbcPlain key iv cs) = plain ++ [last] ∧
      xteaDecryptCBC ⟨l, join cs ++ rest⟩ (xteaBlockSize * cs.length) dst dstSize ivec ckey =
        .ok (withoutPadding last (xteaBlockSize * cs.length : ℕ),
          dst.before ++ (plain ++ [last]) ++ dst.after.drop (xteaBlockSize * cs.length)) := by
  obtain ⟨plain, last, hlast⟩ := exists_join_cbcPlain key iv hcs
  exact ⟨plain, last, hlast, xteaDecryptCBC_of_join hkey hlast l rest dst hiv hsize hdst⟩

/-! ## ECB -/

/-- The loop over the full blocks: the destination holds the encrypted blocks. -/
theorem encryptECBLoop_join (ps : List Block) {r : ℕ} (hr : r < xteaBlockSize) (l rest : Bytes)
    (dst : Cursor UInt8) (hdst : xteaBlockSize * ps.length ≤ dst.after.length) :
    encryptECBLoop ckey (xteaBlockSize * ps.length + r) ⟨l, join ps ++ rest⟩ dst =
      .ok (r, ⟨l ++ join ps, rest⟩,
        ⟨dst.before ++ join (ps.map (encryptBlock (keyWords key))),
          dst.after.drop (xteaBlockSize * ps.length)⟩) := by
  induction ps generalizing l dst with
  | nil =>
      rw [encryptECBLoop, if_neg (by simpa using hr)]
      simp
  | cons p ps ih =>
      rw [List.length_cons, Nat.mul_succ] at hdst
      have hroom : xteaBlockSize ≤ dst.after.length := by omega
      have hloop := ih (l ++ p.toList) ⟨dst.before ++ (encryptBlock (keyWords key) p).toList,
        dst.after.drop xteaBlockSize⟩ (by simp; omega)
      rw [List.length_cons, Nat.mul_succ, encryptECBLoop, if_pos (by omega)]
      simp only [join_cons, List.append_assoc, Cursor.read_append, Mem.ok_bind,
        xteaEncrypt_eq hkey _ hroom, Cursor.advance_append]
      rw [show xteaBlockSize * ps.length + xteaBlockSize + r - xteaBlockSize =
        xteaBlockSize * ps.length + r by omega, hloop]
      simp only [List.map_cons, join_cons, List.append_assoc, List.drop_drop,
        Nat.add_comm xteaBlockSize]

/-- `XTeaEncryptECB` past its checks: the padded length, and the encrypted blocks at the
destination. The room for a whole block of padding is checked, the room for a part of one is not. -/
theorem xteaEncryptECB_pads (l m rest : Bytes) (dst : Cursor UInt8) {dstSize : ℕ}
    (hsize : m.length ≤ dstSize)
    (hwhole : m.length % xteaBlockSize = 0 → m.length + xteaBlockSize ≤ dstSize)
    (hdst : (m.length / xteaBlockSize + 1) * xteaBlockSize ≤ dst.after.length) :
    xteaEncryptECB ⟨l, m ++ rest⟩ m.length dst dstSize ckey =
      .ok (((m.length / xteaBlockSize + 1) * xteaBlockSize : ℕ),
        dst.before ++ join (ecbBlocks key m) ++
          dst.after.drop ((m.length / xteaBlockSize + 1) * xteaBlockSize)) := by
  obtain ⟨ps, tail, rfl, htail⟩ := exists_join_append xteaBlockSize_pos m
  rw [padded_div ps htail] at hdst ⊢
  have hlen : (join ps ++ tail).length = xteaBlockSize * ps.length + tail.length := by simp
  have hloop := encryptECBLoop_join hkey ps htail l (tail ++ rest) dst (by omega)
  have hroom : xteaBlockSize ≤ (dst.after.drop (xteaBlockSize * ps.length)).length := by
    rw [List.length_drop]
    omega
  obtain ⟨q, hq, hlast⟩ := encryptLast_eq hkey id (Vector.replicate xteaBlockSize 0)
    (l ++ join ps) tail rest htail
    ⟨dst.before ++ join (ps.map (encryptBlock (keyWords key))),
      dst.after.drop (xteaBlockSize * ps.length)⟩ hroom
  have hblocks : ecbBlocks key (join ps ++ tail) =
      ps.map (encryptBlock (keyWords key)) ++ [encryptBlock (keyWords key) q] := by
    rw [ecbBlocks, blocks_padded ps hq, List.map_append, List.map_singleton]
  unfold xteaEncryptECB
  rw [if_neg hsize.not_gt, hlen, List.append_assoc, hloop, Mem.ok_bind, hblocks]
  rw [hlen] at hwhole
  simp only [id] at hlast
  dsimp only
  by_cases hr : 0 < tail.length
  · rw [if_pos hr, ← bind_assoc, hlast, Mem.ok_bind]
    simp only [Mem.pure_eq_ok, Cursor.buffer, join_append, join_cons, join_nil, List.append_nil,
      List.append_assoc, List.drop_drop]
    rw [show xteaBlockSize * ps.length + tail.length + (xteaBlockSize - tail.length) =
      xteaBlockSize * ps.length + xteaBlockSize by omega]
  · have hnil : tail = [] := List.length_eq_zero_iff.mp (by omega)
    subst hnil
    rw [if_neg hr, if_pos (by simpa using hwhole)]
    simp only [List.length_nil, Nat.sub_zero, List.nil_append] at hlast ⊢
    rw [← bind_assoc, hlast, Mem.ok_bind]
    simp [Cursor.buffer]

/-- Whole blocks without room for another one: they are encrypted, and then the call fails. -/
theorem xteaEncryptECB_overruns (ps : List Block) (l rest : Bytes) (dst : Cursor UInt8)
    {dstSize : ℕ} (hsize : xteaBlockSize * ps.length ≤ dstSize)
    (hfull : dstSize < xteaBlockSize * ps.length + xteaBlockSize)
    (hdst : xteaBlockSize * ps.length ≤ dst.after.length) :
    xteaEncryptECB ⟨l, join ps ++ rest⟩ (xteaBlockSize * ps.length) dst dstSize ckey =
      .ok (-1, dst.before ++ join (ps.map (encryptBlock (keyWords key))) ++
        dst.after.drop (xteaBlockSize * ps.length)) := by
  have hloop := encryptECBLoop_join hkey ps xteaBlockSize_pos l rest dst hdst
  rw [Nat.add_zero] at hloop
  unfold xteaEncryptECB
  rw [if_neg hsize.not_gt, hloop, Mem.ok_bind]
  dsimp only
  rw [if_neg (lt_irrefl 0), if_neg hfull.not_ge]
  rfl

/-- The loop: the destination holds the decrypted blocks. -/
theorem decryptECBLoop_join (cs : List Block) (l rest : Bytes) (dst : Cursor UInt8)
    (hdst : xteaBlockSize * cs.length ≤ dst.after.length) :
    decryptECBLoop ckey (xteaBlockSize * cs.length) ⟨l, join cs ++ rest⟩ dst =
      .ok ⟨dst.before ++ join (cs.map (decryptBlock (keyWords key))),
        dst.after.drop (xteaBlockSize * cs.length)⟩ := by
  induction cs generalizing l dst with
  | nil =>
      rw [decryptECBLoop, if_neg (by simp)]
      simp
  | cons c cs ih =>
      rw [List.length_cons, Nat.mul_succ] at hdst
      have hroom : xteaBlockSize ≤ dst.after.length := by omega
      rw [decryptECBLoop, if_pos (by simp)]
      simp only [join_cons, List.append_assoc, Cursor.read_append, Mem.ok_bind,
        xteaDecrypt_eq hkey _ hroom, Cursor.advance_append]
      rw [List.length_cons, Nat.mul_succ, Nat.add_sub_cancel, ih _ _ (by simp; omega)]
      simp only [List.map_cons, join_cons, List.append_assoc, List.drop_drop,
        Nat.add_comm xteaBlockSize]

/-- **`XTeaDecryptECB`** leaves the decrypted blocks at the destination, and the last of their bytes
decides the result. -/
theorem xteaDecryptECB_eq {cs : List Block} {plain : Bytes} {last : UInt8}
    (hplain : join (cs.map (decryptBlock (keyWords key))) = plain ++ [last]) (l rest : Bytes)
    (dst : Cursor UInt8) {dstSize : ℕ} (hsize : xteaBlockSize * cs.length ≤ dstSize)
    (hdst : xteaBlockSize * cs.length ≤ dst.after.length) :
    xteaDecryptECB ⟨l, join cs ++ rest⟩ (xteaBlockSize * cs.length) dst dstSize ckey =
      .ok (withoutPadding last (xteaBlockSize * cs.length : ℕ),
        dst.before ++ (plain ++ [last]) ++ dst.after.drop (xteaBlockSize * cs.length)) := by
  unfold xteaDecryptECB
  rw [if_neg (by simp; omega), decryptECBLoop_join hkey cs l rest dst hdst, Mem.ok_bind,
    checkPadding, hplain, ← List.append_assoc, Cursor.back_append]
  simp [Cursor.buffer]

end memory

/-- A source that is not made of whole blocks is refused before any access. -/
theorem xteaDecryptCBC_misaligned (src : Cursor UInt8) {srcLen : ℕ} (dst : Cursor UInt8)
    (dstSize : ℕ) (ivec ckey : Cursor UInt8) (h : srcLen % xteaBlockSize ≠ 0) :
    xteaDecryptCBC src srcLen dst dstSize ivec ckey = .ok (-1, dst.buffer) :=
  if_pos (Or.inr h)

/-- A padding byte stands for its padding. -/
theorem withoutPadding_padByte_of_le {padding : ℕ} (hpos : 1 ≤ padding)
    (hle : padding ≤ xteaBlockSize) (m : ℤ) : withoutPadding (padByte padding) m = m - padding := by
  have h8 : xteaBlockSize = 8 := rfl
  have hbyte : (padByte padding).toNat = 48 + padding := by
    rw [padByte, UInt8.toNat_ofNat', Nat.mod_eq_of_lt (by omega)]
  unfold withoutPadding
  rw [hbyte, if_neg (by push_cast; omega)]
  push_cast
  ring

/-- The padding byte of a padded message stands for its own length. -/
theorem withoutPadding_padByte (n : ℕ) (m : ℤ) :
    withoutPadding (padByte (padLength xteaBlockSize n)) m = m - padLength xteaBlockSize n :=
  withoutPadding_padByte_of_le (padLength_pos xteaBlockSize_pos n) (padLength_le xteaBlockSize n) m

end Ebbnc
