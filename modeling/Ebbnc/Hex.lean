import Ebbnc.Xtea

/-!
# Hexadecimal text

The functions of `hex.c` over bounds-checked buffers.

* `hexEncode`, `hexDecode` with their loops, and `hexDecodeChar` — translated from the source. A
  `char` is signed, so `(unsigned int) *sp` extends its sign (`charToUInt`).
* `hexEncodeLoop_spec`, `hexDecodeLoop_spec` — what the loops have written when they stop, be it
  for want of source or for want of space.
* **`hexEncode_eq`** — with room for it, the digits of the bytes and a NUL are written.
* `hexDecodeChar_ne_neg_one` — the decoder's error value never arises, so **`hexDecode_eq`**:
  every text of even length is decoded, whatever its characters are.
* **`decodePairs_hexText`** — decoding the digits of a byte string gives it back.
-/

namespace Ebbnc

open Lib

/-- `(unsigned int) *sp` for a signed `char`. -/
def charToUInt (c : UInt8) : UInt32 := c.toInt8.toInt32.toUInt32

/-- The table `lookup`. Source: `hex.c` `hexEncode` -/
def hexLookup : Vector UInt8 16 :=
  #v[48, 49, 50, 51, 52, 53, 54, 55, 56, 57, 65, 66, 67, 68, 69, 70]

/-- `lookup[ascii % 16]`. -/
def hexDigit (ascii : UInt32) : UInt8 :=
  hexLookup.get ⟨(ascii % 16).toNat, by
    rw [UInt32.toNat_mod]
    exact Nat.mod_lt _ (by decide)⟩

/-- The loop of `hexEncode`: the unread `srcLen`, the pointer `dp` and `dstLen`. No object has more
than `SSIZE_MAX` bytes, so the cast of `dstSize` to `ssize_t` keeps it.
Source: `hex.c` `hexEncode` -/
def hexEncodeLoop (dstSize : ℕ) : ℕ → Cursor UInt8 → Cursor UInt8 → ℕ →
    Mem (ℕ × Cursor UInt8 × ℕ)
  | 0, _, dp, dstLen => pure (0, dp, dstLen)
  | srcLen + 1, sp, dp, dstLen =>
      if dstLen + 2 < dstSize then do
        let ascii := charToUInt (← sp.peek 0)
        let digit2 := hexDigit ascii
        let digit1 := hexDigit (ascii / 16)
        let dp ← dp.put digit1
        let dp ← dp.put digit2
        let sp ← sp.advance 1
        hexEncodeLoop dstSize srcLen sp dp (dstLen + 2)
      else pure (srcLen + 1, dp, dstLen)

/-- The number of digits written, or `-1`, and the object `dst` points into afterwards.
Source: `hex.c` `hexEncode` -/
def hexEncode (src : Cursor UInt8) (srcLen : ℕ) (dst : Cursor UInt8) (dstSize : ℕ) :
    Mem (ℤ × Bytes) := do
  let (srcLen, dp, dstLen) ← hexEncodeLoop dstSize srcLen src dst 0
  if 0 < srcLen then pure (-1, dp.buffer)
  else
    let dp ← dp.poke 0
    pure (dstLen, dp.buffer)

/-- The value of a hexadecimal digit. The two range tests are joined by `||`, so every character
that is not a decimal digit takes the first of them.
Source: `hex.c` `hexDecodeChar` -/
def hexDecodeChar (ch : UInt32) : Int32 :=
  if 48 ≤ ch ∧ ch ≤ 57 then (ch - 48).toInt32
  else if 65 ≤ ch ∨ ch ≤ 70 then (ch - 65 + 10).toInt32
  else if 97 ≤ ch ∨ ch ≤ 102 then (ch - 97 + 10).toInt32
  else -1

/-- The byte two digits stand for, `digit1 * 16 + digit2` stored in a `char`. -/
def pairByte (digit1 digit2 : Int32) : UInt8 := (digit1 * 16 + digit2).toUInt32.toUInt8

/-- The loop of `hexDecode`: the unread `srcLen`, the pointer `dp`, `dstLen`, and whether a digit
was refused, on which the function returns at once. The length is even, so the loop never meets a
single character.
Source: `hex.c` `hexDecode` -/
def hexDecodeLoop (dstSize : ℕ) : ℕ → Cursor UInt8 → Cursor UInt8 → ℕ →
    Mem (ℕ × Cursor UInt8 × ℕ × Bool)
  | srcLen + 2, sp, dp, dstLen =>
      if dstLen + 1 < dstSize then do
        let digit1 := hexDecodeChar (charToUInt (← sp.peek 0))
        if digit1 = -1 then pure (srcLen + 2, dp, dstLen, true)
        else
          let digit2 := hexDecodeChar (charToUInt (← sp.peek 1))
          if digit2 = -1 then pure (srcLen + 2, dp, dstLen, true)
          else
            let dp ← dp.put (pairByte digit1 digit2)
            let sp ← sp.advance 2
            hexDecodeLoop dstSize srcLen sp dp (dstLen + 1)
      else pure (srcLen + 2, dp, dstLen, false)
  | srcLen, _, dp, dstLen => pure (srcLen, dp, dstLen, false)

/-- The number of bytes written, or `-1`, and the object `dst` points into afterwards.
Source: `hex.c` `hexDecode` -/
def hexDecode (src : Cursor UInt8) (srcLen : ℕ) (dst : Cursor UInt8) (dstSize : ℕ) :
    Mem (ℤ × Bytes) := do
  if srcLen % 2 ≠ 0 then pure (-1, dst.buffer)
  else
    let (srcLen, dp, dstLen, refused) ← hexDecodeLoop dstSize srcLen src dst 0
    if refused then pure (-1, dp.buffer)
    else if 0 < srcLen then pure (-1, dp.buffer)
    else
      let dp ← dp.poke 0
      pure (dstLen, dp.buffer)

/-! ## Encoding -/

/-- The digits of a byte string, two a byte. -/
def hexText (m : Bytes) : Bytes :=
  m.flatMap fun b => [hexDigit (charToUInt b / 16), hexDigit (charToUInt b)]

@[simp] theorem hexText_cons (b : UInt8) (m : Bytes) :
    hexText (b :: m) = hexDigit (charToUInt b / 16) :: hexDigit (charToUInt b) :: hexText m := rfl

@[simp] theorem length_hexText (m : Bytes) : (hexText m).length = 2 * m.length := by
  induction m with
  | nil => rfl
  | cons b m ih =>
      simp only [hexText_cons, List.length_cons, ih]
      omega

/-- The loop writes the digits of the first `k` bytes, in front of the byte kept for the NUL, and
leaves bytes of the source unread only where no two more digits fit. -/
theorem hexEncodeLoop_spec (m : Bytes) {dstSize : ℕ} (dstLen : ℕ) (l rest pre room : Bytes)
    (hsize : dstLen < dstSize)
    (hroom : min (dstLen + 2 * m.length + 1) dstSize ≤ dstLen + room.length) :
    ∃ k ≤ m.length,
      hexEncodeLoop dstSize m.length ⟨l, m ++ rest⟩ ⟨pre, room⟩ dstLen =
        .ok (m.length - k, ⟨pre ++ hexText (m.take k), room.drop (2 * k)⟩, dstLen + 2 * k) ∧
      dstLen + 2 * k < dstSize ∧ (k < m.length → dstSize ≤ dstLen + 2 * k + 2) := by
  induction m generalizing dstLen l pre room with
  | nil => exact ⟨0, le_rfl, by simp [hexEncodeLoop, hexText], hsize, by simp⟩
  | cons b m ih =>
      by_cases hspace : dstLen + 2 < dstSize
      · obtain ⟨x, y, room, rfl⟩ : ∃ x y room', room = x :: y :: room' := by
          match room, hroom with
          | [], h => simp only [List.length_cons, List.length_nil] at h; omega
          | [_], h => simp only [List.length_cons, List.length_nil] at h; omega
          | x :: y :: room', _ => exact ⟨x, y, room', rfl⟩
        simp only [List.length_cons] at hroom
        obtain ⟨k, hk, hloop, hlt, hstop⟩ := ih (dstLen + 2) (l ++ [b])
          (pre ++ [hexDigit (charToUInt b / 16)] ++ [hexDigit (charToUInt b)]) room
          hspace (by omega)
        refine ⟨k + 1, by simpa using hk, ?_, by omega, fun h => ?_⟩
        · rw [List.length_cons, hexEncodeLoop, if_pos hspace]
          simp only [Cursor.peek, List.cons_append, List.getElem?_cons_zero, Mem.pure_eq_ok,
            Mem.ok_bind, Cursor.put_cons, Cursor.advance, List.length_cons, List.take_succ_cons,
            List.take_zero, List.drop_succ_cons, List.drop_zero, if_pos (Nat.le_add_left 1 _)]
          rw [hloop]
          simp only [hexText_cons, List.append_assoc, List.cons_append, List.nil_append,
            Nat.mul_succ, List.drop_succ_cons, Nat.add_sub_add_right]
          congr 3
          omega
        · have hk := hstop (by simpa using h)
          omega
      · refine ⟨0, Nat.zero_le _, ?_, hsize, fun _ => by omega⟩
        rw [List.length_cons, hexEncodeLoop, if_neg hspace]
        simp [hexText]

/-- Writing the NUL behind what a loop has written. -/
theorem poke_drop (pre room : Bytes) {k : ℕ} (hk : k < room.length) :
    (Cursor.mk pre (room.drop k)).poke (0 : UInt8) = .ok ⟨pre, 0 :: room.drop (k + 1)⟩ := by
  rw [List.drop_eq_getElem_cons hk]
  rfl

/-- **`hexEncode` writes the digits and a NUL** where the space suffices for them. -/
theorem hexEncode_eq (m : Bytes) {dstSize : ℕ} (l rest : Bytes) (dst : Cursor UInt8)
    (hsize : 2 * m.length + 1 ≤ dstSize) (hroom : 2 * m.length + 1 ≤ dst.after.length) :
    hexEncode ⟨l, m ++ rest⟩ m.length dst dstSize =
      .ok ((2 * m.length : ℕ),
        dst.before ++ hexText m ++ 0 :: dst.after.drop (2 * m.length + 1)) := by
  obtain ⟨pre, room⟩ := dst
  simp only at hroom
  obtain ⟨k, hk, hloop, hlt, hstop⟩ :=
    @hexEncodeLoop_spec m dstSize 0 l rest pre room (by omega) (by omega)
  obtain rfl : k = m.length := by
    by_contra hne
    have hfull := hstop (by omega)
    omega
  rw [hexEncode, hloop]
  simp [poke_drop _ _ (show 2 * m.length < room.length by omega)]

/-! ## Decoding -/

/-- The error value of `hexDecodeChar` never arises: `-1` would be the digit `'6'` read as a
letter, and no character reaches the last branch. -/
theorem hexDecodeChar_ne_neg_one (ch : UInt32) : hexDecodeChar ch ≠ -1 := by
  intro h
  have hbits := congrArg Int32.toUInt32 h
  have hneg : (-1 : Int32).toUInt32 = 4294967295 := by decide
  unfold hexDecodeChar at hbits
  split_ifs at hbits with hdigit hupper hlower
  · rw [UInt32.toUInt32_toInt32, hneg] at hbits
    have hch : ch = 4294967295 + 48 := by rw [← hbits, UInt32.sub_add_cancel]
    rw [hch] at hdigit
    exact absurd hdigit (by decide)
  · rw [UInt32.toUInt32_toInt32, hneg] at hbits
    have hch : ch = 4294967295 - 10 + 65 := by
      rw [← hbits, UInt32.add_sub_cancel, UInt32.sub_add_cancel]
    rw [hch] at hdigit
    exact absurd (by decide) hdigit
  · simp only [UInt32.le_iff_toNat_le, not_or, not_le] at hupper
    have h65 : (65 : UInt32).toNat = 65 := rfl
    have h70 : (70 : UInt32).toNat = 70 := rfl
    omega
  · simp only [UInt32.le_iff_toNat_le, not_or, not_le] at hupper
    have h65 : (65 : UInt32).toNat = 65 := rfl
    have h70 : (70 : UInt32).toNat = 70 := rfl
    omega

/-- The bytes the decoder writes for a text, two characters a byte. -/
def decodePairs : Bytes → Bytes
  | c :: d :: rest =>
      pairByte (hexDecodeChar (charToUInt c)) (hexDecodeChar (charToUInt d)) :: decodePairs rest
  | _ => []

theorem length_decodePairs : (s : Bytes) → (decodePairs s).length = s.length / 2
  | [] => rfl
  | [_] => by simp [decodePairs]
  | c :: d :: rest => by
      rw [decodePairs, List.length_cons, length_decodePairs rest]
      simp only [List.length_cons]
      omega

/-- The loop decodes the first `k` pairs, in front of the byte kept for the NUL, and leaves
characters of the source unread only where no more bytes fit. -/
theorem hexDecodeLoop_spec (dstSize : ℕ) :
    (s : Bytes) → s.length % 2 = 0 → ∀ (dstLen : ℕ) (l tail pre room : Bytes), dstLen < dstSize →
      min (dstLen + s.length / 2 + 1) dstSize ≤ dstLen + room.length →
      ∃ k ≤ s.length / 2,
        hexDecodeLoop dstSize s.length ⟨l, s ++ tail⟩ ⟨pre, room⟩ dstLen =
          .ok (s.length - 2 * k, ⟨pre ++ decodePairs (s.take (2 * k)), room.drop k⟩, dstLen + k,
            false) ∧
        dstLen + k < dstSize ∧ (k < s.length / 2 → dstSize ≤ dstLen + k + 1)
  | [], _, dstLen, l, tail, pre, room, hsize, _ =>
      ⟨0, le_rfl, by simp [hexDecodeLoop, decodePairs], hsize, by simp⟩
  | [_], heven, _, _, _, _, _, _, _ => by simp at heven
  | c :: d :: rest, heven, dstLen, l, tail, pre, room, hsize, hroom => by
      have hhalf : (c :: d :: rest).length / 2 = rest.length / 2 + 1 := by
        simp only [List.length_cons]
        omega
      have hrest : rest.length % 2 = 0 := by
        simp only [List.length_cons] at heven
        omega
      rw [hhalf] at hroom ⊢
      by_cases hspace : dstLen + 1 < dstSize
      · obtain ⟨x, xs, rfl⟩ := List.exists_cons_of_ne_nil (l := room)
          (by rw [← List.length_pos_iff]; omega)
        rw [List.length_cons] at hroom
        obtain ⟨k, hk, hloop, hlt, hstop⟩ := hexDecodeLoop_spec dstSize rest hrest (dstLen + 1)
          (l ++ [c, d]) tail
          (pre ++ [pairByte (hexDecodeChar (charToUInt c)) (hexDecodeChar (charToUInt d))]) xs
          hspace (by omega)
        refine ⟨k + 1, by omega, ?_, by omega, fun h => ?_⟩
        · simp only [List.cons_append, List.length_cons, hexDecodeLoop, if_pos hspace,
            Cursor.peek, List.getElem?_cons_zero, List.getElem?_cons_succ, Mem.pure_eq_ok,
            Mem.ok_bind, hexDecodeChar_ne_neg_one, if_false, Cursor.put_cons, Cursor.advance,
            if_pos (Nat.le_add_left 2 _), List.take_succ_cons, List.take_zero,
            List.drop_succ_cons, List.drop_zero]
          rw [hloop]
          simp only [Nat.mul_succ, List.take_succ_cons, decodePairs, List.append_assoc,
            List.cons_append, List.nil_append, Nat.add_sub_add_right]
          congr 4
          omega
        · have hk := hstop (by omega)
          omega
      · refine ⟨0, Nat.zero_le _, ?_, hsize, fun _ => by omega⟩
        simp only [List.length_cons, List.cons_append, hexDecodeLoop, if_neg hspace]
        simp [decodePairs]

/-- A text of odd length is refused before any access. -/
theorem hexDecode_odd (src dst : Cursor UInt8) {srcLen : ℕ} (dstSize : ℕ) (h : srcLen % 2 ≠ 0) :
    hexDecode src srcLen dst dstSize = .ok (-1, dst.buffer) := if_pos h

/-- **`hexDecode` accepts every text of even length** where the space suffices for it. -/
theorem hexDecode_eq (s tail : Bytes) (heven : s.length % 2 = 0) {dstSize : ℕ} (l : Bytes)
    (dst : Cursor UInt8) (hsize : s.length / 2 + 1 ≤ dstSize)
    (hroom : s.length / 2 + 1 ≤ dst.after.length) :
    hexDecode ⟨l, s ++ tail⟩ s.length dst dstSize =
      .ok ((s.length / 2 : ℕ),
        dst.before ++ decodePairs s ++ 0 :: dst.after.drop (s.length / 2 + 1)) := by
  obtain ⟨pre, room⟩ := dst
  simp only at hroom
  obtain ⟨k, hk, hloop, hlt, hstop⟩ :=
    hexDecodeLoop_spec dstSize s heven 0 l tail pre room (by omega) (by omega)
  obtain rfl : k = s.length / 2 := by
    by_contra hne
    have hfull := hstop (by omega)
    omega
  have hall : 2 * (s.length / 2) = s.length := by omega
  rw [hexDecode, if_neg (by simpa using heven), hloop]
  simp [poke_drop _ _ (show s.length / 2 < room.length by omega), hall]

/-- Each byte value is read back from its own two digits. -/
theorem pairByte_hexDigit (b : UInt8) :
    pairByte (hexDecodeChar (charToUInt (hexDigit (charToUInt b / 16))))
      (hexDecodeChar (charToUInt (hexDigit (charToUInt b)))) = b := by
  revert b
  apply forall_byte
  decide +kernel

/-- **Decoding the digits of a byte string gives it back.** -/
theorem decodePairs_hexText (m : Bytes) : decodePairs (hexText m) = m := by
  induction m with
  | nil => rfl
  | cons b m ih => rw [hexText_cons, decodePairs, ih, pairByte_hexDigit]

end Ebbnc
