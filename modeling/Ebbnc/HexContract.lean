import Ebbnc.Hex
import Ebbnc.Lib.CString

/-!
# What the hexadecimal codec keeps to

* `Fills` — a codec function fills its destination with a text and a NUL, or fails where
  `dstSize` is too small for them, and never writes from `dst[dstSize]` on.
* **`hexCodec_capacities`** — the encoder fills its destination with the digits of the source, the
  decoder with the bytes of those digits.
* `Decodes` — a decoder accepts exactly hexadecimal text and writes its byte values.
* **`hexDecode_decodes_iff`** — the decoder never refuses a character, and reads a lower case
  letter as an upper case one only where the excess falls out of the byte.
-/

namespace Ebbnc

open Lib

/-! ## Capacities -/

/-- What a codec function is to do with a destination of `dstSize` bytes: fail exactly where the
text and a NUL do not fit, return the length of the text and write both where they do, and leave
everything outside of `dst[0 .. dstSize - 1]` alone in either case. -/
def Fills (dst : Cursor UInt8) (dstSize : ℕ) (text : Bytes) (run : Mem (ℤ × Bytes)) : Prop :=
  ∃ (result : ℤ) (buffer : Bytes), run = .ok (result, buffer) ∧
    (result = -1 ↔ dstSize < text.length + 1) ∧
    (text.length + 1 ≤ dstSize → result = text.length ∧
      buffer = dst.before ++ text ++ 0 :: dst.after.drop (text.length + 1)) ∧
    dst.Frame dstSize buffer

/-- A call that succeeds fills the destination. -/
theorem Fills.of_ok {dst : Cursor UInt8} {dstSize : ℕ} {text : Bytes} {run : Mem (ℤ × Bytes)}
    (hrun : run = .ok ((text.length : ℕ),
      dst.before ++ text ++ 0 :: dst.after.drop (text.length + 1)))
    (hsize : text.length + 1 ≤ dstSize) (hroom : dstSize ≤ dst.after.length) :
    Fills dst dstSize text run := by
  refine ⟨_, _, hrun, ?_, fun _ => ⟨rfl, rfl⟩, ?_⟩
  · constructor
    · intro h
      omega
    · intro h
      omega
  · have hframe := Cursor.frame_overwrite dst (text ++ [0])
      (by rw [List.length_append, List.length_singleton]; omega)
    rw [List.length_append, List.length_singleton] at hframe
    have hmono := hframe.mono hsize
    simpa using hmono

/-- A call that fails after a part of the text fills a destination that is too small. -/
theorem Fills.of_failed {dst : Cursor UInt8} {dstSize : ℕ} {text : Bytes} (written : Bytes)
    {run : Mem (ℤ × Bytes)}
    (hrun : run = .ok (-1, dst.before ++ written ++ dst.after.drop written.length))
    (hsize : dstSize < text.length + 1) (hwritten : written.length ≤ dstSize)
    (hroom : dstSize ≤ dst.after.length) : Fills dst dstSize text run := by
  refine ⟨_, _, hrun, ⟨fun _ => hsize, fun _ => rfl⟩, fun h => ?_, ?_⟩
  · omega
  · exact (Cursor.frame_overwrite dst written (by omega)).mono hwritten

/-- Encoding fills the destination with the digits. -/
theorem hexEncode_fills (m l rest : Bytes) (dst : Cursor UInt8) {dstSize : ℕ}
    (hpos : 1 ≤ dstSize) (hroom : dstSize ≤ dst.after.length) :
    Fills dst dstSize (hexText m) (hexEncode ⟨l, m ++ rest⟩ m.length dst dstSize) := by
  by_cases hsize : 2 * m.length + 1 ≤ dstSize
  · apply Fills.of_ok _ (by simpa using hsize) hroom
    rw [hexEncode_eq m l rest dst hsize (hsize.trans hroom), length_hexText]
  · obtain ⟨pre, room⟩ := dst
    simp only at hroom
    obtain ⟨k, hk, hloop, hlt, -⟩ :=
      @hexEncodeLoop_spec m dstSize 0 l rest pre room (by omega) (by omega)
    have hunread : 0 < m.length - k := by omega
    have hwritten : (hexText (m.take k)).length = 2 * k := by
      rw [length_hexText, List.length_take, min_eq_left hk]
    apply Fills.of_failed (hexText (m.take k))
    · rw [hexEncode, hloop, hwritten]
      simp only [Mem.ok_bind, if_pos hunread, Mem.pure_eq_ok, Cursor.buffer_mk]
    · rw [length_hexText]
      omega
    · omega
    · exact hroom

/-- What is decoded stays inside the destination, whatever the source holds. -/
theorem hexDecode_fills {s : Bytes} (heven : s.length % 2 = 0) (l rest : Bytes)
    (dst : Cursor UInt8) {dstSize : ℕ} (hpos : 1 ≤ dstSize) (hroom : dstSize ≤ dst.after.length) :
    Fills dst dstSize (decodePairs s) (hexDecode ⟨l, s ++ rest⟩ s.length dst dstSize) := by
  by_cases hsize : s.length / 2 + 1 ≤ dstSize
  · apply Fills.of_ok _ (by simpa [length_decodePairs] using hsize) hroom
    rw [hexDecode_eq s rest heven l dst hsize (hsize.trans hroom), length_decodePairs]
  · obtain ⟨pre, room⟩ := dst
    simp only at hroom
    obtain ⟨k, hk, hloop, hlt, -⟩ :=
      hexDecodeLoop_spec dstSize s heven 0 l rest pre room (by omega) (by omega)
    have hunread : 0 < s.length - 2 * k := by omega
    have hwritten : (decodePairs (s.take (2 * k))).length = k := by
      rw [length_decodePairs, List.length_take]
      omega
    apply Fills.of_failed (decodePairs (s.take (2 * k)))
    · rw [hexDecode, if_neg (by simpa using heven), hloop, hwritten]
      simp [hunread]
    · rw [length_decodePairs]
      omega
    · omega
    · exact hroom

/-- `[0-9A-Fa-f]`. -/
def isxdigit (c : UInt8) : Bool := isdigit c || (65 ≤ c && c ≤ 70) || (97 ≤ c && c ≤ 102)

/-- The encoder's digits are hexadecimal digits. -/
theorem isxdigit_of_mem_hexText {m : Bytes} {c : UInt8} (h : c ∈ hexText m) :
    isxdigit c = true := by
  have hall : ∀ n : Fin 16, isxdigit (hexLookup.get n) = true := by decide
  obtain ⟨b, -, hb⟩ := List.mem_flatMap.mp h
  rcases List.mem_cons.mp hb with rfl | hb
  · exact hall _
  · rw [List.mem_singleton.mp hb]
    exact hall _

/-- **The capacities of the codec and its inversion.** The encoder fails exactly where two digits
a byte and a NUL do not fit, the decoder exactly where the bytes and a NUL do not, and it gives
the encoder's source back; whatever the decoder reads, neither of them writes from `dst[dstSize]`
on. -/
theorem hexCodec_capacities (m : Bytes) {dst : Cursor UInt8} {dstSize : ℕ} (hpos : 1 ≤ dstSize)
    (hroom : dstSize ≤ dst.after.length) :
    (hexText m).length = 2 * m.length ∧ (∀ c ∈ hexText m, isxdigit c = true) ∧
      (∀ l rest : Bytes,
        Fills dst dstSize (hexText m) (hexEncode ⟨l, m ++ rest⟩ m.length dst dstSize)) ∧
      (∀ l rest : Bytes,
        Fills dst dstSize m (hexDecode ⟨l, hexText m ++ rest⟩ (2 * m.length) dst dstSize)) ∧
      ∀ s l rest : Bytes, ∃ (result : ℤ) (buffer : Bytes),
        hexDecode ⟨l, s ++ rest⟩ s.length dst dstSize = .ok (result, buffer) ∧
          dst.Frame dstSize buffer := by
  refine ⟨length_hexText m, fun c => isxdigit_of_mem_hexText,
    fun l rest => hexEncode_fills m l rest dst hpos hroom, fun l rest => ?_, fun s l rest => ?_⟩
  · have heven : (hexText m).length % 2 = 0 := by
      rw [length_hexText]
      omega
    have hfills := hexDecode_fills heven l rest dst hpos hroom
    rwa [decodePairs_hexText, length_hexText] at hfills
  · by_cases heven : s.length % 2 = 0
    · obtain ⟨result, buffer, hrun, -, -, hframe⟩ :=
        hexDecode_fills heven l rest dst hpos hroom
      exact ⟨result, buffer, hrun, hframe⟩
    · have hframe := (Cursor.frame_overwrite dst [] (Nat.zero_le _)).mono (Nat.zero_le dstSize)
      simp only [List.append_nil, List.length_nil, List.drop_zero] at hframe
      exact ⟨-1, dst.buffer, hexDecode_odd _ _ dstSize heven, hframe⟩

/-- Two bytes, one of them negative as a `char`, and room for one digit too few. -/
theorem hexCodec_capacities_sample :
    (hexText [255, 16]).length = 2 * 2 ∧ (∀ c ∈ hexText [255, 16], isxdigit c = true) ∧
      (∀ l rest : Bytes, Fills (Cursor.start [9, 9, 9, 9, 9]) 4 (hexText [255, 16])
        (hexEncode ⟨l, [255, 16] ++ rest⟩ 2 (Cursor.start [9, 9, 9, 9, 9]) 4)) ∧
      (∀ l rest : Bytes, Fills (Cursor.start [9, 9, 9, 9, 9]) 4 [255, 16]
        (hexDecode ⟨l, hexText [255, 16] ++ rest⟩ (2 * 2) (Cursor.start [9, 9, 9, 9, 9]) 4)) ∧
      ∀ s l rest : Bytes, ∃ (result : ℤ) (buffer : Bytes),
        hexDecode ⟨l, s ++ rest⟩ s.length (Cursor.start [9, 9, 9, 9, 9]) 4 =
            .ok (result, buffer) ∧
          (Cursor.start [9, 9, 9, 9, 9]).Frame 4 buffer :=
  hexCodec_capacities [255, 16] (by simp) (by simp [Cursor.start])

/-! ## What the decoder accepts -/

/-- The byte values of the digit pairs of a text, letters of either case. -/
def hexValues : Bytes → Bytes
  | c :: d :: rest => UInt8.ofNat (digitValue c * 16 + digitValue d) :: hexValues rest
  | _ => []

/-- What a decoder is to do with a text: return `-1` exactly where its length is odd or one of its
characters is no hexadecimal digit, and otherwise return half the length with the values of the
pairs and a NUL written. -/
structure Decodes (s : Bytes) (dst : Cursor UInt8) (run : Mem (ℤ × Bytes)) : Prop where
  /-- Nothing but hexadecimal text is accepted. -/
  rejects : (∃ buffer, run = .ok (-1, buffer)) ↔
    s.length % 2 ≠ 0 ∨ ∃ c ∈ s, isxdigit c = false
  /-- Hexadecimal text is read by its value. -/
  values : s.length % 2 = 0 → (∀ c ∈ s, isxdigit c = true) →
    run = .ok ((s.length / 2 : ℕ),
      dst.before ++ hexValues s ++ 0 :: dst.after.drop (s.length / 2 + 1))

/-- `[a-f]`. -/
def islowerHex (c : UInt8) : Bool := 97 ≤ c && c ≤ 102

/-- No pair has a lower case letter for its second digit. -/
def SecondDigitsUpper : Bytes → Prop
  | _ :: d :: rest => islowerHex d = false ∧ SecondDigitsUpper rest
  | _ => True

/-- The hexadecimal digits, one by one. -/
theorem mem_of_isxdigit : ∀ c : UInt8, isxdigit c = true → c ∈ ascii "0123456789ABCDEFabcdef" := by
  apply forall_byte
  decide +kernel

/-- The decoder's digit is off by 32 for a lower case letter, which a byte only shows in its
second digit: 16 times 32 is a multiple of 256. -/
theorem pairByte_eq_iff {c d : UInt8} (hc : isxdigit c = true) (hd : isxdigit d = true) :
    pairByte (hexDecodeChar (charToUInt c)) (hexDecodeChar (charToUInt d)) =
      UInt8.ofNat (digitValue c * 16 + digitValue d) ↔ islowerHex d = false := by
  have hall : ∀ c ∈ ascii "0123456789ABCDEFabcdef", ∀ d ∈ ascii "0123456789ABCDEFabcdef",
      (pairByte (hexDecodeChar (charToUInt c)) (hexDecodeChar (charToUInt d)) =
        UInt8.ofNat (digitValue c * 16 + digitValue d) ↔ islowerHex d = false) := by
    decide +kernel
  exact hall c (mem_of_isxdigit c hc) d (mem_of_isxdigit d hd)

/-- What is decoded are the values exactly where no second digit is lower case. -/
theorem decodePairs_eq_iff :
    (s : Bytes) → (∀ c ∈ s, isxdigit c = true) →
      (decodePairs s = hexValues s ↔ SecondDigitsUpper s)
  | [], _ => by simp [decodePairs, hexValues, SecondDigitsUpper]
  | [_], _ => by simp [decodePairs, hexValues, SecondDigitsUpper]
  | c :: d :: rest, h => by
      have hc : isxdigit c = true := h c (by simp)
      have hd : isxdigit d = true := h d (by simp)
      have hrest : decodePairs rest = hexValues rest ↔ SecondDigitsUpper rest :=
        decodePairs_eq_iff rest fun x hx => h x (by simp [hx])
      rw [decodePairs, hexValues, List.cons_eq_cons, pairByte_eq_iff hc hd, hrest]
      rfl

/-- **What the decoder accepts.** It keeps to hexadecimal text exactly where the length is odd, or
every character is a digit and no second digit of a pair is lower case: no character is ever
refused, and a lower case letter is read with an excess of 32. -/
theorem hexDecode_decodes_iff (s l rest : Bytes) {dst : Cursor UInt8} {dstSize : ℕ}
    (hsize : s.length / 2 + 1 ≤ dstSize) (hroom : dstSize ≤ dst.after.length) :
    Decodes s dst (hexDecode ⟨l, s ++ rest⟩ s.length dst dstSize) ↔
      s.length % 2 ≠ 0 ∨ (∀ c ∈ s, isxdigit c = true) ∧ SecondDigitsUpper s := by
  by_cases heven : s.length % 2 = 0
  · have hrun := hexDecode_eq s rest heven l dst hsize (hsize.trans hroom)
    have hnever : ∀ buffer, hexDecode ⟨l, s ++ rest⟩ s.length dst dstSize ≠ .ok (-1, buffer) := by
      intro buffer h
      rw [hrun] at h
      have hresult := congrArg Prod.fst (Except.ok.inj h)
      simp only at hresult
      omega
    simp only [heven, ne_eq, not_true_eq_false, false_or]
    constructor
    · intro h
      have hdigits : ∀ c ∈ s, isxdigit c = true := by
        intro c hc
        by_contra hno
        obtain ⟨buffer, hreject⟩ := h.rejects.mpr (Or.inr ⟨c, hc, by simpa using hno⟩)
        exact hnever buffer hreject
      have hvalues := h.values heven hdigits
      rw [hrun] at hvalues
      have hbytes := congrArg Prod.snd (Except.ok.inj hvalues)
      have hpairs := (List.append_inj' hbytes rfl).1
      exact ⟨hdigits, (decodePairs_eq_iff s hdigits).mp (List.append_cancel_left hpairs)⟩
    · rintro ⟨hdigits, hupper⟩
      refine ⟨⟨fun ⟨buffer, h⟩ => absurd h (hnever buffer), ?_⟩, fun _ _ => ?_⟩
      · rintro (hodd | ⟨c, hc, hno⟩)
        · exact absurd heven hodd
        · rw [hdigits c hc] at hno
          exact absurd hno (by decide)
      · rw [hrun, (decodePairs_eq_iff s hdigits).mpr hupper]
  · refine ⟨fun _ => Or.inl heven, fun _ => ⟨⟨fun _ => Or.inl heven, fun _ => ?_⟩, fun h => ?_⟩⟩
    · exact ⟨dst.buffer, hexDecode_odd _ _ dstSize heven⟩
    · exact absurd h heven

/-- Digits of both cases, the lower case letter first. -/
theorem hexDecode_decodes_sample :
    Decodes (ascii "aF") (Cursor.start [9, 9])
        (hexDecode ⟨[], ascii "aF" ++ [0]⟩ 2 (Cursor.start [9, 9]) 2) ↔
      (ascii "aF").length % 2 ≠ 0 ∨
        (∀ c ∈ ascii "aF", isxdigit c = true) ∧ SecondDigitsUpper (ascii "aF") :=
  hexDecode_decodes_iff (ascii "aF") [] [0] (le_refl 2) (le_refl 2)

/-- Text that is not hexadecimal is accepted, and a lower case digit is not the upper case one. -/
theorem hexDecode_accepts_any :
    ¬ (∀ (s l rest : Bytes) (dst : Cursor UInt8) (dstSize : ℕ), s.length / 2 + 1 ≤ dstSize →
      dstSize ≤ dst.after.length →
        Decodes s dst (hexDecode ⟨l, s ++ rest⟩ s.length dst dstSize)) ∧
    hexDecode (Cursor.start (ascii "zz")) 2 (Cursor.start [9, 9]) 2 = .ok (1, [115, 0]) ∧
    hexDecode (Cursor.start (ascii "0a")) 2 (Cursor.start [9, 9]) 2 = .ok (1, [42, 0]) := by
  have hzz : hexDecode (Cursor.start (ascii "zz")) 2 (Cursor.start [9, 9]) 2 =
      .ok (1, [115, 0]) := by
    decide +kernel
  refine ⟨fun h => ?_, hzz, by decide +kernel⟩
  have hz := h (ascii "zz") [] [] (Cursor.start [9, 9]) 2 (le_refl 2) (le_refl 2)
  obtain ⟨buffer, hreject⟩ := hz.rejects.mpr (Or.inr ⟨122, by decide, by decide⟩)
  rw [List.append_nil, show (⟨[], ascii "zz"⟩ : Cursor UInt8) = Cursor.start (ascii "zz") from rfl,
    show (ascii "zz").length = 2 from rfl, hzz] at hreject
  simp at hreject

end Ebbnc
