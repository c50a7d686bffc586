import Ebbnc.ConfigLoad
import Ebbnc.Hex
import Ebbnc.XteaModes

/-!
# The embedded config

The container a config travels in from the editor to the daemon: an initialisation vector and the
chained ciphertext of the printed config, in hexadecimal. Memory allocation succeeds.

* `encrypt` — the editor's side; `Config.decryptEmbedded`, `Config.loadEmbedded` — the daemon's.
* `container` — the text itself; **`encrypt_eq`** — the editor writes it.
* `embeddedText` — what an embedded text stands for by the book; **`Config.decryptEmbedded_eq`** —
  the daemon's side returns it up to its first NUL.
* **`Config.decryptEmbedded_encrypt`** — the two together, for every text whose control characters
  are all white space.
* **`Config.decryptEmbedded_ok_iff`** — the daemon's side stays inside its buffers on every embedded
  text but those of exactly sixteen characters.
* **`Config.filterCovers_iff`** — the texts that the search for control characters covers.
-/

namespace Ebbnc

open Lib

/-- The string of digits, or null. `urandom` is what `/dev/urandom` delivers.
Source: `makeconf.c` `encrypt` -/
def encrypt (urandom : Option Bytes) (plain : Bytes) (key : Cursor UInt8) : Mem (Option Bytes) := do
  let plainLen := plain.length
  let cipherSize := plainLen + xteaBlockSize * 2
  let cipher := Cursor.start (List.replicate cipherSize 0)
  let (ret, cipher) ← xteaGenerateIVec urandom cipher
  if ret < 0 then pure none
  else
    let dst ← cipher.advance xteaBlockSize
    let (len, cipher) ← xteaEncryptCBC (Cursor.start (plain ++ [0])) plain.length dst
      (cipherSize - xteaBlockSize) cipher key
    if len < 0 then pure none
    else
      let len := len.toNat + xteaBlockSize
      let encodedSize := len * 2 + 1
      let encoded := Cursor.start (List.replicate encodedSize 0)
      let (ret, encoded) ← hexEncode (Cursor.start cipher) len encoded encodedSize
      if ret < 0 then pure none else pure (some (cstr encoded))

/-- No control character, or white space. -/
def isTextChar (c : UInt8) : Bool := !(iscntrl c && !isspace c)

/-- The walk of `p` over the decrypted text: whether it ends at a NUL before it meets a control
character that is no white space.
Source: `config.c` `Config_decryptEmbedded`, the last loop -/
def noControlChars : Bytes → Mem Bool
  | [] => throw .outOfBounds
  | c :: rest =>
      if c = 0 then pure true
      else if iscntrl c && !isspace c then pure false
      else noControlChars rest

/-- What `XTeaDecryptCBC` reports and leaves in the buffer, when it is called.
Source: `config.c` `Config_decryptEmbedded`, up to the call -/
def Config.decryptedBytes (confEmbedded : Bytes) (key : Cursor UInt8) :
    Mem (Option (ℤ × Bytes)) := do
  let confLen := confEmbedded.length
  let cipherSize := confLen / 2 + 1
  let cipher := Cursor.start (List.replicate cipherSize 0)
  let (cipherLen, cipher) ← hexDecode (Cursor.start (confEmbedded ++ [0])) confLen cipher cipherSize
  if cipherLen < xteaBlockSize then pure none
  else
    let cipherLen := cipherLen.toNat
    let plainSize := cipherLen
    let plain := Cursor.start (List.replicate plainSize 0)
    let ivec ← (Cursor.start cipher).read xteaBlockSize
    let src ← (Cursor.start cipher).advance xteaBlockSize
    let result ← xteaDecryptCBC src (cipherLen - xteaBlockSize) plain plainSize
      (Cursor.start ivec.toList) key
    pure (some result)

/-- Cutting off the padding and looking for control characters.
Source: `config.c` `Config_decryptEmbedded`, from the call of `XTeaDecryptCBC` on -/
def Config.filterPlain : Option (ℤ × Bytes) → Mem (Option Bytes)
  | none => pure none
  | some (plainLen, plain) =>
      if plainLen < 0 then pure none
      else do
        let plain ← (Cursor.start plain).store plainLen.toNat 0
        if ← noControlChars plain.after then pure (some (cstr plain.after)) else pure none

/-- The decrypted text, or null; `confEmbedded` is the string literal `CONF_EMBEDDED`.
Source: `config.c` `Config_decryptEmbedded` -/
def Config.decryptEmbedded (confEmbedded : Bytes) (key : Cursor UInt8) : Mem (Option Bytes) := do
  let result ← Config.decryptedBytes confEmbedded key
  Config.filterPlain result

/-- The config, or the messages printed when there is none.
Source: `config.c` `Config_loadEmbedded` -/
def Config.loadEmbedded (isValidHost : Option Bytes → Bool) (confEmbedded : Bytes)
    (key : Cursor UInt8) : Mem (Except (List Message) Config) := do
  match ← Config.decryptEmbedded confEmbedded key with
  | none => pure (.error [.decryptEmbedded])
  | some buffer => Config.loadBuffer isValidHost buffer

/-- The config the daemon starts with; `memory` is the buffer `getpass` returned.
Source: `main.c` `main`, with `CONF_EMBEDDED` -/
def loadConfig (isValidHost : Option Bytes → Bool) (confEmbedded memory : Bytes) :
    Mem (Except (List Message) Config) := do
  let key := Cursor.start memory
  if (← key.peek 0) = 0 then pure (.error [.passwordRequired])
  else Config.loadEmbedded isValidHost confEmbedded key

/-! ## The container -/

/-- The embedded text of a plain text. -/
def container (key : Key) (iv : Block) (plain : Bytes) : Bytes :=
  hexText (iv.toList ++ join (cbcBlocks key iv plain))

/-- A digit is no NUL. -/
theorem hexDigit_ne_zero (d : UInt32) : hexDigit d ≠ 0 := by
  have hall : ∀ i : Fin 16, hexLookup.get i ≠ 0 := by decide
  exact hall _

theorem hexText_ne_zero (m : Bytes) : ∀ c ∈ hexText m, c ≠ 0 := by
  intro c hc
  obtain ⟨b, -, hb⟩ := List.mem_flatMap.mp hc
  simp only [List.mem_cons, List.not_mem_nil, or_false] at hb
  rcases hb with rfl | rfl <;> exact hexDigit_ne_zero _

section container

variable {ckey : Cursor UInt8} {key : Key} (hkey : ckey.read xteaKeySize = .ok key)

include hkey

/-- **The editor writes the container**, and every access on the way stays inside its buffers. -/
theorem encrypt_eq (iv : Block) (plain : Bytes) :
    encrypt (some iv.toList) plain ckey = .ok (some (container key iv plain)) := by
  have h8 : xteaBlockSize = 8 := rfl
  -- the vector is written at the start of the ciphertext buffer, and read from there
  let room : Bytes := List.replicate (plain.length + xteaBlockSize) 0
  have hcipher : List.replicate (plain.length + xteaBlockSize * 2) (0 : UInt8) =
      List.replicate xteaBlockSize 0 ++ room := by
    rw [List.replicate_append_replicate]
    congr 1
    omega
  have hgenerate : xteaGenerateIVec (some iv.toList)
      (Cursor.start (List.replicate (plain.length + xteaBlockSize * 2) 0)) =
        .ok (0, ⟨[], iv.toList ++ room⟩) := by
    have htake : iv.toList.take xteaBlockSize = iv.toList := List.take_of_length_le (by simp)
    unfold xteaGenerateIVec
    simp only [htake]
    rw [Cursor.write_of_le _ (by simp [Cursor.start]; omega), hcipher, Mem.ok_bind,
      if_pos (by simp)]
    simp [Cursor.start, Vector.toList]
  have hblocks : (plain.length / xteaBlockSize + 1) * xteaBlockSize ≤
      plain.length + xteaBlockSize := by
    rw [Nat.succ_mul]
    have := Nat.div_mul_le_self plain.length xteaBlockSize
    omega
  have hsize : (plain.length / xteaBlockSize + 1) * xteaBlockSize ≤
      plain.length + xteaBlockSize * 2 - xteaBlockSize := by omega
  have hcbc := xteaEncryptCBC_eq hkey [] plain [0] ⟨iv.toList, room⟩
    (Cursor.read_append [] room iv) hsize (by simpa [room] using hblocks)
  -- the whole ciphertext is encoded, and not the bytes the padding did not need
  let m : Bytes := iv.toList ++ join (cbcBlocks key iv plain)
  have hlen : (plain.length / xteaBlockSize + 1) * xteaBlockSize + xteaBlockSize = m.length := by
    simp only [m, List.length_append, Vector.length_toList, length_join, length_cbcBlocks]
    ring
  have hencode : ∀ rest, hexEncode (Cursor.start (m ++ rest)) m.length
      (Cursor.start (List.replicate (m.length * 2 + 1) 0)) (m.length * 2 + 1) =
        .ok ((2 * m.length : ℕ), hexText m ++ [0]) := by
    intro rest
    have heq := hexEncode_eq m [] rest (Cursor.start (List.replicate (m.length * 2 + 1) 0))
      (show 2 * m.length + 1 ≤ m.length * 2 + 1 by omega) (by simp [Cursor.start]; omega)
    apply heq.trans
    simp [Cursor.start, Nat.mul_comm]
  simp only [encrypt]
  rw [hgenerate, Mem.ok_bind, if_neg (lt_irrefl _), Cursor.advance_append, Mem.ok_bind,
    List.nil_append, show Cursor.start (plain ++ [0]) = ⟨[], plain ++ [0]⟩ from rfl, hcbc,
    Mem.ok_bind, if_neg (Int.not_ofNat_neg _), Int.toNat_natCast, hlen]
  simp only [hencode, Mem.ok_bind, m]
  rw [if_neg (Int.not_ofNat_neg _), cstr_append, cstr_of_ne_zero (hexText_ne_zero _)]
  rfl

end container

/-! ## Any embedded text -/

/-- The texts the daemon turns away: of odd length, shorter than a vector and a block, or not made
of whole blocks. -/
def Malformed (confEmbedded : Bytes) : Prop :=
  confEmbedded.length % 2 ≠ 0 ∨ confEmbedded.length / 2 < 2 * xteaBlockSize ∨
    confEmbedded.length / 2 % xteaBlockSize ≠ 0

instance (confEmbedded : Bytes) : Decidable (Malformed confEmbedded) :=
  inferInstanceAs (Decidable (_ ∨ _ ∨ _))

/-- The text of an even number of characters is decoded into the ciphertext buffer, whatever its
characters are. -/
theorem hexDecode_embedded {conf : Bytes} (heven : conf.length % 2 = 0) :
    hexDecode (Cursor.start (conf ++ [0])) conf.length
        (Cursor.start (List.replicate (conf.length / 2 + 1) 0)) (conf.length / 2 + 1) =
      .ok ((conf.length / 2 : ℕ), decodePairs conf ++ [0]) := by
  have heq := hexDecode_eq conf [0] heven [] (Cursor.start (List.replicate (conf.length / 2 + 1) 0))
    (le_refl _) (by simp [Cursor.start])
  apply heq.trans
  simp [Cursor.start]

/-- A text of sixteen characters passes every check, and the padding is then looked for in front
of the decrypted bytes. -/
theorem Config.decryptEmbedded_sixteen {conf : Bytes} (h : conf.length = 16)
    (ckey : Cursor UInt8) : Config.decryptEmbedded conf ckey = .error .outOfBounds := by
  have hdecode := hexDecode_embedded (show conf.length % 2 = 0 by omega)
  have hlen : (decodePairs conf).length = 8 := by
    rw [length_decodePairs, h]
  let iv : Block := ⟨(decodePairs conf).toArray, hlen⟩
  have hiv : decodePairs conf = iv.toList := rfl
  rw [h, hiv] at hdecode
  simp only [Config.decryptEmbedded, Config.decryptedBytes, h]
  rw [hdecode, Mem.ok_bind]
  dsimp only
  rw [if_neg (by decide), Int.toNat_natCast, Cursor.read_start, Mem.ok_bind,
    show (Cursor.start (iv.toList ++ [0])).advance xteaBlockSize = .ok ⟨iv.toList, [0]⟩ from
      Cursor.advance_append [] _ iv, Mem.ok_bind]
  have hivec : (Cursor.start iv.toList).read xteaBlockSize = .ok iv := by
    simpa using Cursor.read_start iv []
  have hcbc : xteaDecryptCBC ⟨iv.toList, [0]⟩ (16 / 2 - xteaBlockSize)
      (Cursor.start (List.replicate (16 / 2) 0)) (16 / 2) (Cursor.start iv.toList) ckey =
        .error .outOfBounds := by
    rw [xteaDecryptCBC, if_neg (by decide), hivec, Mem.ok_bind, decryptCBCLoop, if_neg (by decide)]
    rfl
  rw [hcbc]
  rfl

/-- Malformed texts of another length are turned away. -/
theorem Config.decryptEmbedded_malformed {conf : Bytes} (h : Malformed conf)
    (h16 : conf.length ≠ 16) (ckey : Cursor UInt8) :
    Config.decryptEmbedded conf ckey = .ok none := by
  have h8 : xteaBlockSize = 8 := rfl
  by_cases heven : conf.length % 2 = 0
  · have hdecode := hexDecode_embedded heven
    simp only [Config.decryptEmbedded, Config.decryptedBytes]
    rw [hdecode, Mem.ok_bind]
    dsimp only
    by_cases hshort : conf.length / 2 < xteaBlockSize
    · rw [if_pos (by exact_mod_cast hshort)]
      rfl
    · -- the vector is there, and what follows it is not made of whole blocks
      have hrest : (conf.length / 2 - xteaBlockSize) % xteaBlockSize ≠ 0 := by
        simp only [Malformed, h8] at h hshort ⊢
        omega
      have hlen : (decodePairs conf).length = conf.length / 2 := length_decodePairs conf
      rw [if_neg (by exact_mod_cast hshort), Int.toNat_natCast]
      let iv : Block := ⟨((decodePairs conf).take xteaBlockSize).toArray, by simp; omega⟩
      have hiv : decodePairs conf ++ [0] =
          iv.toList ++ ((decodePairs conf).drop xteaBlockSize ++ [0]) := by
        have hsplit := List.take_append_drop xteaBlockSize (decodePairs conf)
        conv_lhs => rw [← hsplit]
        rw [List.append_assoc]
        rfl
      rw [hiv, Cursor.read_start, Mem.ok_bind,
        show (Cursor.start (iv.toList ++ ((decodePairs conf).drop xteaBlockSize ++ [0]))).advance
          xteaBlockSize = .ok ⟨iv.toList, (decodePairs conf).drop xteaBlockSize ++ [0]⟩ from
          Cursor.advance_append [] _ iv, Mem.ok_bind, xteaDecryptCBC_misaligned _ _ _ _ _ hrest,
        Mem.ok_bind]
      rfl
  · simp only [Config.decryptEmbedded, Config.decryptedBytes]
    rw [hexDecode_odd _ _ _ heven, Mem.ok_bind]
    rfl

theorem even_of_not_malformed {conf : Bytes} (h : ¬ Malformed conf) : conf.length % 2 = 0 := by
  simp only [Malformed, not_or, not_not] at h
  exact h.1

theorem length_ne_of_not_malformed {conf : Bytes} (h : ¬ Malformed conf) : conf.length ≠ 16 := by
  intro h16
  apply h
  rw [Malformed, h16]
  decide

/-- An embedded text that is not malformed is a vector and some blocks. -/
theorem exists_blocks_of_not_malformed {conf : Bytes} (h : ¬ Malformed conf) :
    ∃ (iv : Block) (cs : List Block), cs ≠ [] ∧ decodePairs conf = iv.toList ++ join cs := by
  have h8 : xteaBlockSize = 8 := rfl
  simp only [Malformed, not_or, not_not, not_lt] at h
  obtain ⟨-, hlen, hwhole⟩ := h
  have hbytes := length_decodePairs conf
  obtain ⟨bs, hbs⟩ := exists_join (k := xteaBlockSize) (l := decodePairs conf)
    (by decide) (by rw [hbytes]; exact Nat.dvd_of_mod_eq_zero hwhole)
  rw [hbs, length_join] at hbytes
  obtain ⟨iv, cs, rfl⟩ := List.exists_cons_of_ne_nil (l := bs) (by
    rintro rfl
    rw [List.length_nil] at hbytes
    omega)
  refine ⟨iv, cs, ?_, hbs.trans (join_cons iv cs)⟩
  rintro rfl
  rw [List.length_singleton] at hbytes
  omega

/-- The text an embedded text stands for by the book: the blocks behind the vector unchained, and
without their padding. -/
def embeddedText (key : Key) (confEmbedded : Bytes) : Option Bytes :=
  if Malformed confEmbedded then none
  else
    match blocks xteaBlockSize (decodePairs confEmbedded) with
    | [] => none
    | iv :: cs =>
        let plain := join (cbcPlain key iv cs)
        let plainLen := withoutPadding (plain.getLastD 0) plain.length
        if plainLen < 0 then none else some (plain.take plainLen.toNat)

/-- Only a text that is not malformed stands for one. -/
theorem not_malformed_of_embeddedText {key : Key} {conf text : Bytes}
    (h : embeddedText key conf = some text) : ¬ Malformed conf := by
  intro hbad
  rw [embeddedText, if_pos hbad] at h
  cases h

/-- The text of a vector and some blocks. -/
theorem embeddedText_of_blocks {conf : Bytes} (h : ¬ Malformed conf) {key : Key} {iv : Block}
    {cs : List Block} (hconf : decodePairs conf = iv.toList ++ join cs) {plain : Bytes}
    {last : UInt8} (hplain : join (cbcPlain key iv cs) = plain ++ [last]) :
    embeddedText key conf =
      if withoutPadding last (xteaBlockSize * cs.length : ℕ) < 0 then none
      else some ((plain ++ [last]).take
        (withoutPadding last (xteaBlockSize * cs.length : ℕ)).toNat) := by
  have hblocks : blocks xteaBlockSize (decodePairs conf) = iv :: cs := by
    rw [hconf, ← join_cons, blocks_join xteaBlockSize_pos]
  have hlen : (plain ++ [last]).length = xteaBlockSize * cs.length := by
    rw [← hplain, length_join, length_cbcPlain]
  rw [embeddedText, if_neg h, hblocks]
  dsimp only
  rw [hplain, hlen, List.getLastD_concat]

/-- The walk over a text and the NUL behind it. -/
theorem noControlChars_append (text rest : Bytes) :
    noControlChars (text ++ 0 :: rest) = .ok ((cstr text).all isTextChar) := by
  induction text with
  | nil => rfl
  | cons c text ih =>
      rw [List.cons_append, noControlChars]
      by_cases hc : c = 0
      · rw [if_pos hc, hc]
        rfl
      · rw [if_neg hc, ih, cstr_cons hc, List.all_cons]
        by_cases hcntrl : (iscntrl c && !isspace c) = true
        · simp [isTextChar, hcntrl]
        · simp [isTextChar, hcntrl]

/-- The length without the padding lies inside the decrypted blocks, or is an error. -/
theorem withoutPadding_lt (last : UInt8) {len : ℕ} (hlen : xteaBlockSize ≤ len) :
    withoutPadding last len = -1 ∨
      0 ≤ withoutPadding last len ∧ withoutPadding last len < len := by
  have h8 : xteaBlockSize = 8 := rfl
  unfold withoutPadding
  simp only [h8] at hlen ⊢
  split_ifs with hpad
  · exact Or.inl rfl
  · right
    push_cast at hpad
    omega

/-- The text without its padding, up to a NUL in it, when its control characters are white space. -/
theorem Config.filterPlain_of_lt (text rest : Bytes) {n : ℕ} (hn : n < text.length) :
    Config.filterPlain (some ((n : ℕ), text ++ rest)) =
      .ok (if (cstr (text.take n)).all isTextChar then some (cstr (text.take n)) else none) := by
  simp only [Config.filterPlain, Cursor.start, Int.toNat_natCast]
  rw [if_neg (Int.not_ofNat_neg n), Cursor.store_of_lt 0 (by rw [List.length_append]; omega),
    Mem.ok_bind]
  -- the terminating NUL lands inside the decrypted bytes
  simp only [List.take_append_of_le_length hn.le, noControlChars_append, cstr_append, Mem.ok_bind]
  split_ifs <;> rfl

section decryption

variable {ckey : Cursor UInt8} {key : Key} (hkey : ckey.read xteaKeySize = .ok key)

include hkey

/-- What `XTeaDecryptCBC` reports of an embedded text of whole blocks. -/
theorem Config.decryptedBytes_of_blocks {conf : Bytes} (heven : conf.length % 2 = 0) {iv : Block}
    {cs : List Block} (hcs : cs ≠ []) (hconf : decodePairs conf = iv.toList ++ join cs) :
    ∃ plain last rest, join (cbcPlain key iv cs) = plain ++ [last] ∧
      Config.decryptedBytes conf ckey =
        .ok (some
          (withoutPadding last (xteaBlockSize * cs.length : ℕ), plain ++ [last] ++ rest)) := by
  have h8 : xteaBlockSize = 8 := rfl
  have hpos : 0 < cs.length := List.length_pos_iff.mpr hcs
  have hlen : conf.length / 2 = xteaBlockSize + xteaBlockSize * cs.length := by
    rw [← length_decodePairs, hconf]
    simp
  have hdecode := hexDecode_embedded heven
  rw [hconf, List.append_assoc] at hdecode
  have hivec : (Cursor.start iv.toList).read xteaBlockSize = .ok iv := by
    simpa using Cursor.read_start iv []
  obtain ⟨plain, last, hplain, hcbc⟩ := xteaDecryptCBC_eq hkey hcs iv.toList [0]
    (Cursor.start (List.replicate (conf.length / 2) 0)) hivec
    (show xteaBlockSize * cs.length ≤ conf.length / 2 by omega) (by simp [Cursor.start]; omega)
  refine ⟨plain, last, (List.replicate (conf.length / 2) 0).drop (xteaBlockSize * cs.length),
    hplain, ?_⟩
  simp only [Config.decryptedBytes]
  rw [hdecode, Mem.ok_bind, if_neg (by push_cast; omega)]
  simp only [Int.toNat_natCast]
  rw [show (Cursor.start (iv.toList ++ (join cs ++ [0]))).read xteaBlockSize = .ok iv from
      Cursor.read_append [] _ iv, Mem.ok_bind,
    show (Cursor.start (iv.toList ++ (join cs ++ [0]))).advance xteaBlockSize =
      .ok ⟨iv.toList, join cs ++ [0]⟩ from Cursor.advance_append [] _ iv, Mem.ok_bind,
    show conf.length / 2 - xteaBlockSize = xteaBlockSize * cs.length by omega, hcbc, Mem.ok_bind]
  rfl

/-- The length and the bytes that are reported of a text. -/
theorem Config.decryptedBytes_eq {conf text : Bytes} (h : embeddedText key conf = some text) :
    ∃ rest, Config.decryptedBytes conf ckey = .ok (some ((text.length : ℕ), text ++ rest)) := by
  have hwell := not_malformed_of_embeddedText h
  obtain ⟨iv, cs, hcs, hconf⟩ := exists_blocks_of_not_malformed hwell
  obtain ⟨plain, last, rest, hplain, hbytes⟩ := Config.decryptedBytes_of_blocks hkey
    (even_of_not_malformed hwell) hcs hconf
  have hlen : (plain ++ [last]).length = xteaBlockSize * cs.length := by
    rw [← hplain, length_join, length_cbcPlain]
  rw [embeddedText_of_blocks hwell hconf hplain] at h
  split_ifs at h with hneg
  obtain ⟨n, hn⟩ := Int.eq_ofNat_of_zero_le (not_lt.mp hneg)
  have hlt := (withoutPadding_lt last (Nat.le_mul_of_pos_right xteaBlockSize
    (List.length_pos_iff.mpr hcs))).resolve_left (by omega)
  rw [hn, Int.toNat_natCast, Option.some.injEq] at h
  refine ⟨(plain ++ [last]).drop n ++ rest, ?_⟩
  rw [hbytes, hn, ← h, List.length_take, Nat.min_eq_left (by omega), ← List.append_assoc,
    List.take_append_drop]

/-- **The daemon's side by the book**: what it returns is the text up to its first NUL, when the
control characters in that are all white space. -/
theorem Config.decryptEmbedded_eq {conf : Bytes} (h16 : conf.length ≠ 16) :
    Config.decryptEmbedded conf ckey =
      .ok ((embeddedText key conf).bind fun text =>
        if (cstr text).all isTextChar then some (cstr text) else none) := by
  by_cases hbad : Malformed conf
  · rw [Config.decryptEmbedded_malformed hbad h16, embeddedText, if_pos hbad]
    rfl
  · obtain ⟨iv, cs, hcs, hconf⟩ := exists_blocks_of_not_malformed hbad
    obtain ⟨plain, last, rest, hplain, hbytes⟩ :=
      Config.decryptedBytes_of_blocks hkey (even_of_not_malformed hbad) hcs hconf
    have hlen : (plain ++ [last]).length = xteaBlockSize * cs.length := by
      rw [← hplain, length_join, length_cbcPlain]
    rw [Config.decryptEmbedded, hbytes, Mem.ok_bind,
      embeddedText_of_blocks hbad hconf hplain]
    rcases withoutPadding_lt last
      (Nat.le_mul_of_pos_right xteaBlockSize (List.length_pos_iff.mpr hcs)) with
      hneg | ⟨hnonneg, hlt⟩
    · rw [hneg]
      rfl
    · obtain ⟨n, hn⟩ := Int.eq_ofNat_of_zero_le hnonneg
      rw [hn, Config.filterPlain_of_lt _ _ (by omega), if_neg (Int.not_ofNat_neg n),
        Int.toNat_natCast]
      rfl

omit hkey in
/-- A container holds the vector, the whole blocks of the text and one more. -/
theorem length_container (key : Key) (iv : Block) (plain : Bytes) :
    (container key iv plain).length / 2 = xteaBlockSize * (plain.length / xteaBlockSize + 2) := by
  rw [← length_decodePairs, container, decodePairs_hexText, List.length_append,
    Vector.length_toList, length_join, length_cbcBlocks]
  ring

omit hkey in
/-- A container stands for its text. -/
theorem embeddedText_container (key : Key) (iv : Block) (plain : Bytes) :
    embeddedText key (container key iv plain) = some plain := by
  have hconf : decodePairs (container key iv plain) = iv.toList ++ join (cbcBlocks key iv plain) :=
    decodePairs_hexText _
  have hlen := length_container key iv plain
  have hwell : ¬ Malformed (container key iv plain) := by
    rintro (hodd | hshort | hpart)
    · exact hodd (by simp [container])
    · rw [hlen, Nat.mul_comm] at hshort
      exact absurd hshort (not_lt.mpr (Nat.mul_le_mul_right _ (Nat.le_add_left 2 _)))
    · rw [hlen, Nat.mul_mod_right] at hpart
      exact hpart rfl
  -- the last byte is the padding byte, so exactly the padding is cut off
  have hlast := getLast?_pad xteaBlockSize_pos padByte plain
  obtain ⟨front, hfront⟩ := List.getLast?_eq_some_iff.mp hlast
  have hcount : xteaBlockSize * (cbcBlocks key iv plain).length =
      plain.length + padLength xteaBlockSize plain.length := by
    rw [length_cbcBlocks, add_padLength xteaBlockSize_pos, Nat.mul_comm]
  have hplainLen : withoutPadding (padByte (padLength xteaBlockSize plain.length))
      (xteaBlockSize * (cbcBlocks key iv plain).length : ℕ) = plain.length := by
    rw [withoutPadding_padByte, hcount]
    push_cast
    ring
  rw [embeddedText_of_blocks hwell hconf ((cbcPlain_cbcBlocks key iv plain).trans hfront),
    hplainLen, if_neg (Int.not_ofNat_neg _), Int.toNat_natCast, ← hfront, pad, List.take_left]

/-- **Decrypting a container** gives its text back when the control characters of the text are all
white space, and null otherwise. -/
theorem Config.decryptEmbedded_container (iv : Block) {plain : Bytes} (hnul : ∀ c ∈ plain, c ≠ 0) :
    Config.decryptEmbedded (container key iv plain) ckey =
      .ok (if plain.all isTextChar then some plain else none) := by
  have htext := embeddedText_container key iv plain
  rw [Config.decryptEmbedded_eq hkey
    (length_ne_of_not_malformed (not_malformed_of_embeddedText htext)), htext, Option.bind_some,
    cstr_of_ne_zero hnul]

end decryption

/-- **The container round trip**: a text without NULs whose control characters are all white space
is encrypted and decrypted back under the same sixteen key bytes, and both sides stay inside their
buffers. -/
theorem Config.decryptEmbedded_encrypt (key : Key) (iv : Block) (editorRest daemonRest : Bytes)
    {plain : Bytes} (hnul : ∀ c ∈ plain, c ≠ 0)
    (htext : ∀ c ∈ plain, iscntrl c = false ∨ isspace c = true) :
    ∃ confEmbedded,
      encrypt (some iv.toList) plain (Cursor.start (key.toList ++ editorRest)) =
        .ok (some confEmbedded) ∧
      Config.decryptEmbedded confEmbedded (Cursor.start (key.toList ++ daemonRest)) =
        .ok (some plain) := by
  have hall : plain.all isTextChar = true := List.all_eq_true.mpr fun c hc => by
    rcases htext c hc with h | h <;> simp [isTextChar, h]
  refine ⟨container key iv plain, encrypt_eq (Cursor.read_start key editorRest) iv plain, ?_⟩
  rw [Config.decryptEmbedded_container (Cursor.read_start key daemonRest) iv hnul, if_pos hall]

/-- A text that fills a block, with a tab in it. -/
theorem decryptEmbedded_encrypt_tab :
    ∃ confEmbedded,
      encrypt (some (Vector.replicate 8 7 : Block).toList) (ascii "idnt\tabc")
          (Cursor.start ((Vector.replicate 16 65 : Key).toList ++ [0])) =
        .ok (some confEmbedded) ∧
      Config.decryptEmbedded confEmbedded
          (Cursor.start ((Vector.replicate 16 65 : Key).toList ++ [])) =
        .ok (some (ascii "idnt\tabc")) :=
  Config.decryptEmbedded_encrypt _ _ [0] [] (by decide) (by decide)

/-- **The daemon's side is safe on every text but those of sixteen characters**: it reads and writes
inside its buffers only, and returns null for malformed text. -/
theorem Config.decryptEmbedded_ok_iff (confEmbedded : Bytes) (key : Key) (rest : Bytes) :
    (∃ result,
      Config.decryptEmbedded confEmbedded (Cursor.start (key.toList ++ rest)) = .ok result ∧
      (Malformed confEmbedded → result = none)) ↔ confEmbedded.length ≠ 16 := by
  constructor
  · rintro ⟨result, hresult, -⟩ h16
    rw [Config.decryptEmbedded_sixteen h16] at hresult
    cases hresult
  · intro h16
    refine ⟨_, Config.decryptEmbedded_eq (Cursor.read_start key rest) h16, fun hbad => ?_⟩
    rw [embeddedText, if_pos hbad]
    rfl

/-- Sixteen zeros are not decrypted safely. -/
theorem not_decryptEmbedded_ok :
    ¬ ∀ (confEmbedded : Bytes) (key : Key),
      ∃ result, Config.decryptEmbedded confEmbedded (Cursor.start key.toList) = .ok result := by
  intro h
  obtain ⟨result, hresult⟩ := h (ascii "0000000000000000") (Vector.replicate 16 65)
  rw [Config.decryptEmbedded_sixteen (by decide)] at hresult
  cases hresult

/-! ## What the filter covers -/

/-- A string that is returned is the whole of the decrypted text: none of the bytes reported is a
control character without being white space, and none of them ends the string early. -/
def Config.FilterCovers (confEmbedded : Bytes) (key : Cursor UInt8) : Prop :=
  ∀ text, Config.decryptEmbedded confEmbedded key = .ok (some text) →
    ∃ plainLen plain, Config.decryptedBytes confEmbedded key = .ok (some (plainLen, plain)) ∧
      (∀ c ∈ plain.take plainLen.toNat, iscntrl c = false ∨ isspace c = true) ∧
      text.length = plainLen

theorem isTextChar_iff {c : UInt8} :
    isTextChar c = true ↔ iscntrl c = false ∨ isspace c = true := by
  cases hcntrl : iscntrl c <;> simp [isTextChar, hcntrl]

/-- What covers a text and what does not. -/
theorem all_isTextChar_iff {text : Bytes} (h : (cstr text).all isTextChar = true) :
    ((∀ c ∈ text, iscntrl c = false ∨ isspace c = true) ∧ (cstr text).length = text.length) ↔
      0 ∉ text := by
  constructor
  · rintro ⟨hall, -⟩ hzero
    rcases hall 0 hzero with hcntrl | hspace
    · exact absurd hcntrl (by decide)
    · exact absurd hspace (by decide)
  · intro hzero
    have hcstr : cstr text = text := cstr_of_ne_zero fun c hc heq => hzero (heq ▸ hc)
    rw [hcstr] at h ⊢
    exact ⟨fun c hc => isTextChar_iff.mp (List.all_eq_true.mp h c hc), rfl⟩

/-- The filter on a text that stands in the embedded one. -/
theorem Config.filterCovers_of_text {ckey : Cursor UInt8} {key : Key}
    (hkey : ckey.read xteaKeySize = .ok key) {conf text : Bytes}
    (htext : embeddedText key conf = some text) :
    Config.FilterCovers conf ckey ↔ 0 ∉ text ∨ (cstr text).all isTextChar = false := by
  obtain ⟨rest, hbytes⟩ := Config.decryptedBytes_eq hkey htext
  have hdecrypt := Config.decryptEmbedded_eq hkey
    (length_ne_of_not_malformed (not_malformed_of_embeddedText htext))
  rw [htext, Option.bind_some] at hdecrypt
  unfold Config.FilterCovers
  rw [hdecrypt, hbytes]
  by_cases hall : (cstr text).all isTextChar = true
  · rw [if_pos hall, ← all_isTextChar_iff hall]
    constructor
    · intro h
      obtain ⟨plainLen, plain, heq, hchars, hlen⟩ := h _ rfl
      obtain ⟨rfl, rfl⟩ := Prod.mk.inj (Option.some.inj (Except.ok.inj heq))
      rw [Int.toNat_natCast, List.take_left] at hchars
      exact Or.inl ⟨hchars, by exact_mod_cast hlen⟩
    · rintro (⟨hchars, hlen⟩ | hbad) _ ⟨⟩
      · refine ⟨_, _, rfl, ?_, by exact_mod_cast hlen⟩
        rwa [Int.toNat_natCast, List.take_left]
      · exact absurd hall (by rw [hbad]; decide)
  · rw [if_neg hall]
    exact ⟨fun _ => Or.inr (by simpa using hall), fun _ _ h => nomatch h⟩

/-- **What the filter covers**: exactly the embedded texts that stand for no text, for a text
without a NUL, or for one with a control character other than white space in front of its first
NUL. -/
theorem Config.filterCovers_iff (confEmbedded : Bytes) (key : Key) (rest : Bytes) :
    Config.FilterCovers confEmbedded (Cursor.start (key.toList ++ rest)) ↔
      ∀ text, embeddedText key confEmbedded = some text →
        0 ∉ text ∨ ∃ c ∈ cstr text, iscntrl c = true ∧ isspace c = false := by
  have hkey := Cursor.read_start key rest
  have hfront : ∀ text : Bytes, (cstr text).all isTextChar = false ↔
      ∃ c ∈ cstr text, iscntrl c = true ∧ isspace c = false := by
    intro text
    simp [isTextChar]
  cases htext : embeddedText key confEmbedded with
  | some text =>
      rw [Config.filterCovers_of_text hkey htext, hfront]
      exact ⟨fun h text' heq => Option.some.inj heq ▸ h, fun h => h text rfl⟩
  | none =>
      refine ⟨fun _ _ h => absurd h nofun, fun _ text hrun => ?_⟩
      by_cases h16 : confEmbedded.length = 16
      · rw [Config.decryptEmbedded_sixteen h16] at hrun
        cases hrun
      · rw [Config.decryptEmbedded_eq hkey h16, htext] at hrun
        cases hrun

/-- A container of a text with a NUL and a control character behind it: one of three bytes is
returned. -/
theorem not_filterCovers_nul :
    ¬ Config.FilterCovers (container (Vector.replicate 16 65) (Vector.replicate 8 7) [97, 0, 1])
      (Cursor.start ((Vector.replicate 16 65 : Key).toList ++ [0])) := by
  rw [Config.filterCovers_of_text (Cursor.read_start _ _) (embeddedText_container _ _ _)]
  decide

end Ebbnc
