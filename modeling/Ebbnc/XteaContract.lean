import Ebbnc.Lib.CString
import Ebbnc.XteaModes

/-!
# What the modes promise a caller

The two pairs of functions as a caller sees them: the length they return, what they leave at the
destination, and when they refuse. `Enciphers` and `Deciphers` say once what each pair does in
terms of a map on blocks; the promises are proved from them for both modes alike.

* **`modes_roundTrip`** — decryption gives back what encryption took, in either mode.
* **`xteaCBC_byTheBook`** — the bytes of CBC in both directions, block by block, and that nothing
  else changes.
* **`modes_respectCapacity_iff`** — the capacities encryption respects.
* **`xteaEncryptCBC_xteaDecryptCBC`** — the ciphertexts that encryption gives back.
-/

namespace Ebbnc

open Lib

/-- The length of a padded message. -/
abbrev paddedLength (n : ℕ) : ℕ := (n / xteaBlockSize + 1) * xteaBlockSize

/-- A message and its padding. -/
theorem paddedLength_eq (n : ℕ) : paddedLength n = n + padLength xteaBlockSize n :=
  (add_padLength xteaBlockSize_pos n).symm

/-- A message is shorter than its padded length. -/
theorem lt_paddedLength (n : ℕ) : n < paddedLength n := by
  rw [paddedLength_eq]
  exact Nat.lt_add_of_pos_right (padLength_pos xteaBlockSize_pos n)

/-- A message of whole blocks is padded by another one. -/
theorem paddedLength_of_mod {n : ℕ} (h : n % xteaBlockSize = 0) :
    paddedLength n = n + xteaBlockSize := by
  rw [paddedLength_eq, padLength, h, Nat.sub_zero]

/-- A function of a mode under its key: source, length of the source, destination and capacity. -/
abbrev ModeFn := Cursor UInt8 → ℕ → Cursor UInt8 → ℕ → Mem (ℤ × Bytes)

/-! ## What the functions of a mode do -/

/-- An encrypting function makes `chain` of the padded blocks of a message. It looks at the capacity
twice: for the message before the first block, and for a whole block of padding after the last. -/
structure Enciphers (encrypt : ModeFn) (chain : List Block → List Block) : Prop where
  length_chain : ∀ ps, (chain ps).length = ps.length
  refuses : ∀ src srcLen dst dstSize, dstSize < srcLen →
    encrypt src srcLen dst dstSize = .ok (-1, dst.buffer)
  overruns : ∀ ps l rest (dst : Cursor UInt8) dstSize, xteaBlockSize * ps.length ≤ dstSize →
    dstSize < xteaBlockSize * ps.length + xteaBlockSize →
    xteaBlockSize * ps.length ≤ dst.after.length →
    encrypt ⟨l, join ps ++ rest⟩ (xteaBlockSize * ps.length) dst dstSize =
      .ok (-1, dst.before ++ join (chain ps) ++ dst.after.drop (xteaBlockSize * ps.length))
  pads : ∀ m l rest (dst : Cursor UInt8) dstSize, m.length ≤ dstSize →
    (m.length % xteaBlockSize = 0 → m.length + xteaBlockSize ≤ dstSize) →
    paddedLength m.length ≤ dst.after.length →
    encrypt ⟨l, m ++ rest⟩ m.length dst dstSize =
      .ok ((paddedLength m.length : ℕ),
        dst.before ++ join (chain (blocks xteaBlockSize (padded m))) ++
          dst.after.drop (paddedLength m.length))

/-- A decrypting function makes `unchain` of the blocks of a ciphertext, and the last byte of that
decides what it returns. -/
structure Deciphers (decrypt : ModeFn) (unchain : List Block → List Block) : Prop where
  length_unchain : ∀ cs, (unchain cs).length = cs.length
  unpads : ∀ {cs plain last}, join (unchain cs) = plain ++ [last] →
    ∀ l rest (dst : Cursor UInt8) dstSize, xteaBlockSize * cs.length ≤ dstSize →
    xteaBlockSize * cs.length ≤ dst.after.length →
    decrypt ⟨l, join cs ++ rest⟩ (xteaBlockSize * cs.length) dst dstSize =
      .ok (withoutPadding last (xteaBlockSize * cs.length : ℕ),
        dst.before ++ (plain ++ [last]) ++ dst.after.drop (xteaBlockSize * cs.length))

section modes

variable {ckey ivec : Cursor UInt8} {key : Key} {iv : Block}

/-- What `XTeaEncryptECB` does. -/
theorem enciphers_ecb (hkey : ckey.read xteaKeySize = .ok key) :
    Enciphers (fun src srcLen dst dstSize => xteaEncryptECB src srcLen dst dstSize ckey)
      (List.map (encryptBlock (keyWords key))) where
  length_chain _ := List.length_map _
  refuses _ _ _ _ h := if_pos h
  overruns ps l rest dst _ := xteaEncryptECB_overruns hkey ps l rest dst
  pads m l rest dst _ := xteaEncryptECB_pads hkey l m rest dst

/-- What `XTeaEncryptCBC` does. -/
theorem enciphers_cbc (hkey : ckey.read xteaKeySize = .ok key)
    (hiv : ivec.read xteaBlockSize = .ok iv) :
    Enciphers (fun src srcLen dst dstSize => xteaEncryptCBC src srcLen dst dstSize ivec ckey)
      (cbcEncrypt xorBlock (encryptBlock (keyWords key)) iv) where
  length_chain := length_cbcEncrypt _ _ iv
  refuses _ _ _ _ h := if_pos h
  overruns ps l rest dst _ := xteaEncryptCBC_overruns hkey ps l rest dst hiv
  pads m l rest dst _ := xteaEncryptCBC_pads hkey l m rest dst hiv

/-- What `XTeaDecryptECB` does. -/
theorem deciphers_ecb (hkey : ckey.read xteaKeySize = .ok key) :
    Deciphers (fun src srcLen dst dstSize => xteaDecryptECB src srcLen dst dstSize ckey)
      (List.map (decryptBlock (keyWords key))) where
  length_unchain _ := List.length_map _
  unpads hplain l rest dst _ := xteaDecryptECB_eq hkey hplain l rest dst

/-- What `XTeaDecryptCBC` does. -/
theorem deciphers_cbc (hkey : ckey.read xteaKeySize = .ok key)
    (hiv : ivec.read xteaBlockSize = .ok iv) :
    Deciphers (fun src srcLen dst dstSize => xteaDecryptCBC src srcLen dst dstSize ivec ckey)
      (cbcDecrypt xorBlock (decryptBlock (keyWords key)) iv) where
  length_unchain := length_cbcDecrypt _ _ iv
  unpads hplain l rest dst _ := xteaDecryptCBC_of_join hkey hplain l rest dst hiv

end modes

/-! ## The round trip -/

/-- With room for the padded message, encryption returns its length, and decryption of exactly the
bytes written returns the length of the message and leaves the message at its destination. -/
def RoundTrip (encrypt decrypt : ModeFn) : Prop :=
  ∀ (m l rest : Bytes) (dst out : Cursor UInt8) (dstSize outSize : ℕ),
    paddedLength m.length ≤ dstSize → dstSize ≤ dst.after.length →
    paddedLength m.length ≤ outSize → outSize ≤ out.after.length →
    ∃ cipher : Bytes, cipher.length = paddedLength m.length ∧
      encrypt ⟨l, m ++ rest⟩ m.length dst dstSize =
        .ok ((paddedLength m.length : ℕ),
          dst.before ++ cipher ++ dst.after.drop (paddedLength m.length)) ∧
      ∀ l' rest', ∃ behind,
        decrypt ⟨l', cipher ++ rest'⟩ (paddedLength m.length) out outSize =
          .ok ((m.length : ℕ), out.before ++ m ++ behind)

section generic

variable {encrypt decrypt : ModeFn} {chain unchain : List Block → List Block}

/-- The ciphertext of a message with room for it. -/
theorem Enciphers.encrypt_eq (h : Enciphers encrypt chain) (m l rest : Bytes) (dst : Cursor UInt8)
    {dstSize : ℕ} (hsize : paddedLength m.length ≤ dstSize) (hdst : dstSize ≤ dst.after.length) :
    encrypt ⟨l, m ++ rest⟩ m.length dst dstSize =
      .ok ((paddedLength m.length : ℕ),
        dst.before ++ join (chain (blocks xteaBlockSize (padded m))) ++
          dst.after.drop (paddedLength m.length)) := by
  apply h.pads m l rest dst dstSize ((lt_paddedLength _).le.trans hsize) ?_ (hsize.trans hdst)
  intro hwhole
  rwa [← paddedLength_of_mod hwhole]

/-- The length of a ciphertext. -/
theorem Enciphers.length_cipher (h : Enciphers encrypt chain) (m : Bytes) :
    (join (chain (blocks xteaBlockSize (padded m)))).length = paddedLength m.length := by
  rw [length_join, h.length_chain, length_blocks_padded, Nat.mul_comm]

/-- **Modes whose block maps undo each other round-trip.** -/
theorem roundTrip_of_leftInverse (henc : Enciphers encrypt chain)
    (hdec : Deciphers decrypt unchain) (hinv : Function.LeftInverse unchain chain) :
    RoundTrip encrypt decrypt := by
  intro m l rest dst out dstSize outSize hsize hdst hout houtSize
  have hlen := henc.length_cipher m
  refine ⟨_, hlen, henc.encrypt_eq m l rest dst hsize hdst, fun l' rest' => ?_⟩
  -- the decrypted blocks are the padded message, whose last byte names the padding
  have hjoin : join (unchain (chain (blocks xteaBlockSize (padded m)))) = padded m := by
    obtain ⟨bs, hbs⟩ := exists_join xteaBlockSize_pos
      ⟨m.length / xteaBlockSize + 1, (length_padded m).trans (Nat.mul_comm _ _)⟩
    rw [hinv, hbs, blocks_join xteaBlockSize_pos]
  have hlast := getLast?_pad xteaBlockSize_pos padByte m
  obtain ⟨plain, hplain⟩ := List.getLast?_eq_some_iff.mp hlast
  have hcount : xteaBlockSize * (chain (blocks xteaBlockSize (padded m))).length =
      paddedLength m.length := by
    rw [← length_join, hlen]
  refine ⟨List.replicate (padLength xteaBlockSize m.length)
    (padByte (padLength xteaBlockSize m.length)) ++ out.after.drop (paddedLength m.length), ?_⟩
  rw [← hcount, hdec.unpads (hjoin.trans hplain) l' rest' out outSize (by omega) (by omega),
    ← hplain, withoutPadding_padByte, hcount, pad]
  simp [paddedLength_eq]

end generic

/-- **The round trip of both modes**: under the same key bytes, and the same initialisation vector
in CBC, wherever the two sides keep them. -/
theorem modes_roundTrip {ckey ckey' ivec ivec' : Cursor UInt8} {key : Key} {iv : Block}
    (hkey : ckey.read xteaKeySize = .ok key) (hkey' : ckey'.read xteaKeySize = .ok key)
    (hiv : ivec.read xteaBlockSize = .ok iv) (hiv' : ivec'.read xteaBlockSize = .ok iv) :
    RoundTrip (fun src srcLen dst dstSize => xteaEncryptECB src srcLen dst dstSize ckey)
        (fun src srcLen dst dstSize => xteaDecryptECB src srcLen dst dstSize ckey') ∧
      RoundTrip (fun src srcLen dst dstSize => xteaEncryptCBC src srcLen dst dstSize ivec ckey)
        (fun src srcLen dst dstSize => xteaDecryptCBC src srcLen dst dstSize ivec' ckey') := by
  constructor
  · apply roundTrip_of_leftInverse (enciphers_ecb hkey) (deciphers_ecb hkey')
    exact (show Function.LeftInverse _ _ from decryptBlock_encryptBlock (keyWords key)).list_map
  · apply roundTrip_of_leftInverse (enciphers_cbc hkey hiv) (deciphers_cbc hkey' hiv')
    exact cbcDecrypt_cbcEncrypt xorBlock_xorBlock (decryptBlock_encryptBlock _) iv

/-- A key at the end of its object, and a vector in front of other bytes. -/
theorem modes_roundTrip_sample :
    RoundTrip
        (fun src srcLen dst dstSize => xteaEncryptECB src srcLen dst dstSize
          ⟨[7], (Vector.replicate 16 65 : Key).toList ++ []⟩)
        (fun src srcLen dst dstSize => xteaDecryptECB src srcLen dst dstSize
          ⟨[], (Vector.replicate 16 65 : Key).toList ++ [0]⟩) ∧
      RoundTrip
        (fun src srcLen dst dstSize => xteaEncryptCBC src srcLen dst dstSize
          ⟨[], (Vector.replicate 8 7 : Block).toList ++ [1, 2]⟩
          ⟨[7], (Vector.replicate 16 65 : Key).toList ++ []⟩)
        (fun src srcLen dst dstSize => xteaDecryptCBC src srcLen dst dstSize
          ⟨[], (Vector.replicate 8 7 : Block).toList ++ []⟩
          ⟨[], (Vector.replicate 16 65 : Key).toList ++ [0]⟩) :=
  modes_roundTrip (Cursor.read_append _ _ _) (Cursor.read_append _ _ _)
    (Cursor.read_append _ _ _) (Cursor.read_append _ _ _)

/-! ## CBC by the book -/

/-- Encryption by the book: the bytes written are the blocks `C₁ … Cₖ` with `Cᵢ = E (Pᵢ ⊕ Cᵢ₋₁)`,
where `C₀` is the vector and `P₁ … Pₖ` are the message and `p` bytes `'0' + p`. Nothing outside of
them changes, so that a source or a vector in the same object is as it was. -/
def EncryptsByTheBook (key : Key) (iv : Block) (encrypt : ModeFn) : Prop :=
  ∀ (m l rest : Bytes) (dst : Cursor UInt8) (dstSize : ℕ),
    paddedLength m.length ≤ dstSize → dstSize ≤ dst.after.length →
    ∃ (padding : ℕ) (ps cs : List Block) (buffer : Bytes),
      padding = 8 - m.length % 8 ∧ 1 ≤ padding ∧ padding ≤ 8 ∧
      join ps = m ++ List.replicate padding (UInt8.ofNat ('0'.toNat + padding)) ∧
      cs = List.zipWith (fun p c => encryptBlock (keyWords key) (Vector.zipWith (· ^^^ ·) p c)) ps
        (iv :: cs) ∧
      cs.length = ps.length ∧
      encrypt ⟨l, m ++ rest⟩ m.length dst dstSize = .ok ((paddedLength m.length : ℕ), buffer) ∧
      buffer = dst.before ++ join cs ++ dst.after.drop (paddedLength m.length) ∧
      dst.Frame (paddedLength m.length) buffer

/-- Decryption by the book: the bytes written are the blocks `D Cᵢ ⊕ Cᵢ₋₁`, and nothing outside of
them changes. -/
def DecryptsByTheBook (key : Key) (iv : Block) (decrypt : ModeFn) : Prop :=
  ∀ (cs : List Block) (l rest : Bytes) (dst : Cursor UInt8) (dstSize : ℕ), cs ≠ [] →
    xteaBlockSize * cs.length ≤ dstSize → dstSize ≤ dst.after.length →
    ∃ (ret : ℤ) (ps : List Block) (buffer : Bytes),
      ps = List.zipWith (fun c c' =>
        Vector.zipWith (· ^^^ ·) (decryptBlock (keyWords key) c) c') cs (iv :: cs) ∧
      ps.length = cs.length ∧
      decrypt ⟨l, join cs ++ rest⟩ (xteaBlockSize * cs.length) dst dstSize = .ok (ret, buffer) ∧
      buffer = dst.before ++ join ps ++ dst.after.drop (xteaBlockSize * cs.length) ∧
      dst.Frame (xteaBlockSize * cs.length) buffer

/-- **CBC is by the book**, in both directions. -/
theorem xteaCBC_byTheBook {ckey ivec : Cursor UInt8} {key : Key} {iv : Block}
    (hkey : ckey.read xteaKeySize = .ok key) (hiv : ivec.read xteaBlockSize = .ok iv) :
    EncryptsByTheBook key iv
        (fun src srcLen dst dstSize => xteaEncryptCBC src srcLen dst dstSize ivec ckey) ∧
      DecryptsByTheBook key iv
        (fun src srcLen dst dstSize => xteaDecryptCBC src srcLen dst dstSize ivec ckey) := by
  constructor
  · intro m l rest dst dstSize hsize hdst
    obtain ⟨ps, hps⟩ := exists_join xteaBlockSize_pos
      ⟨m.length / xteaBlockSize + 1, (length_padded m).trans (Nat.mul_comm _ _)⟩
    have hlen := (enciphers_cbc hkey hiv).length_cipher m
    have hencrypt := (enciphers_cbc hkey hiv).encrypt_eq m l rest dst hsize hdst
    rw [hps, blocks_join xteaBlockSize_pos] at hlen hencrypt
    refine ⟨padLength xteaBlockSize m.length, ps, _, _, rfl, padLength_pos xteaBlockSize_pos _,
      padLength_le _ _, hps.symm, cbcEncrypt_eq_zipWith _ _ iv ps, length_cbcEncrypt _ _ iv ps,
      hencrypt, rfl, ?_⟩
    rw [← hlen]
    apply Cursor.frame_overwrite
    rw [hlen]
    exact hsize.trans hdst
  · intro cs l rest dst dstSize hcs hsize hdst
    have hlen : (join (cbcPlain key iv cs)).length = xteaBlockSize * cs.length := by simp
    obtain ⟨plain, last, hplain⟩ := exists_join_cbcPlain key iv hcs
    have hdecrypt := (deciphers_cbc hkey hiv).unpads hplain l rest dst dstSize hsize
      (hsize.trans hdst)
    rw [← hplain] at hdecrypt
    refine ⟨_, cbcPlain key iv cs, _, cbcDecrypt_eq_zipWith _ _ iv cs, length_cbcPlain key iv cs,
      hdecrypt, rfl, ?_⟩
    rw [← hlen]
    apply Cursor.frame_overwrite
    rw [hlen]
    exact hsize.trans hdst

/-- The vector in front of other bytes, as the editor keeps it. -/
theorem xteaCBC_byTheBook_sample :
    EncryptsByTheBook (Vector.replicate 16 65) (Vector.replicate 8 7)
        (fun src srcLen dst dstSize => xteaEncryptCBC src srcLen dst dstSize
          (Cursor.start ((Vector.replicate 8 7 : Block).toList ++ [1, 2]))
          (Cursor.start ((Vector.replicate 16 65 : Key).toList ++ []))) ∧
      DecryptsByTheBook (Vector.replicate 16 65) (Vector.replicate 8 7)
        (fun src srcLen dst dstSize => xteaDecryptCBC src srcLen dst dstSize
          (Cursor.start ((Vector.replicate 8 7 : Block).toList ++ [1, 2]))
          (Cursor.start ((Vector.replicate 16 65 : Key).toList ++ []))) :=
  xteaCBC_byTheBook (Cursor.read_start _ _) (Cursor.read_start _ _)

/-! ## The capacity of the destination -/

/-- What a capacity is for: where the padded message does not fit, the call fails and leaves the
destination alone; where it does, the call writes the padded length from the destination on. -/
def RespectsCapacity (srcLen : ℕ) (dst : Cursor UInt8) (dstSize : ℕ) (result : Mem (ℤ × Bytes)) :
    Prop :=
  (dstSize < paddedLength srcLen ∧ result = .ok (-1, dst.buffer)) ∨
    (paddedLength srcLen ≤ dstSize ∧ ∃ written : Bytes, written.length = paddedLength srcLen ∧
      result = .ok ((paddedLength srcLen : ℕ),
        dst.before ++ written ++ dst.after.drop (paddedLength srcLen)))

/-- The capacities that are respected: too small for the message itself, or large enough for its
padding, too. Those in between are respected for the empty message. -/
def Respected (srcLen dstSize : ℕ) : Prop :=
  dstSize < srcLen ∨ srcLen = 0 ∨ paddedLength srcLen ≤ dstSize

section capacity

variable {encrypt : ModeFn} {chain : List Block → List Block}

/-- Respected capacities. -/
theorem Enciphers.respects (h : Enciphers encrypt chain) (m l rest : Bytes) (dst : Cursor UInt8)
    {dstSize : ℕ} (hdst : dstSize ≤ dst.after.length) (hsize : Respected m.length dstSize) :
    RespectsCapacity m.length dst dstSize (encrypt ⟨l, m ++ rest⟩ m.length dst dstSize) := by
  by_cases hpad : paddedLength m.length ≤ dstSize
  · exact Or.inr ⟨hpad, _, h.length_cipher m, h.encrypt_eq m l rest dst hpad hdst⟩
  · refine Or.inl ⟨not_le.mp hpad, ?_⟩
    rcases hsize with hshort | hempty | hroom
    · exact h.refuses _ _ _ _ hshort
    · -- no block is written before the padding turns out not to fit
      obtain rfl := List.length_eq_zero_iff.mp hempty
      have hzero : chain [] = [] := List.length_eq_zero_iff.mp (h.length_chain [])
      have hover := h.overruns [] l rest dst dstSize (Nat.zero_le _) (not_le.mp hpad)
        (Nat.zero_le _)
      simpa [hzero, Cursor.buffer] using hover
    · exact absurd hroom hpad

/-- Counting up changes every byte. -/
theorem map_succ_ne {bytes : Bytes} (h : bytes ≠ []) : bytes.map (· + 1) ≠ bytes := by
  obtain ⟨c, cs, rfl⟩ := List.exists_cons_of_ne_nil h
  intro heq
  have hc : c + 1 = c := (List.cons.inj heq).1
  simp at hc

/-- A part of a block is written behind a capacity that holds the message only. -/
theorem Enciphers.not_respects_part (h : Enciphers encrypt chain) (m l rest : Bytes)
    (dst : Cursor UInt8) {dstSize : ℕ} (hpart : m.length % xteaBlockSize ≠ 0)
    (hle : m.length ≤ dstSize) (hpad : ¬ paddedLength m.length ≤ dstSize)
    (hdst : paddedLength m.length ≤ dst.after.length) :
    ¬ RespectsCapacity m.length dst dstSize (encrypt ⟨l, m ++ rest⟩ m.length dst dstSize) := by
  rintro (⟨-, heq⟩ | ⟨hfits, -⟩)
  · rw [h.pads m l rest dst dstSize hle (fun h0 => absurd h0 hpart) hdst] at heq
    have hret := (Prod.mk.inj (Except.ok.inj heq)).1
    omega
  · exact hpad hfits

/-- Whole blocks are written before the call fails for want of room for another one. -/
theorem Enciphers.not_respects_whole (h : Enciphers encrypt chain) (ps : List Block)
    (l rest : Bytes) (dst : Cursor UInt8) {dstSize : ℕ} (hle : xteaBlockSize * ps.length ≤ dstSize)
    (hpad : ¬ paddedLength (xteaBlockSize * ps.length) ≤ dstSize)
    (hdst : xteaBlockSize * ps.length ≤ dst.after.length)
    (hother : dst.after.take (xteaBlockSize * ps.length) ≠ join (chain ps)) :
    ¬ RespectsCapacity (xteaBlockSize * ps.length) dst dstSize
      (encrypt ⟨l, join ps ++ rest⟩ (xteaBlockSize * ps.length) dst dstSize) := by
  rintro (⟨hlt, heq⟩ | ⟨hfits, -⟩)
  · rw [paddedLength_of_mod (Nat.mul_mod_right _ _)] at hlt
    rw [h.overruns ps l rest dst dstSize hle hlt hdst] at heq
    have hbuffer := (Prod.mk.inj (Except.ok.inj heq)).2
    rw [Cursor.buffer, List.append_assoc] at hbuffer
    conv_rhs at hbuffer => rw [← List.take_append_drop (xteaBlockSize * ps.length) dst.after]
    have hcipher := List.append_cancel_right (List.append_cancel_left hbuffer)
    exact hother hcipher.symm
  · exact hpad hfits

/-- Every other capacity fails on some destination that has it. -/
theorem Enciphers.not_respects (h : Enciphers encrypt chain) (m l rest : Bytes) {dstSize : ℕ}
    (hsize : ¬ Respected m.length dstSize) :
    ∃ dst : Cursor UInt8, dstSize ≤ dst.after.length ∧
      ¬ RespectsCapacity m.length dst dstSize (encrypt ⟨l, m ++ rest⟩ m.length dst dstSize) := by
  simp only [Respected, not_or, not_lt] at hsize
  obtain ⟨hle, hne, hpad⟩ := hsize
  by_cases hwhole : m.length % xteaBlockSize = 0
  · have hfull : dstSize < m.length + xteaBlockSize := by
      rw [← paddedLength_of_mod hwhole]
      exact not_le.mp hpad
    obtain ⟨ps, rfl⟩ := exists_join xteaBlockSize_pos (Nat.dvd_of_mod_eq_zero hwhole)
    rw [length_join] at hle hne hpad hfull ⊢
    -- an object that differs from the ciphertext in every byte of it
    have hlen : (join (chain ps)).length = xteaBlockSize * ps.length := by
      rw [length_join, h.length_chain]
    have hother : (join (chain ps)).map (· + 1) ≠ join (chain ps) :=
      map_succ_ne (List.length_pos_iff.mp (by omega))
    refine ⟨Cursor.start ((join (chain ps)).map (· + 1) ++ List.replicate xteaBlockSize 0), ?_,
      h.not_respects_whole ps l rest _ hle hpad ?_ ?_⟩
    · simp [Cursor.start, h.length_chain]
      omega
    · simp [Cursor.start, h.length_chain]
    · rw [Cursor.start, List.take_left' (by rw [List.length_map, hlen])]
      exact hother
  · -- an object with room for the padding that the capacity has no room for
    refine ⟨Cursor.start (List.replicate (paddedLength m.length) 0), ?_,
      h.not_respects_part m l rest _ hwhole hle hpad (by simp [Cursor.start])⟩
    simp only [Cursor.start, List.length_replicate]
    exact (not_le.mp hpad).le

/-- **The capacities a mode respects**, on every destination that has them. -/
theorem Enciphers.respects_iff (h : Enciphers encrypt chain) (m l rest : Bytes) (dstSize : ℕ) :
    (∀ dst : Cursor UInt8, dstSize ≤ dst.after.length →
      RespectsCapacity m.length dst dstSize (encrypt ⟨l, m ++ rest⟩ m.length dst dstSize)) ↔
      Respected m.length dstSize := by
  constructor
  · intro hall
    by_contra hsize
    obtain ⟨dst, hdst, hnot⟩ := h.not_respects m l rest hsize
    exact hnot (hall dst hdst)
  · exact fun hsize dst hdst => h.respects m l rest dst hdst hsize

end capacity

/-- **The capacities encryption respects**, in either mode: for every source, key and vector, and on
every destination, exactly those too small for the message itself or large enough for its padding,
and all of them for the empty message. -/
theorem modes_respectCapacity_iff {ckey ivec : Cursor UInt8} {key : Key} {iv : Block}
    (hkey : ckey.read xteaKeySize = .ok key) (hiv : ivec.read xteaBlockSize = .ok iv)
    (m l rest : Bytes) (dstSize : ℕ) :
    ((∀ dst : Cursor UInt8, dstSize ≤ dst.after.length →
        RespectsCapacity m.length dst dstSize
          (xteaEncryptECB ⟨l, m ++ rest⟩ m.length dst dstSize ckey)) ↔
      dstSize < m.length ∨ m.length = 0 ∨ (m.length / 8 + 1) * 8 ≤ dstSize) ∧
    ((∀ dst : Cursor UInt8, dstSize ≤ dst.after.length →
        RespectsCapacity m.length dst dstSize
          (xteaEncryptCBC ⟨l, m ++ rest⟩ m.length dst dstSize ivec ckey)) ↔
      dstSize < m.length ∨ m.length = 0 ∨ (m.length / 8 + 1) * 8 ≤ dstSize) :=
  ⟨(enciphers_ecb hkey).respects_iff m l rest dstSize,
    (enciphers_cbc hkey hiv).respects_iff m l rest dstSize⟩

/-- One byte and a capacity of eight. -/
theorem modes_respectCapacity_sample :
    ((∀ dst : Cursor UInt8, 8 ≤ dst.after.length →
        RespectsCapacity 1 dst 8 (xteaEncryptECB ⟨[], [97] ++ []⟩ 1 dst 8
          (Cursor.start ((Vector.replicate 16 65 : Key).toList ++ [])))) ↔
      8 < 1 ∨ 1 = 0 ∨ (1 / 8 + 1) * 8 ≤ 8) ∧
    ((∀ dst : Cursor UInt8, 8 ≤ dst.after.length →
        RespectsCapacity 1 dst 8 (xteaEncryptCBC ⟨[], [97] ++ []⟩ 1 dst 8
          (Cursor.start ((Vector.replicate 8 7 : Block).toList ++ []))
          (Cursor.start ((Vector.replicate 16 65 : Key).toList ++ [])))) ↔
      8 < 1 ∨ 1 = 0 ∨ (1 / 8 + 1) * 8 ≤ 8) :=
  modes_respectCapacity_iff (Cursor.read_start _ _) (Cursor.read_start _ _) [97] [] [] 8

/-- One byte and a capacity of one, at the start of an object of eight: eight bytes are written. -/
theorem not_modes_respectCapacity :
    ¬ RespectsCapacity 1 (Cursor.start (List.replicate 8 0)) 1
        (xteaEncryptECB ⟨[], [97] ++ []⟩ 1 (Cursor.start (List.replicate 8 0)) 1
          (Cursor.start ((Vector.replicate 16 65 : Key).toList ++ []))) ∧
      ¬ RespectsCapacity 1 (Cursor.start (List.replicate 8 0)) 1
        (xteaEncryptCBC ⟨[], [97] ++ []⟩ 1 (Cursor.start (List.replicate 8 0)) 1
          (Cursor.start ((Vector.replicate 8 7 : Block).toList ++ []))
          (Cursor.start ((Vector.replicate 16 65 : Key).toList ++ []))) :=
  ⟨(enciphers_ecb (Cursor.read_start _ _)).not_respects_part [97] [] [] _ (by decide) (by decide)
      (by decide) (by decide),
    (enciphers_cbc (Cursor.read_start _ _) (Cursor.read_start _ _)).not_respects_part [97] [] [] _
      (by decide) (by decide) (by decide) (by decide)⟩

/-! ## What decryption accepts -/

section accepts

variable (key : Key) (iv : Block)

/-- Some call of `XTeaDecryptCBC` on the ciphertext `c` returns the length of `message` and leaves
`message` and `behind` at the destination. -/
def Accepts (c message behind : Bytes) : Prop :=
  ∃ (l rest : Bytes) (dst ckey ivec : Cursor UInt8) (dstSize : ℕ),
    ckey.read xteaKeySize = .ok key ∧ ivec.read xteaBlockSize = .ok iv ∧
    dstSize ≤ dst.after.length ∧ (message ++ behind).length = c.length ∧
    xteaDecryptCBC ⟨l, c ++ rest⟩ c.length dst dstSize ivec ckey =
      .ok ((message.length : ℕ), dst.before ++ (message ++ behind) ++ dst.after.drop c.length)

/-- Every call of `XTeaEncryptCBC` on `message` with room for it writes `c`, and returns its
length. -/
def Produces (message c : Bytes) : Prop :=
  ∀ (l rest : Bytes) (dst ckey ivec : Cursor UInt8) (dstSize : ℕ),
    ckey.read xteaKeySize = .ok key → ivec.read xteaBlockSize = .ok iv →
    paddedLength message.length ≤ dstSize → dstSize ≤ dst.after.length →
    xteaEncryptCBC ⟨l, message ++ rest⟩ message.length dst dstSize ivec ckey =
      .ok ((c.length : ℕ), dst.before ++ c ++ dst.after.drop c.length)

variable {key iv} {c message behind : Bytes}

/-- A result that is not negative is that of a padding of one to eight bytes. -/
theorem withoutPadding_eq_natCast {last : UInt8} {len n : ℕ}
    (h : withoutPadding last len = n) :
    ∃ padding, 1 ≤ padding ∧ padding ≤ xteaBlockSize ∧ last = padByte padding ∧
      len = n + padding := by
  have hlast : last.toNat < 256 := last.toNat_lt
  have h8 : xteaBlockSize = 8 := rfl
  unfold withoutPadding at h
  simp only [h8] at h ⊢
  split_ifs at h with hpad
  push_cast at hpad
  refine ⟨last.toNat - 48, by omega, by omega, ?_, by omega⟩
  apply UInt8.toNat_inj.mp
  rw [padByte, UInt8.toNat_ofNat', Nat.mod_eq_of_lt (by omega)]
  omega

/-- A call that returns a length had room for the source. -/
theorem le_of_xteaDecryptCBC_eq_ok {src dst ivec ckey : Cursor UInt8} {srcLen dstSize n : ℕ}
    {buffer : Bytes} (h : xteaDecryptCBC src srcLen dst dstSize ivec ckey = .ok (n, buffer)) :
    srcLen ≤ dstSize := by
  by_contra hshort
  rw [xteaDecryptCBC, if_pos (Or.inl (not_le.mp hshort))] at h
  have hret := (Prod.mk.inj (Except.ok.inj h)).1
  omega

/-- What an accepted ciphertext decrypts to, and how many bytes of it are cut off. -/
theorem Accepts.eq_join (h : Accepts key iv c message behind) (hc : c ≠ [])
    (hwhole : c.length % xteaBlockSize = 0) :
    ∃ cs : List Block, c = join cs ∧ join (cbcPlain key iv cs) = message ++ behind ∧
      behind.length = padLength xteaBlockSize message.length ∧
      behind.getLast? = some (padByte behind.length) := by
  obtain ⟨l, rest, dst, ckey, ivec, dstSize, hkey, hiv, hdst, hlen, hrun⟩ := h
  obtain ⟨cs, rfl⟩ := exists_join xteaBlockSize_pos (Nat.dvd_of_mod_eq_zero hwhole)
  rw [length_join] at hlen hrun
  have hcs : cs ≠ [] := by
    rintro rfl
    exact hc rfl
  have hsize := le_of_xteaDecryptCBC_eq_ok hrun
  obtain ⟨plain, last, hplain⟩ := exists_join_cbcPlain key iv hcs
  rw [xteaDecryptCBC_of_join hkey hplain l rest dst hiv hsize (hsize.trans hdst)] at hrun
  obtain ⟨hret, hbuffer⟩ := Prod.mk.inj (Except.ok.inj hrun)
  have htext := List.append_cancel_left (List.append_cancel_right hbuffer)
  obtain ⟨padding, hpos, hle, hlast, hcount⟩ := withoutPadding_eq_natCast hret
  have hbehind : behind.length = padding := by
    rw [List.length_append] at hlen
    omega
  refine ⟨cs, rfl, hplain.trans htext, ?_, ?_⟩
  · have h8 : xteaBlockSize = 8 := rfl
    rw [hbehind, padLength]
    simp only [h8] at hcount hle ⊢
    omega
  · obtain ⟨front, b, rfl⟩ := (List.eq_nil_or_concat behind).resolve_left (by
      rintro rfl
      simp at hbehind
      omega)
    rw [List.concat_eq_append] at htext hbehind ⊢
    rw [← List.append_assoc] at htext
    have hb := (List.cons.inj (List.append_inj' htext rfl).2).1
    rw [List.getLast?_concat, hbehind, ← hlast, hb]

/-- Ciphertexts whose last decrypted byte names the padding are accepted, whatever the bytes in
front of it are. -/
theorem accepts_of_join {cs : List Block} (hplain : join (cbcPlain key iv cs) = message ++ behind)
    (hlast : behind.getLast? = some (padByte behind.length)) (hle : behind.length ≤ xteaBlockSize) :
    Accepts key iv (join cs) message behind := by
  obtain ⟨front, hfront⟩ := List.getLast?_eq_some_iff.mp hlast
  have hlen : (message ++ behind).length = xteaBlockSize * cs.length := by
    rw [← hplain, length_join, length_cbcPlain]
  have hroom : (List.replicate (xteaBlockSize * cs.length) (0 : UInt8)).length =
      xteaBlockSize * cs.length := List.length_replicate
  have hpos : 1 ≤ behind.length := by
    rw [hfront]
    simp
  have hret : withoutPadding (padByte behind.length) (xteaBlockSize * cs.length : ℕ) =
      (message.length : ℕ) := by
    rw [withoutPadding_padByte_of_le hpos hle, ← hlen, List.length_append]
    push_cast
    ring
  refine ⟨[], [], Cursor.start (List.replicate (xteaBlockSize * cs.length) 0), _, _,
    xteaBlockSize * cs.length, Cursor.read_start key [], Cursor.read_start iv [], hroom.ge,
    by rw [hlen, length_join], ?_⟩
  have hsplit : join (cbcPlain key iv cs) =
      (message ++ front) ++ [padByte behind.length] := by
    rw [hplain, List.append_assoc]
    congr 1
  have hrun := xteaDecryptCBC_of_join (Cursor.read_start key []) hsplit [] []
    (Cursor.start (List.replicate (xteaBlockSize * cs.length) 0)) (Cursor.read_start iv []) le_rfl
    hroom.ge
  rw [hret, ← hsplit, hplain] at hrun
  rw [length_join]
  exact hrun

/-- Every call that returns a length accepts its ciphertext. -/
theorem accepts_of_ok {ckey ivec dst : Cursor UInt8} (hkey : ckey.read xteaKeySize = .ok key)
    (hiv : ivec.read xteaBlockSize = .ok iv) (hc : c ≠ []) (hwhole : c.length % xteaBlockSize = 0)
    {l rest buffer : Bytes} {dstSize n : ℕ} (hdst : dstSize ≤ dst.after.length)
    (hrun : xteaDecryptCBC ⟨l, c ++ rest⟩ c.length dst dstSize ivec ckey = .ok (n, buffer)) :
    ∃ message behind, message.length = n ∧ Accepts key iv c message behind := by
  obtain ⟨cs, rfl⟩ := exists_join xteaBlockSize_pos (Nat.dvd_of_mod_eq_zero hwhole)
  have hcs : cs ≠ [] := by
    rintro rfl
    exact hc rfl
  have hsize := le_of_xteaDecryptCBC_eq_ok hrun
  obtain ⟨plain, last, hplain⟩ := exists_join_cbcPlain key iv hcs
  have hlen : (plain ++ [last]).length = (join cs).length := by
    rw [← hplain, length_join, length_join, length_cbcPlain]
  rw [length_join] at hsize hrun hlen
  have heq := xteaDecryptCBC_of_join hkey hplain l rest dst hiv hsize (hsize.trans hdst)
  rw [heq] at hrun
  obtain ⟨padding, hpos, hle, -, hcount⟩ :=
    withoutPadding_eq_natCast (Prod.mk.inj (Except.ok.inj hrun)).1
  refine ⟨(plain ++ [last]).take n, (plain ++ [last]).drop n, ?_, l, rest, dst, ckey, ivec, dstSize,
    hkey, hiv, hdst, ?_, ?_⟩
  · rw [List.length_take]
    omega
  · rw [List.take_append_drop, hlen, length_join]
  · rw [length_join, heq, (Prod.mk.inj (Except.ok.inj hrun)).1, List.take_append_drop,
      List.length_take, Nat.min_eq_left (by omega)]

/-- A message has one ciphertext. -/
theorem Produces.unique {c' : Bytes} (h : Produces key iv message c)
    (h' : Produces key iv message c') : c = c' := by
  have hkey := Cursor.read_start key []
  have hiv := Cursor.read_start iv []
  let dst := Cursor.start (List.replicate (paddedLength message.length) (0 : UInt8))
  have hroom : dst.after.length = paddedLength message.length := List.length_replicate
  have hrun := (h [] [] dst _ _ _ hkey hiv le_rfl hroom.ge).symm.trans
    (h' [] [] dst _ _ _ hkey hiv le_rfl hroom.ge)
  obtain ⟨hlen, hbuffer⟩ := Prod.mk.inj (Except.ok.inj hrun)
  exact (List.append_inj hbuffer (by simpa using hlen)).1

/-- The ciphertext encryption makes. -/
theorem produces_cbcBlocks (key : Key) (iv : Block) (message : Bytes) :
    Produces key iv message (join (cbcBlocks key iv message)) := by
  intro l rest dst ckey ivec dstSize hkey hiv hsize hdst
  have hlen : (join (cbcBlocks key iv message)).length = paddedLength message.length :=
    (enciphers_cbc hkey hiv).length_cipher message
  rw [hlen]
  exact (enciphers_cbc hkey hiv).encrypt_eq message l rest dst hsize hdst

/-- A ciphertext is given back exactly when all of its padding is by the book. -/
theorem Accepts.produces_iff (h : Accepts key iv c message behind) (hc : c ≠ [])
    (hwhole : c.length % xteaBlockSize = 0) :
    Produces key iv message c ↔ behind = List.replicate behind.length (padByte behind.length) := by
  obtain ⟨cs, rfl, hplain, hlen, -⟩ := h.eq_join hc hwhole
  have hproduces := produces_cbcBlocks key iv message
  constructor
  · intro h
    have hblocks : cbcBlocks key iv message = cs := by
      rw [← blocks_join xteaBlockSize_pos cs, h.unique hproduces,
        blocks_join xteaBlockSize_pos]
    -- the same ciphertext has the same decryption
    have hpadded := cbcPlain_cbcBlocks key iv message
    rw [hblocks, hplain, padded, pad, ← hlen] at hpadded
    exact List.append_cancel_left hpadded
  · intro hbehind
    have hpadded : padded message = join (cbcPlain key iv cs) := by
      rw [hplain, padded, pad, ← hlen, ← hbehind]
    have hblocks : cbcBlocks key iv message = cs := by
      rw [cbcBlocks, hpadded, blocks_join xteaBlockSize_pos, cbcPlain,
        cbcEncrypt_cbcDecrypt xorBlock_xorBlock (encryptBlock_decryptBlock _)]
    rwa [hblocks] at hproduces

/-- **What encryption gives back**: a ciphertext that decryption accepts, and whose padding bytes
all name the padding, is what encryption makes of the message; so no other such ciphertext
decrypts to it. Decryption looks at the last of the padding bytes only. -/
theorem xteaEncryptCBC_xteaDecryptCBC (h : Accepts key iv c message behind) (hc : c ≠ [])
    (hwhole : c.length % xteaBlockSize = 0)
    (hbehind : behind = List.replicate behind.length (padByte behind.length)) :
    Produces key iv message c ∧
      ∀ c' behind', Accepts key iv c' message behind' → c' ≠ [] →
        c'.length % xteaBlockSize = 0 →
        behind' = List.replicate behind'.length (padByte behind'.length) → c' = c := by
  have hproduces := (h.produces_iff hc hwhole).mpr hbehind
  refine ⟨hproduces, fun c' behind' h' hc' hwhole' hbehind' => ?_⟩
  have hproduces' := (h'.produces_iff hc' hwhole').mpr hbehind'
  -- the two ciphertexts are written by the same call
  exact hproduces'.unique hproduces

end accepts

/-- The ciphertext of a message of six bytes. -/
theorem xteaEncryptCBC_xteaDecryptCBC_sample :
    Produces (Vector.replicate 16 65) (Vector.replicate 8 7) (ascii "secret")
        (join (cbcBlocks (Vector.replicate 16 65) (Vector.replicate 8 7) (ascii "secret"))) ∧
      ∀ c' behind', Accepts (Vector.replicate 16 65) (Vector.replicate 8 7) c' (ascii "secret")
          behind' → c' ≠ [] → c'.length % xteaBlockSize = 0 →
        behind' = List.replicate behind'.length (padByte behind'.length) →
        c' = join (cbcBlocks (Vector.replicate 16 65) (Vector.replicate 8 7) (ascii "secret")) := by
  have hlen : (join (cbcBlocks (Vector.replicate 16 65) (Vector.replicate 8 7)
      (ascii "secret"))).length = 8 := by
    rw [length_join, length_cbcBlocks]
    rfl
  have haccepts : Accepts (Vector.replicate 16 65) (Vector.replicate 8 7)
      (join (cbcBlocks (Vector.replicate 16 65) (Vector.replicate 8 7) (ascii "secret")))
      (ascii "secret") (ascii "22") :=
    accepts_of_join (cbcPlain_cbcBlocks _ _ _) (by decide) (by decide)
  exact xteaEncryptCBC_xteaDecryptCBC haccepts (List.length_pos_iff.mp (by omega))
    (by rw [hlen]; rfl) (by decide)

/-- The block that ends like a message of six bytes and its padding, but for the byte in front of
the last one. -/
def sloppyBlock : Block := ⟨(ascii "secretA2").toArray, by decide⟩

/-- The ciphertext of a block that is padded already. -/
def sloppyCipher : Bytes :=
  (encryptBlock (keyWords (Vector.replicate 16 65))
    (xorBlock sloppyBlock (Vector.replicate 8 7))).toList

/-- It is accepted, as is that of the message it decrypts to, which is another one. -/
theorem sloppyCipher_accepted :
    sloppyCipher ≠ [] ∧ sloppyCipher.length % xteaBlockSize = 0 ∧
      Accepts (Vector.replicate 16 65) (Vector.replicate 8 7) sloppyCipher (ascii "secret")
        (ascii "A2") ∧
      ¬ Produces (Vector.replicate 16 65) (Vector.replicate 8 7) (ascii "secret") sloppyCipher ∧
      ∃ c', c' ≠ sloppyCipher ∧ c' ≠ [] ∧ c'.length % xteaBlockSize = 0 ∧
        Accepts (Vector.replicate 16 65) (Vector.replicate 8 7) c' (ascii "secret")
          (ascii "22") := by
  have hlen : sloppyCipher.length = 8 := Vector.length_toList
  have hne : sloppyCipher ≠ [] := List.length_pos_iff.mp (by omega)
  have hwhole : sloppyCipher.length % xteaBlockSize = 0 := by rw [hlen]; rfl
  have haccepts : Accepts (Vector.replicate 16 65) (Vector.replicate 8 7) sloppyCipher
      (ascii "secret") (ascii "A2") := by
    have hcipher : sloppyCipher = join [encryptBlock (keyWords (Vector.replicate 16 65))
        (xorBlock sloppyBlock (Vector.replicate 8 7))] := (List.append_nil _).symm
    rw [hcipher]
    apply accepts_of_join _ (by decide) (by decide)
    rw [cbcPlain, cbcDecrypt, cbcDecrypt, decryptBlock_encryptBlock, xorBlock_xorBlock]
    rfl
  have hnot : ¬ Produces (Vector.replicate 16 65) (Vector.replicate 8 7) (ascii "secret")
      sloppyCipher := by
    rw [haccepts.produces_iff hne hwhole]
    decide
  refine ⟨hne, hwhole, haccepts, hnot,
    join (cbcBlocks (Vector.replicate 16 65) (Vector.replicate 8 7) (ascii "secret")),
    ?_, ?_, ?_, ?_⟩
  · intro heq
    exact hnot (heq ▸ produces_cbcBlocks _ _ _)
  · apply List.length_pos_iff.mp
    rw [length_join, length_cbcBlocks]
    decide
  · rw [length_join, Nat.mul_mod_right]
  · exact accepts_of_join (cbcPlain_cbcBlocks _ _ _) (by decide) (by decide)

end Ebbnc
