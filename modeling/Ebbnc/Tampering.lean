import Ebbnc.ConfigFormat
import Ebbnc.Embedded

/-!
# What becomes of a container that is tampered with

The embedded config is encrypted, and nothing in it tells whether it is still the one that
`makeconf` wrote. Blocks that are changed after that, by somebody who does not know the key, change
the text in a known way.

* `tamper` — one block of a container is changed; `tamper_container` — the result is a container.
* **`Config.decryptEmbedded_tamper`** — the text the daemon gets: one block is changed by as much,
  the one before it is lost, and the rest is as it was.
* `forge` — the first line of a config is turned into a comment.
* **`Config.loadEmbedded_forge`** — the daemon loads the config without its first line.
-/

namespace Ebbnc

open Lib

/-- One block of a container is changed by so much; the vector is the first of them. -/
def tamper (j : ℕ) (delta : Block) (confEmbedded : Bytes) : Bytes :=
  hexText (join ((blocks xteaBlockSize (decodePairs confEmbedded)).modify j (xorBlock · delta)))

theorem xorBlock_assoc (a b d : Block) : xorBlock a (xorBlock b d) = xorBlock (xorBlock a b) d := by
  apply Vector.ext
  intro i hi
  simp [xorBlock, UInt8.xor_assoc]

/-- What is left of the blocks of a text: one is changed, and the one before it is anything. -/
def Tampered (j : ℕ) (delta : Block) (front front' : List Block) : Prop :=
  front'.length = front.length ∧
    ∀ i, i + 1 ≠ j → front'[i]? = front[i]?.map fun p => if i = j then xorBlock p delta else p

section tamper

variable {key : Key} {iv : Block} {front : List Block} {tail : Bytes} {j : ℕ}

/-- The padded blocks of a text. -/
theorem exists_blocks_padded (front : List Block) (htail : tail.length < xteaBlockSize) :
    ∃ q : Block, q.toList = padded tail ∧
      blocks xteaBlockSize (padded (join front ++ tail)) = front ++ [q] := by
  have hlength : (padded tail).length = xteaBlockSize := by
    rw [length_padded, Nat.div_eq_of_lt htail, Nat.zero_add, Nat.one_mul]
  exact ⟨⟨(padded tail).toArray, by simpa using hlength⟩, rfl, blocks_padded front rfl⟩

/-- **A container that was tampered with is a container** of the text that was tampered with, unless
the last blocks were. -/
theorem tamper_container (htail : tail.length < xteaBlockSize) (hj : j < front.length)
    (delta : Block) :
    ∃ iv' front', Tampered j delta front front' ∧
      tamper j delta (container key iv (join front ++ tail)) =
        container key iv' (join front' ++ tail) := by
  obtain ⟨q, hq, hblocks⟩ := exists_blocks_padded front htail
  generalize hcs : cbcBlocks key iv (join front ++ tail) = cs
  have hplain : cbcPlain key iv cs = front ++ [q] := by
    rw [← hcs, cbcPlain, cbcBlocks, cbcDecrypt_cbcEncrypt xorBlock_xorBlock
      (decryptBlock_encryptBlock _), hblocks]
  have hlength : cs.length = front.length + 1 := by
    rw [← length_cbcPlain key iv cs, hplain, List.length_append, List.length_singleton]
  obtain ⟨iv', cs', hmodify⟩ : ∃ iv' cs', (iv :: cs).modify j (xorBlock · delta) = iv' :: cs' :=
    List.exists_cons_of_ne_nil (by simp)
  have hlength' : cs'.length = front.length + 1 := by
    have h := congrArg List.length hmodify
    rw [List.length_modify, List.length_cons, List.length_cons] at h
    omega
  have hchange : ∀ i, i + 1 ≠ j → (cbcPlain key iv' cs')[i]? =
      (front ++ [q])[i]?.map fun p => if i = j then xorBlock p delta else p := fun i hi => by
    rw [← hplain]
    exact getElem?_cbcDecrypt_modify xorBlock_assoc hmodify.symm hi
  generalize hfront : (cbcPlain key iv' cs').take front.length = front'
  have hall : cbcPlain key iv' cs' = front' ++ [q] := by
    have hlast := hchange front.length (by omega)
    rw [List.getElem?_append_right (Nat.le_refl _), Nat.sub_self, List.getElem?_cons_zero,
      Option.map_some, if_neg (by omega)] at hlast
    have hlt : front.length < (cbcPlain key iv' cs').length := by
      rw [length_cbcPlain]
      omega
    rw [← hfront, ← List.take_append_drop front.length (cbcPlain key iv' cs')]
    congr 1
    · simp
    · rw [List.drop_eq_getElem_cons hlt, List.drop_eq_nil_of_le (by rw [length_cbcPlain]; omega)]
      rw [List.getElem?_eq_getElem hlt] at hlast
      simpa using hlast
  have hsame : front'.length = front.length := by
    rw [← hfront, List.length_take, length_cbcPlain]
    omega
  refine ⟨iv', front', ⟨hsame, fun i hi => ?_⟩, ?_⟩
  · by_cases hlt : i < front.length
    · have h := hchange i hi
      rwa [hall, List.getElem?_append_left (by omega), List.getElem?_append_left hlt] at h
    · rw [List.getElem?_eq_none (by omega), List.getElem?_eq_none (by omega)]
      rfl
  · have hcs' : cbcBlocks key iv' (join front' ++ tail) = cs' := by
      rw [cbcBlocks, blocks_padded front' hq, ← hall]
      exact cbcEncrypt_cbcDecrypt xorBlock_xorBlock (encryptBlock_decryptBlock _) iv' cs'
    rw [tamper, container, decodePairs_hexText, hcs, ← join_cons, blocks_join xteaBlockSize_pos,
      hmodify, container, hcs', join_cons]

end tamper

/-! ## A config that is forged -/

/-- The first block of a printed config. -/
def firstBlock (idnt : Bool) : Block :=
  if idnt then ⟨(ascii "idnt=tru").toArray, by decide⟩ else ⟨(ascii "idnt=fal").toArray, by decide⟩

/-- The block that makes the first line a comment. -/
def commentBlock : Block := Vector.replicate xteaBlockSize hash

/-- The container with the first line turned into a comment, made without the key. -/
def forge (idnt : Bool) (confEmbedded : Bytes) : Bytes :=
  tamper 0 (xorBlock (firstBlock idnt) commentBlock) confEmbedded

/-- The lines of a printed config behind the first. -/
def Config.otherLines (config : Config) : List Bytes := config.saveLines.tail

/-- A printed config starts with its first block. -/
theorem Config.exists_saveBuffer (config : Config) :
    ∃ more, more ∈ [ascii "e", ascii "se"] ∧ config.saveBuffer =
      (firstBlock config.idnt).toList ++ (more ++ 10 :: config.otherLines.flatMap (· ++ [10])) := by
  have hcons : config.saveLines =
      (ascii "idnt=" ++ printBool config.idnt) :: config.otherLines := rfl
  rw [Config.saveBuffer_eq, hcons, List.flatMap_cons]
  cases config.idnt with
  | true => exact ⟨ascii "e", by decide, rfl⟩
  | false => exact ⟨ascii "se", by decide, rfl⟩

/-- The forged text loads as the config whose first line says what is the default. -/
theorem Config.loadBuffer_commented {config : Config} {more : Bytes}
    (hmore : more ∈ [ascii "e", ascii "se"]) (isValidHost : Option Bytes → Bool) (loaded : Config) :
    Config.loadBuffer isValidHost
        (commentBlock.toList ++ (more ++ 10 :: config.otherLines.flatMap (· ++ [10]))) =
        .ok (.ok loaded) ↔
      Config.loadBuffer isValidHost (Config.saveBuffer { config with idnt := true }) =
        .ok (.ok loaded) := by
  have hfeed : isEOL 10 = true := by decide
  have hlines : textLines (commentBlock.toList ++ (more ++ 10 :: config.otherLines.flatMap
      (· ++ [10]))) =
        (commentBlock.toList ++ more) :: textLines (config.otherLines.flatMap (· ++ [10])) := by
    rw [← List.append_assoc]
    refine runs_append_cons ?_ ?_ hfeed _
    · revert more
      decide
    · revert more
      decide
  have hprinted : textLines (Config.saveBuffer { config with idnt := true }) =
      ascii "idnt=true" :: textLines (config.otherLines.flatMap (· ++ [10])) := by
    have hcons : Config.saveLines { config with idnt := true } =
        ascii "idnt=true" :: config.otherLines := rfl
    rw [Config.saveBuffer_eq, hcons, List.flatMap_cons, List.append_assoc, List.singleton_append]
    exact runs_append_cons (by decide) (by decide) hfeed _
  have hhash : (commentBlock.toList ++ more).head? = some hash := rfl
  have hidnt : Config.new.loadLine (ascii "idnt=true") = some Config.new := by decide
  have hfirst : (ascii "idnt=true").head? ≠ some hash := by decide
  rw [Config.loadBuffer_eq_ok, Config.loadBuffer_eq_ok, hlines, hprinted, Config.loadAll,
    if_pos hhash, Config.loadAll, if_neg hfirst, hidnt]

theorem xorBlock_cancel (a b : Block) : xorBlock a (xorBlock a b) = b := by
  apply Vector.ext
  intro i hi
  simp only [xorBlock, Vector.getElem_zipWith]
  rw [← UInt8.xor_assoc, UInt8.xor_self, UInt8.zero_xor]

/-- With the first block changed, the others are as they were. -/
theorem Tampered.first {first delta : Block} {front front' : List Block}
    (h : Tampered 0 delta (first :: front) front') : front' = xorBlock first delta :: front := by
  apply List.ext_getElem?
  intro i
  rw [h.2 i (Nat.succ_ne_zero i)]
  cases i with
  | zero => rfl
  | succ i => simp

/-- **A config that is forged**: from the container of any config that can be saved and whose text
the daemon takes, whatever its key and vector, somebody who does not have the key but knows how the
config starts makes one that the daemon loads under the same key, as the same config with the
default of its first line. -/
theorem Config.loadEmbedded_forge {isValidHost : Option Bytes → Bool} {config : Config}
    (hsaveable : config.Saveable isValidHost) {ckey : Cursor UInt8} {key : Key}
    (hkey : ckey.read xteaKeySize = .ok key) (iv : Block)
    (htext : config.saveBuffer.all isTextChar = true) :
    Config.loadEmbedded isValidHost (container key iv config.saveBuffer) ckey =
        .ok (.ok { config with bouncers := config.bouncers.reverse }) ∧
      Config.loadEmbedded isValidHost (forge config.idnt (container key iv config.saveBuffer))
          ckey =
        .ok (.ok { config with idnt := true, bouncers := config.bouncers.reverse }) := by
  have hloads : ∀ {conf plain : Bytes}, Config.decryptEmbedded conf ckey = .ok (some plain) →
      Config.loadEmbedded isValidHost conf ckey = Config.loadBuffer isValidHost plain := by
    intro conf plain h
    rw [Config.loadEmbedded, h]
    rfl
  have hnul : ∀ c ∈ config.saveBuffer, c ≠ 0 := by
    rintro c hc rfl
    exact absurd (List.all_eq_true.mp htext 0 hc) (by decide)
  refine ⟨?_, ?_⟩
  · have hplain := Config.decryptEmbedded_container hkey iv hnul
    rw [if_pos htext] at hplain
    rw [hloads hplain, hsaveable.load_save]
  obtain ⟨more, hmore, hsaved⟩ := config.exists_saveBuffer
  generalize hrest : more ++ 10 :: config.otherLines.flatMap (· ++ [10]) = rest at hsaved
  obtain ⟨front, tail, hsplit, htail⟩ := exists_join_append xteaBlockSize_pos rest
  have hblocks : config.saveBuffer = join (firstBlock config.idnt :: front) ++ tail := by
    rw [hsaved, hsplit, join_cons, List.append_assoc]
  obtain ⟨iv', front', htampered, hcontainer⟩ := @tamper_container key iv _ tail 0 htail
    (List.length_pos_iff.mpr (List.cons_ne_nil (firstBlock config.idnt) front))
    (xorBlock (firstBlock config.idnt) commentBlock)
  have hforged : join front' ++ tail = commentBlock.toList ++ rest := by
    rw [htampered.first, xorBlock_cancel, join_cons, List.append_assoc, ← hsplit]
  have hcomment : ∀ c ∈ commentBlock.toList, c ≠ 0 ∧ isTextChar c = true := by decide
  have hclean : ∀ c ∈ commentBlock.toList ++ rest, c ≠ 0 ∧ isTextChar c = true := by
    intro c hc
    rcases List.mem_append.mp hc with hc | hc
    · exact hcomment c hc
    · have hmem : c ∈ config.saveBuffer := hsaved ▸ List.mem_append_right _ hc
      exact ⟨hnul c hmem, List.all_eq_true.mp htext c hmem⟩
  have hdecrypt := Config.decryptEmbedded_container hkey iv' fun c hc => (hclean c hc).1
  rw [if_pos (List.all_eq_true.mpr fun c hc => (hclean c hc).2)] at hdecrypt
  rw [forge, hblocks, hcontainer, hforged, hloads hdecrypt, ← hrest,
    Config.loadBuffer_commented hmore]
  have hon : Config.Saveable isValidHost { config with idnt := true } := { hsaveable with }
  exact hon.load_save

set_option maxRecDepth 4000 in
/-- The text of the sample is taken by the daemon. -/
theorem sampleConfig_clean : sampleConfig.saveBuffer.all isTextChar = true := by decide

/-- The sample has its identity line turned on. -/
theorem Config.loadEmbedded_forge_sampleConfig :
    ∃ conf, Config.loadEmbedded numericHost conf (Cursor.start (List.replicate 16 65)) =
          .ok (.ok { sampleConfig with bouncers := sampleConfig.bouncers.reverse }) ∧
      Config.loadEmbedded numericHost (forge false conf) (Cursor.start (List.replicate 16 65)) =
          .ok (.ok { sampleConfig with
            idnt := true
            bouncers := sampleConfig.bouncers.reverse }) := by
  have hkey : (Cursor.start (List.replicate 16 (65 : UInt8))).read xteaKeySize =
      .ok (Vector.replicate 16 65) := rfl
  exact ⟨_, Config.loadEmbedded_forge sampleConfig_saveable hkey (Vector.replicate 8 7)
    sampleConfig_clean⟩

end Ebbnc
