import Ebbnc.Client
import Ebbnc.Editor

/-!
# The buffer of the prompt

`promptInput` of `misc.c` over the memory of its static buffer, every access of which is checked.

* `fgets`, `stripLoop`, `promptInputBuffer` — translated from the source. The bytes in front of
  the buffer belong to other objects; a run without any in front faults when it leaves the buffer.
* `stripLoop_eols`, `stripLoop_stop` — what the loop that walks backwards does.
* **`promptInput_exact_iff`** — the buffer is not left exactly where there is no line, or the line
  holds a character other than CR and LF in front of its first NUL.
* **`promptInputBuffer_refines`** — behind a byte that is no line terminator the result is the one
  the editor is modelled with.
-/

namespace Ebbnc

open Lib

/-! ## The source -/

/-- The bytes up to a line feed, which is one of them. -/
def throughNewline (s : Bytes) : Bytes :=
  s.takeWhile (· != 10) ++ (s.dropWhile (· != 10)).take 1

/-- `fgets(s, size, stdin)`: the bytes stored in front of the NUL and what is left of the input;
null when there is nothing to read. -/
def fgets (size : ℕ) (stdin : Bytes) : Option (Bytes × Bytes) :=
  if stdin = [] then none
  else
    some (throughNewline (stdin.take (size - 1)),
      stdin.drop (throughNewline (stdin.take (size - 1))).length)

/-- `while (*p == '\n' || *p == '\r') { *p-- = '\0'; }` with `p` one byte in front of the `n`-th of
the memory.
Source: `misc.c` `promptInput` -/
def stripLoop (memory : Bytes) : ℕ → Mem Bytes
  | 0 => throw .outOfBounds
  | n + 1 => do
      let c ← (Cursor.start memory).peek n
      if isEOL c then
        let p ← (Cursor.start memory).store n 0
        stripLoop p.buffer n
      else pure memory

/-- The default value is put into the buffer when the answer is empty.
Source: `misc.c` `promptInput`, the last `if` -/
def putDefault (defaultValue : Option Bytes) (p : Cursor UInt8) : Mem Bytes :=
  match defaultValue with
  | none => pure p.buffer
  | some defaultValue => do
    if (← p.peek 0) = 0 then do
      let len := min defaultValue.length (bufsiz - 1)
      let p ← p.fill (defaultValue.take len)
      let p ← p.store len 0
      pure p.buffer
    else pure p.buffer

/-- The memory afterwards and what is left of the input; `front` are the bytes in front of the
buffer.
Source: `misc.c` `promptInput` -/
def promptInputBuffer (front : Bytes) (defaultValue : Option Bytes) (stdin : Bytes)
    (buffer : Vector UInt8 bufsiz) : Mem (Bytes × Bytes) := do
  let p : Cursor UInt8 := ⟨front, buffer.toList⟩
  match fgets bufsiz stdin with
  | none => do
    let p ← p.poke 0
    pure (p.buffer, stdin)
  | some (line, stdin) => do
    let p ← p.fill (line ++ [0])
    let memory ← stripLoop p.buffer (front.length + (cstr p.after).length)
    let memory ← putDefault defaultValue (Cursor.place memory front.length)
    pure (memory, stdin)

/-! ## The loop -/

/-- A line terminator is overwritten, and the loop goes on in front of it. -/
theorem stripLoop_eols {eols : Bytes} (h : ∀ c ∈ eols, isEOL c = true) (front rest : Bytes) :
    stripLoop (front ++ eols ++ rest) (front.length + eols.length) =
      stripLoop (front ++ List.replicate eols.length 0 ++ rest) front.length := by
  induction eols using List.reverseRecOn generalizing rest with
  | nil => simp
  | append_singleton eols c ih =>
      have hc : isEOL c = true := h c (by simp)
      have hmemory : front ++ (eols ++ [c]) ++ rest = (front ++ eols) ++ c :: rest := by simp
      have hindex : front.length + (eols ++ [c]).length = (front ++ eols).length + 1 := by
        simp [Nat.add_assoc]
      have hstart : ∀ x, Cursor.start ((front ++ eols) ++ x :: rest) =
          ⟨[], (front ++ eols) ++ x :: rest⟩ := fun _ => rfl
      rw [hmemory, hindex, stripLoop, hstart, Cursor.peek_append, Mem.ok_bind, if_pos hc,
        Cursor.store_append, Mem.ok_bind, Cursor.buffer_mk, List.nil_append, List.length_append,
        ih (fun c hc => h c (by simp [hc])), List.length_append, List.length_singleton,
        List.replicate_succ']
      simp

/-- At any other character the loop ends. -/
theorem stripLoop_stop {c : UInt8} (h : isEOL c = false) (front rest : Bytes) :
    stripLoop (front ++ c :: rest) (front.length + 1) = .ok (front ++ c :: rest) := by
  rw [stripLoop, Cursor.start, Cursor.peek_append, Mem.ok_bind, if_neg (by simp [h])]
  rfl

/-- What the loop leaves of a text in front of a NUL, when it does not run out of the text. -/
theorem stripLoop_text {text : Bytes} (h : text.rdropWhile isEOL ≠ []) (front tail : Bytes) :
    stripLoop (front ++ (text ++ 0 :: tail)) (front.length + text.length) =
      .ok (front ++ (text.rdropWhile isEOL ++
        (List.replicate (text.rtakeWhile isEOL).length 0 ++ 0 :: tail))) := by
  have hsplit : text = text.rdropWhile isEOL ++ text.rtakeWhile isEOL :=
    List.rdropWhile_append_rtakeWhile.symm
  have heols : ∀ c ∈ text.rtakeWhile isEOL, isEOL c = true := fun c => List.mem_rtakeWhile_imp
  have hlast := List.rdropWhile_last_not isEOL text h
  generalize text.rdropWhile isEOL = kept at *
  generalize text.rtakeWhile isEOL = eols at *
  subst hsplit
  have hloop := stripLoop_eols heols (front ++ kept) (0 :: tail)
  have hstop := stripLoop_stop (c := kept.getLast h) (by simpa using hlast)
    (front ++ kept.dropLast) (List.replicate eols.length 0 ++ 0 :: tail)
  have hkept : kept.dropLast ++ [kept.getLast h] = kept := List.dropLast_append_getLast h
  have hlen : kept.length = kept.dropLast.length + 1 := by
    have hpos := List.length_pos_iff.mpr h
    rw [List.length_dropLast]
    omega
  have hmemory : front ++ kept.dropLast ++
        kept.getLast h :: (List.replicate eols.length 0 ++ 0 :: tail) =
      front ++ kept ++ List.replicate eols.length 0 ++ 0 :: tail := by
    conv_rhs => rw [← hkept]
    simp
  rw [hmemory, List.length_append, Nat.add_assoc, ← hlen, ← List.length_append] at hstop
  rw [hstop, List.length_append] at hloop
  simpa [Nat.add_assoc] using hloop

/-- A text of line terminators only, or none, is run out of. -/
theorem stripLoop_run_out {text : Bytes} (h : text.rdropWhile isEOL = []) (front tail : Bytes) :
    stripLoop (front ++ (text ++ 0 :: tail)) (front.length + text.length) =
      stripLoop (front ++ (List.replicate text.length 0 ++ 0 :: tail)) front.length := by
  have heols : ∀ c ∈ text, isEOL c = true := List.rdropWhile_eq_nil_iff.mp h
  have hloop := stripLoop_eols heols front (0 :: tail)
  simpa using hloop

/-! ## The whole function -/

/-- What `fgets` stores fits into the buffer with its NUL. -/
theorem length_of_fgets {size : ℕ} {stdin line rest : Bytes}
    (h : fgets size stdin = some (line, rest)) : line.length ≤ size - 1 := by
  unfold fgets at h
  split_ifs at h
  obtain ⟨rfl, -⟩ := Prod.mk.inj (Option.some.inj h)
  have hsub : (throughNewline (stdin.take (size - 1))).length ≤ (stdin.take (size - 1)).length := by
    have hsplit := congrArg List.length
      (List.takeWhile_append_dropWhile (p := (· != 10)) (l := stdin.take (size - 1)))
    rw [List.length_append] at hsplit
    rw [throughNewline, List.length_append, List.length_take]
    omega
  rw [List.length_take] at hsub
  omega

/-- A text is its string, a NUL, and whatever follows, once a NUL is put behind it. -/
theorem exists_cstr_append (s rest : Bytes) :
    ∃ tail, s ++ 0 :: rest = cstr s ++ 0 :: tail := by
  induction s with
  | nil => exact ⟨rest, rfl⟩
  | cons c s ih =>
      by_cases hc : c = 0
      · exact ⟨s ++ 0 :: rest, by rw [hc, cstr_zero_cons]; rfl⟩
      · obtain ⟨tail, htail⟩ := ih
        exact ⟨tail, by rw [cstr_cons hc, List.cons_append, htail, List.cons_append]⟩

/-- The buffer after `fgets`: the string read, a NUL, and whatever follows. -/
theorem fill_line {stdin line rest : Bytes} (h : fgets bufsiz stdin = some (line, rest))
    (front : Bytes) (buffer : Vector UInt8 bufsiz) :
    ∃ tail, (Cursor.mk front buffer.toList).fill (line ++ [0]) =
        .ok ⟨front, cstr line ++ 0 :: tail⟩ ∧ (cstr line ++ 0 :: tail).length = bufsiz := by
  have hline := length_of_fgets h
  have hsize : bufsiz - 1 + 1 = bufsiz := rfl
  have hroom : (line ++ [0]).length ≤ (Cursor.mk front buffer.toList).after.length := by
    rw [List.length_append, List.length_singleton]
    simp only [Vector.length_toList]
    omega
  have hfill := Cursor.fill_of_le hroom
  obtain ⟨tail, htail⟩ :=
    exists_cstr_append line (buffer.toList.drop (line ++ [0]).length)
  refine ⟨tail, ?_, ?_⟩
  · rw [hfill, ← htail]
    simp
  · rw [← htail]
    simp only [List.length_append, List.length_cons, List.length_drop, Vector.length_toList,
      List.length_nil]
    omega

/-- An answer that is not empty is left alone. -/
theorem putDefault_of_ne {c : UInt8} (hc : c ≠ 0) (defaultValue : Option Bytes)
    (front tail : Bytes) :
    putDefault defaultValue ⟨front, c :: tail⟩ = .ok (front ++ c :: tail) := by
  unfold putDefault
  cases defaultValue with
  | none => rfl
  | some value =>
      have hpeek : (Cursor.mk front (c :: tail)).peek 0 = .ok c := rfl
      simp only [hpeek, Mem.ok_bind, if_neg hc]
      rfl

/-- An empty one is replaced by a default value that fits. -/
theorem putDefault_of_zero {defaultValue : Option Bytes} {tail : Bytes}
    (hlen : (0 :: tail).length = bufsiz)
    (hd : ∀ value ∈ defaultValue, value.length < bufsiz ∧ ∀ c ∈ value, c ≠ 0) (front : Bytes) :
    ∃ after, putDefault defaultValue ⟨front, 0 :: tail⟩ = .ok (front ++ after) ∧
      after.length = bufsiz ∧ cstr after = defaultValue.getD [] := by
  unfold putDefault
  cases defaultValue with
  | none => exact ⟨0 :: tail, rfl, hlen, cstr_zero_cons tail⟩
  | some value =>
      obtain ⟨hshort, hnonzero⟩ := hd value rfl
      have hpeek : (Cursor.mk front (0 :: tail)).peek 0 = .ok 0 := rfl
      have hmin : min value.length (bufsiz - 1) = value.length := min_eq_left (by omega)
      obtain ⟨x, rest, hrest⟩ := List.exists_cons_of_ne_nil (l := (0 :: tail).drop value.length)
        (by rw [← List.length_pos_iff, List.length_drop]; omega)
      have hroom : value.length ≤ (Cursor.mk front (0 :: tail)).after.length := by
        simp only [hlen]
        omega
      have hfill := Cursor.fill_of_le hroom
      simp only [hrest] at hfill
      simp only [hpeek, Mem.ok_bind, if_true, hmin, List.take_length, hfill,
        Cursor.store_append]
      refine ⟨value ++ 0 :: rest, rfl, ?_, ?_⟩
      · have hdrop := congrArg List.length hrest
        rw [List.length_drop, List.length_cons (a := x), hlen] at hdrop
        rw [List.length_append, List.length_cons]
        omega
      · rw [cstr_append, cstr_of_ne_zero hnonzero]
        rfl

/-- A line that holds more than line terminators in front of its first NUL is the answer, without
those at its end. -/
theorem promptInputBuffer_of_line {stdin line rest : Bytes}
    (h : fgets bufsiz stdin = some (line, rest)) (hkept : (cstr line).rdropWhile isEOL ≠ [])
    (front : Bytes) (defaultValue : Option Bytes) (buffer : Vector UInt8 bufsiz) :
    ∃ after, promptInputBuffer front defaultValue stdin buffer = .ok (front ++ after, rest) ∧
      after.length = bufsiz ∧ cstr after = (cstr line).rdropWhile isEOL := by
  obtain ⟨tail, hfill, hlen⟩ := fill_line h front buffer
  have hstring : cstr (cstr line ++ 0 :: tail) = cstr line := by
    rw [cstr_append, cstr_of_ne_zero fun c => ne_zero_of_mem_cstr]
  have hloop := stripLoop_text hkept front tail
  have hsub : ∀ c ∈ (cstr line).rdropWhile isEOL, c ≠ 0 := fun c hc =>
    ne_zero_of_mem_cstr ((List.rdropWhile_prefix isEOL _).subset hc)
  have hlength : (cstr line).length =
      ((cstr line).rdropWhile isEOL).length + ((cstr line).rtakeWhile isEOL).length := by
    rw [← List.length_append, List.rdropWhile_append_rtakeWhile]
  generalize (cstr line).rdropWhile isEOL = kept at *
  obtain ⟨c, cs, rfl⟩ := List.exists_cons_of_ne_nil hkept
  have hplace : ∀ after : Bytes, Cursor.place (front ++ after) front.length = ⟨front, after⟩ := by
    intro after
    simp [Cursor.place]
  refine ⟨c :: cs ++ (List.replicate ((cstr line).rtakeWhile isEOL).length 0 ++ 0 :: tail), ?_, ?_,
    ?_⟩
  · simp only [promptInputBuffer, h, hfill, Mem.ok_bind, Cursor.buffer_mk, hstring, hloop, hplace,
      List.cons_append, putDefault_of_ne (hsub c List.mem_cons_self)]
    rfl
  · simp only [List.length_append, List.length_cons, List.length_replicate] at hlen hlength ⊢
    omega
  · cases hn : ((cstr line).rtakeWhile isEOL).length with
    | zero => rw [List.replicate_zero, List.nil_append, cstr_append, cstr_of_ne_zero hsub]
    | succ n =>
        rw [List.replicate_succ]
        exact (cstr_append (c :: cs) (List.replicate n 0 ++ 0 :: tail)).trans (cstr_of_ne_zero hsub)

/-- On any other line the loop goes on with what is in front of the buffer. -/
theorem promptInputBuffer_of_eols {stdin line rest : Bytes}
    (h : fgets bufsiz stdin = some (line, rest)) (hnone : (cstr line).rdropWhile isEOL = [])
    (front : Bytes) (defaultValue : Option Bytes) (buffer : Vector UInt8 bufsiz) :
    ∃ tail, (0 :: tail).length = bufsiz ∧
      promptInputBuffer front defaultValue stdin buffer = (do
        let memory ← stripLoop (front ++ 0 :: tail) front.length
        let memory ← putDefault defaultValue (Cursor.place memory front.length)
        pure (memory, rest)) := by
  obtain ⟨tail, hfill, hlen⟩ := fill_line h front buffer
  have hstring : cstr (cstr line ++ 0 :: tail) = cstr line := by
    rw [cstr_append, cstr_of_ne_zero fun c => ne_zero_of_mem_cstr]
  have hloop := stripLoop_run_out hnone front tail
  obtain ⟨tail', htail⟩ : ∃ tail', List.replicate (cstr line).length 0 ++ 0 :: tail =
      0 :: tail' := by
    cases (cstr line).length with
    | zero => exact ⟨tail, rfl⟩
    | succ n => exact ⟨_, rfl⟩
  refine ⟨tail', ?_, ?_⟩
  · rw [← htail, ← hlen]
    simp
  · rw [htail] at hloop
    simp only [promptInputBuffer, h, hfill, Mem.ok_bind, Cursor.buffer_mk, hstring, hloop]

/-! ## When the buffer is not left -/

/-- The answer to a line: its string without the line terminators at its end, or the default value
when that is empty and there is one. -/
def answer (defaultValue : Option Bytes) (line : Bytes) : Bytes :=
  if (cstr line).rdropWhile isEOL = [] then defaultValue.getD []
  else (cstr line).rdropWhile isEOL

/-- What `promptInput` is to do: touch nothing outside of its buffer, and leave the answer to the
line there, or the empty string when there is no line. -/
def StaysAndStrips (defaultValue : Option Bytes) (stdin : Bytes)
    (buffer : Vector UInt8 bufsiz) : Prop :=
  ∃ after rest, promptInputBuffer [] defaultValue stdin buffer = .ok (after, rest) ∧
    after.length = bufsiz ∧
    match fgets bufsiz stdin with
    | none => cstr after = []
    | some (line, _) => cstr after = answer defaultValue line

/-- The line holds a character other than CR and LF in front of its first NUL. -/
def HasText (line : Bytes) : Prop := ∃ c ∈ cstr line, isEOL c = false

/-- Such a line is one the loop leaves something of. -/
theorem hasText_iff {line : Bytes} : HasText line ↔ (cstr line).rdropWhile isEOL ≠ [] := by
  rw [ne_eq, List.rdropWhile_eq_nil_iff]
  unfold HasText
  push Not
  simp

/-- At the end of the input the answer is empty. -/
theorem promptInputBuffer_of_end {stdin : Bytes} (h : fgets bufsiz stdin = none) (front : Bytes)
    (defaultValue : Option Bytes) (buffer : Vector UInt8 bufsiz) :
    ∃ after, promptInputBuffer front defaultValue stdin buffer = .ok (front ++ after, stdin) ∧
      after.length = bufsiz ∧ cstr after = [] := by
  obtain ⟨x, rest, hbuffer⟩ := List.exists_cons_of_ne_nil (l := buffer.toList)
    (by rw [← List.length_pos_iff, Vector.length_toList]; decide)
  refine ⟨0 :: rest, ?_, ?_, cstr_zero_cons rest⟩
  · simp only [promptInputBuffer, h, hbuffer, Cursor.poke_cons, Mem.ok_bind]
    rfl
  · have hlen := congrArg List.length hbuffer
    rwa [Vector.length_toList, List.length_cons, ← List.length_cons (a := 0), eq_comm] at hlen

/-- **When the buffer is not left**: at the end of the input, and on the lines with a character
other than CR and LF in front of their first NUL. On every other line the loop looks at the byte in
front of the buffer. -/
theorem promptInput_exact_iff (defaultValue : Option Bytes) (stdin : Bytes)
    (buffer : Vector UInt8 bufsiz) :
    StaysAndStrips defaultValue stdin buffer ↔
      ∀ line rest, fgets bufsiz stdin = some (line, rest) → HasText line := by
  unfold StaysAndStrips
  rcases hline : fgets bufsiz stdin with _ | ⟨line, rest⟩
  · obtain ⟨after, hrun, hlen, hempty⟩ := promptInputBuffer_of_end hline [] defaultValue buffer
    refine ⟨fun _ line rest h => ?_, fun _ => ⟨after, stdin, hrun, hlen, hempty⟩⟩
    cases h
  · constructor
    · rintro ⟨after, rest', hrun, -, -⟩ _ _ ⟨rfl⟩
      rw [hasText_iff]
      intro hnone
      obtain ⟨tail, -, heq⟩ := promptInputBuffer_of_eols hline hnone [] defaultValue buffer
      rw [hrun, List.length_nil, stripLoop] at heq
      cases heq
    · intro h
      have hkept := hasText_iff.mp (h line rest rfl)
      obtain ⟨after, hrun, hlen, hstring⟩ :=
        promptInputBuffer_of_line hline hkept [] defaultValue buffer
      refine ⟨after, rest, hrun, hlen, ?_⟩
      simp only [hstring, answer, if_neg hkept]

/-- An empty line makes the loop leave the buffer, whatever the default value. -/
theorem not_promptInput_exact :
    (∀ defaultValue buffer, promptInputBuffer [] defaultValue (ascii "\n") buffer =
      .error .outOfBounds) ∧
    ¬ ∀ defaultValue stdin buffer, StaysAndStrips defaultValue stdin buffer := by
  have hline : fgets bufsiz (ascii "\n") = some (ascii "\n", []) := by decide
  have hnone : (cstr (ascii "\n")).rdropWhile isEOL = [] := by decide
  have hfault : ∀ defaultValue buffer, promptInputBuffer [] defaultValue (ascii "\n") buffer =
      .error .outOfBounds := by
    intro defaultValue buffer
    obtain ⟨tail, -, heq⟩ := promptInputBuffer_of_eols hline hnone [] defaultValue buffer
    rw [heq, List.length_nil, stripLoop]
    rfl
  refine ⟨hfault, fun h => ?_⟩
  obtain ⟨after, rest, hrun, -⟩ := h none (ascii "\n") (Vector.replicate bufsiz 0)
  rw [hfault] at hrun
  cases hrun

/-! ## The answers of the editor -/

/-- **The result behind a byte that is no line terminator** is the one the editor is modelled with,
and the bytes in front of the buffer are as they were. -/
theorem promptInputBuffer_refines {b : UInt8} (hb : isEOL b = false) (front : Bytes)
    {defaultValue : Option Bytes}
    (hd : ∀ value ∈ defaultValue, value.length < bufsiz ∧ ∀ c ∈ value, c ≠ 0)
    (stdin : Bytes) (buffer : Vector UInt8 bufsiz) :
    ∃ after rest, promptInputBuffer (front ++ [b]) defaultValue stdin buffer =
        .ok (front ++ [b] ++ after, rest) ∧
      after.length = bufsiz ∧
      cstr after = promptInput defaultValue ((fgets bufsiz stdin).map Prod.fst) := by
  rcases hline : fgets bufsiz stdin with _ | ⟨line, rest⟩
  · obtain ⟨after, hrun, hlen, hempty⟩ :=
      promptInputBuffer_of_end hline (front ++ [b]) defaultValue buffer
    exact ⟨after, stdin, hrun, hlen, hempty⟩
  · by_cases hkept : (cstr line).rdropWhile isEOL = []
    · obtain ⟨tail, hlen, heq⟩ :=
        promptInputBuffer_of_eols hline hkept (front ++ [b]) defaultValue buffer
      obtain ⟨after, hput, hafter, hstring⟩ := putDefault_of_zero hlen hd (front ++ [b])
      have hstop := stripLoop_stop hb front (0 :: tail)
      have hmemory : front ++ [b] ++ 0 :: tail = front ++ b :: 0 :: tail := by simp
      have hplace : Cursor.place (front ++ b :: 0 :: tail) (front ++ [b]).length =
          ⟨front ++ [b], 0 :: tail⟩ := by
        rw [← hmemory, Cursor.place, List.take_left, List.drop_left]
      refine ⟨after, rest, ?_, hafter, ?_⟩
      · rw [heq, hmemory, show (front ++ [b]).length = front.length + 1 by simp, hstop, Mem.ok_bind,
          show front.length + 1 = (front ++ [b]).length by simp, hplace, hput]
        rfl
      · rw [hstring, Option.map_some, promptInput]
        simp only [hkept, if_true]
    · obtain ⟨after, hrun, hlen, hstring⟩ :=
        promptInputBuffer_of_line hline hkept (front ++ [b]) defaultValue buffer
      refine ⟨after, rest, hrun, hlen, ?_⟩
      rw [hstring, Option.map_some, promptInput]
      simp only [if_neg hkept]

/-- The default values of the editor fit into the buffer. -/
theorem Editor.Stage.defaultValue_fits (stage : Editor.Stage) :
    ∀ value ∈ stage.defaultValue, value.length < bufsiz ∧ ∀ c ∈ value, c ≠ 0 := by
  cases stage <;> intro value hvalue <;> cases hvalue <;> decide

end Ebbnc
