import Ebbnc.Lib.Buffer
import Mathlib.Data.List.TakeWhile
import Mathlib.Data.Nat.Digits.Lemmas
import Mathlib.Tactic.IntervalCases

/-!
# Strings and numbers of the C library

The functions of the C library that text-handling C programs are made of, as functions on the
bytes of a string without its terminating NUL. A `long` has 64 bits and an `int` 32, and the
character classes are those of the "C" locale, in which no byte from 128 on is in any class.

* `isspace`, `isdigit`, `iscntrl`, `tolower`; `strcasecmpEq`, `strncasecmpEq`.
* `strtok` with one delimiter, the saved text passed explicitly; `strtok_append`,
  `strtok_of_forall` and `strtok_eq_some` say what a token is, `strtok_split` where it stands.
* `strtol` (base 10), `scanInteger` (the `%i` and `%li` conversions of `scanf`), `printInt` (the
  `%i` conversion of `printf`); **`strtol_printInt`** and **`scanInteger_printInt`** read a printed
  number back.
-/

namespace Lib

/-- The bytes of a text of ASCII characters. -/
def ascii (s : String) : Bytes := s.toList.map fun c => UInt8.ofNat c.toNat

/-- A property of the bytes of a text is decided along the text, not for every byte there is. -/
instance decidableForallMem (p : UInt8 → Prop) [DecidablePred p] (s : Bytes) :
    Decidable (∀ c ∈ s, p c) :=
  List.decidableBAll p s

/-- The string a buffer holds: its bytes up to the first NUL. -/
def cstr (memory : Bytes) : Bytes := memory.takeWhile (· != 0)

@[simp] theorem cstr_zero_cons (s : Bytes) : cstr (0 :: s) = [] := rfl

theorem cstr_cons {c : UInt8} (hc : c ≠ 0) (s : Bytes) : cstr (c :: s) = c :: cstr s :=
  List.takeWhile_cons_of_pos (by simpa using hc)

/-- A text without NULs is the string it holds. -/
theorem cstr_of_ne_zero {s : Bytes} (h : ∀ c ∈ s, c ≠ 0) : cstr s = s :=
  List.takeWhile_eq_self_iff.mpr fun c hc => by simpa using h c hc

/-- A string holds no NUL. -/
theorem ne_zero_of_mem_cstr {memory : Bytes} {c : UInt8} (h : c ∈ cstr memory) : c ≠ 0 := by
  simpa using List.mem_takeWhile_imp h

/-- Nothing behind a NUL belongs to the string. -/
theorem cstr_append (s rest : Bytes) : cstr (s ++ 0 :: rest) = cstr s := by
  induction s with
  | nil => rfl
  | cons c s ih =>
      rw [List.cons_append]
      by_cases hc : c = 0
      · rw [hc, cstr_zero_cons, cstr_zero_cons]
      · rw [cstr_cons hc, cstr_cons hc, ih]

/-! ## Characters -/

/-- Blank, tab, newline, vertical tab, form feed, carriage return. -/
def isspace (c : UInt8) : Bool := (9 ≤ c && c ≤ 13) || c == 32

def isdigit (c : UInt8) : Bool := 48 ≤ c && c ≤ 57

def iscntrl (c : UInt8) : Bool := c < 32 || c == 127

def tolower (c : UInt8) : UInt8 := if 65 ≤ c && c ≤ 90 then c + 32 else c

/-- A line feed or a carriage return. -/
def isEOL (c : UInt8) : Bool := c == 10 || c == 13

/-- `strcasecmp(a, b) == 0`. -/
def strcasecmpEq (a b : Bytes) : Bool := a.map tolower == b.map tolower

/-- `strncasecmp(a, b, n) == 0`. -/
def strncasecmpEq (a b : Bytes) (n : ℕ) : Bool :=
  (a.take n).map tolower == (b.take n).map tolower

/-! ## Tokens -/

/-- `strtok` with one delimiter on a saved text: the next token, or null when only delimiters are
left, and the text saved for the next call. -/
def strtok (delim : UInt8) (saved : Bytes) : Option Bytes × Bytes :=
  let text := saved.dropWhile (· == delim)
  if text = [] then (none, [])
  else (some (text.takeWhile (· != delim)), (text.dropWhile (· != delim)).drop 1)

section strtok

variable {delim : UInt8}

/-- A non-empty text without the delimiter is its own first token. -/
theorem strtok_of_forall {t : Bytes} (hne : t ≠ []) (ht : ∀ c ∈ t, c ≠ delim) :
    strtok delim t = (some t, []) := by
  obtain ⟨c, cs, rfl⟩ := List.exists_cons_of_ne_nil hne
  have hc : c ≠ delim := ht c List.mem_cons_self
  have hall : ∀ x ∈ c :: cs, (x != delim) = true := fun x hx => by simpa using ht x hx
  unfold strtok
  rw [List.dropWhile_cons_of_neg (by simpa using hc), if_neg hne,
    List.takeWhile_eq_self_iff.mpr hall, List.dropWhile_eq_nil_iff.mpr hall]
  rfl

/-- A token up to a delimiter; the text after the delimiter is saved. -/
theorem strtok_append {t : Bytes} (hne : t ≠ []) (ht : ∀ c ∈ t, c ≠ delim) (rest : Bytes) :
    strtok delim (t ++ delim :: rest) = (some t, rest) := by
  obtain ⟨c, cs, rfl⟩ := List.exists_cons_of_ne_nil hne
  have hc : c ≠ delim := ht c List.mem_cons_self
  have hall : ∀ x ∈ c :: cs, (x != delim) = true := fun x hx => by simpa using ht x hx
  unfold strtok
  rw [List.cons_append, List.dropWhile_cons_of_neg (by simpa using hc), if_neg (by simp),
    ← List.cons_append, List.takeWhile_append_of_pos hall, List.dropWhile_append_of_pos hall]
  simp

@[simp] theorem strtok_nil : strtok delim [] = (none, []) := rfl

/-- A token is non-empty, free of the delimiter, and its bytes and those saved come from the
text. -/
theorem strtok_eq_some {s t rest : Bytes} (h : strtok delim s = (some t, rest)) :
    t ≠ [] ∧ (∀ c ∈ t, c ≠ delim ∧ c ∈ s) ∧ ∀ c ∈ rest, c ∈ s := by
  simp only [strtok] at h
  split_ifs at h with hnil
  · simp at h
  · rw [Prod.mk.injEq, Option.some.injEq] at h
    obtain ⟨rfl, rfl⟩ := h
    have hsub : ∀ c ∈ s.dropWhile (· == delim), c ∈ s := fun c hc =>
      (List.dropWhile_sublist _).subset hc
    refine ⟨?_, fun c hc => ⟨?_, hsub c ((List.takeWhile_sublist _).subset hc)⟩, fun c hc => ?_⟩
    · obtain ⟨c, cs, hcons⟩ := List.exists_cons_of_ne_nil hnil
      have hhead := List.dropWhile_get_zero_not (· == delim) s (by simp [hcons])
      have hc : c ≠ delim := by simpa [hcons] using hhead
      rw [hcons, List.takeWhile_cons_of_pos (by simpa using hc)]
      exact List.cons_ne_nil _ _
    · simpa using List.mem_takeWhile_imp hc
    · exact hsub c ((List.dropWhile_sublist _).subset (List.mem_of_mem_drop hc))

/-- Where a token stands: behind delimiters only, and in front of one or at the end of the text. -/
theorem strtok_split {s t rest : Bytes} (h : strtok delim s = (some t, rest)) :
    ∃ seps, (∀ c ∈ seps, c = delim) ∧
      (s = seps ++ t ++ delim :: rest ∨ (s = seps ++ t ∧ rest = [])) := by
  simp only [strtok] at h
  split_ifs at h with hnil
  · simp at h
  · rw [Prod.mk.injEq, Option.some.injEq] at h
    obtain ⟨rfl, rfl⟩ := h
    refine ⟨s.takeWhile (· == delim), fun c hc => by simpa using List.mem_takeWhile_imp hc, ?_⟩
    have hs : s.takeWhile (· == delim) ++ s.dropWhile (· == delim) = s :=
      List.takeWhile_append_dropWhile
    generalize s.dropWhile (· == delim) = text at *
    have htext : text.takeWhile (· != delim) ++ text.dropWhile (· != delim) = text :=
      List.takeWhile_append_dropWhile
    cases hrest : text.dropWhile (· != delim) with
    | nil =>
        rw [hrest, List.append_nil] at htext
        exact Or.inr ⟨by rw [htext, hs], rfl⟩
    | cons c cs =>
        have hc : c = delim := by
          have hhead := List.dropWhile_get_zero_not (· != delim) text (by simp [hrest])
          simpa [hrest] using hhead
        rw [hrest, hc] at htext
        exact Or.inl (by rw [List.append_assoc, List.drop_one, List.tail_cons, htext, hs])

end strtok

/-! ## Reading numbers -/

/-- The value of a digit in the bases up to 16; other characters are no digit in any of them. -/
def digitValue (c : UInt8) : ℕ :=
  if isdigit c then c.toNat - 48
  else if 97 ≤ c && c ≤ 102 then c.toNat - 87
  else if 65 ≤ c && c ≤ 70 then c.toNat - 55
  else 16

/-- The longest run of digits a text starts with. -/
def numeral (base : ℕ) (s : Bytes) : Bytes := s.takeWhile fun c => digitValue c < base

/-- The number a string of digits stands for. -/
def numeralValue (base : ℕ) (s : Bytes) : ℕ := s.foldl (fun v c => v * base + digitValue c) 0

/-- `LONG_MAX`. -/
def longMax : ℤ := 2 ^ 63 - 1

/-- `LONG_MIN`. -/
def longMin : ℤ := -2 ^ 63

/-- The number read, or the end of the range of `long` it lies beyond. -/
def saturate (negative : Bool) (v : ℕ) : ℤ :=
  max longMin (min (if negative then -v else v) longMax)

/-- An optional sign. -/
def splitSign : Bytes → Bool × Bytes
  | 45 :: rest => (true, rest)
  | 43 :: rest => (false, rest)
  | s => (false, s)

/-- `strtol(s, &p, 10)`: the value and the text at `p`, which is `s` itself when there is no
number. -/
def strtol (s : Bytes) : ℤ × Bytes :=
  let (negative, text) := splitSign (s.dropWhile isspace)
  let digits := numeral 10 text
  if digits = [] then (0, s)
  else (saturate negative (numeralValue 10 digits), text.drop digits.length)

/-- The `%i` and `%li` conversions of `scanf`: the value before it is stored and the text that
follows the number; `none` when there is no number. The base is guessed from the digits' prefix,
and a prefix `0x` without a digit after it is no number, as the standard says; the GNU C library
takes it as 0. -/
def scanInteger (s : Bytes) : Option (ℤ × Bytes) :=
  let (negative, text) := splitSign (s.dropWhile isspace)
  let (base, text) : ℕ × Bytes :=
    match text with
    | 48 :: x :: rest => if tolower x == 120 then (16, rest) else (8, text)
    | 48 :: [] => (8, text)
    | _ => (10, text)
  let digits := numeral base text
  if digits = [] then none
  else some (saturate negative (numeralValue base digits), text.drop digits.length)

/-- The conversion of a `long` to `int`: its low 32 bits. -/
def toInt (v : ℤ) : ℤ := v.bmod (2 ^ 32)

/-- An `int` value is left alone. -/
theorem toInt_of_mem {v : ℤ} (hlo : -2 ^ 31 ≤ v) (hhi : v < 2 ^ 31) : toInt v = v := by
  unfold toInt
  apply Int.bmod_eq_of_le <;> norm_num <;> omega

/-- What is left of a `long` is an `int`. -/
theorem toInt_mem (v : ℤ) : -2 ^ 31 ≤ toInt v ∧ toInt v < 2 ^ 31 := by
  have hlo := Int.le_bmod (x := v) (m := 2 ^ 32) (by decide)
  have hhi := Int.bmod_lt (x := v) (m := 2 ^ 32) (by decide)
  unfold toInt
  norm_num at hlo hhi ⊢
  omega

/-! ## Printing numbers -/

/-- The decimal digits of a number. -/
def decimal (n : ℕ) : Bytes :=
  if n = 0 then [48] else ((Nat.digits 10 n).map fun d => UInt8.ofNat (48 + d)).reverse

/-- The `%i` conversion of `printf`. -/
def printInt (v : ℤ) : Bytes := (if v < 0 then [45] else []) ++ decimal v.natAbs

/-- The character of a decimal digit. -/
theorem digitChar {d : ℕ} (h : d < 10) :
    digitValue (UInt8.ofNat (48 + d)) = d ∧ isdigit (UInt8.ofNat (48 + d)) = true := by
  interval_cases d <;> decide

/-- The characters of a decimal numeral are decimal digits. -/
theorem mem_decimal {n : ℕ} {c : UInt8} (h : c ∈ decimal n) :
    isdigit c = true ∧ digitValue c < 10 := by
  unfold decimal at h
  split_ifs at h with hn
  · rw [List.mem_singleton.mp h]
    decide
  · obtain ⟨d, hd, rfl⟩ := List.mem_map.mp (List.mem_reverse.mp h)
    have hlt := Nat.digits_lt_base (by decide) hd
    exact ⟨(digitChar hlt).2, (digitChar hlt).1.symm ▸ hlt⟩

theorem decimal_ne_nil (n : ℕ) : decimal n ≠ [] := by
  unfold decimal
  split_ifs with hn
  · simp
  · simpa [Nat.digits_eq_nil_iff_eq_zero] using hn

/-- A decimal numeral stands for its number. -/
theorem numeralValue_decimal (n : ℕ) : numeralValue 10 (decimal n) = n := by
  unfold decimal numeralValue
  split_ifs with hn
  · subst hn
    rfl
  · rw [List.foldl_reverse, List.foldr_map]
    have hdigits : ∀ l : List ℕ, (∀ d ∈ l, d < 10) →
        l.foldr (fun d v => v * 10 + digitValue (UInt8.ofNat (48 + d))) 0 = Nat.ofDigits 10 l := by
      intro l hl
      induction l with
      | nil => rfl
      | cons d l ih =>
          rw [List.foldr_cons, ih fun x hx => hl x (List.mem_cons_of_mem _ hx), Nat.ofDigits_cons,
            (digitChar (hl d List.mem_cons_self)).1]
          omega
    rw [hdigits _ fun d hd => Nat.digits_lt_base (by decide) hd, Nat.ofDigits_digits]

/-- Only zero's numeral starts with the digit zero. -/
theorem head?_decimal {n : ℕ} (hn : n ≠ 0) : (decimal n).head? ≠ some 48 := by
  unfold decimal
  rw [if_neg hn, List.head?_reverse, List.getLast?_map]
  have hne : Nat.digits 10 n ≠ [] := by simpa [Nat.digits_eq_nil_iff_eq_zero] using hn
  rw [List.getLast?_eq_getLast_of_ne_nil hne]
  have hpos := Nat.getLast_digit_ne_zero 10 hn
  have hlt := Nat.digits_lt_base (by decide) (List.getLast_mem hne)
  generalize (Nat.digits 10 n).getLast hne = d at hpos hlt
  interval_cases d <;> simp_all

/-- A numeral followed by nothing is read to its end. -/
theorem numeral_decimal (n : ℕ) : numeral 10 (decimal n) = decimal n :=
  List.takeWhile_eq_self_iff.mpr fun c hc => by simpa using (mem_decimal hc).2

/-- A text that starts with a numeral starts with neither white space nor a sign. -/
theorem splitSign_decimal_append (n : ℕ) (rest : Bytes) :
    splitSign ((decimal n ++ rest).dropWhile isspace) = (false, decimal n ++ rest) := by
  obtain ⟨c, cs, hcons⟩ := List.exists_cons_of_ne_nil (decimal_ne_nil n)
  have hdigit : isdigit c = true := (mem_decimal (hcons ▸ List.mem_cons_self)).1
  have hrange : 48 ≤ c ∧ c ≤ 57 := by simpa [isdigit] using hdigit
  simp only [UInt8.le_iff_toNat_le] at hrange
  have hspace : isspace c = false := by
    simp only [isspace, Bool.or_eq_false_iff, Bool.and_eq_false_iff, decide_eq_false_iff_not,
      UInt8.le_iff_toNat_le, beq_eq_false_iff_ne, ne_eq, ← UInt8.toNat_inj]
    have h13 : (13 : UInt8).toNat = 13 := rfl
    have h32 : (32 : UInt8).toNat = 32 := rfl
    have h48 : (48 : UInt8).toNat = 48 := rfl
    omega
  rw [hcons, List.cons_append, List.dropWhile_cons_of_neg (by simp [hspace])]
  have h45 : c ≠ 45 := by rintro rfl; exact absurd hrange (by decide)
  have h43 : c ≠ 43 := by rintro rfl; exact absurd hrange (by decide)
  unfold splitSign
  split
  · next heq => exact absurd (List.cons.inj heq).1 h45
  · next heq => exact absurd (List.cons.inj heq).1 h43
  · rfl

/-- A numeral starts with neither white space nor a sign. -/
theorem splitSign_decimal (n : ℕ) :
    splitSign ((decimal n).dropWhile isspace) = (false, decimal n) := by
  have h := splitSign_decimal_append n []
  rwa [List.append_nil] at h

theorem printInt_of_nonneg {v : ℤ} (h : 0 ≤ v) : printInt v = decimal v.toNat := by
  rw [printInt, if_neg (by omega), List.nil_append]
  congr 1
  omega

/-- A number in range is not saturated. -/
theorem saturate_of_le {n : ℕ} (h : (n : ℤ) ≤ longMax) : saturate false n = n := by
  have hmin : longMin ≤ 0 := by decide
  unfold saturate
  rw [if_neg (by decide), min_eq_left h, max_eq_right (by omega)]

/-- **`strtol` reads a printed number back**, to the end of the text. -/
theorem strtol_printInt {v : ℤ} (hlo : 0 ≤ v) (hhi : v ≤ longMax) :
    strtol (printInt v) = (v, []) := by
  rw [printInt_of_nonneg hlo, strtol, splitSign_decimal]
  simp only [numeral_decimal, if_neg (decimal_ne_nil _), numeralValue_decimal, List.drop_length]
  rw [saturate_of_le (by omega)]
  congr 1
  omega

/-- A positive number is read back up to what follows it, if that is no digit. -/
theorem scanInteger_printInt_append {v : ℤ} (hlo : 0 < v) (hhi : v ≤ longMax) {rest : Bytes}
    (hrest : ∀ c ∈ rest.head?, 10 ≤ digitValue c) :
    scanInteger (printInt v ++ rest) = some (v, rest) := by
  have hv : v.toNat ≠ 0 := by omega
  rw [printInt_of_nonneg hlo.le]
  unfold scanInteger
  rw [splitSign_decimal_append]
  have hhead := head?_decimal hv
  obtain ⟨c, cs, hcons⟩ := List.exists_cons_of_ne_nil (decimal_ne_nil v.toNat)
  have hc : c ≠ 48 := fun h => hhead (by rw [hcons, h]; rfl)
  have hbase : (match decimal v.toNat ++ rest with
      | 48 :: x :: text => if tolower x == 120 then (16, text) else (8, decimal v.toNat ++ rest)
      | 48 :: [] => (8, decimal v.toNat ++ rest)
      | _ => ((10 : ℕ), decimal v.toNat ++ rest)) = (10, decimal v.toNat ++ rest) := by
    rw [hcons, List.cons_append]
    split
    · next heq => exact absurd (List.cons.inj heq).1 hc
    · next heq => exact absurd (List.cons.inj heq).1 hc
    · rfl
  have hnumeral : numeral 10 (decimal v.toNat ++ rest) = decimal v.toNat := by
    have hdigits : ∀ c ∈ decimal v.toNat, decide (digitValue c < 10) = true := fun c hc => by
      simpa using (mem_decimal hc).2
    have hstop : rest.takeWhile (fun c => decide (digitValue c < 10)) = [] := by
      cases rest with
      | nil => rfl
      | cons c rest =>
          have hc := hrest c rfl
          rw [List.takeWhile_cons_of_neg (by simpa using hc)]
    rw [numeral, List.takeWhile_append_of_pos hdigits, hstop, List.append_nil]
  simp only [hbase, hnumeral, if_neg (decimal_ne_nil _), numeralValue_decimal,
    List.drop_left]
  rw [saturate_of_le (by omega)]
  congr 2
  omega

/-- **`scanf` reads a printed number back**: a numeral without leading zeros is read in base 10,
and the numeral of zero has the same value in base 8. -/
theorem scanInteger_printInt {v : ℤ} (hlo : 0 ≤ v) (hhi : v ≤ longMax) :
    scanInteger (printInt v) = some (v, []) := by
  rcases hlo.eq_or_lt with rfl | hlo
  · decide
  · have h := @scanInteger_printInt_append v hlo hhi [] nofun
    rwa [List.append_nil] at h

end Lib
