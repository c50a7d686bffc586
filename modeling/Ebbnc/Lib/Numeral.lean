import Ebbnc.Lib.CString

/-!
# Decimal numerals and what the C library reads of them

* `Numeral` — a complete decimal numeral and the number it stands for, of any size.
* **`strtol_of_numeral`**, `exists_numeral_of_strtol` — `strtol` reads exactly the numerals to
  their end, moved into the range of `long`.
* `Plain` — the numerals that also read the same when the base is guessed;
  **`plain_iff_scanInteger`** — the `%li` conversion of `scanf` gives the number a numeral stands
  for exactly when it is plain.
-/

namespace Lib

/-! ## Numerals -/

/-- A complete decimal numeral: white space, at most one sign, digits to the end, and the number
they stand for. -/
def Numeral (s : Bytes) (v : ℤ) : Prop :=
  ∃ blanks sign digits : Bytes, s = blanks ++ sign ++ digits ∧
    (∀ c ∈ blanks, isspace c = true) ∧ (sign = [] ∨ sign = [43] ∨ sign = [45]) ∧
    digits ≠ [] ∧ (∀ c ∈ digits, isdigit c = true) ∧
    v = if sign = [45] then -(numeralValue 10 digits : ℤ) else numeralValue 10 digits

/-- A number moved into the range of `long`. -/
def clampLong (v : ℤ) : ℤ := max longMin (min v longMax)

theorem saturate_eq (negative : Bool) (n : ℕ) :
    saturate negative n = clampLong (if negative then -(n : ℤ) else n) := rfl

theorem clampLong_of_mem {v : ℤ} (hlo : longMin ≤ v) (hhi : v ≤ longMax) : clampLong v = v := by
  rw [clampLong, min_eq_left hhi, max_eq_right hlo]

theorem clampLong_mem (v : ℤ) : longMin ≤ clampLong v ∧ clampLong v ≤ longMax := by
  have hrange : longMin ≤ longMax := by decide
  exact ⟨le_max_left _ _, max_le hrange (min_le_right _ _)⟩

/-- Moving into the range goes towards zero. -/
theorem clampLong_towards_zero (v : ℤ) :
    (0 ≤ v → clampLong v ≤ v) ∧ (v ≤ 0 → v ≤ clampLong v) := by
  have hmin : longMin ≤ 0 := by decide
  have hmax : 0 ≤ longMax := by decide
  unfold clampLong
  constructor <;> intro h <;> omega

/-- Decimal digits are the characters with a value below ten. -/
theorem isdigit_iff (c : UInt8) : isdigit c = true ↔ digitValue c < 10 := by
  revert c
  apply forall_byte
  decide +kernel

/-- Neither a digit nor a sign is white space. -/
theorem isspace_of_isdigit {c : UInt8} (h : isdigit c = true) :
    isspace c = false ∧ c ≠ 45 ∧ c ≠ 43 := by
  revert c
  apply forall_byte
  decide +kernel

/-- A digit is no `x`, in upper or lower case. -/
theorem tolower_ne_of_isdigit {c : UInt8} (h : isdigit c = true) :
    ¬ (tolower c == 120) = true := by
  revert c
  apply forall_byte
  decide +kernel

/-- What `splitSign` takes off a text. -/
theorem splitSign_spec (s : Bytes) : ∃ sign, s = sign ++ (splitSign s).2 ∧
    (sign = [] ∨ sign = [43] ∨ sign = [45]) ∧
    ((splitSign s).1 = true ↔ sign = [45]) := by
  unfold splitSign
  split
  · next rest => exact ⟨[45], rfl, by simp, by simp⟩
  · next rest => exact ⟨[43], rfl, by simp, by simp⟩
  · exact ⟨[], rfl, by simp, by simp⟩

/-- The sign of a numeral is taken off. -/
theorem splitSign_append {sign digits : Bytes} (hsign : sign = [] ∨ sign = [43] ∨ sign = [45])
    (hne : digits ≠ []) (hdigits : ∀ c ∈ digits, isdigit c = true) :
    splitSign (sign ++ digits) = (decide (sign = [45]), digits) := by
  obtain ⟨c, cs, rfl⟩ := List.exists_cons_of_ne_nil hne
  obtain ⟨-, h45, h43⟩ := isspace_of_isdigit (hdigits c List.mem_cons_self)
  rcases hsign with rfl | rfl | rfl
  · rw [List.nil_append]
    unfold splitSign
    split
    · next heq => exact absurd (List.cons.inj heq).1 h45
    · next heq => exact absurd (List.cons.inj heq).1 h43
    · rfl
  · rfl
  · rfl

/-- A numeral as the readers see it: digits to the end, once white space and the sign are off. -/
theorem numeral_iff {s : Bytes} {v : ℤ} : Numeral s v ↔
    (splitSign (s.dropWhile isspace)).2 ≠ [] ∧
    (∀ c ∈ (splitSign (s.dropWhile isspace)).2, isdigit c = true) ∧
    v = if (splitSign (s.dropWhile isspace)).1
      then -(numeralValue 10 (splitSign (s.dropWhile isspace)).2 : ℤ)
      else numeralValue 10 (splitSign (s.dropWhile isspace)).2 := by
  constructor
  · rintro ⟨blanks, sign, digits, rfl, hblanks, hsign, hne, hdigits, hv⟩
    have hstart : (sign ++ digits).dropWhile isspace = sign ++ digits := by
      obtain ⟨c, cs, rfl⟩ := List.exists_cons_of_ne_nil hne
      have hc := (isspace_of_isdigit (hdigits c List.mem_cons_self)).1
      rcases hsign with rfl | rfl | rfl
      · exact List.dropWhile_cons_of_neg (by simp [hc])
      · rfl
      · rfl
    rw [List.append_assoc, List.dropWhile_append_of_pos hblanks, hstart,
      splitSign_append hsign hne hdigits]
    exact ⟨hne, hdigits, by simpa using hv⟩
  · rintro ⟨hne, hdigits, hv⟩
    obtain ⟨sign, hsplit, hsign, hnegative⟩ := splitSign_spec (s.dropWhile isspace)
    refine ⟨s.takeWhile isspace, sign, _, ?_, fun c hc => List.mem_takeWhile_imp hc, hsign, hne,
      hdigits, ?_⟩
    · rw [List.append_assoc, ← hsplit, List.takeWhile_append_dropWhile]
    · rw [hv]
      simp only [hnegative]

/-- A text is the numeral of one number at most. -/
theorem Numeral.unique {s : Bytes} {v w : ℤ} (hv : Numeral s v) (hw : Numeral s w) : v = w :=
  (numeral_iff.mp hv).2.2.trans (numeral_iff.mp hw).2.2.symm

theorem Numeral.ne_nil {s : Bytes} {v : ℤ} (h : Numeral s v) : s ≠ [] := by
  rintro rfl
  exact (numeral_iff.mp h).1 rfl

/-- The digits of a numeral are read to the end. -/
theorem numeral_of_forall {digits : Bytes} (h : ∀ c ∈ digits, isdigit c = true) :
    numeral 10 digits = digits :=
  List.takeWhile_eq_self_iff.mpr fun c hc => by simpa using (isdigit_iff c).mp (h c hc)

/-! ## `strtol` -/

/-- **A numeral is read to its end**, and its number moved into the range of `long`. -/
theorem strtol_of_numeral {s : Bytes} {v : ℤ} (h : Numeral s v) : strtol s = (clampLong v, []) := by
  obtain ⟨hne, hdigits, hv⟩ := numeral_iff.mp h
  unfold strtol
  simp only [numeral_of_forall hdigits, if_neg hne, List.drop_length, saturate_eq]
  rw [hv]

/-- What is read to its end is a numeral, or nothing at all. -/
theorem exists_numeral_of_strtol {s : Bytes} (h : (strtol s).2 = []) (hne : s ≠ []) :
    ∃ v, Numeral s v := by
  unfold strtol at h
  simp only at h
  split_ifs at h with hnone
  · exact absurd h hne
  · have hall : numeral 10 (splitSign (s.dropWhile isspace)).2 =
        (splitSign (s.dropWhile isspace)).2 := by
      apply (List.takeWhile_prefix _).eq_of_length_le
      exact List.drop_eq_nil_iff.mp h
    refine ⟨_, numeral_iff.mpr ⟨fun hnil => hnone (by rw [hnil]; rfl), fun c hc => ?_, rfl⟩⟩
    rw [isdigit_iff]
    rw [← hall] at hc
    simpa using List.mem_takeWhile_imp hc

/-! ## The conversion that guesses the base -/

/-- A numeral whose digits start with a zero. -/
def LeadingZero (s : Bytes) : Prop := (splitSign (s.dropWhile isspace)).2.head? = some 48

/-- The numerals that read the same in the base `scanf` guesses: they fit in a `long`, and when
they start with a zero they are those of one octal digit. -/
def Plain (s : Bytes) : Prop :=
  ∃ v, Numeral s v ∧ longMin ≤ v ∧ v ≤ longMax ∧ (LeadingZero s → -7 ≤ v ∧ v ≤ 7)

/-- The number that is read when digits follow one already read. -/
def readOn (base a : ℕ) (digits : Bytes) : ℕ :=
  digits.foldl (fun v c => v * base + digitValue c) a

@[simp] theorem readOn_nil (base a : ℕ) : readOn base a [] = a := rfl

@[simp] theorem readOn_cons (base a : ℕ) (c : UInt8) (digits : Bytes) :
    readOn base a (c :: digits) = readOn base (a * base + digitValue c) digits := rfl

theorem numeralValue_eq (base : ℕ) (digits : Bytes) :
    numeralValue base digits = readOn base 0 digits := rfl

theorem numeral_cons_of_lt {base : ℕ} {c : UInt8} (h : digitValue c < base) (s : Bytes) :
    numeral base (c :: s) = c :: numeral base s :=
  List.takeWhile_cons_of_pos (by simpa using h)

theorem numeral_cons_of_le {base : ℕ} {c : UInt8} (h : base ≤ digitValue c) (s : Bytes) :
    numeral base (c :: s) = [] :=
  List.takeWhile_cons_of_neg (by simpa using h)

/-- Digits put behind a number do not make it smaller. -/
theorem le_readOn {base : ℕ} (hbase : 1 ≤ base) (a : ℕ) (digits : Bytes) :
    a ≤ readOn base a digits := by
  induction digits generalizing a with
  | nil => exact le_refl a
  | cons c digits ih =>
      have hstep : a ≤ a * base + digitValue c :=
        (Nat.le_mul_of_pos_right a hbase).trans (Nat.le_add_right _ _)
      exact hstep.trans (ih _)

/-- In base 8 a string of digits stands for less than in base 10, once the number in front of it
is smaller. -/
theorem octal_lt {a b : ℕ} (h : b < a) (digits : Bytes) :
    readOn 8 b (numeral 8 digits) < readOn 10 a digits := by
  induction digits generalizing a b with
  | nil => exact h
  | cons c digits ih =>
      by_cases hc : digitValue c < 8
      · rw [numeral_cons_of_lt hc, readOn_cons, readOn_cons]
        exact ih (by omega)
      · rw [numeral_cons_of_le (by omega)]
        exact lt_of_lt_of_le h (le_readOn (by decide) a (c :: digits))

/-- The octal reading of a string of digits is the decimal one up to seven, and smaller from eight
on. -/
theorem octal_cases {a : ℕ} (ha : a ≤ 7) (digits : Bytes) :
    (readOn 10 a digits ≤ 7 ∧ readOn 8 a (numeral 8 digits) = readOn 10 a digits) ∨
      7 < readOn 10 a digits ∧ readOn 8 a (numeral 8 digits) < readOn 10 a digits := by
  induction digits generalizing a with
  | nil => exact Or.inl ⟨ha, rfl⟩
  | cons c digits ih =>
      rw [readOn_cons]
      have hle := le_readOn (show 1 ≤ 10 by decide) (a * 10 + digitValue c) digits
      by_cases hc : digitValue c < 8
      · rw [numeral_cons_of_lt hc, readOn_cons]
        rcases Nat.eq_zero_or_pos a with rfl | hpos
        · rw [zero_mul, zero_mul, zero_add]
          exact ih (by omega)
        · -- a digit behind a number that is not zero tells the bases apart
          have hlt := octal_lt (show a * 8 + digitValue c < a * 10 + digitValue c by omega) digits
          exact Or.inr ⟨by omega, hlt⟩
      · rw [numeral_cons_of_le (by omega), readOn_nil]
        exact Or.inr ⟨by omega, by omega⟩

/-- What the conversion makes of a numeral: its digits in base 10, or in base 8 up to the first
that is none there, when they start with a zero. -/
theorem scanInteger_of_numeral {s : Bytes} {v : ℤ} (h : Numeral s v) :
    ∃ n : ℕ, ∃ rest : Bytes,
      scanInteger s =
        some (clampLong (if (splitSign (s.dropWhile isspace)).1 then -(n : ℤ) else n), rest) ∧
      (¬ LeadingZero s → (n = numeralValue 10 (splitSign (s.dropWhile isspace)).2 ∧ rest = [])) ∧
      (LeadingZero s →
        n = numeralValue 8 (numeral 8 (splitSign (s.dropWhile isspace)).2)) := by
  obtain ⟨hne, hdigits, -⟩ := numeral_iff.mp h
  unfold scanInteger LeadingZero
  rcases hsplit : splitSign (s.dropWhile isspace) with ⟨negative, text⟩
  rw [hsplit] at hne hdigits
  simp only at hne hdigits ⊢
  obtain ⟨c, cs, rfl⟩ := List.exists_cons_of_ne_nil hne
  by_cases hzero : c = 48
  · subst hzero
    have hnumeral : numeral 8 (48 :: cs) ≠ [] := by
      rw [numeral_cons_of_lt (by decide)]
      exact List.cons_ne_nil _ _
    cases cs with
    | nil =>
        simp only [if_neg hnumeral, saturate_eq]
        exact ⟨_, _, rfl, fun h => absurd rfl h, fun _ => rfl⟩
    | cons x rest =>
        -- the character behind a leading zero is a digit, and no `x`
        have hx : ¬ (tolower x == 120) = true := tolower_ne_of_isdigit (hdigits x (by simp))
        simp only [if_neg hx, if_neg hnumeral, saturate_eq]
        exact ⟨_, _, rfl, fun h => absurd rfl h, fun _ => rfl⟩
  · split
    · next heq => exact absurd (List.cons.inj heq).1 hzero
    · next heq => exact absurd (List.cons.inj heq).1 hzero
    · simp only [numeral_of_forall hdigits, if_neg hne, saturate_eq, List.drop_length]
      exact ⟨_, _, rfl, fun _ => ⟨rfl, rfl⟩, fun h => absurd (Option.some.inj h) hzero⟩

/-- A plain numeral is read as the number it stands for. -/
theorem Plain.scanInteger_eq {s : Bytes} (h : Plain s) :
    ∃ v rest, scanInteger s = some (v, rest) ∧ Numeral s v := by
  obtain ⟨v, hnumeral, hlo, hhi, hzero⟩ := h
  obtain ⟨n, rest, hscan, hdecimal, hoctal⟩ := scanInteger_of_numeral hnumeral
  have hv := (numeral_iff.mp hnumeral).2.2
  have hn : n = numeralValue 10 (splitSign (s.dropWhile isspace)).2 := by
    by_cases hleading : LeadingZero s
    · have hsmall : numeralValue 10 (splitSign (s.dropWhile isspace)).2 ≤ 7 := by
        have hrange := hzero hleading
        split_ifs at hv <;> omega
      rcases octal_cases (Nat.zero_le 7) (splitSign (s.dropWhile isspace)).2 with hsame | hless
      · exact (hoctal hleading).trans hsame.2
      · exact absurd hless.1 (not_lt.mpr hsmall)
    · exact (hdecimal hleading).1
  rw [hn, ← hv, clampLong_of_mem hlo hhi] at hscan
  exact ⟨v, rest, hscan, hnumeral⟩

/-- A numeral that is read as the number it stands for is plain: digits behind a zero are worth
less in base 8. -/
theorem plain_of_scanInteger {s rest : Bytes} {v : ℤ} (hscan : scanInteger s = some (v, rest))
    (hnumeral : Numeral s v) : Plain s := by
  obtain ⟨n, rest', hread, -, hoctal⟩ := scanInteger_of_numeral hnumeral
  rw [hread, Option.some.injEq, Prod.mk.injEq] at hscan
  obtain ⟨hclamp, -⟩ := hscan
  have hv := (numeral_iff.mp hnumeral).2.2
  obtain ⟨hlo, hhi⟩ := clampLong_mem
    (if (splitSign (s.dropWhile isspace)).1 then -(n : ℤ) else n)
  rw [hclamp] at hlo hhi
  refine ⟨v, hnumeral, hlo, hhi, fun hleading => ?_⟩
  rcases octal_cases (Nat.zero_le 7) (splitSign (s.dropWhile isspace)).2 with hsame | hless
  · have hsmall := hsame.1
    rw [← numeralValue_eq] at hsmall
    split_ifs at hv <;> omega
  · rw [← numeralValue_eq, ← numeralValue_eq, ← hoctal hleading] at hless
    split_ifs at hv hclamp
    · have htowards := (clampLong_towards_zero (-(n : ℤ))).2 (by omega)
      omega
    · have htowards := (clampLong_towards_zero (n : ℤ)).1 (by omega)
      omega

/-- **Where guessing the base does no harm**: the conversion gives the number a numeral stands for
exactly when the numeral is plain. -/
theorem plain_iff_scanInteger {s : Bytes} :
    Plain s ↔ ∃ v rest, scanInteger s = some (v, rest) ∧ Numeral s v :=
  ⟨Plain.scanInteger_eq, fun ⟨_, _, hscan, hnumeral⟩ => plain_of_scanInteger hscan hnumeral⟩

end Lib
