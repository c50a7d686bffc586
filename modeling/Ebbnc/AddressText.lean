import Ebbnc.Address
import Ebbnc.Lib.Numeral

/-!
# The text of an address is the address

`ipFromSockaddr` writes what `ipPortToSockaddr` reads: dotted decimals for the one family, and for
the other groups with a run of zeros left out and, for some addresses, dotted decimals at the end.

* `inetPton4_inetNtop4` — the round trip of dotted decimals.
* `bestZeros_spec` — what is left out are zeros.
* `inetPton6_compressed`, `inetPton6_printGroups`, `inetPton6_dotted` — the three kinds of texts.
* **`ipPortToSockaddr_ipFromSockaddr`** — the round trip of every address.
-/

namespace Ebbnc

open Lib

/-! ## Hexadecimal numerals -/

/-- The character of a hexadecimal digit. -/
theorem digitValue_hexChar {d : ℕ} (h : d < 16) :
    digitValue (UInt8.ofNat (if d < 10 then 48 + d else 87 + d)) = d := by
  interval_cases d <;> decide

theorem mem_printHex {n : ℕ} {c : UInt8} (h : c ∈ printHex n) : digitValue c < 16 := by
  unfold printHex at h
  split_ifs at h with hn
  · rw [List.mem_singleton.mp h]
    decide
  · obtain ⟨d, hd, rfl⟩ := List.mem_map.mp (List.mem_reverse.mp h)
    have hlt := Nat.digits_lt_base (by decide) hd
    rwa [digitValue_hexChar hlt]

theorem printHex_ne_nil (n : ℕ) : printHex n ≠ [] := by
  unfold printHex
  split_ifs with hn
  · simp
  · simpa [Nat.digits_eq_nil_iff_eq_zero] using hn

/-- A group has four digits at most. -/
theorem length_printHex {n : ℕ} (h : n < 65536) : (printHex n).length ≤ 4 := by
  unfold printHex
  split_ifs
  · decide
  · rw [List.length_reverse, List.length_map, Nat.digits_length_le_iff (by decide)]
    exact h

/-- A hexadecimal numeral stands for its number. -/
theorem readOn_printHex (n : ℕ) : readOn 16 0 (printHex n) = n := by
  unfold printHex
  split_ifs with hn
  · subst hn
    rfl
  · rw [readOn, List.foldl_reverse, List.foldr_map]
    have hdigits : ∀ l : List ℕ, (∀ d ∈ l, d < 16) → l.foldr (fun d v =>
        v * 16 + digitValue (UInt8.ofNat (if d < 10 then 48 + d else 87 + d))) 0 =
          Nat.ofDigits 16 l := by
      intro l hl
      induction l with
      | nil => rfl
      | cons d l ih =>
          rw [List.foldr_cons, ih fun x hx => hl x (List.mem_cons_of_mem _ hx), Nat.ofDigits_cons,
            digitValue_hexChar (hl d List.mem_cons_self)]
          omega
    rw [hdigits _ fun d hd => Nat.digits_lt_base (by decide) hd, Nat.ofDigits_digits]

/-! ## Dotted decimals -/

/-- The digits of an octet that has begun with another digit than zero. -/
theorem inetPton4Loop_digits {digits : Bytes} (rest : Bytes) (octets : List UInt8) {current : ℕ}
    (begun : ℕ) (hdigits : ∀ c ∈ digits, isdigit c = true) (hpos : 0 < current)
    (hle : readOn 10 current digits ≤ 255) :
    inetPton4Loop (digits ++ rest) octets current true begun =
      inetPton4Loop rest octets (readOn 10 current digits) true begun := by
  induction digits generalizing current with
  | nil => rfl
  | cons ch digits ih =>
    have hdigit := hdigits ch List.mem_cons_self
    have hvalue : digitValue ch = ch.toNat - 48 := by rw [digitValue, if_pos hdigit]
    rw [readOn_cons, hvalue] at hle ⊢
    have hnew : current * 10 + (ch.toNat - 48) ≤ 255 := (le_readOn (by decide) _ digits).trans hle
    rw [List.cons_append, inetPton4Loop]
    simp only [hdigit, if_true]
    rw [if_neg (by omega), if_neg (by omega)]
    exact ih (fun c hc => hdigits c (List.mem_cons_of_mem _ hc)) (by omega) hle

/-- An octet is read to its end. -/
theorem inetPton4Loop_decimal {n : ℕ} (hn : n < 256) (rest : Bytes) (octets : List UInt8)
    {begun : ℕ} (hbegun : begun < 4) :
    inetPton4Loop (decimal n ++ rest) octets 0 false begun =
      inetPton4Loop rest octets n true (begun + 1) := by
  have hroom : ¬4 < begun + 1 := by omega
  rcases Nat.eq_zero_or_pos n with rfl | hpos
  · rw [show decimal 0 = [48] from rfl, List.singleton_append, inetPton4Loop]
    simp [isdigit, hroom]
  · obtain ⟨ch, digits, hcons⟩ := List.exists_cons_of_ne_nil (decimal_ne_nil n)
    have hdigits := fun c hc => (mem_decimal (n := n) (c := c) hc).1
    have hvalue := numeralValue_decimal n
    have hhead := head?_decimal (n := n) (by omega)
    rw [hcons] at hdigits hvalue hhead ⊢
    have hdigit : isdigit ch = true := hdigits ch List.mem_cons_self
    have hrange : 48 ≤ ch ∧ ch ≤ 57 := by simpa [isdigit] using hdigit
    have hne : ch.toNat ≠ 48 := fun heq => hhead (congrArg some (UInt8.toNat_inj.mp heq))
    have hfirst : digitValue ch = ch.toNat - 48 := by rw [digitValue, if_pos hdigit]
    simp only [UInt8.le_iff_toNat_le] at hrange
    have h48 : (48 : UInt8).toNat = 48 := rfl
    have h57 : (57 : UInt8).toNat = 57 := rfl
    rw [numeralValue_eq, readOn_cons, hfirst] at hvalue
    rw [List.cons_append, inetPton4Loop]
    simp only [hdigit, if_true, Bool.false_eq_true, false_and, if_false]
    rw [if_neg (by omega), if_neg hroom,
      inetPton4Loop_digits rest octets _ (fun c hc => hdigits c (List.mem_cons_of_mem _ hc))
        (by omega) (by omega), hvalue]

/-- The dot after an octet. -/
theorem inetPton4Loop_dot {begun : ℕ} (hbegun : begun < 4) (rest : Bytes) (octets : List UInt8)
    (current : ℕ) :
    inetPton4Loop (46 :: rest) octets current true begun =
      inetPton4Loop rest (octets ++ [UInt8.ofNat current]) 0 false begun := by
  rw [inetPton4Loop]
  have hdigit : isdigit 46 = false := rfl
  simp [hdigit, Nat.ne_of_lt hbegun]

/-- **Dotted decimals are read as they are written.** -/
theorem inetPton4_inetNtop4 (a : Vector UInt8 4) : inetPton4 (inetNtop4 a) = some a := by
  have hlt : ∀ c : UInt8, c.toNat < 256 := fun c => c.toNat_lt
  have hdot : ascii "." = [46] := rfl
  unfold inetPton4 inetNtop4
  simp only [List.append_assoc, hdot, List.cons_append, List.nil_append]
  rw [inetPton4Loop_decimal (hlt _) _ _ (by decide), inetPton4Loop_dot (by decide),
    inetPton4Loop_decimal (hlt _) _ _ (by decide), inetPton4Loop_dot (by decide),
    inetPton4Loop_decimal (hlt _) _ _ (by decide), inetPton4Loop_dot (by decide)]
  conv_lhs => rw [← List.append_nil (decimal _)]
  rw [inetPton4Loop_decimal (hlt _) _ _ (by decide)]
  simp only [inetPton4Loop, UInt8.ofNat_toNat]
  apply congrArg some
  apply Vector.ext
  intro i hi
  interval_cases i <;> rfl

/-! ## The zeros that are left out -/

/-- What is left out is a run of zeros. -/
theorem bestZeros_spec {g : List ℕ} {start len : ℕ} (h : bestZeros g = some (start, len)) :
    2 ≤ len ∧ start + len ≤ g.length ∧
      g = g.take start ++ List.replicate len 0 ++ g.drop (start + len) := by
  -- every candidate of the loop is such a run
  obtain ⟨htwo, hlen⟩ : 2 ≤ len ∧ len = ((g.drop start).takeWhile (· == 0)).length := by
    revert start len
    refine List.foldlRecOn (motive := fun best => ∀ {i n}, best = some (i, n) →
      2 ≤ n ∧ n = ((g.drop i).takeWhile (· == 0)).length) _ _ (fun h => by cases h) ?_
    intro best hbest j _ i n heq
    cases best with
    | none =>
      dsimp only at heq
      split_ifs at heq with hlen
      obtain ⟨rfl, rfl⟩ := Prod.mk.inj (Option.some.inj heq)
      exact ⟨hlen, rfl⟩
    | some candidate =>
      dsimp only at heq
      split_ifs at heq with hlen
      · obtain ⟨rfl, rfl⟩ := Prod.mk.inj (Option.some.inj heq)
        exact ⟨(@hbest candidate.1 candidate.2 rfl).1.trans hlen.le, rfl⟩
      · exact hbest heq
  have hzeros : (g.drop start).takeWhile (· == 0) = List.replicate len 0 := by
    rw [List.eq_replicate_iff]
    exact ⟨hlen.symm, fun n hn => by simpa using List.mem_takeWhile_imp hn⟩
  have htake : (g.drop start).take len = List.replicate len 0 := by
    rw [← hzeros]
    conv_lhs => rw [hlen]
    exact (List.prefix_iff_eq_take.mp (List.takeWhile_prefix _)).symm
  have hroom : len ≤ g.length - start := by
    rw [hlen, ← List.length_drop]
    exact (List.takeWhile_prefix _).length_le
  refine ⟨htwo, by omega, ?_⟩
  rw [← htake, ← List.drop_drop, List.append_assoc, List.take_append_drop, List.take_append_drop]

/-! ## Groups -/

/-- The bytes of groups. -/
def groupBytes (g : List ℕ) : Bytes :=
  g.flatMap fun n => [UInt8.ofNat (n / 256), UInt8.ofNat (n % 256)]

@[simp] theorem groupBytes_nil : groupBytes [] = [] := rfl

@[simp] theorem groupBytes_append (g g' : List ℕ) :
    groupBytes (g ++ g') = groupBytes g ++ groupBytes g' := List.flatMap_append

@[simp] theorem length_groupBytes (g : List ℕ) : (groupBytes g).length = 2 * g.length := by
  induction g with
  | nil => rfl
  | cons n g ih =>
      rw [groupBytes, List.flatMap_cons, List.length_append, ← groupBytes, ih, List.length_cons]
      simp only [List.length_cons, List.length_nil]
      omega

theorem groupBytes_replicate (k : ℕ) :
    groupBytes (List.replicate k 0) = List.replicate (2 * k) 0 := by
  induction k with
  | zero => rfl
  | succ k ih =>
      rw [List.replicate_succ, groupBytes, List.flatMap_cons, ← groupBytes, ih, Nat.mul_succ,
        List.replicate_add (2 * k), List.replicate_append_replicate, Nat.add_comm,
        ← List.replicate_append_replicate]
      rfl

/-- A text of an even length, two by two. -/
theorem flatMap_pairs {k : ℕ} {l : Bytes} (h : l.length = 2 * k) :
    (List.range k).flatMap (fun i => [l.getD (2 * i) 0, l.getD (2 * i + 1) 0]) = l := by
  induction k generalizing l with
  | zero => exact (List.length_eq_zero_iff.mp h).symm
  | succ k ih =>
    rcases l with _ | ⟨x, _ | ⟨y, l⟩⟩
    · simp at h
    · simp at h
      omega
    · have hl : l.length = 2 * k := by
        simp only [List.length_cons] at h
        omega
      have hrest := ih hl
      rw [List.range_succ_eq_map, List.flatMap_cons, List.flatMap_map]
      simp only [Nat.mul_succ, List.getD_cons_succ]
      rw [hrest]
      rfl

/-- The groups of an address are its bytes. -/
theorem groupBytes_groups (a : Vector UInt8 16) : groupBytes (groups a) = a.toList := by
  have hbyte : ∀ x y : UInt8, UInt8.ofNat ((x.toNat * 256 + y.toNat) / 256) = x ∧
      UInt8.ofNat ((x.toNat * 256 + y.toNat) % 256) = y := by
    intro x y
    have hx := x.toNat_lt
    have hy := y.toNat_lt
    rw [show (x.toNat * 256 + y.toNat) / 256 = x.toNat by omega,
      show (x.toNat * 256 + y.toNat) % 256 = y.toNat by omega]
    exact ⟨UInt8.ofNat_toNat, UInt8.ofNat_toNat⟩
  rw [groups, groupBytes, List.flatMap_map]
  simp only [hbyte]
  exact flatMap_pairs a.length_toList

theorem length_groups (a : Vector UInt8 16) : (groups a).length = 8 := by simp [groups]

theorem groups_lt (a : Vector UInt8 16) : ∀ n ∈ groups a, n < 65536 := by
  intro n hn
  obtain ⟨i, -, rfl⟩ := List.mem_map.mp hn
  have hx := (a.toList.getD (2 * i) 0).toNat_lt
  have hy := (a.toList.getD (2 * i + 1) 0).toNat_lt
  omega

/-! ## Groups in the loop -/

section loop

variable {tp curtok : Bytes} {colonp : Option ℕ}

/-- The digits of a group. -/
theorem inetPton6Loop_digits {digits : Bytes} (rest : Bytes) {xdigits : ℕ} (val : ℕ)
    (hdigits : ∀ c ∈ digits, digitValue c < 16) (hroom : xdigits + digits.length ≤ 4) :
    inetPton6Loop (digits ++ rest) tp colonp curtok xdigits val =
      inetPton6Loop rest tp colonp curtok (xdigits + digits.length) (readOn 16 val digits) := by
  induction digits generalizing xdigits val with
  | nil => rfl
  | cons ch digits ih =>
    rw [List.length_cons] at hroom
    rw [List.cons_append, inetPton6Loop, if_pos (hdigits ch List.mem_cons_self),
      if_neg (by omega), ih _ (fun c hc => hdigits c (List.mem_cons_of_mem _ hc)) (by omega),
      readOn_cons, List.length_cons, Nat.add_right_comm, Nat.add_assoc]

/-- A group is read to its end. -/
theorem inetPton6Loop_printHex {n : ℕ} (hn : n < 65536) (rest : Bytes) :
    inetPton6Loop (printHex n ++ rest) tp colonp curtok 0 0 =
      inetPton6Loop rest tp colonp curtok (printHex n).length n := by
  rw [inetPton6Loop_digits rest 0 (fun _ => mem_printHex) (by simpa using length_printHex hn),
    readOn_printHex, Nat.zero_add]

/-- The colon after a group. -/
theorem inetPton6Loop_colon {n : ℕ} {rest : Bytes} (hrest : rest ≠ []) (htp : tp.length + 2 ≤ 16) :
    inetPton6Loop (58 :: rest) tp colonp curtok (printHex n).length n =
      inetPton6Loop rest (tp ++ groupBytes [n]) colonp rest 0 0 := by
  have hcolon : ¬digitValue 58 < 16 := by decide
  have hlength : (printHex n).length ≠ 0 := fun h =>
    printHex_ne_nil n (List.length_eq_zero_iff.mp h)
  rw [inetPton6Loop, if_neg hcolon, if_pos rfl, if_neg hlength, if_neg hrest, if_neg (by omega)]
  rfl

/-- The second of two colons. -/
theorem inetPton6Loop_colons (rest : Bytes) :
    inetPton6Loop (58 :: rest) tp none curtok 0 0 =
      inetPton6Loop rest tp (some tp.length) rest 0 0 := by
  have hcolon : ¬digitValue 58 < 16 := by decide
  rw [inetPton6Loop, if_neg hcolon, if_pos rfl, if_pos rfl]
  rfl

theorem printGroups_cons (n m : ℕ) (g : List ℕ) :
    printGroups (n :: m :: g) = printHex n ++ 58 :: printGroups (m :: g) := rfl

theorem printGroups_ne_nil {g : List ℕ} (hg : g ≠ []) : printGroups g ≠ [] := by
  cases g with
  | nil => exact absurd rfl hg
  | cons n g =>
    cases g with
    | nil => simpa [printGroups] using printHex_ne_nil n
    | cons m g => simp [printGroups_cons]

/-- Groups with their colons: the last one is still to be added. -/
theorem inetPton6Loop_printGroups {g : List ℕ} {last : ℕ} (rest : Bytes)
    (hlt : ∀ n ∈ g ++ [last], n < 65536) (hroom : tp.length + 2 * g.length ≤ 16) :
    ∃ curtok', inetPton6Loop (printGroups (g ++ [last]) ++ rest) tp colonp curtok 0 0 =
      inetPton6Loop rest (tp ++ groupBytes g) colonp curtok' (printHex last).length last := by
  induction g generalizing tp curtok with
  | nil =>
    refine ⟨curtok, ?_⟩
    rw [List.nil_append, show printGroups [last] = printHex last from List.append_nil _,
      inetPton6Loop_printHex (hlt last (by simp)), groupBytes_nil, List.append_nil]
  | cons n g ih =>
    have hn : n < 65536 := hlt n (by simp)
    have hcons : printGroups (n :: g ++ [last]) =
        printHex n ++ 58 :: printGroups (g ++ [last]) := by cases g <;> rfl
    have htail : printGroups (g ++ [last]) ++ rest ≠ [] := by
      simp [printGroups_ne_nil]
    rw [List.length_cons] at hroom
    have hgroup : (tp ++ groupBytes [n]).length = tp.length + 2 := by simp
    obtain ⟨curtok', heq⟩ := @ih (tp ++ groupBytes [n]) (printGroups (g ++ [last]) ++ rest)
      (fun m hm => hlt m (List.mem_cons_of_mem _ hm)) (by omega)
    refine ⟨curtok', ?_⟩
    rw [hcons, List.append_assoc, inetPton6Loop_printHex hn, List.cons_append,
      inetPton6Loop_colon htail (by omega), heq, List.append_assoc, ← groupBytes_append]
    rfl

/-- Dotted decimals at the end. -/
theorem inetPton6Loop_dotted (b : Vector UInt8 4) (htp : tp.length + 4 ≤ 16) :
    ∃ val, inetPton6Loop (inetNtop4 b) tp colonp (inetNtop4 b) 0 0 =
      some (tp ++ b.toList, colonp, 0, val) := by
  have hread := inetPton4_inetNtop4 b
  generalize htext : inetNtop4 b = text at hread
  obtain ⟨rest, hdots⟩ : ∃ rest, text = decimal b[0].toNat ++ 46 :: rest := by
    rw [← htext, inetNtop4]
    simp only [List.append_assoc]
    exact ⟨_, rfl⟩
  have hdigits : ∀ c ∈ decimal b[0].toNat, digitValue c < 16 := fun c hc => by
    have := (mem_decimal hc).2
    omega
  have hlength : (decimal b[0].toNat).length ≤ 4 := by
    have hlt := b[0].toNat_lt
    unfold decimal
    split_ifs
    · decide
    · rw [List.length_reverse, List.length_map, Nat.digits_length_le_iff (by decide)]
      omega
  refine ⟨readOn 16 0 (decimal b[0].toNat), ?_⟩
  conv_lhs => rw [hdots]
  rw [inetPton6Loop_digits _ 0 hdigits (by simpa using hlength), inetPton6Loop, if_neg (by decide),
    if_neg (by decide), if_pos ⟨rfl, htp⟩, ← hdots, hread]

end loop

/-! ## The end of the text -/

/-- What is read of a text, without a first colon of two. -/
def inetPton6Read (text curtok tp : Bytes) (colonp : Option ℕ) : Option (Vector UInt8 16) :=
  (inetPton6Loop text tp colonp curtok 0 0).bind fun r => inetPton6Finish r.1 r.2.1 r.2.2.1 r.2.2.2

/-- A text that starts with a group. -/
theorem inetPton6_of_ne {ch : UInt8} (src : Bytes) (h : ch ≠ 58) :
    inetPton6 (ch :: src) = inetPton6Read (ch :: src) (ch :: src) [] none := by
  unfold inetPton6
  split
  · next heq => cases heq
  · next heq => exact absurd (List.cons.inj heq).1 h
  · next heq => exact absurd (List.cons.inj heq).1 h
  · rfl

/-- The text of groups starts with a digit. -/
theorem exists_printGroups {g : List ℕ} (hg : g ≠ []) :
    ∃ ch src, printGroups g = ch :: src ∧ ch ≠ 58 := by
  obtain ⟨n, g, rfl⟩ := List.exists_cons_of_ne_nil hg
  obtain ⟨ch, digits, hdigits⟩ := List.exists_cons_of_ne_nil (printHex_ne_nil n)
  have hch : ch ≠ 58 := by
    rintro rfl
    have hdigit := mem_printHex (hdigits ▸ List.mem_cons_self : (58 : UInt8) ∈ printHex n)
    exact absurd hdigit (by decide)
  cases g with
  | nil =>
    have hone : printGroups [n] = printHex n := List.append_nil _
    exact ⟨ch, digits, hone.trans hdigits, hch⟩
  | cons m g => exact ⟨ch, _, by rw [printGroups_cons, hdigits, List.cons_append], hch⟩

/-- Groups, and then two colons. -/
theorem inetPton6_front {front : List ℕ} (rest : Bytes) (hlt : ∀ n ∈ front, n < 65536)
    (hroom : front.length < 8) :
    inetPton6 (printGroups front ++ ascii "::" ++ rest) =
      inetPton6Read rest rest (groupBytes front) (some (2 * front.length)) := by
  have hcolons : ascii "::" = [58, 58] := rfl
  rcases List.eq_nil_or_concat' front with rfl | ⟨g, last, rfl⟩
  · show inetPton6Read (58 :: rest) (58 :: rest) [] none = _
    rw [inetPton6Read, inetPton6Loop_colons]
    rfl
  · rw [List.length_append, List.length_singleton] at hroom
    have hlength : (groupBytes g).length + 2 ≤ 16 := by
      rw [length_groupBytes]
      omega
    obtain ⟨ch, src, hcons, hch⟩ := exists_printGroups (List.append_ne_nil_of_right_ne_nil g
      (List.cons_ne_nil last []))
    obtain ⟨curtok', hloop⟩ := @inetPton6Loop_printGroups []
      (printGroups (g ++ [last]) ++ 58 :: 58 :: rest) none g last (58 :: 58 :: rest) hlt
      (by simp; omega)
    rw [List.nil_append] at hloop
    rw [hcolons, List.append_assoc, List.cons_append, List.singleton_append, hcons,
      List.cons_append, inetPton6_of_ne _ hch, ← List.cons_append, ← hcons, inetPton6Read, hloop,
      inetPton6Loop_colon (List.cons_ne_nil _ _) hlength, inetPton6Loop_colons,
      ← groupBytes_append, length_groupBytes]
    rfl

/-- Sixteen bytes are an address. -/
theorem exists_address {bytes : Bytes} (h : bytes.length = 16) :
    ∃ v, (if h : bytes.length = 16 then some (⟨bytes.toArray, h⟩ : Vector UInt8 16) else none) =
      some v ∧ v.toList = bytes :=
  ⟨_, dif_pos h, rfl⟩

/-- The last group, and the bytes up to the end. -/
theorem inetPton6Finish_group {tp : Bytes} {last : ℕ} (htp : tp.length + 2 = 16) :
    ∃ v, inetPton6Finish tp none (printHex last).length last = some v ∧
      v.toList = tp ++ groupBytes [last] := by
  have hpos : 0 < (printHex last).length := List.length_pos_iff.mpr (printHex_ne_nil last)
  have hlength : (tp ++ groupBytes [last]).length = 16 := by simpa using htp
  unfold inetPton6Finish
  rw [if_neg (by omega)]
  simp only [hpos, if_true]
  exact exists_address hlength

/-- The zeros that were left out. -/
theorem inetPton6Finish_zeros {tp bytes : Bytes} {k xdigits val : ℕ}
    (hbytes : (if 0 < xdigits then tp ++ groupBytes [val] else tp) = bytes)
    (hlength : bytes.length < 16) (hk : k ≤ bytes.length) :
    ∃ v, inetPton6Finish tp (some k) xdigits val = some v ∧
      v.toList = bytes.take k ++ List.replicate (16 - bytes.length) 0 ++ bytes.drop k := by
  have hroom : ¬(0 < xdigits ∧ 16 < tp.length + 2) := by
    rintro ⟨hpos, hroom⟩
    rw [← hbytes, if_pos hpos, List.length_append, length_groupBytes, List.length_singleton]
      at hlength
    omega
  have hall : (bytes.take k ++ List.replicate (16 - bytes.length) 0 ++ bytes.drop k).length =
      16 := by
    rw [List.length_append, List.length_append, List.length_take, List.length_replicate,
      List.length_drop]
    omega
  have hshort : ¬bytes.length = 16 := Nat.ne_of_lt hlength
  unfold inetPton6Finish
  rw [if_neg hroom, show (if 0 < xdigits then
    tp ++ [UInt8.ofNat (val / 256), UInt8.ofNat (val % 256)] else tp) = bytes from hbytes]
  simp only [hshort, if_false]
  exact exists_address hall

/-! ## The three kinds of texts -/

/-- All the groups. -/
theorem inetPton6_printGroups {g : List ℕ} (hlt : ∀ n ∈ g, n < 65536) (hlength : g.length = 8) :
    ∃ v, inetPton6 (printGroups g) = some v ∧ v.toList = groupBytes g := by
  rcases List.eq_nil_or_concat' g with rfl | ⟨g, last, rfl⟩
  · cases hlength
  rw [List.length_append, List.length_singleton] at hlength
  obtain ⟨ch, src, hcons, hch⟩ := exists_printGroups (List.append_ne_nil_of_right_ne_nil g
    (List.cons_ne_nil last []))
  obtain ⟨curtok', hloop⟩ := @inetPton6Loop_printGroups [] (printGroups (g ++ [last])) none g last
    [] hlt (by simp; omega)
  rw [List.append_nil, List.nil_append] at hloop
  rw [hcons, inetPton6_of_ne _ hch, ← hcons, inetPton6Read, hloop, groupBytes_append]
  apply inetPton6Finish_group
  rw [length_groupBytes]
  omega

/-- Groups on both sides of the zeros that are left out. -/
theorem inetPton6_compressed {front back : List ℕ} {len : ℕ} (hfront : ∀ n ∈ front, n < 65536)
    (hback : ∀ n ∈ back, n < 65536) (hlen : 0 < len)
    (hlength : front.length + len + back.length = 8) :
    ∃ v, inetPton6 (printGroups front ++ ascii "::" ++ printGroups back) = some v ∧
      v.toList = groupBytes (front ++ List.replicate len 0 ++ back) := by
  have hzeros : 16 - (groupBytes (front ++ back)).length = 2 * len := by
    rw [length_groupBytes, List.length_append]
    omega
  have hbytes : groupBytes (front ++ List.replicate len 0 ++ back) =
      (groupBytes (front ++ back)).take (2 * front.length) ++
        List.replicate (16 - (groupBytes (front ++ back)).length) 0 ++
        (groupBytes (front ++ back)).drop (2 * front.length) := by
    rw [hzeros, groupBytes_append, groupBytes_append, groupBytes_append, groupBytes_replicate,
      List.take_left' (length_groupBytes front), List.drop_left' (length_groupBytes front)]
  have hshort : (groupBytes (front ++ back)).length < 16 := by
    rw [length_groupBytes, List.length_append]
    omega
  have hplace : 2 * front.length ≤ (groupBytes (front ++ back)).length := by
    rw [length_groupBytes, List.length_append]
    omega
  rw [inetPton6_front _ hfront (by omega), inetPton6Read, hbytes]
  rcases List.eq_nil_or_concat' back with rfl | ⟨g, last, rfl⟩
  · exact inetPton6Finish_zeros (by simp) hshort hplace
  · rw [List.length_append, List.length_singleton] at hlength
    obtain ⟨curtok', hloop⟩ := @inetPton6Loop_printGroups (groupBytes front)
      (printGroups (g ++ [last])) (some (2 * front.length)) g last [] hback (by simp; omega)
    rw [List.append_nil] at hloop
    have hpos : 0 < (printHex last).length := List.length_pos_iff.mpr (printHex_ne_nil last)
    rw [hloop]
    refine inetPton6Finish_zeros ?_ hshort hplace
    rw [if_pos hpos, ← groupBytes_append, ← groupBytes_append, List.append_assoc]

/-- Zeros that are left out, and dotted decimals at the end. -/
theorem inetPton6_dotted (b : Vector UInt8 4) :
    ∃ v, inetPton6 (ascii "::" ++ inetNtop4 b) = some v ∧
      v.toList = List.replicate 12 0 ++ b.toList := by
  obtain ⟨val, hloop⟩ := @inetPton6Loop_dotted [] (some 0) b (by decide)
  have hfront := @inetPton6_front [] (inetNtop4 b) (fun _ h => absurd h List.not_mem_nil)
    (by decide)
  change inetPton6 (ascii "::" ++ inetNtop4 b) = _ at hfront
  have hb : b.toList.length = 4 := b.length_toList
  rw [hfront, inetPton6Read, groupBytes_nil, List.length_nil, hloop, List.nil_append]
  obtain ⟨v, hv, hbytes⟩ := @inetPton6Finish_zeros b.toList b.toList 0 0 val rfl (by omega)
    (by omega)
  refine ⟨v, hv, ?_⟩
  rw [hbytes, hb]
  rfl

/-- The same for a mapped address. -/
theorem inetPton6_mapped (b : Vector UInt8 4) :
    ∃ v, inetPton6 (ascii "::ffff:" ++ inetNtop4 b) = some v ∧
      v.toList = List.replicate 10 0 ++ [255, 255] ++ b.toList := by
  obtain ⟨val, hloop⟩ := @inetPton6Loop_dotted [255, 255] (some 0) b (by decide)
  have hfront := @inetPton6_front [] (printHex 0xffff ++ 58 :: inetNtop4 b)
    (fun _ h => absurd h List.not_mem_nil) (by decide)
  have htext : ascii "::ffff:" ++ inetNtop4 b =
      printGroups [] ++ ascii "::" ++ (printHex 0xffff ++ 58 :: inetNtop4 b) := by
    have hhex : printHex 0xffff = ascii "ffff" := by
      simp [printHex]
      decide
    rw [hhex]
    rfl
  have hb : b.toList.length = 4 := b.length_toList
  have hdots : inetNtop4 b ≠ [] := by
    simp [inetNtop4, decimal_ne_nil]
  rw [htext, hfront, inetPton6Read, inetPton6Loop_printHex (by decide),
    inetPton6Loop_colon hdots (by decide)]
  have hmapped : groupBytes [] ++ groupBytes [0xffff] = [255, 255] := rfl
  rw [hmapped, List.length_nil, hloop]
  have hlength : ([255, 255] ++ b.toList).length = 6 := by
    rw [List.length_append, hb]
    rfl
  obtain ⟨v, hv, hbytes⟩ := @inetPton6Finish_zeros ([255, 255] ++ b.toList)
    ([255, 255] ++ b.toList) 0 0 val rfl (by omega) (by omega)
  refine ⟨v, hv, ?_⟩
  rw [hbytes, hlength]
  rfl

/-! ## Every address -/

/-- The last two groups are the bytes of the dotted decimals. -/
theorem groupBytes_drop_six (a : Vector UInt8 16) :
    groupBytes ((groups a).drop 6) = a.toList.drop 12 := by
  have hall := groupBytes_groups a
  rw [← List.take_append_drop 6 (groups a), groupBytes_append] at hall
  have hlength : (groupBytes ((groups a).take 6)).length = 12 := by
    rw [length_groupBytes, List.length_take, length_groups]
    rfl
  have hdrop := congrArg (List.drop 12) hall
  rw [List.drop_left' hlength] at hdrop
  exact hdrop

/-- **Groups are read as they are written**, whichever zeros are left out. -/
theorem inetPton6_inetNtop6 (a : Vector UInt8 16) : inetPton6 (inetNtop6 a) = some a := by
  have hlt := groups_lt a
  have hlength := length_groups a
  have hsixteen : a.toList.length = 16 := a.length_toList
  have htail : #v[a[12], a[13], a[14], a[15]].toList = a.toList.drop 12 := by
    rw [List.drop_eq_getElem_cons (by omega), List.drop_eq_getElem_cons (by omega),
      List.drop_eq_getElem_cons (by omega), List.drop_eq_getElem_cons (by omega),
      List.drop_eq_nil_of_le (by omega)]
    simp only [Vector.getElem_toList]
    rfl
  suffices h : ∃ v, inetPton6 (inetNtop6 a) = some v ∧ v.toList = groupBytes (groups a) by
    obtain ⟨v, hv, hbytes⟩ := h
    rw [groupBytes_groups] at hbytes
    rw [hv, Vector.toList_inj.mp hbytes]
  cases hbest : bestZeros (groups a) with
  | none =>
    simp only [inetNtop6, hbest]
    exact inetPton6_printGroups hlt hlength
  | some run =>
  obtain ⟨start, len⟩ := run
  obtain ⟨htwo, hroom, hsplit⟩ := bestZeros_spec hbest
  simp only [inetNtop6, hbest]
  split_ifs with hcompatible hmapped
  · obtain ⟨rfl, rfl⟩ := hcompatible
    obtain ⟨v, hv, hbytes⟩ := inetPton6_dotted #v[a[12], a[13], a[14], a[15]]
    refine ⟨v, hv, ?_⟩
    rw [hbytes, hsplit, List.take_zero, List.nil_append, groupBytes_append, groupBytes_replicate,
      Nat.zero_add, groupBytes_drop_six, htail]
  · obtain ⟨rfl, rfl, hffff⟩ := hmapped
    obtain ⟨v, hv, hbytes⟩ := inetPton6_mapped #v[a[12], a[13], a[14], a[15]]
    refine ⟨v, hv, ?_⟩
    have hsixth : (groups a).drop 5 = 0xffff :: (groups a).drop 6 := by
      rw [← hffff, List.drop_eq_getElem_cons (by omega)]
      simp [List.getElem?_eq_getElem (show 5 < (groups a).length by omega)]
    have hcons : groupBytes (0xffff :: (groups a).drop 6) = [255, 255] ++
        groupBytes ((groups a).drop 6) := rfl
    rw [hbytes, hsplit, List.take_zero, List.nil_append, groupBytes_append, groupBytes_replicate,
      Nat.zero_add, hsixth, hcons, groupBytes_drop_six, htail, List.append_assoc]
  · have hcompressed := @inetPton6_compressed ((groups a).take start)
      ((groups a).drop (start + len)) len (fun n hn => hlt n (List.mem_of_mem_take hn))
      (fun n hn => hlt n (List.mem_of_mem_drop hn)) (by omega)
      (by rw [List.length_take, List.length_drop]; omega)
    rwa [← hsplit] at hcompressed

/-- The text of groups is no text of dotted decimals. -/
theorem inetPton4_inetNtop6 (a : Vector UInt8 16) : inetPton4 (inetNtop6 a) = none := by
  have hcolon : (58 : UInt8) ∈ inetNtop6 a := by
    cases hbest : bestZeros (groups a) with
    | none =>
      simp only [inetNtop6, hbest]
      have hlength := length_groups a
      generalize groups a = g at hlength
      rcases g with _ | ⟨n, _ | ⟨m, g⟩⟩
      · cases hlength
      · cases hlength
      · simp [printGroups_cons]
    | some run =>
      have hcolons : ascii "::" = [58, 58] := rfl
      have hmapped : ascii "::ffff:" = 58 :: ascii ":ffff:" := rfl
      simp only [inetNtop6, hbest]
      split_ifs <;> simp [hcolons, hmapped]
  cases h : inetPton4 (inetNtop6 a) with
  | none => rfl
  | some v =>
    rcases inetPton4Loop_chars h 58 hcolon with hdigit | hdot
    · exact absurd hdigit (by decide)
    · exact absurd hdot (by decide)

/-- A port survives as a number. -/
theorem toPort_toNat (port : UInt16) : toPort port.toNat = port := by
  have hlt := port.toNat_lt
  unfold toPort
  rw [Int.emod_eq_of_lt (by omega) (by omega), Int.toNat_natCast, UInt16.ofNat_toNat]

/-- **The text of an address is the address**: what `ipFromSockaddr` writes, with the port of the
address, is read by `ipPortToSockaddr` as the address and port it was written for. -/
theorem ipPortToSockaddr_ipFromSockaddr {addr : SockaddrAny} {ip : Bytes}
    (h : ipFromSockaddr addr = some ip) :
    ipPortToSockaddr ip (portFromSockaddr addr) = some addr := by
  unfold ipPortToSockaddr
  cases addr with
  | inet a port =>
    obtain rfl := Option.some.inj h
    rw [inetPton4_inetNtop4, portFromSockaddr, toPort_toNat]
  | inet6 a port =>
    obtain rfl := Option.some.inj h
    rw [inetPton4_inetNtop6, inetPton6_inetNtop6, portFromSockaddr, toPort_toNat]
  | other family => cases h

/-- An address with zeros in two places, of which the longer run is left out. -/
def gappedAddr : Vector UInt8 16 :=
  ⟨[0x20, 0x01, 0x0d, 0xb8, 0, 0, 0, 1, 0, 0, 0, 0, 0, 0, 0, 0x2a].toArray, by decide⟩

/-- It is written with a gap between its groups, and read back. -/
theorem ipPortToSockaddr_ipFromSockaddr_gapped :
    ipPortToSockaddr (ascii "2001:db8:0:1::2a") 21 = some (.inet6 gappedAddr 21) := by
  have h : ipFromSockaddr (.inet6 gappedAddr 21) = some (ascii "2001:db8:0:1::2a") := by decide
  exact ipPortToSockaddr_ipFromSockaddr h

end Ebbnc
