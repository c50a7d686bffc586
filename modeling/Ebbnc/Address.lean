import Ebbnc.Lib.CString

/-!
# Socket addresses and their texts

`struct sockaddr_any` and the address functions of `misc.c`, with the two library functions that
read and write address texts.

* `inetPton4`, `inetPton6` — `inet_pton`: dotted decimals of four octets, and colon-separated
  hexadecimal groups with one `::` and an optional dotted tail.
* `inetNtop4`, `inetNtop6` — `inet_ntop`.
* `ipPortToSockaddr`, `isValidIP`, `isValidPort`, `portFromSockaddr`, `ipFromSockaddr`.
* **`isValidIP_chars`** — an accepted address text is made of digits, letters `a` to `f`, dots and
  colons, so it can hold none of the separators of a config line; **`ipFromSockaddr_chars`** — so is
  an address that is written.
-/

namespace Ebbnc

open Lib

/-- An address of a socket. Families other than the two of the internet carry no address here, and
the flow label and the scope id of an IPv6 address are left out.
Source: `misc.h` `struct sockaddr_any` -/
inductive SockaddrAny
  /-- `AF_INET`. -/
  | inet (addr : Vector UInt8 4) (port : UInt16)
  /-- `AF_INET6`. -/
  | inet6 (addr : Vector UInt8 16) (port : UInt16)
  /-- Any other family. -/
  | other (family : ℕ)
  deriving DecidableEq

/-- `htons` of an `int` argument. -/
def toPort (port : ℤ) : UInt16 := UInt16.ofNat (port % 2 ^ 16).toNat

/-! ## Reading addresses -/

/-- The loop of `inet_pton` for `AF_INET`: the octets done, the current one, whether it has a digit
and how many octets were begun. -/
def inetPton4Loop : Bytes → List UInt8 → ℕ → Bool → ℕ → Option (Vector UInt8 4)
  | [], octets, current, _, begun =>
      if begun < 4 then none
      else
        match octets with
        | [a, b, c] => some #v[a, b, c, UInt8.ofNat current]
        | _ => none
  | ch :: src, octets, current, sawDigit, begun =>
      if isdigit ch then
        let new := current * 10 + (ch.toNat - 48)
        if sawDigit ∧ current = 0 then none
        else if 255 < new then none
        else if sawDigit then inetPton4Loop src octets new true begun
        else if 4 < begun + 1 then none
        else inetPton4Loop src octets new true (begun + 1)
      else if ch = 46 ∧ sawDigit then
        if begun = 4 then none
        else inetPton4Loop src (octets ++ [UInt8.ofNat current]) 0 false begun
      else none

/-- `inet_pton` for `AF_INET`. -/
def inetPton4 (src : Bytes) : Option (Vector UInt8 4) := inetPton4Loop src [] 0 false 0

/-- The loop of `inet_pton` for `AF_INET6`: the bytes written, where the `::` stands among them, the
text after the last colon, and the number and value of the digits since then. -/
def inetPton6Loop : Bytes → Bytes → Option ℕ → Bytes → ℕ → ℕ → Option (Bytes × Option ℕ × ℕ × ℕ)
  | [], tp, colonp, _, xdigits, val => some (tp, colonp, xdigits, val)
  | ch :: src, tp, colonp, curtok, xdigits, val =>
      if digitValue ch < 16 then
        if xdigits = 4 then none
        else inetPton6Loop src tp colonp curtok (xdigits + 1) (val * 16 + digitValue ch)
      else if ch = 58 then
        if xdigits = 0 then
          if colonp.isSome then none else inetPton6Loop src tp (some tp.length) src 0 val
        else if src = [] then none
        else if 16 < tp.length + 2 then none
        else
          inetPton6Loop src (tp ++ [UInt8.ofNat (val / 256), UInt8.ofNat (val % 256)]) colonp
            src 0 0
      else if ch = 46 ∧ tp.length + 4 ≤ 16 then
        match inetPton4 curtok with
        | some v => some (tp ++ v.toList, colonp, 0, val)
        | none => none
      else none

/-- What `inet_pton` for `AF_INET6` does after its loop: the last group, and zeros for the `::`. -/
def inetPton6Finish (tp : Bytes) (colonp : Option ℕ) (xdigits val : ℕ) :
    Option (Vector UInt8 16) :=
  if 0 < xdigits ∧ 16 < tp.length + 2 then none
  else
    let tp := if 0 < xdigits then tp ++ [UInt8.ofNat (val / 256), UInt8.ofNat (val % 256)] else tp
    let bytes :=
      match colonp with
      | none => tp
      | some k =>
          if tp.length = 16 then [] else tp.take k ++ List.replicate (16 - tp.length) 0 ++ tp.drop k
    if h : bytes.length = 16 then some ⟨bytes.toArray, h⟩ else none

/-- `inet_pton` for `AF_INET6`. -/
def inetPton6 (src : Bytes) : Option (Vector UInt8 16) :=
  let start (text : Bytes) : Option (Vector UInt8 16) := do
    let (tp, colonp, xdigits, val) ← inetPton6Loop text [] none text 0 0
    inetPton6Finish tp colonp xdigits val
  match src with
  | [] => none
  | 58 :: 58 :: rest => start (58 :: rest)
  | 58 :: _ => none
  | _ => start src

/-- The address an ip text and a port stand for.
Source: `misc.c` `ipPortToSockaddr` -/
def ipPortToSockaddr (ip : Bytes) (port : ℤ) : Option SockaddrAny :=
  match inetPton4 ip with
  | some addr => some (.inet addr (toPort port))
  | none =>
      match inetPton6 ip with
      | some addr => some (.inet6 addr (toPort port))
      | none => none

/-- Source: `misc.c` `isValidIP` -/
def isValidIP (ip : Bytes) : Bool := (ipPortToSockaddr ip 0).isSome

/-- The parameter is an `int`, so a `long` is narrowed on the way in.
Source: `misc.c` `isValidPort` -/
def isValidPort (port : ℤ) : Bool := 0 ≤ toInt port && toInt port ≤ 65535

/-- Source: `misc.c` `portFromSockaddr` -/
def portFromSockaddr : SockaddrAny → ℤ
  | .inet _ port => port.toNat
  | .inet6 _ port => port.toNat
  | .other _ => -1

/-! ## Writing addresses -/

/-- `inet_ntop` for `AF_INET`. -/
def inetNtop4 (a : Vector UInt8 4) : Bytes :=
  decimal a[0].toNat ++ ascii "." ++ decimal a[1].toNat ++ ascii "." ++ decimal a[2].toNat ++
    ascii "." ++ decimal a[3].toNat

/-- The `%x` conversion of `printf`. -/
def printHex (n : ℕ) : Bytes :=
  if n = 0 then [48]
  else ((Nat.digits 16 n).map fun d => UInt8.ofNat (if d < 10 then 48 + d else 87 + d)).reverse

/-- The eight groups of an IPv6 address. -/
def groups (a : Vector UInt8 16) : List ℕ :=
  (List.range 8).map fun i =>
    (a.toList.getD (2 * i) 0).toNat * 256 + (a.toList.getD (2 * i + 1) 0).toNat

/-- The start and length of the first longest run of zero groups, at least two long. -/
def bestZeros (g : List ℕ) : Option (ℕ × ℕ) :=
  (List.range g.length).foldl (fun best i =>
    let len := ((g.drop i).takeWhile (· == 0)).length
    match best with
    | none => if 2 ≤ len then some (i, len) else none
    | some (_, bestLen) => if bestLen < len then some (i, len) else best) none

/-- Groups in lower case hexadecimal, joined by colons. -/
def printGroups (g : List ℕ) : Bytes := ((g.map printHex).intersperse [58]).flatten

/-- `inet_ntop` for `AF_INET6`; a mapped or compatible IPv4 address ends in dotted decimals. -/
def inetNtop6 (a : Vector UInt8 16) : Bytes :=
  let g := groups a
  let tail4 := inetNtop4 #v[a[12], a[13], a[14], a[15]]
  match bestZeros g with
  | none => printGroups g
  | some (start, len) =>
      if start = 0 ∧ len = 6 then ascii "::" ++ tail4
      else if start = 0 ∧ len = 5 ∧ g.getD 5 0 = 0xffff then ascii "::ffff:" ++ tail4
      else printGroups (g.take start) ++ ascii "::" ++ printGroups (g.drop (start + len))

/-- The text of an address; `none` where the function returns without writing one. Its result is
true all the same there: it returns `-1` as a `bool`.
Source: `misc.c` `ipFromSockaddr` -/
def ipFromSockaddr : SockaddrAny → Option Bytes
  | .inet addr _ => some (inetNtop4 addr)
  | .inet6 addr _ => some (inetNtop6 addr)
  | .other _ => none

/-! ## What an address text is made of -/

/-- The characters of address texts. -/
def isAddressChar (c : UInt8) : Bool := decide (digitValue c < 16) || c == 46 || c == 58

theorem digitValue_of_isdigit {c : UInt8} (h : isdigit c = true) : digitValue c < 16 := by
  have hrange : 48 ≤ c ∧ c ≤ 57 := by simpa [isdigit] using h
  simp only [UInt8.le_iff_toNat_le] at hrange
  have h57 : (57 : UInt8).toNat = 57 := rfl
  rw [digitValue, if_pos h]
  omega

/-- What the dotted-decimal loop accepts is digits and dots. -/
theorem inetPton4Loop_chars {s : Bytes} {octets : List UInt8} {current begun : ℕ} {saw : Bool}
    {v : Vector UInt8 4} (h : inetPton4Loop s octets current saw begun = some v) :
    ∀ c ∈ s, isdigit c = true ∨ c = 46 := by
  induction s generalizing octets current saw begun with
  | nil => simp
  | cons ch src ih =>
      intro c hc
      rw [inetPton4Loop] at h
      by_cases hdigit : isdigit ch = true
      · rcases List.mem_cons.mp hc with rfl | hc
        · exact Or.inl hdigit
        · simp only [if_pos hdigit] at h
          split_ifs at h <;> exact ih h c hc
      · rw [if_neg hdigit] at h
        split_ifs at h with hdot
        rcases List.mem_cons.mp hc with rfl | hc
        · exact Or.inr hdot.1
        · exact ih h c hc

/-- A dotted-decimal text holds no colon. -/
theorem inetPton4_chars {s : Bytes} {v : Vector UInt8 4} (h : inetPton4 s = some v) :
    ∀ c ∈ s, isAddressChar c = true := by
  intro c hc
  rcases inetPton4Loop_chars h c hc with hdigit | rfl
  · simp [isAddressChar, digitValue_of_isdigit hdigit]
  · decide

/-- What the group loop accepts is address characters. The text it is in is the end of the text
after the last colon, which the dotted tail is read from. -/
theorem inetPton6Loop_chars {s tp curtok : Bytes} {colonp : Option ℕ} {xdigits val : ℕ}
    {r : Bytes × Option ℕ × ℕ × ℕ} (hsuffix : s <:+ curtok)
    (h : inetPton6Loop s tp colonp curtok xdigits val = some r) :
    ∀ c ∈ s, isAddressChar c = true := by
  induction s generalizing tp colonp curtok xdigits val with
  | nil => simp
  | cons ch src ih =>
      intro c hc
      rw [inetPton6Loop] at h
      by_cases hhex : digitValue ch < 16
      · rw [if_pos hhex] at h
        split_ifs at h
        rcases List.mem_cons.mp hc with rfl | hc
        · simp [isAddressChar, hhex]
        · exact ih ((List.suffix_cons ch src).trans hsuffix) h c hc
      · rw [if_neg hhex] at h
        by_cases hcolon : ch = 58
        · rw [if_pos hcolon] at h
          have hrest : ∀ c ∈ src, isAddressChar c = true := by
            split_ifs at h <;> exact ih List.suffix_rfl h
          rcases List.mem_cons.mp hc with rfl | hc
          · subst hcolon
            decide
          · exact hrest c hc
        · rw [if_neg hcolon] at h
          split_ifs at h
          split at h
          · next v hv => exact inetPton4_chars hv c (hsuffix.subset hc)
          · cases h

theorem inetPton6_chars {s : Bytes} {v : Vector UInt8 16} (h : inetPton6 s = some v) :
    ∀ c ∈ s, isAddressChar c = true := by
  have hstart : ∀ {text : Bytes} {r}, inetPton6Loop text [] none text 0 0 = some r →
      ∀ c ∈ text, isAddressChar c = true := fun h => inetPton6Loop_chars List.suffix_rfl h
  unfold inetPton6 at h
  split at h
  · cases h
  · obtain ⟨r, hloop, -⟩ := Option.bind_eq_some_iff.mp h
    intro c hc
    rcases List.mem_cons.mp hc with rfl | hc
    · decide
    · exact hstart hloop c hc
  · cases h
  · obtain ⟨r, hloop, -⟩ := Option.bind_eq_some_iff.mp h
    exact hstart hloop

/-- **An accepted address text is made of address characters.** -/
theorem isValidIP_chars {ip : Bytes} (h : isValidIP ip = true) :
    ∀ c ∈ ip, isAddressChar c = true := by
  unfold isValidIP ipPortToSockaddr at h
  split at h
  · next hv => exact inetPton4_chars hv
  · split at h
    · next hv => exact inetPton6_chars hv
    · simp at h

/-- The empty text is no address. -/
theorem isValidIP_ne_nil {ip : Bytes} (h : isValidIP ip = true) : ip ≠ [] := by
  rintro rfl
  exact absurd h (by decide)

/-- Dotted decimals are address characters. -/
theorem inetNtop4_chars (a : Vector UInt8 4) : ∀ c ∈ inetNtop4 a, isAddressChar c = true := by
  have hdecimal : ∀ n, ∀ c ∈ decimal n, isAddressChar c = true := fun n c hc => by
    simp [isAddressChar, digitValue_of_isdigit (mem_decimal hc).1]
  have hdot : ∀ c ∈ ascii ".", isAddressChar c = true := by decide
  intro c hc
  simp only [inetNtop4, List.mem_append, or_assoc] at hc
  rcases hc with hc | hc | hc | hc | hc | hc | hc
  · exact hdecimal _ c hc
  · exact hdot c hc
  · exact hdecimal _ c hc
  · exact hdot c hc
  · exact hdecimal _ c hc
  · exact hdot c hc
  · exact hdecimal _ c hc

/-- So are hexadecimal digits. -/
theorem printHex_chars (n : ℕ) : ∀ c ∈ printHex n, isAddressChar c = true := by
  have hdigit : ∀ d < 16,
      isAddressChar (UInt8.ofNat (if d < 10 then 48 + d else 87 + d)) = true := by decide
  intro c hc
  unfold printHex at hc
  split_ifs at hc
  · rw [List.mem_singleton.mp hc]
    decide
  · obtain ⟨d, hd, rfl⟩ := List.mem_map.mp (List.mem_reverse.mp hc)
    exact hdigit d (Nat.digits_lt_base (by decide) hd)

/-- So are groups with their colons. -/
theorem printGroups_chars (g : List ℕ) : ∀ c ∈ printGroups g, isAddressChar c = true := by
  induction g with
  | nil => simp [printGroups]
  | cons n g ih =>
      cases g with
      | nil => simpa [printGroups] using printHex_chars n
      | cons m g =>
          have hcons : printGroups (n :: m :: g) = printHex n ++ 58 :: printGroups (m :: g) := rfl
          intro c hc
          rw [hcons] at hc
          rcases List.mem_append.mp hc with hc | hc
          · exact printHex_chars n c hc
          · rcases List.mem_cons.mp hc with rfl | hc
            · decide
            · exact ih c hc

/-- **A written address is made of address characters.** -/
theorem ipFromSockaddr_chars {addr : SockaddrAny} {ip : Bytes} (h : ipFromSockaddr addr = some ip) :
    ∀ c ∈ ip, isAddressChar c = true := by
  cases addr with
  | inet a port =>
    obtain rfl := Option.some.inj h
    exact inetNtop4_chars a
  | inet6 a port =>
    obtain rfl := Option.some.inj h
    have hcolons : ∀ c ∈ ascii "::", isAddressChar c = true := by decide
    have hmapped : ∀ c ∈ ascii "::ffff:", isAddressChar c = true := by decide
    intro c hc
    simp only [inetNtop6] at hc
    split at hc
    · exact printGroups_chars _ c hc
    · split_ifs at hc
      · rcases List.mem_append.mp hc with hc | hc
        · exact hcolons c hc
        · exact inetNtop4_chars _ c hc
      · rcases List.mem_append.mp hc with hc | hc
        · exact hmapped c hc
        · exact inetNtop4_chars _ c hc
      · simp only [List.mem_append, or_assoc] at hc
        rcases hc with hc | hc | hc
        · exact printGroups_chars _ c hc
        · exact hcolons c hc
        · exact printGroups_chars _ c hc
  | other family => cases h

/-- A port that passes the check is a port number once narrowed. -/
theorem isValidPort_iff {port : ℤ} :
    isValidPort port = true ↔ 0 ≤ toInt port ∧ toInt port ≤ 65535 := by
  simp [isValidPort]

end Ebbnc
