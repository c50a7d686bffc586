import Ebbnc.ConfigFormat
import Ebbnc.Lib.Numeral

/-!
# What a bouncer definition is read as

* `Bouncer.tokens` — the six tokens a definition is split into, as far as they are there;
  **`Bouncer.parse_eq`** — the parser in terms of them.
* **`Bouncer.readsExactly_iff`** — the ports of a definition are the decimal numbers written exactly
  where the port tokens of every definition that is accepted are plain numerals.
* **`Bouncer.parse_print_iff`** — a printed bouncer is read back exactly where neither the listen ip
  nor the remote host holds a colon.
* **`Config.loadBuffer_saveBuffer_loaded`** — every config that was loaded is saved as a text that
  is loaded again, its ports narrowed and its bouncers reversed.
-/

namespace Ebbnc

open Lib

/-! ## Tokens -/

/-- The tokens of a text, one for each delimiter, up to the first call that finds none. -/
def splitTokens : List UInt8 → Bytes → List Bytes
  | [], _ => []
  | delim :: delims, s =>
      match strtok delim s with
      | (none, _) => []
      | (some token, saved) => token :: splitTokens delims saved

/-- The tokens of a bouncer definition: listen ip, listen port, remote host, remote port, local ip
and anything further.
Source: `config.c` `Bouncer_parse`, the calls of `strtok` -/
def Bouncer.tokens (s : Bytes) : List Bytes :=
  splitTokens [colon, blank, colon, blank, blank, blank] s

/-- The parser on the tokens: four or five of them, of which two are the ports. -/
def Bouncer.ofTokens : List Bytes → Option Bouncer
  | listenIP :: listenPort :: remoteHost :: remotePort :: rest => do
      let (listenPort, _) ← scanInteger listenPort
      let (remotePort, _) ← scanInteger remotePort
      match rest with
      | [] => some ⟨some listenIP, listenPort, some remoteHost, remotePort, some listenIP⟩
      | [localIP] => some ⟨some listenIP, listenPort, some remoteHost, remotePort, some localIP⟩
      | _ => none
  | _ => none

/-- **The parser looks at the tokens only.** -/
theorem Bouncer.parse_eq (s : Bytes) : Bouncer.parse s = Bouncer.ofTokens (Bouncer.tokens s) := by
  unfold Bouncer.parse Bouncer.tokens
  rcases h1 : strtok colon s with ⟨_ | listenIP, s1⟩
  · simp [splitTokens, h1, Bouncer.ofTokens]
  rcases h2 : strtok blank s1 with ⟨_ | listenPort, s2⟩
  · simp [splitTokens, h1, h2, Bouncer.ofTokens]
  rcases h3 : strtok colon s2 with ⟨_ | remoteHost, s3⟩
  · simp [splitTokens, h1, h2, h3, Bouncer.ofTokens]
  rcases h4 : strtok blank s3 with ⟨_ | remotePort, s4⟩
  · simp [splitTokens, h1, h2, h3, h4, Bouncer.ofTokens]
  rcases h5 : strtok blank s4 with ⟨_ | localIP, s5⟩
  · simp [splitTokens, h1, h2, h3, h4, h5, Bouncer.ofTokens]
  rcases h6 : strtok blank s5 with ⟨_ | further, s6⟩ <;>
    simp [splitTokens, h1, h2, h3, h4, h5, h6, Bouncer.ofTokens]

/-- A token is not empty and holds none of its delimiter. -/
theorem getElem?_splitTokens (delims : List UInt8) (s : Bytes) {i : ℕ} {token : Bytes}
    (h : (splitTokens delims s)[i]? = some token) :
    token ≠ [] ∧ ∀ delim ∈ delims[i]?, ∀ c ∈ token, c ≠ delim := by
  induction delims generalizing s i with
  | nil => simp [splitTokens] at h
  | cons delim delims ih =>
      rw [splitTokens] at h
      rcases hs : strtok delim s with ⟨_ | first, saved⟩
      · simp [hs] at h
      · rw [hs] at h
        cases i with
        | zero =>
            obtain ⟨hne, hfree, -⟩ := strtok_eq_some hs
            obtain rfl : first = token := by simpa using h
            refine ⟨hne, fun d hd c hc => ?_⟩
            obtain rfl : delim = d := by simpa using hd
            exact (hfree c hc).1
        | succ i => exact ih saved (by simpa using h)

/-- The first token, and the text saved for the others. -/
theorem splitTokens_eq_cons {delim : UInt8} {delims : List UInt8} {s token : Bytes}
    {tokens : List Bytes} (h : splitTokens (delim :: delims) s = token :: tokens) :
    ∃ saved, strtok delim s = (some token, saved) ∧ splitTokens delims saved = tokens := by
  rw [splitTokens] at h
  rcases hs : strtok delim s with ⟨_ | first, saved⟩
  · simp [hs] at h
  · rw [hs] at h
    obtain ⟨rfl, rfl⟩ := List.cons.inj h
    exact ⟨saved, rfl, rfl⟩

/-- A token that others follow is in front of a delimiter. -/
theorem strtok_split_of_next {delim : UInt8} {s token saved : Bytes}
    (h : strtok delim s = (some token, saved)) (hnext : saved ≠ []) :
    ∃ seps, (∀ c ∈ seps, c = delim) ∧ s = seps ++ token ++ delim :: saved := by
  obtain ⟨seps, hseps, hs | ⟨-, hnil⟩⟩ := strtok_split h
  · exact ⟨seps, hseps, hs⟩
  · exact absurd hnil hnext

/-- What an accepted definition is made of. -/
theorem Bouncer.ofTokens_eq_some {tokens : List Bytes} {b : Bouncer}
    (h : Bouncer.ofTokens tokens = some b) :
    ∃ listenIP listenPort remoteHost remotePort rest,
      tokens = listenIP :: listenPort :: remoteHost :: remotePort :: rest ∧ rest.length ≤ 1 ∧
      b.listenIP = some listenIP ∧ b.remoteHost = some remoteHost ∧
      (∃ after, scanInteger listenPort = some (b.listenPort, after)) ∧
      ∃ after, scanInteger remotePort = some (b.remotePort, after) := by
  match tokens, h with
  | listenIP :: listenPort :: remoteHost :: remotePort :: rest, h =>
      simp only [Bouncer.ofTokens, Option.bind_eq_bind, Option.bind_eq_some_iff] at h
      obtain ⟨⟨v, after⟩, hv, ⟨w, after'⟩, hw, h⟩ := h
      refine ⟨listenIP, listenPort, remoteHost, remotePort, rest, rfl, ?_⟩
      match rest, h with
      | [], h =>
          obtain rfl := Option.some.inj h
          exact ⟨by simp, rfl, rfl, ⟨after, hv⟩, after', hw⟩
      | [localIP], h =>
          obtain rfl := Option.some.inj h
          exact ⟨by simp, rfl, rfl, ⟨after, hv⟩, after', hw⟩

/-- Four or five tokens with two numbers among them are accepted. -/
theorem Bouncer.exists_ofTokens {listenIP listenPort remoteHost remotePort : Bytes}
    {rest : List Bytes} {v w : ℤ} {after after' : Bytes} (hlen : rest.length ≤ 1)
    (hv : scanInteger listenPort = some (v, after))
    (hw : scanInteger remotePort = some (w, after')) :
    ∃ b, Bouncer.ofTokens (listenIP :: listenPort :: remoteHost :: remotePort :: rest) = some b ∧
      b.listenPort = v ∧ b.remotePort = w := by
  match rest, hlen with
  | [], _ => exact ⟨_, by simp [Bouncer.ofTokens, hv, hw]; rfl, rfl, rfl⟩
  | [localIP], _ => exact ⟨_, by simp [Bouncer.ofTokens, hv, hw]; rfl, rfl, rfl⟩

/-! ## The ports -/

/-- A port is the decimal number its token is the numeral of, and the editor's reader takes that
token, too. -/
def ReadsPort (token : Bytes) (port : ℤ) : Prop :=
  (strToLong token).1 = true ∧ Numeral token port

/-- A complete numeral is one for the editor. -/
theorem readsPort_iff {token : Bytes} {port : ℤ} : ReadsPort token port ↔ Numeral token port := by
  refine ⟨fun h => h.2, fun h => ⟨?_, h⟩⟩
  rw [strToLong, strtol_of_numeral h]
  rfl

/-- Where the first four tokens stand in a definition: the listen ip up to the first `:` behind it,
the listen port from there to the next blank, and the remote host and its port in the same way.
Delimiters in front of a token are passed over. -/
structure Bouncer.Laid (s listenIP listenPort remoteHost remotePort : Bytes) : Prop where
  text : ∃ a b c d more, (∀ x ∈ a, x = colon) ∧ (∀ x ∈ b, x = blank) ∧ (∀ x ∈ c, x = colon) ∧
    (∀ x ∈ d, x = blank) ∧ (more = [] ∨ more.head? = some blank) ∧
    s = a ++ listenIP ++ colon :: (b ++ listenPort ++ blank ::
      (c ++ remoteHost ++ colon :: (d ++ remotePort ++ more)))
  listenIP : ∀ x ∈ listenIP, x ≠ colon
  listenPort : ∀ x ∈ listenPort, x ≠ blank
  remoteHost : ∀ x ∈ remoteHost, x ≠ colon
  remotePort : ∀ x ∈ remotePort, x ≠ blank

/-- That is where they are. -/
theorem Bouncer.laid_of_tokens {s listenIP listenPort remoteHost remotePort : Bytes}
    {rest : List Bytes}
    (h : Bouncer.tokens s = listenIP :: listenPort :: remoteHost :: remotePort :: rest) :
    Bouncer.Laid s listenIP listenPort remoteHost remotePort := by
  have hfree : ∀ i token, (Bouncer.tokens s)[i]? = some token →
      ∀ delim ∈ [colon, blank, colon, blank, blank, blank][i]?, ∀ c ∈ token, c ≠ delim :=
    fun i token hi => (getElem?_splitTokens _ s hi).2
  rw [h] at hfree
  refine ⟨?_, hfree 0 _ rfl _ rfl, hfree 1 _ rfl _ rfl, hfree 2 _ rfl _ rfl, hfree 3 _ rfl _ rfl⟩
  unfold Bouncer.tokens at h
  obtain ⟨s₁, h₁, h⟩ := splitTokens_eq_cons h
  obtain ⟨s₂, h₂, h⟩ := splitTokens_eq_cons h
  obtain ⟨s₃, h₃, h⟩ := splitTokens_eq_cons h
  obtain ⟨s₄, h₄, -⟩ := splitTokens_eq_cons h
  obtain ⟨a, ha, hs⟩ := strtok_split_of_next h₁ (by rintro rfl; cases h₂)
  obtain ⟨b, hb, hs₁⟩ := strtok_split_of_next h₂ (by rintro rfl; cases h₃)
  obtain ⟨c, hc, hs₂⟩ := strtok_split_of_next h₃ (by rintro rfl; cases h₄)
  obtain ⟨d, hd, hs₃ | ⟨hs₃, -⟩⟩ := strtok_split h₄
  · refine ⟨a, b, c, d, blank :: s₄, ha, hb, hc, hd, Or.inr rfl, ?_⟩
    rw [hs, hs₁, hs₂, hs₃]
  · refine ⟨a, b, c, d, [], ha, hb, hc, hd, Or.inl rfl, ?_⟩
    rw [hs, hs₁, hs₂, hs₃, List.append_nil]

/-- What the parser is to make of a definition: of every one it accepts the two port tokens are
decimal numerals to their end and the ports are their values, and a definition with anything
behind its local ip is not accepted. -/
structure Bouncer.ReadsExactly (s : Bytes) : Prop where
  ports : ∀ b, Bouncer.parse s = some b → ∃ listenIP listenPort remoteHost remotePort rest,
    Bouncer.tokens s = listenIP :: listenPort :: remoteHost :: remotePort :: rest ∧
      Bouncer.Laid s listenIP listenPort remoteHost remotePort ∧
      ReadsPort listenPort b.listenPort ∧ ReadsPort remotePort b.remotePort
  further : 5 < (Bouncer.tokens s).length → Bouncer.parse s = none

/-- Where there are four or five tokens and both port tokens start with a number, these are plain
numerals. -/
def Bouncer.PlainPorts (s : Bytes) : Prop :=
  ∀ listenIP listenPort remoteHost remotePort rest,
    Bouncer.tokens s = listenIP :: listenPort :: remoteHost :: remotePort :: rest →
    rest.length ≤ 1 → (scanInteger listenPort).isSome = true →
    (scanInteger remotePort).isSome = true → Plain listenPort ∧ Plain remotePort

/-- **Ports are read exactly where they are plain numerals**: the conversion stops at the first
character that is no digit and takes a leading zero for another base, while the editor's reader
wants a decimal numeral to the end. -/
theorem Bouncer.readsExactly_iff (s : Bytes) : Bouncer.ReadsExactly s ↔ Bouncer.PlainPorts s := by
  constructor
  · intro h listenIP listenPort remoteHost remotePort rest htokens hlen hv hw
    obtain ⟨⟨v, after⟩, hv⟩ := Option.isSome_iff_exists.mp hv
    obtain ⟨⟨w, after'⟩, hw⟩ := Option.isSome_iff_exists.mp hw
    obtain ⟨b, hb, rfl, rfl⟩ := Bouncer.exists_ofTokens hlen hv hw
    rw [← htokens, ← Bouncer.parse_eq] at hb
    obtain ⟨_, _, _, _, _, htokens', -, hlisten, hremote⟩ := h.ports b hb
    rw [htokens] at htokens'
    simp only [List.cons.injEq] at htokens'
    obtain ⟨-, rfl, -, rfl, -⟩ := htokens'
    exact ⟨plain_iff_scanInteger.mpr ⟨_, _, hv, hlisten.2⟩,
      plain_iff_scanInteger.mpr ⟨_, _, hw, hremote.2⟩⟩
  · intro h
    refine ⟨fun b hb => ?_, fun hlen => ?_⟩
    · rw [Bouncer.parse_eq] at hb
      obtain ⟨listenIP, listenPort, remoteHost, remotePort, rest, htokens, hlen, -, -,
        ⟨after, hv⟩, after', hw⟩ := Bouncer.ofTokens_eq_some hb
      obtain ⟨hlisten, hremote⟩ := h _ _ _ _ _ htokens hlen (by rw [hv]; rfl) (by rw [hw]; rfl)
      obtain ⟨v, _, hv', hlistenNum⟩ := plain_iff_scanInteger.mp hlisten
      obtain ⟨w, _, hw', hremoteNum⟩ := plain_iff_scanInteger.mp hremote
      obtain ⟨rfl, -⟩ := Prod.mk.inj (Option.some.inj (hv.symm.trans hv'))
      obtain ⟨rfl, -⟩ := Prod.mk.inj (Option.some.inj (hw.symm.trans hw'))
      exact ⟨_, _, _, _, _, htokens, Bouncer.laid_of_tokens htokens,
        readsPort_iff.mpr hlistenNum, readsPort_iff.mpr hremoteNum⟩
    · rw [Bouncer.parse_eq]
      by_contra hsome
      obtain ⟨b, hb⟩ := Option.ne_none_iff_exists'.mp hsome
      obtain ⟨_, _, _, _, rest, htokens, hrest, -⟩ := Bouncer.ofTokens_eq_some hb
      rw [htokens] at hlen
      simp only [List.length_cons] at hlen
      omega

/-- An octal listen port, and a remote port with letters behind it. -/
def looseDefinition : Bytes := ascii "0.0.0.0:010 host:21abc"

/-- A definition may be accepted with other ports than those written. -/
theorem Bouncer.not_readsExactly :
    (∃ b, Bouncer.parse looseDefinition = some b ∧ b.listenPort = 8 ∧ b.remotePort = 21) ∧
      ¬ ∀ s, Bouncer.ReadsExactly s := by
  have hparse : Bouncer.parse looseDefinition =
      some ⟨some (ascii "0.0.0.0"), 8, some (ascii "host"), 21, some (ascii "0.0.0.0")⟩ := by
    decide
  refine ⟨⟨_, hparse, rfl, rfl⟩, fun h => ?_⟩
  obtain ⟨_, _, _, _, _, htokens, -, -, hremote⟩ := (h looseDefinition).ports _ hparse
  have hwritten : Bouncer.tokens looseDefinition =
      [ascii "0.0.0.0", ascii "010", ascii "host", ascii "21abc"] := by decide
  rw [hwritten] at htokens
  simp only [List.cons.injEq] at htokens
  obtain ⟨-, -, -, rfl, -⟩ := htokens
  exact absurd hremote.1 (by decide)

/-! ## Addresses -/

/-- Of what is read, listen ip and remote host hold no colon, and the remote host is not empty. -/
theorem Bouncer.colonFree_of_parse {s : Bytes} {b : Bouncer} (h : Bouncer.parse s = some b) :
    ∃ listenIP remoteHost, b.listenIP = some listenIP ∧ b.remoteHost = some remoteHost ∧
      (∀ c ∈ listenIP, c ≠ colon) ∧ (∀ c ∈ remoteHost, c ≠ colon) ∧ remoteHost ≠ [] := by
  rw [Bouncer.parse_eq] at h
  obtain ⟨listenIP, _, remoteHost, _, _, htokens, -, hip, hhost, -⟩ := Bouncer.ofTokens_eq_some h
  obtain ⟨-, hipfree⟩ := getElem?_splitTokens _ _ (i := 0) (congrArg (·[0]?) htokens)
  obtain ⟨hne, hhostfree⟩ := getElem?_splitTokens _ _ (i := 2) (congrArg (·[2]?) htokens)
  exact ⟨listenIP, remoteHost, hip, hhost, hipfree colon rfl, hhostfree colon rfl, hne⟩

/-- **Printed bouncers are read back** exactly where neither the listen ip nor the remote host
holds the separator of address and port, which leaves out every IPv6 address there. -/
theorem Bouncer.parse_print_iff {listenIP remoteHost localIP : Bytes} {listenPort remotePort : ℤ}
    (hlisten : isValidIP listenIP = true) (hlocal : isValidIP localIP = true)
    (hlp : 0 ≤ listenPort ∧ listenPort ≤ 65535) (hrp : 0 ≤ remotePort ∧ remotePort ≤ 65535) :
    Bouncer.parse ((Bouncer.print ⟨some listenIP, listenPort, some remoteHost, remotePort,
          some localIP⟩).drop 8) =
        some ⟨some listenIP, listenPort, some remoteHost, remotePort, some localIP⟩ ↔
      (∀ c ∈ listenIP, c ≠ colon) ∧ (∀ c ∈ remoteHost, c ≠ colon) ∧ remoteHost ≠ [] := by
  constructor
  · intro h
    obtain ⟨_, _, ⟨rfl⟩, ⟨rfl⟩, hfree⟩ := Bouncer.colonFree_of_parse h
    exact hfree
  · rintro ⟨hipfree, hhostfree, hne⟩
    obtain ⟨hlpValid, hlpInt⟩ := isValidPort_of_range hlp
    obtain ⟨hrpValid, hrpInt⟩ := isValidPort_of_range hrp
    have hblank : ∀ c ∈ localIP, c ≠ blank := by
      rintro c hc rfl
      exact absurd (isValidIP_chars hlocal _ hc) (by decide)
    have hparse := Bouncer.parse_print
      (b := ⟨some listenIP, listenPort, some remoteHost, remotePort, some localIP⟩)
      ⟨⟨listenIP, rfl, isValidIP_ne_nil hlisten, hipfree⟩, hlpValid,
        ⟨remoteHost, rfl, hne, hhostfree⟩, hrpValid, isValidIP_ne_nil hlocal, hblank⟩
    rw [hparse, Bouncer.reread]
    simp only [hlpInt, hrpInt]
    rfl

/-- A local ip may be an IPv6 address. -/
theorem Bouncer.parse_print_sample :
    Bouncer.parse ((Bouncer.print ⟨some (ascii "127.0.0.1"), 21, some (ascii "10.0.0.1"), 65535,
          some (ascii "::1")⟩).drop 8) =
        some ⟨some (ascii "127.0.0.1"), 21, some (ascii "10.0.0.1"), 65535,
          some (ascii "::1")⟩ ↔
      (∀ c ∈ ascii "127.0.0.1", c ≠ colon) ∧ (∀ c ∈ ascii "10.0.0.1", c ≠ colon) ∧
        ascii "10.0.0.1" ≠ [] :=
  Bouncer.parse_print_iff (by decide) (by decide) (by decide) (by decide)

/-- A bouncer that listens on an IPv6 address is read back with another one. -/
theorem Bouncer.not_parse_print :
    ¬ ∀ (listenIP remoteHost localIP : Bytes) (listenPort remotePort : ℤ),
      isValidIP listenIP = true → isValidIP localIP = true →
      numericHost (some remoteHost) = true → (∀ c ∈ remoteHost, c ≠ blank) →
      0 ≤ listenPort ∧ listenPort ≤ 65535 → 0 ≤ remotePort ∧ remotePort ≤ 65535 →
      Bouncer.parse ((Bouncer.print ⟨some listenIP, listenPort, some remoteHost, remotePort,
          some localIP⟩).drop 8) =
        some ⟨some listenIP, listenPort, some remoteHost, remotePort, some localIP⟩ := by
  intro h
  have hread := h (ascii "::1") (ascii "10.0.0.1") (ascii "1.2.3.4") 21 2121 (by decide)
    (by decide) (by decide) (by decide) (by decide) (by decide)
  obtain ⟨_, _, ⟨rfl⟩, -, hcolon, -⟩ := Bouncer.colonFree_of_parse hread
  exact absurd hcolon (by decide)

/-! ## Configs that were loaded -/

/-- A bouncer with the ports that are checked, listened on and connected to. -/
def Bouncer.narrowed (b : Bouncer) : Bouncer :=
  { b with listenPort := toInt b.listenPort, remotePort := toInt b.remotePort }

/-- A config with these ports. -/
def Config.narrowed (config : Config) : Config :=
  { config with bouncers := config.bouncers.map Bouncer.narrowed }

/-- A config with its bouncers in reverse order. -/
def Config.reversed (config : Config) : Config :=
  { config with bouncers := config.bouncers.reverse }

section loaded

variable {isValidHost : Option Bytes → Bool}

/-- What is read is printed in a form the loader can take apart, once it passed its checks. -/
theorem Bouncer.printable_of_parse {s : Bytes} {b : Bouncer} (h : Bouncer.parse s = some b)
    (hchecked : b.Checked isValidHost) : b.Printable := by
  obtain ⟨ip, host, hip, hhost, hipfree, hhostfree, hne⟩ := Bouncer.colonFree_of_parse h
  obtain ⟨ip', hip', hvalid⟩ := hchecked.listenIP
  obtain rfl : ip = ip' := Option.some.inj (hip.symm.trans hip')
  obtain ⟨localIP, hlocal, hlocalValid⟩ := hchecked.localIP
  refine ⟨⟨ip, hip, isValidIP_ne_nil hvalid, hipfree⟩, hchecked.listenPort,
    ⟨host, hhost, hne, hhostfree⟩, hchecked.remotePort, ?_⟩
  rw [hlocal]
  refine ⟨isValidIP_ne_nil hlocalValid, ?_⟩
  rintro c hc rfl
  exact absurd (isValidIP_chars hlocalValid _ hc) (by decide)

/-- Reading a bouncer that passed its checks back changes its ports only. -/
theorem Bouncer.Checked.reread {b : Bouncer} (h : b.Checked isValidHost) :
    b.reread = b.narrowed := by
  obtain ⟨localIP, hlocal, -⟩ := h.localIP
  simp [Bouncer.reread, Bouncer.narrowed, hlocal, printString]

/-- With these ports it is valid: it passes its checks, and its ports are port numbers. -/
theorem Bouncer.Checked.narrowed {b : Bouncer} (h : b.Checked isValidHost) :
    b.narrowed.Checked isValidHost ∧ b.narrowed.Valid isValidHost := by
  have hport : ∀ {port : ℤ}, isValidPort port = true → isValidPort (toInt port) = true :=
    fun hvalid => (isValidPort_of_range (isValidPort_iff.mp hvalid)).1
  have hchecked : b.narrowed.Checked isValidHost :=
    ⟨h.listenIP, hport h.listenPort, h.remoteHost, hport h.remotePort, h.localIP⟩
  exact ⟨hchecked, (Bouncer.valid_iff hchecked).mpr ⟨toInt_mem _, toInt_mem _⟩⟩

/-- Narrowing a port a second time changes nothing. -/
theorem toInt_toInt (v : ℤ) : toInt (toInt v) = toInt v :=
  toInt_of_mem (toInt_mem v).1 (toInt_mem v).2

/-- It is printed the same. -/
theorem Bouncer.print_narrowed (b : Bouncer) : b.narrowed.print = b.print := by
  simp only [Bouncer.print, Bouncer.narrowed, toInt_toInt]

/-- So is a config. -/
theorem Config.saveBuffer_narrowed (config : Config) :
    config.narrowed.saveBuffer = config.saveBuffer := by
  have hprint : Bouncer.print ∘ Bouncer.narrowed = Bouncer.print :=
    funext Bouncer.print_narrowed
  rw [Config.saveBuffer_eq, Config.saveBuffer_eq]
  simp only [Config.saveLines, Config.narrowed, List.map_map, hprint]

/-- The bouncers of a text that is read are printed in a form the loader can take apart, once they
passed their checks. -/
theorem Config.printable_of_loadAll {buffer : Bytes} {config : Config}
    (h : Config.new.loadAll (textLines buffer) = .ok config)
    (hchecked : ∀ b ∈ config.bouncers, b.Checked isValidHost) : config.Printable := by
  have hlines := Config.lines_of_loadAll h
  obtain ⟨bs, hbs, hresult⟩ := Config.definitions_of_loadAll h
  refine ⟨hlines.identTimeout, hlines.idleTimeout, hlines.writeTimeout,
    fun s hs => (hlines.pidFile s hs).1, fun s hs => (hlines.welcomeMsg s hs).1, fun b hb => ?_⟩
  have hmem : b ∈ bs := by simpa [hresult, Config.new] using hb
  have hsome : some b ∈ (definitions (textLines buffer)).map Bouncer.parse := by
    rw [hbs]
    exact List.mem_map_of_mem hmem
  obtain ⟨s, -, hparse⟩ := List.mem_map.mp hsome
  exact Bouncer.printable_of_parse hparse (hchecked b hb)

/-- Saving a config that was loaded, and loading it. -/
theorem Config.load_save_of_loaded {buffer : Bytes} {config : Config}
    (h : Config.loadBuffer isValidHost buffer = .ok (.ok config)) :
    Config.loadBuffer isValidHost config.saveBuffer = .ok (.ok config.narrowed.reversed) := by
  obtain ⟨hload, hne, hchecked⟩ := Config.loadBuffer_eq_ok.mp h
  have hlines := Config.lines_of_loadAll hload
  have hline : config.OneLine := ⟨fun s hs => (hlines.pidFile s hs).2,
    fun s hs => (hlines.welcomeMsg s hs).2, fun b hb => (hlines.bouncers b hb).2⟩
  have hmap : config.bouncers.map Bouncer.reread = config.bouncers.map Bouncer.narrowed :=
    List.map_congr_left fun b hb => (hchecked b hb).reread
  have hreread : config.reread = config.narrowed.reversed := by
    rw [Config.reread, hmap]
    rfl
  rw [Config.loadBuffer_eq_ok, Config.textLines_saveBuffer hline,
    Config.loadAll_saveLines (Config.printable_of_loadAll hload hchecked), hreread]
  refine ⟨rfl, by simpa [Config.reversed, Config.narrowed] using hne, fun b hb => ?_⟩
  obtain ⟨c, hc, rfl⟩ := List.mem_map.mp (List.mem_reverse.mp hb)
  exact (hchecked c hc).narrowed.1

/-- **Whatever was loaded is saved without loss**: of every text that is accepted, the config is
saved as a text that is accepted, too, with the same options and the same bouncers in reverse
order, whose ports have become the port numbers that were checked. Saving that config gives a text
that is loaded with the bouncers in the first order, and from then on the two texts alternate. -/
theorem Config.loadBuffer_saveBuffer_loaded {buffer : Bytes} {config : Config}
    (h : Config.loadBuffer isValidHost buffer = .ok (.ok config)) :
    Config.loadBuffer isValidHost config.saveBuffer = .ok (.ok config.narrowed.reversed) ∧
      config.narrowed.reversed.Valid isValidHost ∧
      Config.loadBuffer isValidHost config.narrowed.reversed.saveBuffer =
        .ok (.ok config.narrowed) ∧
      config.narrowed.saveBuffer = config.saveBuffer := by
  have hfirst := Config.load_save_of_loaded h
  have hsecond := Config.load_save_of_loaded hfirst
  have htwice : config.narrowed.reversed.narrowed.reversed = config.narrowed := by
    have hnarrowed : ∀ b : Bouncer, b.narrowed.narrowed = b.narrowed := fun b => by
      simp only [Bouncer.narrowed, toInt_toInt]
    simp [Config.narrowed, Config.reversed, List.map_reverse, hnarrowed]
  rw [htwice] at hsecond
  obtain ⟨-, -, hchecked⟩ := Config.loadBuffer_eq_ok.mp h
  obtain ⟨hload, hne, -⟩ := Config.loadBuffer_eq_ok.mp hfirst
  have hlines := Config.lines_of_loadAll hload
  refine ⟨hfirst, ⟨hne, hlines.identTimeout.1, hlines.idleTimeout.1, hlines.writeTimeout.1,
    fun b hb => ?_⟩, hsecond, config.saveBuffer_narrowed⟩
  obtain ⟨c, hc, rfl⟩ := List.mem_map.mp (List.mem_reverse.mp hb)
  exact (hchecked c hc).narrowed.2

/-- A text whose listen port is `2 ^ 32 + 1` and is saved as the port number one. -/
theorem Config.loadBuffer_saveBuffer_wrappedPort :
    Config.loadBuffer numericHost wrappedPortConfig.saveBuffer =
        .ok (.ok wrappedPortConfig.narrowed.reversed) ∧
      wrappedPortConfig.narrowed.reversed.Valid numericHost ∧
      Config.loadBuffer numericHost wrappedPortConfig.narrowed.reversed.saveBuffer =
        .ok (.ok wrappedPortConfig.narrowed) ∧
      wrappedPortConfig.narrowed.saveBuffer = wrappedPortConfig.saveBuffer :=
  Config.loadBuffer_saveBuffer_loaded loadBuffer_wrappedPort

end loaded

end Ebbnc
