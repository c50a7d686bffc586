import Ebbnc.Address
import Ebbnc.Lib.Runs

/-!
# Configs: the loader and the printer

The data and the functions of `config.c` that turn a text into a `Config` and back. Whether a host
name resolves is `getaddrinfo`'s answer, so `isValidHost` is a parameter; memory allocation
succeeds, and texts are shorter than `INT_MAX`, the length `vsnprintf` can report.

* `Bouncer.parse` — the `strtok` chain of one bouncer definition.
* `Config.loadLine`, `Config.loadLines`, `Config.loadBuffer` — one option, the line scanner and the
  whole loader; `Config.sanityCheck` — the checks on the finished config.
* `Config.saveBuffer` — the printer.
* **`Config.loadLines_eq`** — the scanner runs over the lines of the text, its maximal runs of
  characters that are neither CR nor LF.
* **`Config.sanityCheck_of_nonNull`** — what the finished checks establish.
-/

namespace Ebbnc

open Lib

/-- A bouncer without its `next` pointer. Pointers to strings are `none` when null.
Source: `config.h` `Bouncer` -/
structure Bouncer where
  listenIP : Option Bytes
  listenPort : ℤ
  remoteHost : Option Bytes
  remotePort : ℤ
  localIP : Option Bytes
  deriving DecidableEq

/-- Source: `config.c` `Bouncer_new` -/
def Bouncer.new : Bouncer := ⟨none, -1, none, -1, none⟩

/-- The fields of a `Config` other than its bouncers.
Source: `config.h` `Config` -/
structure Options where
  idnt : Bool
  identTimeout : ℤ
  idleTimeout : ℤ
  writeTimeout : ℤ
  dnsLookup : Bool
  pidFile : Option Bytes
  welcomeMsg : Option Bytes
  deriving DecidableEq

/-- A config, its linked list of bouncers as a list.
Source: `config.h` `Config` -/
structure Config extends Options where
  bouncers : List Bouncer
  deriving DecidableEq

/-- The fields `Config_new` sets.
Source: `config.c` `Config_new` -/
def Options.new : Options where
  idnt := true
  identTimeout := 10
  idleTimeout := 0
  writeTimeout := 30
  dnsLookup := true
  pidFile := none
  welcomeMsg := none

/-- Source: `config.c` `Config_new` -/
def Config.new : Config := { Options.new with bouncers := [] }

/-- What is printed on `stderr` when no config is loaded.
Source: `config.c` `invalidValueError`, `requiredOptionError`, `Config_loadBuffer`,
`Config_loadEmbedded`; `main.c` `main` -/
inductive Message
  /-- "Config option has invalid value: %s". -/
  | invalidValue (option : Bytes)
  /-- "Config option is required: %s". -/
  | requiredOption (option : Bytes)
  /-- "Error on this line in config file: %s". -/
  | errorOnLine (line : Bytes)
  /-- "Error while decrypting embedded conf!". -/
  | decryptEmbedded
  /-- "Password is required to load embedded conf.". -/
  | passwordRequired
  deriving DecidableEq

/-! ## One bouncer definition -/

/-- The separator of an address and its port. -/
abbrev colon : UInt8 := 58

/-- The separator of the fields of a bouncer. -/
abbrev blank : UInt8 := 32

/-- `listenip:port remotehost:port localip`, the local ip being the listen ip when it is left out.
Tokens are never empty (`strtok_eq_some`), so the tests `*p == '\0'` never decide anything.
Source: `config.c` `Bouncer_parse` -/
def Bouncer.parse (s : Bytes) : Option Bouncer := do
  let (p, saved) := strtok colon s
  let listenIP ← p
  let (p, saved) := strtok blank saved
  let (listenPort, _) ← scanInteger (← p)
  let (p, saved) := strtok colon saved
  let remoteHost ← p
  let (p, saved) := strtok blank saved
  let (remotePort, _) ← scanInteger (← p)
  let (p, saved) := strtok blank saved
  match p with
  | some localIP =>
      let (p, _) := strtok blank saved
      if p.isSome then none
      else some ⟨some listenIP, listenPort, some remoteHost, remotePort, some localIP⟩
  | none => some ⟨some listenIP, listenPort, some remoteHost, remotePort, some listenIP⟩

/-! ## The finished config -/

/-- The string a pointer points to.
Source: `config.c`, every use of a string that is not tested for null -/
def deref (p : Option Bytes) : Mem Bytes :=
  match p with
  | some s => pure s
  | none => throw .nullPointer

section load

variable (isValidHost : Option Bytes → Bool)

/-- The checks on one bouncer, as the messages they print.
Source: `config.c` `Config_sanityCheck`, the body of the loop -/
def Bouncer.check (b : Bouncer) : Mem (List Message) := do
  let listenIP ← if isValidIP (← deref b.listenIP) then pure []
    else pure [Message.invalidValue (ascii "listenip")]
  let listenPort := if isValidPort b.listenPort then []
    else [Message.invalidValue (ascii "listenport")]
  let required := if b.remoteHost = none then [Message.requiredOption (ascii "remotehost")] else []
  let remoteHost := if isValidHost b.remoteHost then []
    else [Message.invalidValue (ascii "remotehost")]
  let remotePort := if isValidPort b.remotePort then []
    else [Message.invalidValue (ascii "remoteport")]
  let localIP ← if isValidIP (← deref b.localIP) then pure []
    else pure [Message.invalidValue (ascii "localip")]
  pure (listenIP ++ listenPort ++ required ++ remoteHost ++ remotePort ++ localIP)

/-- The walk over the bouncers: it ends at the first one with a message, which is what makes
`insane` true.
Source: `config.c` `Config_sanityCheck` -/
def Bouncer.checkList : List Bouncer → Mem (List Message)
  | [] => pure []
  | b :: rest => do
      let messages ← b.check isValidHost
      if messages = [] then Bouncer.checkList rest else pure messages

/-- The messages printed; the config is sane when there are none.
Source: `config.c` `Config_sanityCheck` -/
def Config.sanityCheck (config : Config) : Mem (List Message) :=
  if config.bouncers = [] then pure [.requiredOption (ascii "bouncer")]
  else Bouncer.checkList isValidHost config.bouncers

/-! ## The loader -/

/-- `!strncasecmp(line, option, n) && len > n` with `n` the length of `option`. -/
def hasOption (line option : Bytes) : Bool :=
  strncasecmpEq line option option.length && decide (option.length < line.length)

/-- The value of a boolean option; `none` is an error. -/
def parseBool (value : Bytes) : Option Bool :=
  if strcasecmpEq value (ascii "true") then some true
  else if strcasecmpEq value (ascii "false") then some false
  else none

end load

/-- The result of `strToLong`, and the value it stores whatever the result is.
Source: `misc.c` `strToLong` -/
def strToLong (s : Bytes) : Bool × ℤ := ((strtol s).2.isEmpty, (strtol s).1)

/-- The value `strToInt` stores, when its result is true.
Source: `misc.c` `strToInt` -/
def strToInt (s : Bytes) : Option ℤ :=
  if (strToLong s).1 then some (toInt (strToLong s).2) else none

/-- The value of a timeout option; `none` is an error. -/
def parseTimeout (value : Bytes) : Option ℤ := (strToInt value).filter fun i => decide (0 ≤ i)

/-- One line that is neither empty nor a comment; `none` is an error.
Source: `config.c` `Config_loadBuffer`, the branches of the loop -/
def Config.loadLine (config : Config) (line : Bytes) : Option Config :=
  if hasOption line (ascii "bouncer=") then
    (Bouncer.parse (line.drop 8)).map fun bouncer =>
      { config with bouncers := bouncer :: config.bouncers }
  else if strncasecmpEq line (ascii "idnt=") 5 then
    (parseBool (line.drop 5)).map fun value => { config with idnt := value }
  else if hasOption line (ascii "identtimeout=") then
    (parseTimeout (line.drop 13)).map fun value => { config with identTimeout := value }
  else if hasOption line (ascii "idletimeout=") then
    (parseTimeout (line.drop 12)).map fun value => { config with idleTimeout := value }
  else if hasOption line (ascii "writetimeout=") then
    (parseTimeout (line.drop 13)).map fun value => { config with writeTimeout := value }
  else if hasOption line (ascii "dnslookup=") then
    (parseBool (line.drop 10)).map fun value => { config with dnsLookup := value }
  else if hasOption line (ascii "pidfile=") then
    some { config with pidFile := some (line.drop 8) }
  else if hasOption line (ascii "welcomemsg=") then
    some { config with welcomeMsg := some (line.drop 11) }
  else none

/-- The character a comment starts with. -/
abbrev hash : UInt8 := 35

/-- The loop over the lines of the text at `p1`; an error carries the line it is about.
Source: `config.c` `Config_loadBuffer` -/
def Config.loadLines (config : Config) (p1 : Bytes) : Except Bytes Config :=
  if _h : p1 = [] then .ok config
  else
    let line := p1.takeWhile fun c => !isEOL c
    let next := (p1.dropWhile fun c => !isEOL c).dropWhile isEOL
    if line = [] ∨ line.head? = some hash then Config.loadLines config next
    else
      match config.loadLine line with
      | none => .error line
      | some config => Config.loadLines config next
termination_by p1.length
decreasing_by all_goals exact length_skip_lt _h

/-- The config, or the messages printed when the loader returns `NULL`.
Source: `config.c` `Config_loadBuffer` -/
def Config.loadBuffer (isValidHost : Option Bytes → Bool) (buffer : Bytes) :
    Mem (Except (List Message) Config) :=
  match Config.new.loadLines buffer with
  | .error line => pure (.error [.errorOnLine line])
  | .ok config => do
      let messages ← config.sanityCheck isValidHost
      pure (if messages = [] then .ok config else .error messages)

/-! ## The printer -/

/-- A text appended to the string at `s`, or a new string when `s` is null.
Source: `misc.c` `strCatPrintf` -/
def strCatPrintf (s : Option Bytes) (formatted : Bytes) : Bytes := s.getD [] ++ formatted

/-- The `%s` conversion of `printf`; glibc prints a null pointer as `(null)`. -/
def printString (s : Option Bytes) : Bytes := s.getD (ascii "(null)")

/-- `b ? "true" : "false"`. -/
def printBool (b : Bool) : Bytes := if b then ascii "true" else ascii "false"

/-- `bouncer=%s:%i %s:%i %s`; a port is a `long` printed as an `int`.
Source: `config.c` `Config_saveBuffer` -/
def Bouncer.print (b : Bouncer) : Bytes :=
  ascii "bouncer=" ++ printString b.listenIP ++ ascii ":" ++ printInt (toInt b.listenPort) ++
    ascii " " ++ printString b.remoteHost ++ ascii ":" ++ printInt (toInt b.remotePort) ++
    ascii " " ++ printString b.localIP

/-- Source: `config.c` `Config_saveBuffer` -/
def Config.saveBuffer (config : Config) : Bytes :=
  let eol := ascii "\n"
  let buffer := strCatPrintf none (ascii "idnt=" ++ printBool config.idnt ++ eol)
  let buffer := strCatPrintf (some buffer)
    (ascii "identtimeout=" ++ printInt config.identTimeout ++ eol)
  let buffer := strCatPrintf (some buffer)
    (ascii "idletimeout=" ++ printInt config.idleTimeout ++ eol)
  let buffer := strCatPrintf (some buffer)
    (ascii "writetimeout=" ++ printInt config.writeTimeout ++ eol)
  let buffer := strCatPrintf (some buffer)
    (ascii "dnslookup=" ++ printBool config.dnsLookup ++ eol)
  let buffer := match config.pidFile with
    | some pidFile => strCatPrintf (some buffer) (ascii "pidfile=" ++ pidFile ++ eol)
    | none => buffer
  let buffer := match config.welcomeMsg with
    | some welcomeMsg => strCatPrintf (some buffer) (ascii "welcomemsg=" ++ welcomeMsg ++ eol)
    | none => buffer
  config.bouncers.foldl (fun buffer b => strCatPrintf (some buffer) (b.print ++ eol)) buffer

/-! ## The scanner runs over the lines -/

/-- The lines of a text. -/
abbrev textLines (buffer : Bytes) : List Bytes := runs isEOL buffer

/-- The options of a list of lines applied one after the other, comments skipped, up to the first
line that is an error. -/
def Config.loadAll (config : Config) : List Bytes → Except Bytes Config
  | [] => .ok config
  | line :: rest =>
      if line.head? = some hash then config.loadAll rest
      else
        match config.loadLine line with
        | none => .error line
        | some config => config.loadAll rest

/-- **The scanner runs over the lines of the text.** -/
theorem Config.loadLines_eq (config : Config) (p1 : Bytes) :
    config.loadLines p1 = config.loadAll (textLines p1) := by
  fun_induction Config.loadLines config p1 with
  | case1 config => simp [textLines, Config.loadAll]
  | case2 config p1 h line next hskip ih =>
      rw [ih, textLines, textLines, runs_eq_of_ne_nil (l := p1)]
      by_cases hline : line = []
      · rw [if_pos hline]
        rfl
      · rw [if_neg hline, List.singleton_append, Config.loadAll,
          if_pos (hskip.resolve_left hline)]
  | case3 config p1 h line hskip hload =>
      rw [not_or] at hskip
      rw [textLines, runs_eq_of_ne_nil (l := p1), if_neg hskip.1, List.singleton_append,
        Config.loadAll, if_neg hskip.2]
      simp only [line] at hload
      rw [hload]
  | case4 config p1 h line next hskip config' hload ih =>
      rw [not_or] at hskip
      rw [ih, textLines, textLines, runs_eq_of_ne_nil (l := p1), if_neg hskip.1,
        List.singleton_append, Config.loadAll, if_neg hskip.2]
      simp only [line] at hload
      rw [hload]

/-! ## What the checks establish -/

/-- The strings of a bouncer are there and pass their checks, and so do its ports once narrowed. -/
structure Bouncer.Checked (isValidHost : Option Bytes → Bool) (b : Bouncer) : Prop where
  listenIP : ∃ ip, b.listenIP = some ip ∧ isValidIP ip = true
  listenPort : isValidPort b.listenPort = true
  remoteHost : b.remoteHost ≠ none ∧ isValidHost b.remoteHost = true
  remotePort : isValidPort b.remotePort = true
  localIP : ∃ ip, b.localIP = some ip ∧ isValidIP ip = true

/-- The strings of a bouncer are there. -/
def Bouncer.NonNull (b : Bouncer) : Prop :=
  b.listenIP ≠ none ∧ b.remoteHost ≠ none ∧ b.localIP ≠ none

section checks

variable (isValidHost : Option Bytes → Bool)

/-- A bouncer with its strings is checked without a fault, silently exactly when it passes. -/
theorem Bouncer.check_of_nonNull {b : Bouncer} (h : b.NonNull) :
    ∃ messages, b.check isValidHost = .ok messages ∧
      (messages = [] ↔ b.Checked isValidHost) := by
  obtain ⟨listenIP, listenPort, remoteHost, remotePort, localIP⟩ := b
  obtain ⟨hlisten, hremote, hlocal⟩ := h
  obtain ⟨listen, rfl⟩ := Option.ne_none_iff_exists'.mp hlisten
  obtain ⟨remote, rfl⟩ := Option.ne_none_iff_exists'.mp hremote
  obtain ⟨loc, rfl⟩ := Option.ne_none_iff_exists'.mp hlocal
  refine ⟨(if isValidIP listen then [] else [Message.invalidValue (ascii "listenip")]) ++
    (if isValidPort listenPort then [] else [Message.invalidValue (ascii "listenport")]) ++
    (if isValidHost (some remote) then [] else [Message.invalidValue (ascii "remotehost")]) ++
    (if isValidPort remotePort then [] else [Message.invalidValue (ascii "remoteport")]) ++
    (if isValidIP loc then [] else [Message.invalidValue (ascii "localip")]), ?_, ?_⟩
  · by_cases hl : isValidIP listen = true <;> by_cases hr : isValidIP loc = true <;>
      simp [Bouncer.check, deref, hl, hr]
  · constructor
    · intro hnil
      simp only [List.append_eq_nil_iff, ite_eq_left_iff, List.cons_ne_nil, imp_false,
        not_not] at hnil
      obtain ⟨⟨⟨⟨h1, h2⟩, h3⟩, h4⟩, h5⟩ := hnil
      exact ⟨⟨listen, rfl, h1⟩, h2, ⟨by simp, h3⟩, h4, ⟨loc, rfl, h5⟩⟩
    · rintro ⟨⟨_, ⟨rfl⟩, h1⟩, h2, ⟨-, h3⟩, h4, ⟨_, ⟨rfl⟩, h5⟩⟩
      simp only at h1 h2 h3 h4 h5
      simp [h1, h2, h3, h4, h5]

/-- The walk over bouncers with their strings faults nowhere and is silent exactly when all
pass. -/
theorem Bouncer.checkList_of_nonNull {bs : List Bouncer} (h : ∀ b ∈ bs, b.NonNull) :
    ∃ messages, Bouncer.checkList isValidHost bs = .ok messages ∧
      (messages = [] ↔ ∀ b ∈ bs, b.Checked isValidHost) := by
  induction bs with
  | nil => exact ⟨[], rfl, by simp⟩
  | cons b bs ih =>
      obtain ⟨messages, hcheck, hiff⟩ :=
        Bouncer.check_of_nonNull isValidHost (h b List.mem_cons_self)
      obtain ⟨rest, hrest, hrestiff⟩ := ih fun b' hb' => h b' (List.mem_cons_of_mem _ hb')
      rw [Bouncer.checkList, hcheck, Mem.ok_bind]
      by_cases hnil : messages = []
      · exact ⟨rest, by rw [if_pos hnil, hrest], by simp [hrestiff, hiff.mp hnil]⟩
      · exact ⟨messages, by rw [if_neg hnil]; rfl, by simp [hnil, ← hiff]⟩

/-- **What the finished checks establish**: on bouncers with their strings they fault nowhere,
and the config is sane exactly when there is a bouncer and every bouncer passes. -/
theorem Config.sanityCheck_of_nonNull {config : Config} (h : ∀ b ∈ config.bouncers, b.NonNull) :
    ∃ messages, config.sanityCheck isValidHost = .ok messages ∧
      (messages = [] ↔
        config.bouncers ≠ [] ∧ ∀ b ∈ config.bouncers, b.Checked isValidHost) := by
  unfold Config.sanityCheck
  by_cases hnil : config.bouncers = []
  · exact ⟨_, if_pos hnil, by simp [hnil]⟩
  · obtain ⟨messages, hcheck, hiff⟩ := Bouncer.checkList_of_nonNull isValidHost h
    exact ⟨messages, by rw [if_neg hnil, hcheck], by rw [hiff]; exact (and_iff_right hnil).symm⟩

end checks

end Ebbnc
