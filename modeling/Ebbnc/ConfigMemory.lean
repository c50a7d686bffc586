import Ebbnc.Config
import Ebbnc.Lib.Account

/-!
# The memory of the config loader

The loader and the printer of `config.c` once more, now with the memory they work in: every block
they ask for, every access through a pointer, and what they give back. Any allocation may fail.
What is computed from the texts is shared with `Config`.

* `LibcCall`, `Libc` — the calls of the C library, and programs over them; `libcResources` — what
  they make and end.
* `Str`, `BouncerBlock`, `ConfigBlock` — strings, bouncers and configs in memory.
* `BouncerBlock.new`, `BouncerBlock.free`, `BouncerBlock.parse` — a bouncer definition.
* `ConfigBlock.new`, `ConfigBlock.free`, `ConfigBlock.sanityCheck`, `ConfigBlock.loadLines`,
  `loadBufferIn`, `loadFile` — the loader.
* `strCatPrintfIn`, `saveBouncers`, `ConfigBlock.saveBuffer` — the printer.
-/

namespace Ebbnc

open Lib

/-! ## The C library -/

/-- A pointer to a block of memory or to a stream; null is none. -/
abbrev Pointer := Option ℕ

/-- The calls. The texts that are duplicated, the hosts and the names of files are given
themselves. -/
inductive LibcCall
  | calloc (size : ℕ)
  | strdup (s : Bytes)
  | strndup (s : Bytes) (n : ℕ)
  | free (p : Pointer)
  /-- An access to what a pointer points to. -/
  | access (p : Pointer)
  /-- `getaddrinfo` of a host that it finds. -/
  | getaddrinfo (host : Option Bytes)
  /-- `fopen` for reading. -/
  | fopen (path : Bytes)
  /-- `fseek` to the end or to the beginning. -/
  | fseek (fp : Pointer) (toEnd : Bool)
  | ftell (fp : Pointer)
  /-- `fread` of one item into a buffer that has room for so many bytes. -/
  | fread (buffer : Pointer) (capacity size : ℕ) (fp : Pointer)
  | ferror (fp : Pointer)
  | fclose (fp : Pointer)
  deriving DecidableEq

/-- The replies. The list of addresses of a host that is found is never null; `fread` stores the
bytes there were, up to the size of the item; what the program does after an access to nothing is
not specified. -/
abbrev LibcReply : LibcCall → Type
  | .calloc _ => Pointer
  | .strdup _ => Pointer
  | .strndup _ _ => Pointer
  | .free _ => Unit
  | .access _ => Unit
  | .getaddrinfo _ => ℕ
  | .fopen _ => Pointer
  | .fseek _ _ => Unit
  | .ftell _ => ℤ
  | .fread _ _ size _ => { s : Bytes // s.length ≤ size }
  | .ferror _ => Bool
  | .fclose _ => Unit

/-- Programs over the C library. -/
abbrev Libc := Program LibcReply

/-- A call of the C library. -/
abbrev libc (c : LibcCall) : Libc (LibcReply c) := Program.perform c

/-- A call and its reply. -/
abbrev LibcEvent := Lib.Event LibcReply

namespace LibcEvent

/-- What an event needs to be there. Bytes that are stored behind the end of a buffer need what is
never there. -/
def uses : LibcEvent → List Pointer
  | ⟨.free (some p), _⟩ => [some p]
  | ⟨.access p, _⟩ => [p]
  | ⟨.fseek fp _, _⟩ => [fp]
  | ⟨.ftell fp, _⟩ => [fp]
  | ⟨.fread buffer capacity _ fp, s⟩ =>
      if capacity < s.1.length then [buffer, fp, none] else [buffer, fp]
  | ⟨.ferror fp, _⟩ => [fp]
  | ⟨.fclose fp, _⟩ => [fp]
  | _ => []

/-- The block, the list of addresses or the stream an event makes. -/
def made : LibcEvent → Option Pointer
  | ⟨.calloc _, some p⟩ => some (some p)
  | ⟨.strdup _, some p⟩ => some (some p)
  | ⟨.strndup _ _, some p⟩ => some (some p)
  | ⟨.getaddrinfo _, p⟩ => some (some p)
  | ⟨.fopen _, some fp⟩ => some (some fp)
  | _ => none

/-- The block or the stream an event ends. -/
def ended : LibcEvent → Option Pointer
  | ⟨.free (some p), _⟩ => some (some p)
  | ⟨.fclose fp, _⟩ => some fp
  | _ => none

/-- An allocation that fails. -/
def short : LibcEvent → Bool
  | ⟨.calloc _, none⟩ => true
  | ⟨.strdup _, none⟩ => true
  | ⟨.strndup _ _, none⟩ => true
  | _ => false

/-- An access through a null pointer, or behind the end of a buffer. -/
def crash (e : LibcEvent) : Bool := none ∈ e.uses

end LibcEvent

/-- Blocks of memory and streams as resources. -/
def libcResources : Ledger LibcEvent Pointer where
  uses := LibcEvent.uses
  made := LibcEvent.made
  ended := LibcEvent.ended

/-! ## Strings -/

/-- A string in memory: the block it is in, and the text from where it starts. -/
structure Str where
  block : ℕ
  text : Bytes
  deriving DecidableEq

/-- The pointer to a string. -/
def Str.ptr (s : Option Str) : Pointer := s.map Str.block

/-- The string so many characters later.
Source: `config.c` `Config_loadBuffer`, `line + 8` and the like -/
def Str.skip (s : Str) (n : ℕ) : Str := ⟨s.block, s.text.drop n⟩

/-- A copy of a string, null when there is no memory for it. -/
def strdup (s : Str) : Libc (Option Str) := do
  libc (.access (some s.block))
  let p ← libc (.strdup s.text)
  pure (p.map fun p => ⟨p, s.text⟩)

/-- A copy of the beginning of a string. -/
def strndup (s : Str) (n : ℕ) : Libc (Option Str) := do
  libc (.access (some s.block))
  let p ← libc (.strndup s.text n)
  pure (p.map fun p => ⟨p, s.text.take n⟩)

/-! ## Bouncers -/

/-- A bouncer in memory. Where the pointer to it is null there are no fields.
Source: `config.h` `Bouncer`, without its `next` pointer -/
structure BouncerBlock where
  block : Pointer
  listenIP : Option Str
  listenPort : ℤ
  remoteHost : Option Str
  remotePort : ℤ
  localIP : Option Str

/-- `sizeof(Bouncer)`. -/
def sizeofBouncer : ℕ := 48

/-- How `Bouncer_parse` and the loop over the lines fail: `strduperror` and `parseerror`. -/
inductive LoadFailure
  | strdup
  | parse
  deriving DecidableEq

namespace BouncerBlock

/-- What is in a bouncer, whatever the blocks. -/
def erase (b : BouncerBlock) : Bouncer where
  listenIP := b.listenIP.map Str.text
  listenPort := b.listenPort
  remoteHost := b.remoteHost.map Str.text
  remotePort := b.remotePort
  localIP := b.localIP.map Str.text

/-- Source: `config.c` `Bouncer_new` -/
def new : Libc BouncerBlock := do
  match ← libc (.calloc sizeofBouncer) with
  | none => pure ⟨none, none, 0, none, 0, none⟩
  | some p => do
    libc (.access (some p))
    pure ⟨some p, none, -1, none, -1, none⟩

/-- The local ip is not given back.
Source: `config.c` `Bouncer_free` -/
def free (b : BouncerBlock) : Libc Unit :=
  match b.block with
  | none => pure ()
  | some p => do
    libc (.access (some p))
    libc (.free (Str.ptr b.listenIP))
    libc (.free (Str.ptr b.remoteHost))
    libc (.free (some p))

/-- The parser up to its last `return` or the `goto` it fails with, and the bouncer as it is then;
`temp` is the copy of the definition that `strtok` takes apart. Tokens are never empty, so the tests
`*p == '\0'` never decide anything.
Source: `config.c` `Bouncer_parse` -/
def parseTokens (temp : Str) (b : BouncerBlock) : Libc (BouncerBlock × Option LoadFailure) := do
  libc (.access (some temp.block))
  let (p, saved) := strtok colon temp.text
  match p with
  | none => pure (b, some .parse)
  | some p => do
  let listenIP ← strdup ⟨temp.block, p⟩
  libc (.access b.block)
  let b := { b with listenIP := listenIP }
  if listenIP = none then pure (b, some .strdup)
  else do
  libc (.access (some temp.block))
  let (p, saved) := strtok blank saved
  match p.bind scanInteger with
  | none => pure (b, some .parse)
  | some (listenPort, _) => do
  libc (.access b.block)
  let b := { b with listenPort := listenPort }
  libc (.access (some temp.block))
  let (p, saved) := strtok colon saved
  match p with
  | none => pure (b, some .parse)
  | some p => do
  let remoteHost ← strdup ⟨temp.block, p⟩
  libc (.access b.block)
  let b := { b with remoteHost := remoteHost }
  if remoteHost = none then pure (b, some .strdup)
  else do
  libc (.access (some temp.block))
  let (p, saved) := strtok blank saved
  match p.bind scanInteger with
  | none => pure (b, some .parse)
  | some (remotePort, _) => do
  libc (.access b.block)
  let b := { b with remotePort := remotePort }
  libc (.access (some temp.block))
  let (p, saved) := strtok blank saved
  match p with
  | some p => do
    let localIP ← strdup ⟨temp.block, p⟩
    libc (.access b.block)
    let b := { b with localIP := localIP }
    if localIP = none then pure (b, some .strdup)
    else do
    libc (.access (some temp.block))
    let (p, _) := strtok blank saved
    if p.isSome then pure (b, some .parse) else pure (b, none)
  | none =>
    match b.listenIP with
    | none => do
      libc (.access none)
      pure (b, some .strdup)
    | some listenIP => do
      let localIP ← strdup listenIP
      libc (.access b.block)
      let b := { b with localIP := localIP }
      if localIP = none then pure (b, some .strdup) else pure (b, none)

/-- Source: `config.c` `Bouncer_parse` -/
def parse (s : Str) : Libc (Except LoadFailure BouncerBlock) := do
  let bouncer ← new
  match ← strdup s with
  | none => do
    libc (.free none)
    bouncer.free
    pure (.error .strdup)
  | some temp => do
    match ← parseTokens temp bouncer with
    | (bouncer, none) => do
      libc (.free (some temp.block))
      pure (.ok bouncer)
    | (bouncer, some failure) => do
      libc (.free (some temp.block))
      bouncer.free
      pure (.error failure)

end BouncerBlock

/-! ## Configs -/

/-- A config in memory.
Source: `config.h` `Config` -/
structure ConfigBlock where
  block : ℕ
  bouncers : List BouncerBlock
  idnt : Bool
  identTimeout : ℤ
  idleTimeout : ℤ
  writeTimeout : ℤ
  dnsLookup : Bool
  pidFile : Option Str
  welcomeMsg : Option Str

/-- `sizeof(Config)`. -/
def sizeofConfig : ℕ := 48

/-- Why no config is loaded. -/
inductive LoadError
  /-- "Unable to open config file: %s". -/
  | unableToOpen
  /-- "Unable to load config: %s". -/
  | unableToLoad
  /-- "Unknown error while reading config file.". -/
  | unknownError
  | messages (messages : List Message)
  deriving DecidableEq

section check

variable (isValidHost : Option Bytes → Bool)

/-- Source: `misc.c` `isValidIP` -/
def isValidIPIn (ip : Option Str) : Libc Bool := do
  libc (.access (Str.ptr ip))
  pure (isValidIP ((ip.map Str.text).getD []))

/-- A null pointer is a host, too: `getaddrinfo` gets it. When it finds the host its list of
addresses stays in memory.
Source: `misc.c` `isValidHost`, `hostPortToSockaddr` -/
def isValidHostIn (host : Option Str) : Libc Bool := do
  match host with
  | some s => libc (.access (some s.block))
  | none => pure ()
  if isValidHost (host.map Str.text) then do
    let res ← libc (.getaddrinfo (host.map Str.text))
    libc (.access (some res))
    pure true
  else pure false

/-- Source: `config.c` `Config_sanityCheck`, the body of the loop -/
def BouncerBlock.check (b : BouncerBlock) : Libc (List Message) := do
  libc (.access b.block)
  let listenIP := if ← isValidIPIn b.listenIP then [] else [Message.invalidValue (ascii "listenip")]
  let listenPort := if isValidPort b.listenPort then []
    else [Message.invalidValue (ascii "listenport")]
  let required := if b.remoteHost = none then [Message.requiredOption (ascii "remotehost")] else []
  let remoteHost := if ← isValidHostIn isValidHost b.remoteHost then []
    else [Message.invalidValue (ascii "remotehost")]
  let remotePort := if isValidPort b.remotePort then []
    else [Message.invalidValue (ascii "remoteport")]
  let localIP := if ← isValidIPIn b.localIP then [] else [Message.invalidValue (ascii "localip")]
  pure (listenIP ++ listenPort ++ required ++ remoteHost ++ remotePort ++ localIP)

/-- Source: `config.c` `Config_sanityCheck`, the loop -/
def BouncerBlock.checkList : List BouncerBlock → Libc (List Message)
  | [] => pure []
  | b :: rest => do
    let messages ← b.check isValidHost
    if messages = [] then BouncerBlock.checkList rest else pure messages

end check

namespace ConfigBlock

/-- What is in a config, whatever the blocks. -/
def erase (config : ConfigBlock) : Config where
  idnt := config.idnt
  identTimeout := config.identTimeout
  idleTimeout := config.idleTimeout
  writeTimeout := config.writeTimeout
  dnsLookup := config.dnsLookup
  pidFile := config.pidFile.map Str.text
  welcomeMsg := config.welcomeMsg.map Str.text
  bouncers := config.bouncers.map BouncerBlock.erase

/-- Source: `config.c` `Config_new` -/
def new : Libc (Option ConfigBlock) := do
  match ← libc (.calloc sizeofConfig) with
  | none => pure none
  | some p => do
    libc (.access (some p))
    pure (some ⟨p, [], true, 10, 0, 30, true, none, none⟩)

/-- The bouncers are not given back.
Source: `config.c` `Config_free` -/
def free (config : ConfigBlock) : Libc Unit := do
  libc (.access (some config.block))
  libc (.free (Str.ptr config.pidFile))
  libc (.free (Str.ptr config.welcomeMsg))
  libc (.free (some config.block))

/-- Source: `config.c` `Config_sanityCheck` -/
def sanityCheck (isValidHost : Option Bytes → Bool) (config : ConfigBlock) :
    Libc (List Message) := do
  libc (.access (some config.block))
  if config.bouncers.isEmpty then pure [.requiredOption (ascii "bouncer")]
  else BouncerBlock.checkList isValidHost config.bouncers

/-! ## The loader -/

/-- The value of a boolean option, stored in the config. -/
def storeBool (config : ConfigBlock) (value : Bytes) (store : Bool → ConfigBlock) :
    Libc (ConfigBlock × Option LoadFailure) := do
  match parseBool value with
  | none => pure (config, some .parse)
  | some b => do
    libc (.access (some config.block))
    pure (store b, none)

/-- The value of a timeout option, stored in the config before it is looked at. -/
def storeTimeout (config : ConfigBlock) (value : Bytes) (store : ℤ → ConfigBlock) :
    Libc (ConfigBlock × Option LoadFailure) := do
  match strToInt value with
  | none => pure (config, some .parse)
  | some i => do
    libc (.access (some config.block))
    pure (store i, if i < 0 then some .parse else none)

/-- One line that is neither empty nor a comment.
Source: `config.c` `Config_loadBuffer`, the branches of the loop -/
def loadLine (config : ConfigBlock) (line : Str) : Libc (ConfigBlock × Option LoadFailure) := do
  libc (.access (some line.block))
  if hasOption line.text (ascii "bouncer=") then do
    match ← BouncerBlock.parse (line.skip 8) with
    | .error failure => pure (config, some failure)
    | .ok bouncer => do
      libc (.access bouncer.block)
      libc (.access (some config.block))
      pure ({ config with bouncers := bouncer :: config.bouncers }, none)
  else if strncasecmpEq line.text (ascii "idnt=") 5 then
    config.storeBool (line.text.drop 5) fun value => { config with idnt := value }
  else if hasOption line.text (ascii "identtimeout=") then
    config.storeTimeout (line.text.drop 13) fun value => { config with identTimeout := value }
  else if hasOption line.text (ascii "idletimeout=") then
    config.storeTimeout (line.text.drop 12) fun value => { config with idleTimeout := value }
  else if hasOption line.text (ascii "writetimeout=") then
    config.storeTimeout (line.text.drop 13) fun value => { config with writeTimeout := value }
  else if hasOption line.text (ascii "dnslookup=") then
    config.storeBool (line.text.drop 10) fun value => { config with dnsLookup := value }
  else if hasOption line.text (ascii "pidfile=") then do
    let pidFile ← strdup (line.skip 8)
    libc (.access (some config.block))
    pure ({ config with pidFile := pidFile }, if pidFile = none then some .strdup else none)
  else if hasOption line.text (ascii "welcomemsg=") then do
    let welcomeMsg ← strdup (line.skip 11)
    libc (.access (some config.block))
    pure ({ config with welcomeMsg := welcomeMsg },
      if welcomeMsg = none then some .strdup else none)
  else pure (config, some .parse)

/-- How the loop over the lines ends: at the end of the text, with `error` set, or at
`strduperror`; `line` as it is then. -/
inductive LoopEnd
  | done
  | error (line : Str)
  | strduperror (line : Option Str)

/-- The loop over the lines of the text at `p1`, which is in the block of the buffer.
Source: `config.c` `Config_loadBuffer` -/
def loadLines (buffer : ℕ) (config : ConfigBlock) (p1 : Bytes) : Libc (ConfigBlock × LoopEnd) :=
  if _h : p1 = [] then do
    libc (.access (some buffer))
    pure (config, .done)
  else do
    let len := (p1.takeWhile fun c => !isEOL c).length
    let next := (p1.dropWhile fun c => !isEOL c).dropWhile isEOL
    match ← strndup ⟨buffer, p1⟩ len with
    | none => pure (config, .strduperror none)
    | some line => do
      libc (.access (some line.block))
      if line.text = [] ∨ line.text.head? = some hash then do
        libc (.free (some line.block))
        loadLines buffer config next
      else do
        match ← config.loadLine line with
        | (config, none) => do
          libc (.free (some line.block))
          loadLines buffer config next
        | (config, some .parse) => pure (config, .error line)
        | (config, some .strdup) => pure (config, .strduperror (some line))
termination_by p1.length
decreasing_by all_goals exact length_skip_lt _h

end ConfigBlock

/-- Source: `config.c` `Config_loadBuffer` -/
def loadBufferIn (isValidHost : Option Bytes → Bool) (buffer : Str) :
    Libc (Except LoadError ConfigBlock) := do
  match ← ConfigBlock.new with
  | none => pure (.error .unableToLoad)
  | some config => do
    match ← config.loadLines buffer.block buffer.text with
    | (config, .error line) => do
      libc (.access (some line.block))
      libc (.free (some line.block))
      config.free
      pure (.error (.messages [.errorOnLine line.text]))
    | (config, .strduperror line) => do
      libc (.free (Str.ptr line))
      config.free
      pure (.error .unableToLoad)
    | (config, .done) => do
      let messages ← config.sanityCheck isValidHost
      if messages = [] then pure (.ok config)
      else do
        config.free
        pure (.error (.messages messages))

/-- The conversion of a `long` to a `size_t`. -/
def toSize (i : ℤ) : ℕ := (i % 2 ^ 64).toNat

/-- The string in the buffer ends at the first NUL of what was read, or with it: the buffer was
filled with NULs and has one byte more.
Source: `config.c` `Config_loadFile` -/
def loadFile (isValidHost : Option Bytes → Bool) (path : Bytes) :
    Libc (Except LoadError ConfigBlock) := do
  match ← libc (.fopen path) with
  | none => pure (.error .unableToOpen)
  | some fp => do
    libc (.fseek (some fp) true)
    let size ← libc (.ftell (some fp))
    libc (.fseek (some fp) false)
    match ← libc (.calloc (toSize (size + 1))) with
    | none => do
      libc (.fclose (some fp))
      pure (.error .unableToLoad)
    | some buffer => do
      let content ← libc (.fread (some buffer) (toSize (size + 1)) (toSize size) (some fp))
      -- an item of no bytes is never read
      let okay ← if toSize size ≠ 0 ∧ content.1.length = toSize size then do
          let error ← libc (.ferror (some fp))
          pure !error
        else pure false
      libc (.fclose (some fp))
      if okay then do
        let config ← loadBufferIn isValidHost ⟨buffer, cstr content.1⟩
        libc (.free (some buffer))
        pure config
      else do
        libc (.free (some buffer))
        pure (.error .unknownError)

/-! ## The printer -/

/-- The strings that are printed are read; a null pointer is printed as `(null)`. -/
def readStrings : List (Option Str) → Libc Unit
  | [] => pure ()
  | none :: rest => readStrings rest
  | some s :: rest => do
    libc (.access (some s.block))
    readStrings rest

/-- A text, printed from `args`, appended to the string at `s`, or a new string when `s` is null.
The string at `s` is given back in any case.
Source: `misc.c` `strCatPrintf` -/
def strCatPrintfIn (s : Option Str) (args : List (Option Str)) (formatted : Bytes) :
    Libc (Option Str) := do
  readStrings args
  match ← libc (.calloc (formatted.length + 1)) with
  | none => do
    libc (.free (Str.ptr s))
    pure none
  | some buf1 => do
    readStrings args
    libc (.access (some buf1))
    match s with
    | none => do
      libc (.free none)
      pure (some ⟨buf1, formatted⟩)
    | some s => do
      libc (.access (some s.block))
      match ← libc (.calloc (s.text.length + formatted.length + 1)) with
      | none => do
        libc (.free (some buf1))
        libc (.free (some s.block))
        pure none
      | some buf2 => do
        libc (.access (some buf2))
        libc (.access (some s.block))
        libc (.access (some buf1))
        libc (.free (some buf1))
        libc (.free (some s.block))
        pure (some ⟨buf2, s.text ++ formatted⟩)

/-- The loop over the bouncers.
Source: `config.c` `Config_saveBuffer` -/
def saveBouncers (buffer : Str) : List BouncerBlock → Libc (Option Str)
  | [] => pure (some buffer)
  | b :: rest => do
    libc (.access b.block)
    match ← strCatPrintfIn (some buffer) [b.listenIP, b.remoteHost, b.localIP]
      (b.erase.print ++ ascii "\n") with
    | none => pure none
    | some buffer => saveBouncers buffer rest

/-- Source: `config.c` `Config_saveBuffer` -/
def ConfigBlock.saveBuffer (config : ConfigBlock) : Libc (Option Str) := do
  let eol := ascii "\n"
  libc (.access (some config.block))
  match ← strCatPrintfIn none [] (ascii "idnt=" ++ printBool config.idnt ++ eol) with
  | none => pure none
  | some buffer => do
  match ← strCatPrintfIn (some buffer) []
    (ascii "identtimeout=" ++ printInt config.identTimeout ++ eol) with
  | none => pure none
  | some buffer => do
  match ← strCatPrintfIn (some buffer) []
    (ascii "idletimeout=" ++ printInt config.idleTimeout ++ eol) with
  | none => pure none
  | some buffer => do
  match ← strCatPrintfIn (some buffer) []
    (ascii "writetimeout=" ++ printInt config.writeTimeout ++ eol) with
  | none => pure none
  | some buffer => do
  match ← strCatPrintfIn (some buffer) []
    (ascii "dnslookup=" ++ printBool config.dnsLookup ++ eol) with
  | none => pure none
  | some buffer => do
  let buffer ← match config.pidFile with
    | some pidFile =>
      strCatPrintfIn (some buffer) [some pidFile] (ascii "pidfile=" ++ pidFile.text ++ eol)
    | none => pure (some buffer)
  match buffer with
  | none => pure none
  | some buffer => do
  let buffer ← match config.welcomeMsg with
    | some welcomeMsg =>
      strCatPrintfIn (some buffer) [some welcomeMsg]
        (ascii "welcomemsg=" ++ welcomeMsg.text ++ eol)
    | none => pure (some buffer)
  match buffer with
  | none => pure none
  | some buffer => saveBouncers buffer config.bouncers

end Ebbnc
