import Ebbnc.Embedded
import Ebbnc.Lib.Machine

/-!
# The conf editor

`makeconf.c` as a state machine: one step is one iteration of its prompt loop, which asks at most
one question. A step takes what the user and the allocator do in that iteration (`Input`).

* `promptInput`, `getpass`, `strncpy` — where answers come from, and how the key is filled.
* `Editor` — the variables of `main`; bouncers live in a heap and are linked through `next`.
* `Editor.ask` — the switch over the stages; `Editor.next` — the switch over the errors.
* `Editor.step` — one iteration; `Editor.Step` — the same as a relation labelled with what was
  asked and how it went (`Entry`).
* `Editor.embed` — what `main` does after the loop, up to the text it saves.
-/

namespace Ebbnc

open Lib

/-- `strncpy(dst, src, n)`: the string in `src`, at most `n` bytes of it, and NULs up to `n`. -/
def strncpy (dst src : Bytes) (n : ℕ) : Bytes :=
  (cstr src).take n ++ List.replicate (n - (cstr src).length) 0 ++ dst.drop n

/-- The answer to a question; `line` is what `fgets` stores, null at the end of the input. The
byte in front of the buffer, which the loop looks at when the line is empty, is taken to be no line
terminator, and default values are shorter than the buffer.
Source: `misc.c` `promptInput` -/
def promptInput (defaultValue line : Option Bytes) : Bytes :=
  match line with
  | none => []
  | some buffer =>
      let value := (cstr buffer).rdropWhile isEOL
      if value = [] then defaultValue.getD [] else value

/-- The password typed, without the newline; nothing at the end of the input. -/
def getpass (line : Option Bytes) : Bytes := (cstr (line.getD [])).rdropWhile (· == 10)

namespace Editor

/-- The stages; `past` is every value after `STAGE_PASSWORD`.
Source: `makeconf.c` `enum Stage` -/
inductive Stage
  | bouncerNext | bouncerListen | bouncerRemote | bouncerLocal | bouncerAnother
  | idnt | identTimeout | idleTimeout | writeTimeout | dnsLookup | pidFile | welcomeMsg | password
  | past
  deriving DecidableEq, Repr

/-- `stage++`. -/
def Stage.succ : Stage → Stage
  | bouncerNext => bouncerListen
  | bouncerListen => bouncerRemote
  | bouncerRemote => bouncerLocal
  | bouncerLocal => bouncerAnother
  | bouncerAnother => idnt
  | idnt => identTimeout
  | identTimeout => idleTimeout
  | idleTimeout => writeTimeout
  | writeTimeout => dnsLookup
  | dnsLookup => pidFile
  | pidFile => welcomeMsg
  | welcomeMsg => password
  | password => past
  | past => past

/-- The default values of the questions.
Source: `makeconf.c` `main`, the calls of `promptInput` -/
def Stage.defaultValue : Stage → Option Bytes
  | bouncerLocal => some (ascii "None")
  | bouncerAnother => some (ascii "yes")
  | idnt => some (ascii "true")
  | identTimeout => some (ascii "10")
  | idleTimeout => some (ascii "0")
  | writeTimeout => some (ascii "30")
  | dnsLookup => some (ascii "true")
  | pidFile => some (ascii "none")
  | welcomeMsg => some (ascii "none")
  | _ => none

/-- Source: `makeconf.c` `enum Error` -/
inductive Error
  | none | default | value | strdup | passlen
  deriving DecidableEq, Repr

/-- `MINIMUM_PASSLEN`. Source: `makeconf.c` -/
def minimumPasslen : ℕ := 8

/-- What happens in one iteration: the line typed, if any, and whether `strdup` or `Bouncer_new`
gets its memory. -/
structure Input where
  line : Option Bytes
  alloc : Bool
  deriving DecidableEq

/-- A bouncer in memory; pointers are positions in the heap.
Source: `config.h` `Bouncer` -/
structure Cell extends Bouncer where
  next : Option ℕ
  deriving DecidableEq

/-- Source: `config.c` `Bouncer_new` -/
def Cell.new : Cell := { Bouncer.new with next := none }

end Editor

open Editor

/-- The variables of `main` in `makeconf.c`; `config` is the object `config` points to without its
bouncers, and `bouncers` is `config->bouncers`.
Source: `makeconf.c` `main` -/
structure Editor where
  stage : Stage
  config : Options
  bouncers : Option ℕ
  heap : List Cell
  bouncer : Option ℕ
  key : Bytes
  done : Bool
  error : Error
  deriving DecidableEq

namespace Editor

/-- `bouncer = Bouncer_new()`. -/
def newBouncer (s : Editor) (alloc : Bool) : Editor :=
  if alloc then { s with heap := s.heap ++ [Cell.new], bouncer := some s.heap.length }
  else { s with bouncer := none }

/-- The variables in front of the loop, which has not set `error` yet.
Source: `makeconf.c` `main` -/
def start (alloc : Bool) : Editor :=
  newBouncer
    { stage := .bouncerListen
      config := Options.new
      bouncers := none
      heap := []
      bouncer := none
      key := List.replicate 17 0
      done := false
      error := .none } alloc

/-- A write through `bouncer`. -/
def update (s : Editor) (f : Cell → Cell) : Mem Editor :=
  match s.bouncer with
  | none => throw .nullPointer
  | some a =>
      match s.heap[a]? with
      | none => throw .outOfBounds
      | some cell => pure { s with heap := s.heap.set a (f cell) }

/-! ## Questions about a bouncer -/

/-- An address and a port of a bouncer. -/
structure Endpoint where
  host : Option Bytes
  port : ℤ
  deriving DecidableEq

/-- The two tokens of an answer: `strtok(value, ":")` and `strtok(NULL, " ")`. -/
def addressTokens (value : Bytes) : Option Bytes × Option Bytes :=
  ((strtok colon value).1, (strtok blank (strtok colon value).2).1)

/-- What an answer `host:port` does to an endpoint of the bouncer, none when it writes nothing, and
the error. A port that is refused has been stored all the same.
Source: `makeconf.c` `main`, the cases `STAGE_BOUNCER_LISTEN` and `STAGE_BOUNCER_REMOTE` -/
def readEndpoint (valid : Bytes → Bool) (value : Bytes) (alloc : Bool) :
    Option (Endpoint → Endpoint) × Error :=
  match addressTokens value with
  | (some host, port) =>
      if valid host then
        match port with
        | none => (some fun e => { e with host := none }, .value)
        | some p =>
            if (strToLong p).1 && isValidPort (strToLong p).2 then
              (some fun _ => ⟨if alloc then some host else none, (strToLong p).2⟩,
                if alloc then .none else .strdup)
            else (some fun _ => ⟨none, (strToLong p).2⟩, .value)
      else (none, .value)
  | (none, _) => (none, .value)

def Cell.mapListen (f : Endpoint → Endpoint) (c : Cell) : Cell :=
  { c with
    listenIP := (f ⟨c.listenIP, c.listenPort⟩).host
    listenPort := (f ⟨c.listenIP, c.listenPort⟩).port }

def Cell.mapRemote (f : Endpoint → Endpoint) (c : Cell) : Cell :=
  { c with
    remoteHost := (f ⟨c.remoteHost, c.remotePort⟩).host
    remotePort := (f ⟨c.remoteHost, c.remotePort⟩).port }

/-- The two cases that ask for an address and a port. -/
def askEndpoint (s : Editor) (valid : Bytes → Bool) (map : (Endpoint → Endpoint) → Cell → Cell)
    (input : Input) : Mem Editor :=
  let value := promptInput s.stage.defaultValue input.line
  match readEndpoint valid value input.alloc with
  | (none, error) => pure { s with error := error }
  | (some f, error) => do
      let s ← s.update (map f)
      pure { s with error := error }

/-- Source: `makeconf.c` `main`, the case `STAGE_BOUNCER_LOCAL` -/
def askLocal (s : Editor) (input : Input) : Mem Editor :=
  let value := promptInput s.stage.defaultValue input.line
  if strcasecmpEq value (ascii "None") then pure s
  else if isValidIP value then do
    let s ← s.update fun c => { c with localIP := if input.alloc then some value else none }
    pure (if input.alloc then s else { s with error := .strdup })
  else pure { s with error := .value }

/-- The bouncer is put in front of the list before the question is asked.
Source: `makeconf.c` `main`, the case `STAGE_BOUNCER_ANOTHER` -/
def askAnother (s : Editor) (input : Input) : Mem Editor := do
  let s ← s.update fun c => { c with next := s.bouncers }
  let s := { s with bouncers := s.bouncer, bouncer := none }
  let value := promptInput s.stage.defaultValue input.line
  if strcasecmpEq value (ascii "yes") then
    pure ({ s with stage := .bouncerNext }.newBouncer input.alloc)
  else if strcasecmpEq value (ascii "no") then pure { s with stage := s.stage.succ }
  else pure { s with error := .value }

/-! ## Questions about options -/

/-- The option a stage that asks for `true` or `false` sets. -/
def setBool : Stage → Bool → Options → Options
  | .idnt, value, config => { config with idnt := value }
  | .dnsLookup, value, config => { config with dnsLookup := value }
  | _, _, config => config

/-- The option a stage that asks for a timeout sets. -/
def setTimeout : Stage → ℤ → Options → Options
  | .identTimeout, value, config => { config with identTimeout := value }
  | .idleTimeout, value, config => { config with idleTimeout := value }
  | .writeTimeout, value, config => { config with writeTimeout := value }
  | _, _, config => config

/-- The option a stage that asks for a text sets. -/
def setString : Stage → Option Bytes → Options → Options
  | .pidFile, value, config => { config with pidFile := value }
  | .welcomeMsg, value, config => { config with welcomeMsg := value }
  | _, _, config => config

/-- Source: `makeconf.c` `main`, the cases `STAGE_IDNT` and `STAGE_DNS_LOOKUP` -/
def askBool (s : Editor) (input : Input) : Editor :=
  match parseBool (promptInput s.stage.defaultValue input.line) with
  | some value => { s with config := setBool s.stage value s.config }
  | none => { s with error := .value }

/-- A negative number is refused after it has been stored.
Source: `makeconf.c` `main`, the cases `STAGE_IDENT_TIMEOUT`, `STAGE_IDLE_TIMEOUT` and
`STAGE_WRITE_TIMEOUT` -/
def askTimeout (s : Editor) (input : Input) : Editor :=
  let value := promptInput s.stage.defaultValue input.line
  if value = [] then { s with error := .default }
  else
    match strToInt value with
    | none => { s with error := .value }
    | some i =>
        { s with
          config := setTimeout s.stage i s.config
          error := if i < 0 then .value else .none }

/-- Source: `makeconf.c` `main`, the cases `STAGE_PID_FILE` and `STAGE_WELCOME_MSG` -/
def askString (s : Editor) (input : Input) : Editor :=
  let value := promptInput s.stage.defaultValue input.line
  if value = ascii "none" then s
  else if input.alloc then { s with config := setString s.stage (some value) s.config }
  else { s with config := setString s.stage none s.config, error := .strdup }

/-- Source: `makeconf.c` `main`, the case `STAGE_PASSWORD` -/
def askPassword (s : Editor) (input : Input) : Editor :=
  let value := getpass input.line
  if minimumPasslen ≤ value.length then { s with key := strncpy s.key value (17 - 1) }
  else { s with error := .passlen }

/-! ## The loop -/

variable (isValidHost : Option Bytes → Bool)

/-- The switch over the stages.
Source: `makeconf.c` `main` -/
def ask (s : Editor) (input : Input) : Mem Editor :=
  match s.stage with
  | .bouncerListen => s.askEndpoint isValidIP Cell.mapListen input
  | .bouncerRemote => s.askEndpoint (fun host => isValidHost (some host)) Cell.mapRemote input
  | .bouncerLocal => s.askLocal input
  | .bouncerAnother => s.askAnother input
  | .idnt => pure (s.askBool input)
  | .identTimeout => pure (if s.config.idnt then s.askTimeout input else s)
  | .idleTimeout => pure (s.askTimeout input)
  | .writeTimeout => pure (s.askTimeout input)
  | .dnsLookup => pure (s.askBool input)
  | .pidFile => pure (s.askString input)
  | .welcomeMsg => pure (s.askString input)
  | .password => pure (s.askPassword input)
  | .bouncerNext => pure { s with done := true }
  | .past => pure { s with done := true }

/-- The switch over the errors, without the messages it prints.
Source: `makeconf.c` `main` -/
def next (s : Editor) : Editor :=
  match s.error with
  | .none => { s with stage := s.stage.succ }
  | .strdup => { s with done := true }
  | .default => s
  | .value => s
  | .passlen => s

/-- One iteration of the loop.
Source: `makeconf.c` `main` -/
def step (s : Editor) (input : Input) : Mem Editor := do
  let s ← ask isValidHost { s with error := .none } input
  pure s.next

/-- What an iteration was about: the stage and the bouncer at the top of the loop, the input, and
the error at the end. -/
structure Entry where
  stage : Stage
  bouncer : Option ℕ
  input : Input
  error : Error
  deriving DecidableEq

/-- One iteration of the loop and its record. -/
def Step (s : Editor) (e : Entry) (s' : Editor) : Prop :=
  s.done = false ∧ s.step isValidHost e.input = .ok s' ∧
    e.stage = s.stage ∧ e.bouncer = s.bouncer ∧ e.error = s'.error

/-- A run of the loop from its first iteration on. -/
abbrev Run (alloc : Bool) (log : List Entry) (s : Editor) : Prop :=
  Path (Step isValidHost) (start alloc) log s

/-- The loop has ended, and `main` goes on to save the config. -/
def Completed (s : Editor) : Prop := s.done = true ∧ s.error = .none

instance : DecidablePred Completed := fun s =>
  inferInstanceAs (Decidable (s.done = true ∧ s.error = .none))

/-! ## After the loop -/

/-- The bouncers a list in memory consists of, as a walk of at most `fuel` steps finds them; none
when it does not end, or leaves the heap. -/
def walk (heap : List Cell) : ℕ → Option ℕ → Option (List Bouncer)
  | _, none => some []
  | 0, some _ => none
  | fuel + 1, some a => do
      let cell ← heap[a]?
      let rest ← walk heap fuel cell.next
      some (cell.toBouncer :: rest)

/-- The config the loop built; none when its list of bouncers does not end. -/
def built (s : Editor) : Option Config := do
  let bouncers ← walk s.heap s.heap.length s.bouncers
  some { s.config with bouncers := bouncers }

/-- The text `saveHeader` writes for a config, under the key typed in; none when `main` gives up.
Source: `makeconf.c` `main`, after the loop -/
def embed (urandom : Option Bytes) (s : Editor) (config : Config) : Mem (Option Bytes) :=
  encrypt urandom config.saveBuffer (Cursor.start s.key)

end Editor

end Ebbnc
