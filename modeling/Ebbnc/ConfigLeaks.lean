import Ebbnc.ConfigMemory
import Ebbnc.FileFormat
import Mathlib.Algebra.Order.Group.Multiset
import Mathlib.Tactic.Abel

/-!
# What the config loader leaves in memory

Where every block of a load goes: into the config, back, or into what nothing points to any more.

* `AccountedIf`, `Accounted` — programs that keep account of their blocks; a rule for each call.
* `BouncerBlock.parse_accounted`, `ConfigBlock.loadLine_accounted`,
  `ConfigBlock.loadLines_accounted` — a bouncer definition, a line, the loop over the lines.
* `supersededFrom` — how many strings are replaced by later lines; `Bouncer.addrinfos` — how many
  lists of addresses the checks on hosts leave behind.
* `Loaded` — what a load comes to, and what it loses.
* **`loadBufferIn_leaks`** — the loader in all its runs: what is used, what is returned, what stays.
-/

namespace Ebbnc

open Lib

/-! ## Keeping account -/

/-- As long as the replies are such, the program uses what is held only, and its account fits its
value in the end. Of note are allocations that fail. -/
abbrev AccountedIf (P : LibcEvent → Prop) {α : Type} (p : Libc α) (s : Account Pointer)
    (Q : α → Account Pointer → Prop) : Prop :=
  Program.Sim (libcResources.Accounts LibcEvent.short) (fun _ e => P e) p s Q

/-- The same as long as nothing is accessed through a null pointer. -/
abbrev Accounted {α : Type} (p : Libc α) (s : Account Pointer)
    (Q : α → Account Pointer → Prop) : Prop :=
  AccountedIf (fun e => LibcEvent.crash e = false) p s Q

/-- The block a pointer points to. -/
def pointed : Pointer → Multiset Pointer
  | none => 0
  | some p => {some p}

@[simp] theorem pointed_none : pointed none = 0 := rfl

@[simp] theorem pointed_some (p : ℕ) : pointed (some p) = {some p} := rfl

@[simp] theorem Str.ptr_none : Str.ptr none = none := rfl

@[simp] theorem Str.ptr_some (s : Str) : Str.ptr (some s) = some s.block := rfl

namespace Accounted

variable {α : Type} {P : LibcEvent → Prop} {held R : Multiset Pointer} {noted : Bool}
  {Q : α → Account Pointer → Prop}

theorem access {p : Pointer} {f : Unit → Libc α} (hp : p ∈ held)
    (hf : AccountedIf P (f ()) ⟨held, noted⟩ Q) :
    AccountedIf P (libc (.access p) >>= f) ⟨held, noted⟩ Q := by
  refine Program.Sim.call fun _ _ => ⟨_, .use rfl rfl ?_ rfl, hf⟩
  intro r hr
  cases List.mem_singleton.mp hr
  exact hp

/-- Nothing follows an access to nothing. -/
theorem access_none {f : Unit → Libc α} :
    Accounted (libc (.access none) >>= f) ⟨held, noted⟩ Q :=
  Program.Sim.call fun _ hlaw => absurd hlaw (by simp [LibcEvent.crash, LibcEvent.uses])

theorem calloc {size : ℕ} {f : Pointer → Libc α}
    (hnone : AccountedIf P (f none) ⟨held, true⟩ Q)
    (hsome : ∀ p, AccountedIf P (f (some p)) ⟨{some p} + held, noted⟩ Q) :
    AccountedIf P (libc (.calloc size) >>= f) ⟨held, noted⟩ Q := by
  refine Program.Sim.call fun r _ => ?_
  cases r with
  | none => exact ⟨_, .noted rfl rfl (by intro r hr; cases hr) rfl, hnone⟩
  | some p => exact ⟨_, .make rfl rfl (by intro r hr; cases hr) rfl, hsome p⟩

theorem strdup {s : Str} {f : Option Str → Libc α} (hs : some s.block ∈ held)
    (hnone : AccountedIf P (f none) ⟨held, true⟩ Q)
    (hsome : ∀ p, AccountedIf P (f (some ⟨p, s.text⟩)) ⟨{some p} + held, noted⟩ Q) :
    AccountedIf P (Ebbnc.strdup s >>= f) ⟨held, noted⟩ Q := by
  refine access hs (Program.Sim.call fun r _ => ?_)
  cases r with
  | none => exact ⟨_, .noted rfl rfl (by intro r hr; cases hr) rfl, hnone⟩
  | some p => exact ⟨_, .make rfl rfl (by intro r hr; cases hr) rfl, hsome p⟩

theorem strndup {s : Str} {n : ℕ} {f : Option Str → Libc α} (hs : some s.block ∈ held)
    (hnone : AccountedIf P (f none) ⟨held, true⟩ Q)
    (hsome : ∀ p, AccountedIf P (f (some ⟨p, s.text.take n⟩)) ⟨{some p} + held, noted⟩ Q) :
    AccountedIf P (Ebbnc.strndup s n >>= f) ⟨held, noted⟩ Q := by
  refine access hs (Program.Sim.call fun r _ => ?_)
  cases r with
  | none => exact ⟨_, .noted rfl rfl (by intro r hr; cases hr) rfl, hnone⟩
  | some p => exact ⟨_, .make rfl rfl (by intro r hr; cases hr) rfl, hsome p⟩

theorem getaddrinfo {host : Option Bytes} {f : ℕ → Libc α}
    (hf : ∀ p, AccountedIf P (f p) ⟨{some p} + held, noted⟩ Q) :
    AccountedIf P (libc (.getaddrinfo host) >>= f) ⟨held, noted⟩ Q :=
  Program.Sim.call fun p _ => ⟨_, .make rfl rfl (by intro r hr; cases hr) rfl, hf p⟩

theorem free {p : Pointer} {f : Unit → Libc α} (hheld : held = pointed p + R)
    (hf : AccountedIf P (f ()) ⟨R, noted⟩ Q) :
    AccountedIf P (libc (.free p) >>= f) ⟨held, noted⟩ Q := by
  refine Program.Sim.call fun _ _ => ?_
  cases p with
  | none =>
      rw [pointed_none, zero_add] at hheld
      subst hheld
      exact ⟨_, .use rfl rfl (by intro r hr; cases hr) rfl, hf⟩
  | some p =>
      refine ⟨_, .finish rfl rfl ?_ rfl hheld, hf⟩
      intro r hr
      cases List.mem_singleton.mp hr
      simp [hheld]

end Accounted

/-! ## One bouncer definition -/

/-- A definition with something behind its local ip: five fields that are read, and a sixth. -/
def Bouncer.overlong (s : Bytes) : Bool :=
  Option.isSome do
    let (p, saved) := strtok colon s
    let _ ← p
    let (p, saved) := strtok blank saved
    let _ ← scanInteger (← p)
    let (p, saved) := strtok colon saved
    let _ ← p
    let (p, saved) := strtok blank saved
    let _ ← scanInteger (← p)
    let (p, saved) := strtok blank saved
    let _ ← p
    (strtok blank saved).1

namespace BouncerBlock

/-- The blocks of a bouncer. -/
def blocks (b : BouncerBlock) : Multiset Pointer :=
  pointed b.block + pointed (Str.ptr b.listenIP) + pointed (Str.ptr b.remoteHost) +
    pointed (Str.ptr b.localIP)

/-- What the parser has made of a definition when it returns or gives up. -/
inductive Parsed (s : Bytes) (noted : Bool) : BouncerBlock × Option LoadFailure → Bool → Prop
  | ok {b : BouncerBlock} (hstrings : b.erase.NonNull) (h : Bouncer.parse s = some b.erase) :
      Parsed s noted (b, none) noted
  | parse {b : BouncerBlock} (h : Bouncer.parse s = none)
      (hlocalIP : b.localIP.isSome = Bouncer.overlong s) : Parsed s noted (b, some .parse) noted
  | strdup {b : BouncerBlock} (hlocalIP : b.localIP = none) : Parsed s noted (b, some .strdup) true

/-- The tokens are read into a new bouncer. -/
theorem parseTokens_accounted (temp : Str) (p : ℕ) {frame : Multiset Pointer} {noted : Bool} :
    Accounted (parseTokens temp ⟨some p, none, -1, none, -1, none⟩)
      ⟨{some temp.block} + ({some p} + frame), noted⟩ fun r s =>
        Parsed temp.text noted r s.noted ∧ r.1.block = some p ∧
          s.held = {some temp.block} + (r.1.blocks + frame) := by
  unfold parseTokens
  refine Accounted.access (by simp) ?_
  rcases h₁ : strtok colon temp.text with ⟨_ | ip, saved⟩
  · exact ⟨.parse (by simp [Bouncer.parse, h₁]) (by simp [Bouncer.overlong, h₁]), rfl,
      by simp [blocks]⟩
  refine Accounted.strdup (by simp) ?_ fun listenIP => ?_
  · refine Accounted.access (by simp) ?_
    exact ⟨.strdup rfl, rfl, by simp [blocks]⟩
  refine Accounted.access (by simp) (Accounted.access (by simp) ?_)
  rcases h₂ : strtok blank saved with ⟨port, saved₂⟩
  dsimp only
  rcases h₃ : port.bind scanInteger with _ | ⟨listenPort, _⟩
  · refine ⟨.parse ?_ ?_, rfl, ?_⟩
    · cases port <;> simp_all [Bouncer.parse]
    · cases port <;> simp_all [Bouncer.overlong]
    · simp only [blocks, Str.ptr_some, Str.ptr_none, pointed_some, pointed_none, add_zero]
      abel
  obtain ⟨portText, rfl, hport⟩ := Option.bind_eq_some_iff.mp h₃
  refine Accounted.access (by simp) (Accounted.access (by simp) ?_)
  rcases h₄ : strtok colon saved₂ with ⟨_ | host, saved₃⟩
  · refine ⟨.parse (by simp [Bouncer.parse, h₁, h₂, h₄])
      (by simp [Bouncer.overlong, h₁, h₂, h₄]), rfl, ?_⟩
    simp only [blocks, Str.ptr_some, Str.ptr_none, pointed_some, pointed_none, add_zero]
    abel
  refine Accounted.strdup (by simp) ?_ fun remoteHost => ?_
  · refine Accounted.access (by simp) ?_
    refine ⟨.strdup rfl, rfl, ?_⟩
    simp only [blocks, Str.ptr_some, Str.ptr_none, pointed_some, pointed_none, add_zero]
    abel
  refine Accounted.access (by simp) (Accounted.access (by simp) ?_)
  rcases h₅ : strtok blank saved₃ with ⟨port, saved₄⟩
  dsimp only
  rcases h₆ : port.bind scanInteger with _ | ⟨remotePort, _⟩
  · refine ⟨.parse ?_ ?_, rfl, ?_⟩
    · cases port <;> simp_all [Bouncer.parse]
    · cases port <;> simp_all [Bouncer.overlong]
    · simp only [blocks, Str.ptr_some, Str.ptr_none, pointed_some, pointed_none, add_zero]
      abel
  obtain ⟨portText', rfl, hport'⟩ := Option.bind_eq_some_iff.mp h₆
  refine Accounted.access (by simp) (Accounted.access (by simp) ?_)
  rcases h₇ : strtok blank saved₄ with ⟨_ | ip', saved₅⟩
  · refine Accounted.strdup (by simp) ?_ fun localIP => ?_
    · refine Accounted.access (by simp) ⟨.strdup rfl, rfl, ?_⟩
      simp only [blocks, Str.ptr_some, Str.ptr_none, pointed_some, pointed_none, add_zero]
      abel
    · refine Accounted.access (by simp) ⟨.ok ?_ ?_, rfl, ?_⟩
      · simp [Bouncer.NonNull, erase]
      · simp [Bouncer.parse, h₁, h₂, hport, h₄, h₅, hport', h₇, erase]
      · simp only [blocks, Str.ptr_some, pointed_some]
        abel
  refine Accounted.strdup (by simp) ?_ fun localIP => ?_
  · refine Accounted.access (by simp) ⟨.strdup rfl, rfl, ?_⟩
    simp only [blocks, Str.ptr_some, Str.ptr_none, pointed_some, pointed_none, add_zero]
    abel
  refine Accounted.access (by simp) (Accounted.access (by simp) ?_)
  rcases h₈ : strtok blank saved₅ with ⟨_ | rest, _⟩
  · refine ⟨.ok ?_ ?_, rfl, ?_⟩
    · simp [Bouncer.NonNull, erase]
    · simp [Bouncer.parse, h₁, h₂, hport, h₄, h₅, hport', h₇, h₈, erase]
    · simp only [blocks, Str.ptr_some, pointed_some]
      abel
  · refine ⟨.parse (by simp [Bouncer.parse, h₁, h₂, h₄, h₅, h₇, h₈])
      (by simp [Bouncer.overlong, h₁, h₂, hport, h₄, h₅, hport', h₇, h₈]), rfl, ?_⟩
    simp only [blocks, Str.ptr_some, pointed_some]
    abel

/-- Where there is no bouncer to read the tokens into, there is no first token. -/
theorem parseTokens_null (temp : Str) {b : BouncerBlock} (hb : b.block = none)
    {held : Multiset Pointer} (htemp : some temp.block ∈ held) {noted : Bool} :
    Accounted (parseTokens temp b) ⟨held, noted⟩ fun r s =>
      r = (b, some .parse) ∧ s = ⟨held, noted⟩ ∧ Bouncer.parse temp.text = none ∧
        Bouncer.overlong temp.text = false := by
  unfold parseTokens
  refine Accounted.access htemp ?_
  rcases h : strtok colon temp.text with ⟨_ | ip, saved⟩
  · exact ⟨rfl, rfl, by simp [Bouncer.parse, h], by simp [Bouncer.overlong, h]⟩
  · refine Accounted.strdup htemp ?_ fun listenIP => ?_
    · rw [hb]
      exact Accounted.access_none
    · rw [hb]
      exact Accounted.access_none

/-- What is given back, and what is not. -/
theorem free_accounted {α : Type} {b : BouncerBlock} {p : ℕ} (hb : b.block = some p)
    {frame : Multiset Pointer} {noted : Bool} {f : Unit → Libc α} {Q : α → Account Pointer → Prop}
    (hf : Accounted (f ()) ⟨pointed (Str.ptr b.localIP) + frame, noted⟩ Q) :
    Accounted (b.free >>= f) ⟨b.blocks + frame, noted⟩ Q := by
  obtain ⟨_, listenIP, listenPort, remoteHost, remotePort, localIP⟩ := b
  obtain rfl := hb
  unfold free
  refine Accounted.access (by simp [blocks]) ?_
  refine Accounted.free (R := {some p} + pointed (Str.ptr remoteHost) +
    (pointed (Str.ptr localIP) + frame)) ?_ ?_
  · simp only [blocks, pointed_some]
    abel
  refine Accounted.free (R := {some p} + (pointed (Str.ptr localIP) + frame)) ?_ ?_
  · abel
  exact Accounted.free rfl hf

/-- What is left of a definition: the bouncer, or what could not be given back. -/
inductive Defined (s : Bytes) (noted : Bool) :
    Except LoadFailure BouncerBlock → Multiset Pointer → Bool → Prop
  | ok {b : BouncerBlock} (hblock : b.block ≠ none) (hstrings : b.erase.NonNull)
      (h : Bouncer.parse s = some b.erase) : Defined s noted (.ok b) b.blocks noted
  | parse {stray : Multiset Pointer} {noted' : Bool} (h : Bouncer.parse s = none)
      (hstray : stray.card = (Bouncer.overlong s).toNat) :
      Defined s noted (.error .parse) stray noted'
  | strdup : Defined s noted (.error .strdup) 0 true

/-- **One bouncer definition**: nothing is left but the bouncer, or the local ip of a definition
that is too long. -/
theorem parse_accounted (s : Str) {frame : Multiset Pointer} (hs : some s.block ∈ frame)
    {noted : Bool} :
    Accounted (parse s) ⟨frame, noted⟩ fun r st =>
      ∃ owned, Defined s.text noted r owned st.noted ∧ st.held = owned + frame := by
  unfold parse new
  apply Accounted.calloc
  · -- there is no bouncer to write to
    refine Accounted.strdup hs ?_ fun temp => ?_
    · exact Accounted.free (zero_add _).symm ⟨0, .strdup, (zero_add _).symm⟩
    · refine (parseTokens_null ⟨temp, s.text⟩ rfl (by simp)).bind ?_
      rintro _ _ ⟨rfl, rfl, hparse, hlong⟩
      exact Accounted.free rfl ⟨0, .parse hparse (by rw [hlong]; rfl), (zero_add _).symm⟩
  · intro p
    refine Accounted.access (by simp) (Accounted.strdup (by simp [hs]) ?_ fun temp => ?_)
    · refine Accounted.free (zero_add _).symm ?_
      have hblocks : (⟨some p, none, -1, none, -1, none⟩ : BouncerBlock).blocks = {some p} := by
        simp [blocks]
      rw [← hblocks]
      exact free_accounted rfl ⟨0, .strdup, rfl⟩
    · refine (parseTokens_accounted ⟨temp, s.text⟩ p).bind ?_
      rintro ⟨b, failure⟩ ⟨held, noted'⟩ ⟨hparsed, hblock, rfl⟩
      cases hparsed with
      | ok hstrings h =>
          have hblock : b.block ≠ none := by
            rw [show b.block = some p from hblock]
            exact Option.some_ne_none p
          exact Accounted.free rfl ⟨_, .ok hblock hstrings h, rfl⟩
      | parse h hlocalIP =>
          refine Accounted.free rfl (free_accounted hblock ⟨_, .parse h ?_, rfl⟩)
          rw [← show b.localIP.isSome = Bouncer.overlong s.text from hlocalIP]
          cases b.localIP <;> rfl
      | strdup hlocalIP =>
          refine Accounted.free rfl (free_accounted hblock ⟨0, .strdup, ?_⟩)
          simp [hlocalIP]

end BouncerBlock

/-! ## The options that hold memory -/

/-- A line with an option of its own has no other. -/
theorem hasOption_eq_false {line : Bytes} {o o' : ConfigOption}
    (h : strcasecmpEq (lineKey line) o.name = true) (hne : o ≠ o') :
    hasOption line (o'.name ++ [equals]) = false := by
  rw [Bool.eq_false_iff]
  intro h'
  have hname := ConfigOption.ofName_eq_some.mpr ((hasOption_iff o' line).mp h').1
  rw [ConfigOption.ofName_eq_some.mpr h] at hname
  exact hne (Option.some.inj hname)

/-- A line with another option holds no string that is kept. -/
theorem no_string_option {line : Bytes} {o : ConfigOption}
    (h : strcasecmpEq (lineKey line) o.name = true) (hpid : o ≠ .pidFile)
    (hwelcome : o ≠ .welcomeMsg) :
    hasOption line (ascii "pidfile=") = false ∧ hasOption line (ascii "welcomemsg=") = false :=
  ⟨hasOption_eq_false h hpid, hasOption_eq_false h hwelcome⟩

/-- A comment holds no option. -/
theorem hasOption_of_comment {line : Bytes} (h : line.head? = some hash) (o : ConfigOption) :
    hasOption line (o.name ++ [equals]) = false := by
  rw [Bool.eq_false_iff]
  intro ho
  have hkey := ((hasOption_iff o line).mp ho).1
  obtain ⟨rest, rfl⟩ : ∃ rest, line = hash :: rest := by
    cases line with
    | nil => cases h
    | cons c rest => exact ⟨rest, by rw [Option.some.inj h]⟩
  have hnames : ∀ o ∈ ConfigOption.all, (o.name.map tolower).head? ≠ some hash := by decide
  simp only [strcasecmpEq, beq_iff_eq] at hkey
  apply hnames o (ConfigOption.mem_all o)
  rw [← hkey]
  rfl

/-- The values of an option, one line more in front. -/
theorem length_valuesOf_cons (o : ConfigOption) (line : Bytes) (rest : List Bytes) :
    (valuesOf o (line :: rest)).length =
      (hasOption line (o.name ++ [equals])).toNat + (valuesOf o rest).length := by
  have hiff : hasOption line (o.name ++ [equals]) = true ↔ ∃ v, assignment line = some (o, v) := by
    rw [hasOption_iff, assignment, ← ConfigOption.ofName_eq_some]
    by_cases hvalue : lineValue line = []
    · simp [hvalue]
    · cases h : ConfigOption.ofName (lineKey line) <;> simp [hvalue]
  unfold valuesOf
  cases h : hasOption line (o.name ++ [equals]) with
  | true =>
      obtain ⟨v, hv⟩ := hiff.mp h
      simp [hv, Nat.add_comm]
  | false =>
      have hnone : ((assignment line).filter fun a => a.1 = o) = none := by
        rw [Option.filter_eq_none_iff]
        intro a ha heq
        have ho : a.1 = o := by simpa using heq
        obtain ⟨o', v⟩ := a
        obtain rfl := ho
        rw [hiff.mpr ⟨v, ha⟩] at h
        cases h
      simp [hnone]

/-- The strings that lines replace, when the file to write the process id to and the welcome message
are there already or not: all that are set but the last ones. -/
def supersededFrom (pidFile welcomeMsg : Bool) (lines : List Bytes) : ℕ :=
  (pidFile.toNat + (valuesOf .pidFile lines).length - 1) +
    (welcomeMsg.toNat + (valuesOf .welcomeMsg lines).length - 1)

/-- The strings that the lines of a file replace. -/
def superseded (lines : List Bytes) : ℕ := supersededFrom false false lines

@[simp] theorem supersededFrom_nil (pidFile welcomeMsg : Bool) :
    supersededFrom pidFile welcomeMsg [] = 0 := by
  cases pidFile <;> cases welcomeMsg <;> rfl

/-- One line more in front. -/
theorem supersededFrom_cons (pidFile welcomeMsg : Bool) (line : Bytes) (rest : List Bytes) :
    supersededFrom pidFile welcomeMsg (line :: rest) =
      ((hasOption line (ascii "pidfile=") && pidFile).toNat +
        (hasOption line (ascii "welcomemsg=") && welcomeMsg).toNat) +
      supersededFrom (hasOption line (ascii "pidfile=") || pidFile)
        (hasOption line (ascii "welcomemsg=") || welcomeMsg) rest := by
  have hpid := length_valuesOf_cons .pidFile line rest
  have hwelcome := length_valuesOf_cons .welcomeMsg line rest
  have hpidName : ConfigOption.pidFile.name ++ [equals] = ascii "pidfile=" := by decide
  have hwelcomeName : ConfigOption.welcomeMsg.name ++ [equals] = ascii "welcomemsg=" := by decide
  rw [hpidName] at hpid
  rw [hwelcomeName] at hwelcome
  unfold supersededFrom
  rw [hpid, hwelcome]
  cases hasOption line (ascii "pidfile=") <;> cases hasOption line (ascii "welcomemsg=") <;>
    cases pidFile <;> cases welcomeMsg <;> simp <;> omega

/-! ## One line -/

namespace ConfigBlock

/-- The blocks of a config. -/
def blocks (config : ConfigBlock) : Multiset Pointer :=
  {some config.block} + (config.bouncers.map BouncerBlock.blocks).sum +
    pointed (Str.ptr config.pidFile) + pointed (Str.ptr config.welcomeMsg)

/-- The bouncers of a config are there, with their strings. -/
def Whole (config : ConfigBlock) : Prop :=
  ∀ b ∈ config.bouncers, b.block ≠ none ∧ b.erase.NonNull

/-- The strings that a line replaces. -/
def supersedes (config : ConfigBlock) (line : Bytes) : ℕ :=
  (hasOption line (ascii "pidfile=") && config.pidFile.isSome).toNat +
    (hasOption line (ascii "welcomemsg=") && config.welcomeMsg.isSome).toNat

/-- Whether a line is a bouncer definition that is too long. -/
def strays (line : Bytes) : Bool :=
  hasOption line (ascii "bouncer=") && Bouncer.overlong (line.drop 8)

/-- What has become of a config after a line, and how many blocks were lost apart from the strings
that were replaced. -/
inductive Read (config : ConfigBlock) (line : Bytes) (noted : Bool) :
    ConfigBlock × Option LoadFailure → ℕ → Bool → Prop
  | ok {config' : ConfigBlock} (h : config.erase.loadLine line = some config'.erase)
      (hpidFile : config'.pidFile.isSome = (hasOption line (ascii "pidfile=") ||
        config.pidFile.isSome))
      (hwelcomeMsg : config'.welcomeMsg.isSome = (hasOption line (ascii "welcomemsg=") ||
        config.welcomeMsg.isSome)) : Read config line noted (config', none) 0 noted
  | parse {config' : ConfigBlock} {noted' : Bool} (h : config.erase.loadLine line = none)
      (hbouncers : config'.bouncers = config.bouncers) :
      Read config line noted (config', some .parse) (strays line).toNat noted'
  | strdup {config' : ConfigBlock} (hbouncers : config'.bouncers = config.bouncers) :
      Read config line noted (config', some .strdup) 0 true

/-- The account after a line. -/
def AfterLine (config : ConfigBlock) (line : Bytes) (noted : Bool) (frame : Multiset Pointer)
    (r : ConfigBlock × Option LoadFailure) (s : Account Pointer) : Prop :=
  ∃ lost stray, Read config line noted r stray s.noted ∧ r.1.Whole ∧ r.1.block = config.block ∧
    s.held = r.1.blocks + (lost + frame) ∧ lost.card = config.supersedes line + stray

variable {config : ConfigBlock} {frame : Multiset Pointer} {noted : Bool}

theorem storeBool_accounted {value : Bytes} {store : Bool → ConfigBlock} {held : Multiset Pointer}
    {Q : ConfigBlock × Option LoadFailure → Account Pointer → Prop}
    (hconfig : some config.block ∈ held)
    (hnone : parseBool value = none → Q (config, some .parse) ⟨held, noted⟩)
    (hsome : ∀ b, parseBool value = some b → Q (store b, none) ⟨held, noted⟩) :
    Accounted (config.storeBool value store) ⟨held, noted⟩ Q := by
  unfold storeBool
  cases h : parseBool value with
  | none => exact hnone h
  | some b => exact Accounted.access hconfig (hsome b h)

theorem storeTimeout_accounted {value : Bytes} {store : ℤ → ConfigBlock} {held : Multiset Pointer}
    {Q : ConfigBlock × Option LoadFailure → Account Pointer → Prop}
    (hconfig : some config.block ∈ held)
    (hnone : parseTimeout value = none → Q (config, some .parse) ⟨held, noted⟩)
    (hneg : parseTimeout value = none → ∀ i, Q (store i, some .parse) ⟨held, noted⟩)
    (hsome : ∀ i, parseTimeout value = some i → Q (store i, none) ⟨held, noted⟩) :
    Accounted (config.storeTimeout value store) ⟨held, noted⟩ Q := by
  unfold storeTimeout
  cases h : strToInt value with
  | none => exact hnone (by simp [parseTimeout, h])
  | some i =>
      refine Accounted.access hconfig ?_
      by_cases hi : i < 0
      · have hparse : parseTimeout value = none := by simp [parseTimeout, h, hi]
        simpa [hi] using hneg hparse i
      · have hparse : parseTimeout value = some i := by
          simp [parseTimeout, h, not_lt.mp hi]
        simpa [hi] using hsome i hparse

/-- A line that changes nothing but numbers and truth values, and holds no option with a string. -/
theorem afterLine_of_same {line : Bytes} {config' : ConfigBlock} {failure : Option LoadFailure}
    {stray : ℕ} {noted' : Bool} (hread : Read config line noted (config', failure) stray noted')
    (hwhole : config.Whole) (hblock : config'.block = config.block)
    (hbouncers : config'.bouncers = config.bouncers) (hpidFile : config'.pidFile = config.pidFile)
    (hwelcomeMsg : config'.welcomeMsg = config.welcomeMsg) (hstray : stray = 0)
    (hpid : hasOption line (ascii "pidfile=") = false)
    (hwelcome : hasOption line (ascii "welcomemsg=") = false) :
    config.AfterLine line noted frame (config', failure) ⟨config.blocks + frame, noted'⟩ := by
  refine ⟨0, stray, hread, ?_, hblock, ?_, by simp [supersedes, hpid, hwelcome, hstray]⟩
  · intro b hb
    rw [hbouncers] at hb
    exact hwhole b hb
  · simp [blocks, hblock, hbouncers, hpidFile, hwelcomeMsg]

/-- The lines with an option that is no bouncer and holds no string. -/
theorem scalar_accounted {line : Bytes} {o : ConfigOption} (hwhole : config.Whole)
    (hkey : strcasecmpEq (lineKey line) o.name = true) (ho : o ≠ .bouncer) (hpid : o ≠ .pidFile)
    (hwelcome : o ≠ .welcomeMsg) {config' : ConfigBlock} {failure : Option LoadFailure}
    (h : failure = none ∧ config.erase.loadLine line = some config'.erase ∨
      failure = some .parse ∧ config.erase.loadLine line = none)
    (hsame : config'.block = config.block ∧ config'.bouncers = config.bouncers ∧
      config'.pidFile = config.pidFile ∧ config'.welcomeMsg = config.welcomeMsg) :
    config.AfterLine line noted frame (config', failure) ⟨config.blocks + frame, noted⟩ := by
  obtain ⟨hblock, hbouncers, hpidFile, hwelcomeMsg⟩ := hsame
  have hnoBouncer : hasOption line (ascii "bouncer=") = false := hasOption_eq_false hkey ho
  obtain ⟨hnoPid, hnoWelcome⟩ := no_string_option hkey hpid hwelcome
  rcases h with ⟨rfl, hload⟩ | ⟨rfl, hload⟩
  · exact afterLine_of_same (.ok hload (by simp [hpidFile, hnoPid])
      (by simp [hwelcomeMsg, hnoWelcome])) hwhole hblock hbouncers hpidFile hwelcomeMsg rfl
      hnoPid hnoWelcome
  · exact afterLine_of_same (.parse hload hbouncers) hwhole hblock hbouncers hpidFile hwelcomeMsg
      (by simp [strays, hnoBouncer]) hnoPid hnoWelcome

/-- The two options that are truth values. -/
theorem bool_accounted {line value : Bytes} {o : ConfigOption} {store : Bool → ConfigBlock}
    (hwhole : config.Whole) (hkey : strcasecmpEq (lineKey line) o.name = true) (ho : o ≠ .bouncer)
    (hpid : o ≠ .pidFile) (hwelcome : o ≠ .welcomeMsg)
    (hload : config.erase.loadLine line = (parseBool value).map fun v => (store v).erase)
    (hsame : ∀ v, (store v).block = config.block ∧ (store v).bouncers = config.bouncers ∧
      (store v).pidFile = config.pidFile ∧ (store v).welcomeMsg = config.welcomeMsg) :
    Accounted (config.storeBool value store) ⟨config.blocks + frame, noted⟩
      (config.AfterLine line noted frame) := by
  refine storeBool_accounted (by simp [blocks]) (fun h => ?_) fun b h => ?_
  · rw [h, Option.map_none] at hload
    exact scalar_accounted hwhole hkey ho hpid hwelcome (Or.inr ⟨rfl, hload⟩) ⟨rfl, rfl, rfl, rfl⟩
  · rw [h, Option.map_some] at hload
    exact scalar_accounted hwhole hkey ho hpid hwelcome (Or.inl ⟨rfl, hload⟩) (hsame b)

/-- The three options that are timeouts. -/
theorem timeout_accounted {line value : Bytes} {o : ConfigOption} {store : ℤ → ConfigBlock}
    (hwhole : config.Whole) (hkey : strcasecmpEq (lineKey line) o.name = true) (ho : o ≠ .bouncer)
    (hpid : o ≠ .pidFile) (hwelcome : o ≠ .welcomeMsg)
    (hload : config.erase.loadLine line = (parseTimeout value).map fun v => (store v).erase)
    (hsame : ∀ v, (store v).block = config.block ∧ (store v).bouncers = config.bouncers ∧
      (store v).pidFile = config.pidFile ∧ (store v).welcomeMsg = config.welcomeMsg) :
    Accounted (config.storeTimeout value store) ⟨config.blocks + frame, noted⟩
      (config.AfterLine line noted frame) := by
  refine storeTimeout_accounted (by simp [blocks]) (fun h => ?_) (fun h i => ?_) fun i h => ?_
  · rw [h, Option.map_none] at hload
    exact scalar_accounted hwhole hkey ho hpid hwelcome (Or.inr ⟨rfl, hload⟩) ⟨rfl, rfl, rfl, rfl⟩
  · rw [h, Option.map_none] at hload
    exact scalar_accounted hwhole hkey ho hpid hwelcome (Or.inr ⟨rfl, hload⟩) (hsame i)
  · rw [h, Option.map_some] at hload
    exact scalar_accounted hwhole hkey ho hpid hwelcome (Or.inl ⟨rfl, hload⟩) (hsame i)

/-- A bouncer definition. -/
theorem bouncer_accounted (hwhole : config.Whole) (line : Str) (hline : some line.block ∈ frame)
    (h : hasOption line.text (ascii "bouncer=") = true) :
    Accounted (do
      match ← BouncerBlock.parse (line.skip 8) with
      | .error failure => pure (config, some failure)
      | .ok bouncer => do
        libc (.access bouncer.block)
        libc (.access (some config.block))
        pure ({ config with bouncers := bouncer :: config.bouncers }, none))
      ⟨config.blocks + frame, noted⟩ (config.AfterLine line.text noted frame) := by
  have hkey := ((hasOption_iff .bouncer line.text).mp h).1
  obtain ⟨hnoPid, hnoWelcome⟩ := no_string_option hkey (by decide) (by decide)
  have hload : config.erase.loadLine line.text = (Bouncer.parse (line.text.drop 8)).map
      fun bouncer => { config.erase with bouncers := bouncer :: config.erase.bouncers } := by
    rw [Config.loadLine, if_pos h]
  have hsupersedes : config.supersedes line.text = 0 := by
    simp [supersedes, hnoPid, hnoWelcome]
  refine (BouncerBlock.parse_accounted (line.skip 8)
    (Multiset.mem_add.mpr (Or.inr hline))).bind ?_
  rintro r ⟨held, noted'⟩ ⟨owned, hdefined, rfl⟩
  cases hdefined with
  | @ok b hblock hstrings hparse =>
      obtain ⟨p, hp⟩ := Option.ne_none_iff_exists'.mp hblock
      have hbouncer : b.block ∈ b.blocks + (config.blocks + frame) := by
        simp [BouncerBlock.blocks, hp]
      refine Accounted.access hbouncer (Accounted.access (by simp [blocks]) ?_)
      refine ⟨0, 0, .ok ?_ (by simp [hnoPid]) (by simp [hnoWelcome]), ?_, rfl, ?_, by
        simp [hsupersedes]⟩
      · rw [hload, show Bouncer.parse (line.text.drop 8) = _ from hparse]
        rfl
      · intro b' hb'
        rcases List.mem_cons.mp hb' with rfl | hb'
        · exact ⟨hblock, hstrings⟩
        · exact hwhole b' hb'
      · simp only [blocks, List.map_cons, List.sum_cons, zero_add]
        abel
  | parse hparse hstray =>
      refine ⟨owned, _, .parse ?_ rfl, hwhole, rfl, ?_, ?_⟩
      · rw [hload, show Bouncer.parse (line.text.drop 8) = _ from hparse]
        rfl
      · exact add_left_comm _ _ _
      · rw [hstray, hsupersedes, strays, h, Bool.true_and, zero_add]
        rfl
  | strdup =>
      refine ⟨0, 0, .strdup rfl, hwhole, rfl, ?_, by simp [hsupersedes]⟩
      exact add_left_comm _ _ _

/-- **One line**: it is read as without memory, unless there is too little of it. -/
theorem loadLine_accounted (hwhole : config.Whole) (line : Str) (hline : some line.block ∈ frame) :
    Accounted (config.loadLine line) ⟨config.blocks + frame, noted⟩
      (config.AfterLine line.text noted frame) := by
  have hmem : some line.block ∈ config.blocks + frame := Multiset.mem_add.mpr (Or.inr hline)
  have hsame (c : ConfigBlock) : c.block = c.block ∧ c.bouncers = c.bouncers ∧
    c.pidFile = c.pidFile ∧ c.welcomeMsg = c.welcomeMsg := ⟨rfl, rfl, rfl, rfl⟩
  unfold loadLine
  refine Accounted.access hmem ?_
  by_cases h₁ : hasOption line.text (ascii "bouncer=") = true
  · rw [if_pos h₁]
    exact bouncer_accounted hwhole line hline h₁
  rw [if_neg h₁]
  by_cases h₂ : strncasecmpEq line.text (ascii "idnt=") 5 = true
  · rw [if_pos h₂]
    have hkey := ((strncasecmpEq_iff .idnt line.text).mp h₂).2
    refine bool_accounted hwhole hkey (by decide) (by decide) (by decide) ?_ fun _ => hsame config
    rw [Config.loadLine, if_neg h₁, if_pos h₂]
    rfl
  rw [if_neg h₂]
  by_cases h₃ : hasOption line.text (ascii "identtimeout=") = true
  · rw [if_pos h₃]
    have hkey := ((hasOption_iff .identTimeout line.text).mp h₃).1
    refine timeout_accounted hwhole hkey (by decide) (by decide) (by decide) ?_
      fun _ => hsame config
    rw [Config.loadLine, if_neg h₁, if_neg h₂, if_pos h₃]
    rfl
  rw [if_neg h₃]
  by_cases h₄ : hasOption line.text (ascii "idletimeout=") = true
  · rw [if_pos h₄]
    have hkey := ((hasOption_iff .idleTimeout line.text).mp h₄).1
    refine timeout_accounted hwhole hkey (by decide) (by decide) (by decide) ?_
      fun _ => hsame config
    rw [Config.loadLine, if_neg h₁, if_neg h₂, if_neg h₃, if_pos h₄]
    rfl
  rw [if_neg h₄]
  by_cases h₅ : hasOption line.text (ascii "writetimeout=") = true
  · rw [if_pos h₅]
    have hkey := ((hasOption_iff .writeTimeout line.text).mp h₅).1
    refine timeout_accounted hwhole hkey (by decide) (by decide) (by decide) ?_
      fun _ => hsame config
    rw [Config.loadLine, if_neg h₁, if_neg h₂, if_neg h₃, if_neg h₄, if_pos h₅]
    rfl
  rw [if_neg h₅]
  by_cases h₆ : hasOption line.text (ascii "dnslookup=") = true
  · rw [if_pos h₆]
    have hkey := ((hasOption_iff .dnsLookup line.text).mp h₆).1
    refine bool_accounted hwhole hkey (by decide) (by decide) (by decide) ?_ fun _ => hsame config
    rw [Config.loadLine, if_neg h₁, if_neg h₂, if_neg h₃, if_neg h₄, if_neg h₅, if_pos h₆]
    rfl
  rw [if_neg h₆]
  have hnoBouncer : hasOption line.text (ascii "bouncer=") = false := by simpa using h₁
  by_cases h₇ : hasOption line.text (ascii "pidfile=") = true
  · rw [if_pos h₇]
    have hkey := ((hasOption_iff .pidFile line.text).mp h₇).1
    have hnoWelcome : hasOption line.text (ascii "welcomemsg=") = false :=
      @hasOption_eq_false _ _ .welcomeMsg hkey (by decide)
    have hlost : (pointed (Str.ptr config.pidFile)).card = config.supersedes line.text + 0 := by
      cases hpid : config.pidFile <;> simp [supersedes, h₇, hnoWelcome, hpid]
    refine Accounted.strdup hmem ?_ fun p => ?_
    · refine Accounted.access (by simp [blocks]) ?_
      refine ⟨pointed (Str.ptr config.pidFile), 0, .strdup rfl, hwhole, rfl, ?_, hlost⟩
      simp only [blocks, Str.ptr_none, pointed_none]
      abel
    · refine Accounted.access (by simp [blocks]) ?_
      refine ⟨pointed (Str.ptr config.pidFile), 0, .ok ?_ (by simp [h₇]) (by simp [hnoWelcome]),
        hwhole, rfl, ?_, hlost⟩
      · rw [Config.loadLine, if_neg h₁, if_neg h₂, if_neg h₃, if_neg h₄, if_neg h₅, if_neg h₆,
          if_pos h₇]
        rfl
      · simp only [blocks, Str.ptr_some, pointed_some]
        abel
  rw [if_neg h₇]
  have hnoPid : hasOption line.text (ascii "pidfile=") = false := by simpa using h₇
  by_cases h₈ : hasOption line.text (ascii "welcomemsg=") = true
  · rw [if_pos h₈]
    have hlost : (pointed (Str.ptr config.welcomeMsg)).card = config.supersedes line.text + 0 := by
      cases hwelcome : config.welcomeMsg <;> simp [supersedes, h₈, hnoPid, hwelcome]
    refine Accounted.strdup hmem ?_ fun p => ?_
    · refine Accounted.access (by simp [blocks]) ?_
      refine ⟨pointed (Str.ptr config.welcomeMsg), 0, .strdup rfl, hwhole, rfl, ?_, hlost⟩
      simp only [blocks, Str.ptr_none, pointed_none]
      abel
    · refine Accounted.access (by simp [blocks]) ?_
      refine ⟨pointed (Str.ptr config.welcomeMsg), 0, .ok ?_ (by simp [hnoPid]) (by simp [h₈]),
        hwhole, rfl, ?_, hlost⟩
      · rw [Config.loadLine, if_neg h₁, if_neg h₂, if_neg h₃, if_neg h₄, if_neg h₅, if_neg h₆,
          if_neg h₇, if_pos h₈]
        rfl
      · simp only [blocks, Str.ptr_some, pointed_some]
        abel
  rw [if_neg h₈]
  have hnoWelcome : hasOption line.text (ascii "welcomemsg=") = false := by simpa using h₈
  have hload : config.erase.loadLine line.text = none := by
    rw [Config.loadLine, if_neg h₁, if_neg h₂, if_neg h₃, if_neg h₄, if_neg h₅, if_neg h₆,
      if_neg h₇, if_neg h₈]
  exact afterLine_of_same (.parse hload rfl) hwhole rfl rfl rfl rfl (by simp [strays, hnoBouncer])
    hnoPid hnoWelcome

/-! ## The lines -/

/-- The line that the loop has not given back. -/
def LoopEnd.blocks : LoopEnd → Multiset Pointer
  | .done => 0
  | .error line => {some line.block}
  | .strduperror line => pointed (Str.ptr line)

/-- How the loop over the lines ends, and how many blocks were lost on the way. -/
inductive Finished (config : ConfigBlock) (lines : List Bytes) (noted : Bool) :
    ConfigBlock × LoopEnd → ℕ → Bool → Prop
  | done {config' : ConfigBlock} (h : config.erase.loadAll lines = .ok config'.erase) :
      Finished config lines noted (config', .done)
        (supersededFrom config.pidFile.isSome config.welcomeMsg.isSome lines) noted
  | error {config' : ConfigBlock} {done rest : List Bytes} {line : Str} {c : Config} {noted' : Bool}
      (hlines : lines = done ++ line.text :: rest) (hdone : config.erase.loadAll done = .ok c)
      (hbouncers : c.bouncers = config'.erase.bouncers)
      (h : config.erase.loadAll lines = .error line.text) :
      Finished config lines noted (config', .error line)
        (supersededFrom config.pidFile.isSome config.welcomeMsg.isSome (done ++ [line.text]) +
          (strays line.text).toNat) noted'
  | between {config' : ConfigBlock} {done rest : List Bytes} (hlines : lines = done ++ rest)
      (hdone : config.erase.loadAll done = .ok config'.erase) :
      Finished config lines noted (config', .strduperror none)
        (supersededFrom config.pidFile.isSome config.welcomeMsg.isSome done) true
  | inLine {config' : ConfigBlock} {done rest : List Bytes} {line : Str} {c : Config}
      (hlines : lines = done ++ line.text :: rest) (hdone : config.erase.loadAll done = .ok c)
      (hbouncers : c.bouncers = config'.erase.bouncers) :
      Finished config lines noted (config', .strduperror (some line))
        (supersededFrom config.pidFile.isSome config.welcomeMsg.isSome (done ++ [line.text])) true

/-- A comment in front. -/
theorem Finished.comment {line : Bytes} {lines : List Bytes} {r : ConfigBlock × LoopEnd} {n : ℕ}
    {noted' : Bool} (h : Finished config lines noted r n noted')
    (hcomment : line.head? = some hash) : Finished config (line :: lines) noted r n noted' := by
  have hload : ∀ rest, config.erase.loadAll (line :: rest) = config.erase.loadAll rest := by
    intro rest
    rw [Config.loadAll, if_pos hcomment]
  have hno (o : ConfigOption) : hasOption line (o.name ++ [equals]) = false :=
    hasOption_of_comment hcomment o
  have hsuperseded : ∀ p w rest, supersededFrom p w (line :: rest) = supersededFrom p w rest := by
    intro p w rest
    rw [supersededFrom_cons, show hasOption line (ascii "pidfile=") = false from hno .pidFile,
      show hasOption line (ascii "welcomemsg=") = false from hno .welcomeMsg]
    simp
  cases h with
  | done h =>
      rw [← hsuperseded]
      exact .done (by rw [hload, h])
  | error hlines hdone hbouncers h =>
      rw [← hsuperseded]
      exact .error (congrArg (line :: ·) hlines) (by rw [hload, hdone]) hbouncers (by rw [hload, h])
  | between hlines hdone =>
      rw [← hsuperseded]
      exact .between (congrArg (line :: ·) hlines) (by rw [hload, hdone])
  | inLine hlines hdone hbouncers =>
      rw [← hsuperseded]
      exact .inLine (congrArg (line :: ·) hlines) (by rw [hload, hdone]) hbouncers

/-- A line that is read in front. -/
theorem Finished.cons {line : Bytes} {lines : List Bytes} {config' : ConfigBlock}
    {r : ConfigBlock × LoopEnd} {n stray : ℕ} {noted' : Bool}
    (h : Finished config' lines noted r n noted') (hcomment : line.head? ≠ some hash)
    (hread : Read config line noted (config', none) stray noted) :
    Finished config (line :: lines) noted r (config.supersedes line + n) noted' := by
  cases hread with
  | ok hline hpidFile hwelcomeMsg =>
  have hload : ∀ rest, config.erase.loadAll (line :: rest) = config'.erase.loadAll rest := by
    intro rest
    rw [Config.loadAll, if_neg hcomment, hline]
  have hsuperseded : ∀ rest, supersededFrom config.pidFile.isSome config.welcomeMsg.isSome
      (line :: rest) = config.supersedes line +
        supersededFrom config'.pidFile.isSome config'.welcomeMsg.isSome rest := by
    intro rest
    rw [supersededFrom_cons, hpidFile, hwelcomeMsg, supersedes]
  cases h with
  | done h =>
      rw [← hsuperseded]
      exact .done (by rw [hload, h])
  | error hlines hdone hbouncers h =>
      rw [← Nat.add_assoc, ← hsuperseded]
      exact .error (congrArg (line :: ·) hlines) (by rw [hload, hdone]) hbouncers (by rw [hload, h])
  | between hlines hdone =>
      rw [← hsuperseded]
      exact .between (congrArg (line :: ·) hlines) (by rw [hload, hdone])
  | inLine hlines hdone hbouncers =>
      rw [← hsuperseded]
      exact .inLine (congrArg (line :: ·) hlines) (by rw [hload, hdone]) hbouncers

/-- The account after the loop. -/
def AfterLoop (config : ConfigBlock) (lines : List Bytes) (noted : Bool) (frame : Multiset Pointer)
    (r : ConfigBlock × LoopEnd) (s : Account Pointer) : Prop :=
  ∃ lost n, Finished config lines noted r n s.noted ∧ r.1.Whole ∧ r.1.block = config.block ∧
    s.held = r.2.blocks + (r.1.blocks + (lost + frame)) ∧ lost.card = n

/-- A line that is read, and what is lost from there on. -/
theorem AfterLoop.cons {line : Bytes} {lines : List Bytes} {config' : ConfigBlock}
    {lost : Multiset Pointer} {r : ConfigBlock × LoopEnd} {s : Account Pointer}
    (h : config'.AfterLoop lines noted (lost + frame) r s) (hcomment : line.head? ≠ some hash)
    (hread : Read config line noted (config', none) 0 noted) (hblock : config'.block = config.block)
    (hlost : lost.card = config.supersedes line) :
    config.AfterLoop (line :: lines) noted frame r s := by
  obtain ⟨lost', n, hfinished, hwhole, hblock', hheld, hlost'⟩ := h
  refine ⟨lost' + lost, _, hfinished.cons hcomment hread, hwhole, hblock'.trans hblock, ?_, ?_⟩
  · rw [hheld, add_assoc]
  · rw [Multiset.card_add, hlost, hlost', Nat.add_comm]

/-- **The loop over the lines**: all that is lost is accounted for. -/
theorem loadLines_accounted (buffer : ℕ) (p1 : Bytes) (hwhole : config.Whole)
    (hbuffer : some buffer ∈ frame) :
    Accounted (config.loadLines buffer p1) ⟨config.blocks + frame, noted⟩
      (config.AfterLoop (textLines p1) noted frame) := by
  induction hn : p1.length using Nat.strong_induction_on generalizing p1 config frame noted with
  | _ n ih =>
  have hmem : some buffer ∈ config.blocks + frame := Multiset.mem_add.mpr (Or.inr hbuffer)
  rw [loadLines]
  by_cases hnil : p1 = []
  · rw [dif_pos hnil, hnil]
    refine Accounted.access hmem ⟨0, _, .done rfl, hwhole, rfl, by simp [LoopEnd.blocks], ?_⟩
    simp [textLines]
  rw [dif_neg hnil]
  have hlt := @length_skip_lt _ isEOL _ hnil
  have hlines := @runs_eq_of_ne_nil _ isEOL p1
  have htext : p1.take (p1.takeWhile fun c => !isEOL c).length = p1.takeWhile fun c => !isEOL c :=
    List.prefix_iff_eq_take.mp (List.takeWhile_prefix _) |>.symm
  generalize (p1.dropWhile fun c => !isEOL c).dropWhile isEOL = next at hlt hlines ⊢
  generalize (p1.takeWhile fun c => !isEOL c) = text at hlines htext ⊢
  refine Accounted.strndup hmem ?_ fun p => ?_
  · -- there is no memory for the line
    refine ⟨0, _, .between (List.nil_append _).symm rfl, hwhole, rfl, by simp [LoopEnd.blocks], ?_⟩
    simp
  · simp only [htext]
    refine Accounted.access (by simp) ?_
    by_cases hskip : text = [] ∨ text.head? = some hash
    · rw [if_pos hskip]
      refine Accounted.free rfl ((ih next.length (hn ▸ hlt) next hwhole hbuffer rfl).mono ?_)
      rintro r s ⟨lost, n, hfinished, hrest⟩
      refine ⟨lost, n, ?_, hrest⟩
      rw [textLines, hlines]
      by_cases hempty : text = []
      · rw [if_pos hempty]
        exact hfinished
      · rw [if_neg hempty]
        exact hfinished.comment (hskip.resolve_left hempty)
    · rw [if_neg hskip]
      obtain ⟨hne, hcomment⟩ := not_or.mp hskip
      rw [if_neg hne, List.singleton_append] at hlines
      have hreorder : ({some p} : Multiset Pointer) + (config.blocks + frame) =
          config.blocks + ({some p} + frame) := add_left_comm _ _ _
      simp only [hreorder]
      refine (loadLine_accounted hwhole ⟨p, text⟩ (by simp)).bind ?_
      rintro ⟨config', failure⟩ ⟨held, noted'⟩ ⟨lost, stray, hread, hwhole', hblock, rfl, hlost⟩
      have hread' := hread
      have hlines' : textLines p1 = [] ++ (⟨p, text⟩ : Str).text :: runs isEOL next := hlines
      have hsuperseded : supersededFrom config.pidFile.isSome config.welcomeMsg.isSome [text] =
          config.supersedes text := by
        rw [supersededFrom_cons, supersededFrom_nil, add_zero, supersedes]
      cases hread with
      | ok hload hpidFile hwelcomeMsg =>
          refine Accounted.free (R := config'.blocks + (lost + frame)) ?_ ?_
          · rw [pointed_some]
            abel
          rw [textLines, hlines]
          exact (ih next.length (hn ▸ hlt) next hwhole' (Multiset.mem_add.mpr (Or.inr hbuffer))
            rfl).mono fun r s h => h.cons hcomment hread' hblock hlost
      | parse hload hbouncers =>
          have hall : config.erase.loadAll (textLines p1) = .error text := by
            rw [textLines, hlines, Config.loadAll, if_neg hcomment, hload]
          refine ⟨lost, _, .error hlines' rfl ?_ hall, hwhole', hblock, ?_, ?_⟩
          · simp [erase, hbouncers]
          · simp only [LoopEnd.blocks]
            abel
          · rw [List.nil_append, hlost, hsuperseded]
      | strdup hbouncers =>
          refine ⟨lost, _, .inLine hlines' rfl ?_, hwhole', hblock, ?_, ?_⟩
          · simp [erase, hbouncers]
          · simp only [LoopEnd.blocks, Str.ptr_some, pointed_some]
            abel
          · rw [List.nil_append, hlost, hsuperseded, add_zero]

end ConfigBlock

/-! ## The finished config -/

/-- The lists of addresses that the checks on bouncers leave in memory: one for every host that is
found, up to the first bouncer with a message. -/
def Bouncer.addrinfos (isValidHost : Option Bytes → Bool) : List Bouncer → ℕ
  | [] => 0
  | b :: rest => (isValidHost b.remoteHost).toNat +
      match b.check isValidHost with
      | .ok [] => Bouncer.addrinfos isValidHost rest
      | _ => 0

section check

variable {isValidHost : Option Bytes → Bool} {held : Multiset Pointer} {noted : Bool}

/-- A bouncer without a message in front. -/
theorem Bouncer.addrinfos_cons_of_silent {b : Bouncer} {rest : List Bouncer}
    (h : b.check isValidHost = .ok []) : Bouncer.addrinfos isValidHost (b :: rest) =
      (isValidHost b.remoteHost).toNat + Bouncer.addrinfos isValidHost rest := by
  rw [Bouncer.addrinfos, h]

/-- A bouncer with a message in front. -/
theorem Bouncer.addrinfos_cons_of_messages {b : Bouncer} {rest : List Bouncer}
    {messages : List Message} (h : b.check isValidHost = .ok messages) (hne : messages ≠ []) :
    Bouncer.addrinfos isValidHost (b :: rest) = (isValidHost b.remoteHost).toNat := by
  rw [Bouncer.addrinfos, h]
  cases messages with
  | nil => exact absurd rfl hne
  | cons message messages => rfl

/-- When there is no message, every host was found. -/
theorem Bouncer.addrinfos_of_silent {bs : List Bouncer} (hstrings : ∀ b ∈ bs, b.NonNull)
    (h : Bouncer.checkList isValidHost bs = .ok []) :
    Bouncer.addrinfos isValidHost bs = bs.length := by
  induction bs with
  | nil => rfl
  | cons b bs ih =>
      obtain ⟨messages, hcheck, hiff⟩ :=
        Bouncer.check_of_nonNull isValidHost (hstrings b List.mem_cons_self)
      rw [Bouncer.checkList, hcheck, Mem.ok_bind] at h
      by_cases hnil : messages = []
      · rw [if_pos hnil] at h
        rw [hnil] at hcheck
        have hfound : isValidHost b.remoteHost = true := (hiff.mp hnil).remoteHost.2
        rw [addrinfos_cons_of_silent hcheck, hfound,
          ih (fun b' hb' => hstrings b' (List.mem_cons_of_mem b hb')) h, List.length_cons]
        exact Nat.add_comm _ _
      · rw [if_neg hnil] at h
        exact absurd (Except.ok.inj h) hnil

/-- The list of addresses of a host stays. -/
theorem isValidHostIn_accounted {host : Str} (hhost : some host.block ∈ held) :
    Accounted (isValidHostIn isValidHost (some host)) ⟨held, noted⟩ fun found s =>
      found = isValidHost (some host.text) ∧ ∃ list : Multiset Pointer,
        list.card = (isValidHost (some host.text)).toNat ∧ s = ⟨list + held, noted⟩ := by
  unfold isValidHostIn
  refine Accounted.access hhost ?_
  have htext : (some host).map Str.text = some host.text := rfl
  rw [htext]
  cases h : isValidHost (some host.text) with
  | true =>
      refine Accounted.getaddrinfo fun p => Accounted.access (by simp) ?_
      exact ⟨rfl, {some p}, rfl, rfl⟩
  | false => exact ⟨rfl, 0, rfl, by rw [zero_add]⟩

/-- The checks on a bouncer only read it, and leave the addresses of its host. -/
theorem BouncerBlock.check_accounted {b : BouncerBlock} (hstrings : b.erase.NonNull)
    (hb : ∀ p ∈ b.blocks, p ∈ held) (hblock : b.block ≠ none) :
    Accounted (b.check isValidHost) ⟨held, noted⟩ fun messages s =>
      b.erase.check isValidHost = .ok messages ∧ ∃ list : Multiset Pointer,
        list.card = (isValidHost b.erase.remoteHost).toNat ∧ s = ⟨list + held, noted⟩ := by
  obtain ⟨block, listenIP, listenPort, remoteHost, remotePort, localIP⟩ := b
  obtain ⟨hlisten, hremote, hlocal⟩ := hstrings
  obtain ⟨p, rfl⟩ := Option.ne_none_iff_exists'.mp hblock
  cases listenIP with
  | none => exact absurd rfl hlisten
  | some listenIP =>
  cases remoteHost with
  | none => exact absurd rfl hremote
  | some remoteHost =>
  cases localIP with
  | none => exact absurd rfl hlocal
  | some localIP =>
  unfold check isValidIPIn
  refine Accounted.access (hb _ (by simp [blocks])) (Accounted.access (hb _ (by simp [blocks])) ?_)
  refine (isValidHostIn_accounted (hb _ (by simp [blocks]))).bind ?_
  rintro _ _ ⟨rfl, list, hlist, rfl⟩
  have hlocalIP : some localIP.block ∈ list + held :=
    Multiset.mem_add.mpr (Or.inr (hb _ (by simp [blocks])))
  refine Accounted.access hlocalIP ⟨?_, list, hlist, rfl⟩
  by_cases hl : isValidIP listenIP.text = true <;> by_cases hr : isValidIP localIP.text = true <;>
    simp [Bouncer.check, erase, deref, hl, hr] <;> rfl

/-- So do the checks on a list of bouncers. -/
theorem BouncerBlock.checkList_accounted {bs : List BouncerBlock}
    (hwhole : ∀ b ∈ bs, b.block ≠ none ∧ b.erase.NonNull)
    (hbs : ∀ p ∈ (bs.map BouncerBlock.blocks).sum, p ∈ held) :
    Accounted (BouncerBlock.checkList isValidHost bs) ⟨held, noted⟩ fun messages s =>
      Bouncer.checkList isValidHost (bs.map erase) = .ok messages ∧ ∃ lists : Multiset Pointer,
        lists.card = Bouncer.addrinfos isValidHost (bs.map erase) ∧
          s = ⟨lists + held, noted⟩ := by
  induction bs generalizing held with
  | nil => exact ⟨rfl, 0, rfl, by rw [zero_add]⟩
  | cons b bs ih =>
      rw [List.map_cons, List.sum_cons] at hbs
      obtain ⟨hblock, hstrings⟩ := hwhole b List.mem_cons_self
      unfold BouncerBlock.checkList
      refine (check_accounted hstrings (fun p hp => hbs p (Multiset.mem_add.mpr (Or.inl hp)))
        hblock).bind ?_
      rintro messages _ ⟨hcheck, list, hlist, rfl⟩
      rw [List.map_cons, Bouncer.checkList, hcheck, Mem.ok_bind]
      by_cases hnil : messages = []
      · rw [if_pos hnil]
        simp only [if_pos hnil]
        rw [hnil] at hcheck
        have hrest := @ih (list + held) (fun b' hb' => hwhole b' (List.mem_cons_of_mem b hb'))
          fun p hp => Multiset.mem_add.mpr (Or.inr (hbs p (Multiset.mem_add.mpr (Or.inr hp))))
        refine hrest.mono ?_
        rintro messages' _ ⟨hchecks, lists, hlists, rfl⟩
        refine ⟨hchecks, lists + list, ?_, by rw [add_assoc]⟩
        rw [Bouncer.addrinfos_cons_of_silent hcheck, Multiset.card_add, hlist, hlists, Nat.add_comm]
      · rw [if_neg hnil]
        simp only [if_neg hnil]
        exact ⟨rfl, list, by rw [Bouncer.addrinfos_cons_of_messages hcheck hnil, hlist], rfl⟩

end check

namespace ConfigBlock

variable {config : ConfigBlock} {frame : Multiset Pointer} {noted : Bool}

/-- The checks on a config only read it, and leave the addresses of the hosts. -/
theorem sanityCheck_accounted {isValidHost : Option Bytes → Bool} (hwhole : config.Whole) :
    Accounted (config.sanityCheck isValidHost) ⟨config.blocks + frame, noted⟩ fun messages s =>
      config.erase.sanityCheck isValidHost = .ok messages ∧ ∃ lists : Multiset Pointer,
        lists.card = Bouncer.addrinfos isValidHost config.erase.bouncers ∧
          s = ⟨lists + (config.blocks + frame), noted⟩ := by
  unfold sanityCheck Config.sanityCheck
  refine Accounted.access (by simp [blocks]) ?_
  cases hbouncers : config.bouncers with
  | nil =>
      have hnil : config.erase.bouncers = [] := by simp [erase, hbouncers]
      refine ⟨by rw [if_pos hnil]; rfl, 0, ?_, by rw [zero_add]⟩
      rw [hnil]
      rfl
  | cons b bs =>
      have hmem : ∀ p ∈ ((b :: bs).map BouncerBlock.blocks).sum, p ∈ config.blocks + frame := by
        intro p hp
        rw [← hbouncers] at hp
        simp only [blocks, Multiset.mem_add]
        tauto
      have hcheck := @BouncerBlock.checkList_accounted isValidHost _ noted (b :: bs)
        (hbouncers ▸ hwhole) hmem
      simpa [erase, hbouncers] using hcheck

/-- A sane config has the addresses of one host for each bouncer. -/
theorem Whole.addrinfos {isValidHost : Option Bytes → Bool} (hwhole : config.Whole)
    (h : config.erase.sanityCheck isValidHost = .ok []) :
    Bouncer.addrinfos isValidHost config.erase.bouncers = config.bouncers.length := by
  have hstrings : ∀ b ∈ config.erase.bouncers, b.NonNull := by
    intro b hb
    obtain ⟨block, hblock, rfl⟩ := List.mem_map.mp hb
    exact (hwhole block hblock).2
  have hlength : config.erase.bouncers.length = config.bouncers.length := List.length_map _
  by_cases hnil : config.erase.bouncers = []
  · rw [← hlength, hnil]
    rfl
  · rw [Config.sanityCheck, if_neg hnil] at h
    rw [Bouncer.addrinfos_of_silent hstrings h, hlength]

/-- The bouncers stay. -/
theorem free_accounted {α : Type} {f : Unit → Libc α} {Q : α → Account Pointer → Prop}
    (hf : Accounted (f ()) ⟨(config.bouncers.map BouncerBlock.blocks).sum + frame, noted⟩ Q) :
    Accounted (config.free >>= f) ⟨config.blocks + frame, noted⟩ Q := by
  unfold free
  refine Accounted.access (by simp [blocks]) ?_
  refine Accounted.free (R := {some config.block} + pointed (Str.ptr config.welcomeMsg) +
    ((config.bouncers.map BouncerBlock.blocks).sum + frame)) ?_ ?_
  · simp only [blocks]
    abel
  refine Accounted.free (R := {some config.block} +
    ((config.bouncers.map BouncerBlock.blocks).sum + frame)) ?_ ?_
  · abel
  exact Accounted.free rfl hf

/-- A bouncer with its strings is four blocks. -/
theorem card_bouncers (hwhole : config.Whole) :
    (config.bouncers.map BouncerBlock.blocks).sum.card = 4 * config.erase.bouncers.length := by
  have hcard : ∀ b ∈ config.bouncers, b.blocks.card = 4 := by
    intro b hb
    obtain ⟨hblock, hlisten, hremote, hlocal⟩ := hwhole b hb
    obtain ⟨block, listenIP, listenPort, remoteHost, remotePort, localIP⟩ := b
    obtain ⟨p, rfl⟩ := Option.ne_none_iff_exists'.mp hblock
    cases listenIP with
    | none => exact absurd rfl hlisten
    | some listenIP =>
    cases remoteHost with
    | none => exact absurd rfl hremote
    | some remoteHost =>
    cases localIP with
    | none => exact absurd rfl hlocal
    | some localIP => simp [BouncerBlock.blocks]
  rw [show config.erase.bouncers.length = config.bouncers.length by simp [erase]]
  generalize config.bouncers = bs at hcard
  induction bs with
  | nil => rfl
  | cons b bs ih =>
      rw [List.map_cons, List.sum_cons, Multiset.card_add, hcard b List.mem_cons_self,
        ih fun b' hb' => hcard b' (List.mem_cons_of_mem b hb'), List.length_cons]
      ring

end ConfigBlock

/-! ## The loader -/

/-- What a load comes to: its result, and how many blocks stay that nothing points to any more. A
config that is loaded has lost the strings that were replaced, and the list of addresses of the host
of every bouncer; when none is, each bouncer of the lines before the end is lost, too, four blocks
each, and the local ip of a definition that is too long, or the lists of addresses of the hosts that
are found before a check fails. -/
inductive Loaded (isValidHost : Option Bytes → Bool) (text : Bytes) :
    Except LoadError ConfigBlock → ℕ → Bool → Prop
  | ok {config : ConfigBlock}
      (h : Config.loadBuffer isValidHost text = .ok (.ok config.erase)) :
      Loaded isValidHost text (.ok config)
        (superseded (textLines text) + config.bouncers.length) false
  | errorOnLine {done rest : List Bytes} {line : Bytes} {c : Config} {short : Bool}
      (h : Config.loadBuffer isValidHost text = .ok (.error [.errorOnLine line]))
      (hlines : textLines text = done ++ line :: rest) (hdone : Config.new.loadAll done = .ok c) :
      Loaded isValidHost text (.error (.messages [.errorOnLine line]))
        (4 * c.bouncers.length + superseded (done ++ [line]) +
          (ConfigBlock.strays line).toNat) short
  | insane {c : Config} {messages : List Message}
      (h : Config.loadBuffer isValidHost text = .ok (.error messages))
      (hload : Config.new.loadAll (textLines text) = .ok c) :
      Loaded isValidHost text (.error (.messages messages))
        (4 * c.bouncers.length + superseded (textLines text) +
          Bouncer.addrinfos isValidHost c.bouncers) false
  | shortOf {done rest : List Bytes} {c : Config} (hlines : textLines text = done ++ rest)
      (hdone : Config.new.loadAll done = .ok c) :
      Loaded isValidHost text (.error .unableToLoad) (4 * c.bouncers.length + superseded done) true
  | shortIn {done rest : List Bytes} {line : Bytes} {c : Config}
      (hlines : textLines text = done ++ line :: rest) (hdone : Config.new.loadAll done = .ok c) :
      Loaded isValidHost text (.error .unableToLoad)
        (4 * c.bouncers.length + superseded (done ++ [line])) true

/-- The blocks of what a load returns. -/
def loadedBlocks : Except LoadError ConfigBlock → Multiset Pointer
  | .ok config => config.blocks
  | .error _ => 0

section load

variable {isValidHost : Option Bytes → Bool}

/-- The loader keeps account of its memory. -/
theorem loadBufferIn_accounted (buffer : Str) {frame : Multiset Pointer}
    (hbuffer : some buffer.block ∈ frame) :
    Accounted (loadBufferIn isValidHost buffer) ⟨frame, false⟩ fun r s =>
      ∃ lost : Multiset Pointer, Loaded isValidHost buffer.text r lost.card s.noted ∧
        s.held = loadedBlocks r + (lost + frame) := by
  unfold loadBufferIn ConfigBlock.new
  apply Accounted.calloc
  · have hlines : textLines buffer.text = [] ++ textLines buffer.text := rfl
    exact ⟨0, .shortOf hlines rfl, by simp [loadedBlocks]⟩
  intro p
  refine Accounted.access (by simp) ?_
  have hnew : ({some p} : Multiset Pointer) + frame =
      (⟨p, [], true, 10, 0, 30, true, none, none⟩ : ConfigBlock).blocks + frame := by
    simp [ConfigBlock.blocks]
  have herase : (⟨p, [], true, 10, 0, 30, true, none, none⟩ : ConfigBlock).erase = Config.new := rfl
  rw [hnew]
  refine (ConfigBlock.loadLines_accounted buffer.block buffer.text (by
    intro b hb
    cases hb) hbuffer).bind ?_
  rintro ⟨config, loopEnd⟩ ⟨held, noted'⟩ ⟨lost, n, hfinished, hwhole, -, rfl, hlost⟩
  have hfree : (lost + (config.bouncers.map BouncerBlock.blocks).sum).card =
      4 * config.erase.bouncers.length + n := by
    rw [Multiset.card_add, hlost, ConfigBlock.card_bouncers hwhole, Nat.add_comm]
  have hheld : (config.bouncers.map BouncerBlock.blocks).sum + (lost + frame) =
      0 + (lost + (config.bouncers.map BouncerBlock.blocks).sum + frame) := by
    abel
  cases hfinished with
  | done h =>
      rw [herase, ← Config.loadLines_eq] at h
      have hbuffer : Config.loadBuffer isValidHost buffer.text = (do
          let messages ← config.erase.sanityCheck isValidHost
          pure (if messages = [] then .ok config.erase else .error messages)) := by
        simp only [Config.loadBuffer, h]
      rw [show (ConfigBlock.LoopEnd.blocks (config, ConfigBlock.LoopEnd.done).2) = 0 from rfl,
        zero_add]
      refine (ConfigBlock.sanityCheck_accounted hwhole).bind ?_
      rintro messages _ ⟨hcheck, lists, hlists, rfl⟩
      rw [hcheck, Mem.ok_bind] at hbuffer
      have hframe : lists + (config.blocks + (lost + frame)) =
          config.blocks + (lists + lost + frame) := by
        abel
      rw [hframe]
      by_cases hnil : messages = []
      · rw [if_pos hnil] at hbuffer
        simp only [if_pos hnil]
        refine ⟨lists + lost, ?_, rfl⟩
        rw [hnil] at hcheck
        rw [Multiset.card_add, hlost, hlists, hwhole.addrinfos hcheck, Nat.add_comm]
        exact .ok hbuffer
      · rw [if_neg hnil] at hbuffer
        simp only [if_neg hnil]
        refine ConfigBlock.free_accounted
          ⟨lists + (lost + (config.bouncers.map BouncerBlock.blocks).sum), ?_, ?_⟩
        · rw [Multiset.card_add, hfree, hlists, Nat.add_comm]
          rw [Config.loadLines_eq] at h
          exact .insane hbuffer h
        · simp only [loadedBlocks]
          abel
  | @error _ done rest line c _ hlines hdone hbouncers h =>
      rw [herase, ← Config.loadLines_eq] at h
      have hbuffer : Config.loadBuffer isValidHost buffer.text =
          .ok (.error [.errorOnLine line.text]) := by
        simp only [Config.loadBuffer, h]
        rfl
      refine Accounted.access (by simp [ConfigBlock.LoopEnd.blocks]) (Accounted.free rfl ?_)
      refine ConfigBlock.free_accounted ⟨_, ?_, hheld⟩
      rw [hfree, ← hbouncers, ← Nat.add_assoc]
      exact .errorOnLine hbuffer hlines hdone
  | between hlines hdone =>
      refine Accounted.free rfl (ConfigBlock.free_accounted ⟨_, ?_, hheld⟩)
      rw [hfree]
      exact .shortOf hlines hdone
  | inLine hlines hdone hbouncers =>
      refine Accounted.free rfl (ConfigBlock.free_accounted ⟨_, ?_, hheld⟩)
      rw [hfree, ← hbouncers]
      exact .shortIn hlines hdone

/-- Runs that never access a null pointer are those that only use what is there. -/
theorem crash_of_careful {held : List Pointer} {t : List LibcEvent}
    (h : libcResources.Careful held t) (hheld : none ∉ held) :
    ∀ e ∈ t, LibcEvent.crash e = false := by
  intro e he
  obtain ⟨t₁, t₂, rfl⟩ := List.append_of_mem he
  rw [LibcEvent.crash, decide_eq_false_iff_not]
  intro huses
  rcases Ledger.mem_heldAfter (h t₁ e t₂ rfl none huses) with hmem | ⟨e', -, hmade⟩
  · exact hheld hmem
  · -- nothing makes a null pointer
    have hsome : ∀ e : LibcEvent, LibcEvent.made e ≠ some none := by
      rintro ⟨c, r⟩
      cases c <;> cases r <;> simp [LibcEvent.made]
    exact hsome e' hmade

/-- **The memory of a load**: in every run that accesses nothing through a null pointer, and only
in these, all that is used is there and nothing is given back twice. Then the result is that of the
loader without memory unless an allocation fails, and what stays in memory is the buffer, the config
and as many blocks made in the run that nothing points to any more as `Loaded` says. -/
theorem loadBufferIn_leaks {buffer : Str} {t : List LibcEvent} {r : Except LoadError ConfigBlock}
    (ht : Program.Trace (loadBufferIn isValidHost buffer) t (some r))
    (hfresh : libcResources.Fresh [some buffer.block] t) :
    (libcResources.Careful [some buffer.block] t ↔ ∀ e ∈ t, LibcEvent.crash e = false) ∧
      (libcResources.Careful [some buffer.block] t → ∃ lost : Multiset Pointer,
        Loaded isValidHost buffer.text r lost.card (t.any LibcEvent.short) ∧
        libcResources.heldAfter [some buffer.block] t =
          loadedBlocks r + (lost + {some buffer.block}) ∧
        ∀ p ∈ lost, p ≠ some buffer.block ∧ ∃ e ∈ t, libcResources.made e = some p) := by
  have hcrash (h : libcResources.Careful [some buffer.block] t) := crash_of_careful h (by simp)
  have haccount (h : ∀ e ∈ t, LibcEvent.crash e = false) :=
    Ledger.account_of_sim (P := fun e => LibcEvent.crash e = false)
      (loadBufferIn_accounted buffer (by simp)) ht h (List.nodup_singleton _) hfresh
  refine ⟨⟨hcrash, fun h => (haccount h).1⟩, fun h => ?_⟩
  obtain ⟨lost, hloaded, hafter⟩ := (haccount (hcrash h)).2 r rfl
  refine ⟨lost, hloaded, hafter, fun p hp => ?_⟩
  obtain ⟨hnot, hmade⟩ := Ledger.made_of_heldAfter (List.nodup_singleton _) hfresh hafter hp
  exact ⟨fun h => hnot (List.mem_singleton.mpr h), hmade⟩

end load

/-- A config text with one bouncer. -/
def servedText : Bytes := ascii "bouncer=127.0.0.1:2121 10.0.0.1:21"

/-- What is loaded from it. -/
def servedConfig : ConfigBlock :=
  ⟨3, [⟨some 5, some ⟨7, ascii "127.0.0.1"⟩, 2121, some ⟨8, ascii "10.0.0.1"⟩, 21,
    some ⟨9, ascii "127.0.0.1"⟩⟩], true, 10, 0, 30, true, none, none⟩

/-- A load of it, from a block of its own. -/
def servedBufferRun : List LibcEvent :=
  [⟨.calloc sizeofConfig, some 3⟩, ⟨.access (some 3), ()⟩, ⟨.access (some 2), ()⟩,
    ⟨.strndup servedText 34, some 4⟩, ⟨.access (some 4), ()⟩, ⟨.access (some 4), ()⟩,
    ⟨.calloc sizeofBouncer, some 5⟩, ⟨.access (some 5), ()⟩, ⟨.access (some 4), ()⟩,
    ⟨.strdup (ascii "127.0.0.1:2121 10.0.0.1:21"), some 6⟩, ⟨.access (some 6), ()⟩,
    ⟨.access (some 6), ()⟩, ⟨.strdup (ascii "127.0.0.1"), some 7⟩, ⟨.access (some 5), ()⟩,
    ⟨.access (some 6), ()⟩, ⟨.access (some 5), ()⟩, ⟨.access (some 6), ()⟩,
    ⟨.access (some 6), ()⟩, ⟨.strdup (ascii "10.0.0.1"), some 8⟩, ⟨.access (some 5), ()⟩,
    ⟨.access (some 6), ()⟩, ⟨.access (some 5), ()⟩, ⟨.access (some 6), ()⟩,
    ⟨.access (some 7), ()⟩, ⟨.strdup (ascii "127.0.0.1"), some 9⟩, ⟨.access (some 5), ()⟩,
    ⟨.free (some 6), ()⟩, ⟨.access (some 5), ()⟩, ⟨.access (some 3), ()⟩,
    ⟨.free (some 4), ()⟩, ⟨.access (some 2), ()⟩, ⟨.access (some 3), ()⟩,
    ⟨.access (some 5), ()⟩, ⟨.access (some 7), ()⟩, ⟨.access (some 8), ()⟩,
    ⟨.getaddrinfo (some (ascii "10.0.0.1")), (10 : ℕ)⟩, ⟨.access (some 10), ()⟩,
    ⟨.access (some 9), ()⟩]

theorem trace_servedBufferRun :
    Program.Trace (loadBufferIn numericHost ⟨2, servedText⟩) servedBufferRun
      (some (.ok servedConfig)) := by
  unfold servedBufferRun
  refine .call _ (.call _ ?_)
  unfold ConfigBlock.loadLines
  repeat refine .call _ ?_
  unfold ConfigBlock.loadLines
  repeat refine .call _ ?_
  exact .ret _

/-- One block is lost, the list of addresses of the host. -/
theorem loadBufferIn_leaks_served :
    ∃ lost : Multiset Pointer, Loaded numericHost servedText (.ok servedConfig) lost.card false ∧
      libcResources.heldAfter [some 2] servedBufferRun =
        servedConfig.blocks + (lost + {some 2}) ∧
      ∀ p ∈ lost, p ≠ some 2 ∧ ∃ e ∈ servedBufferRun, libcResources.made e = some p :=
  (loadBufferIn_leaks trace_servedBufferRun (by decide)).2 (by decide)

end Ebbnc
