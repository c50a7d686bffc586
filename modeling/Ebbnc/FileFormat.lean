import Ebbnc.ConfigLoad

/-!
# The config file by the book

What the loader makes of a file, said without its scanner and its dispatch over prefixes.

* `assignment` — the option and the value of a line; **`Config.loadLine_eq`** — the branches of the
  loader do what the option of the line calls for.
* `fileLines` — the lines of a file that are no comments; `Config.ofLines` — the config they stand
  for, each option having the value of its last line.
* **`Config.loadBuffer_byTheBook`** — the loader reports the first line that is no acceptable
  assignment and otherwise checks that config, whatever ends the lines and however those of
  different options are ordered.
-/

namespace Ebbnc

open Lib

/-! ## Options and their values -/

/-- The options of a config file. -/
inductive ConfigOption
  | bouncer
  | idnt
  | identTimeout
  | idleTimeout
  | writeTimeout
  | dnsLookup
  | pidFile
  | welcomeMsg
  deriving DecidableEq

namespace ConfigOption

/-- How an option is written.
Source: `ebbnc.conf` -/
def name : ConfigOption → Bytes
  | bouncer => ascii "bouncer"
  | idnt => ascii "idnt"
  | identTimeout => ascii "identtimeout"
  | idleTimeout => ascii "idletimeout"
  | writeTimeout => ascii "writetimeout"
  | dnsLookup => ascii "dnslookup"
  | pidFile => ascii "pidfile"
  | welcomeMsg => ascii "welcomemsg"

/-- All options, in the order the loader tries them. -/
def all : List ConfigOption :=
  [bouncer, idnt, identTimeout, idleTimeout, writeTimeout, dnsLookup, pidFile, welcomeMsg]

theorem mem_all (o : ConfigOption) : o ∈ all := by cases o <;> decide

/-- The option a name stands for, whatever case it is written in. -/
def ofName (key : Bytes) : Option ConfigOption := all.find? fun o => strcasecmpEq key o.name

/-- The value check of an option. -/
def accepts : ConfigOption → Bytes → Bool
  | bouncer, value => (Bouncer.parse value).isSome
  | idnt, value | dnsLookup, value => (parseBool value).isSome
  | identTimeout, value | idleTimeout, value | writeTimeout, value => (parseTimeout value).isSome
  | pidFile, _ | welcomeMsg, _ => true

/-- What an option does to a config; `none` when it does not accept the value. -/
def set (config : Config) : ConfigOption → Bytes → Option Config
  | bouncer, value => (Bouncer.parse value).map fun b =>
      { config with bouncers := b :: config.bouncers }
  | idnt, value => (parseBool value).map fun v => { config with idnt := v }
  | identTimeout, value => (parseTimeout value).map fun v => { config with identTimeout := v }
  | idleTimeout, value => (parseTimeout value).map fun v => { config with idleTimeout := v }
  | writeTimeout, value => (parseTimeout value).map fun v => { config with writeTimeout := v }
  | dnsLookup, value => (parseBool value).map fun v => { config with dnsLookup := v }
  | pidFile, value => some { config with pidFile := some value }
  | welcomeMsg, value => some { config with welcomeMsg := some value }

/-- A value sets its option exactly when it is accepted. -/
theorem isSome_set (config : Config) (o : ConfigOption) (value : Bytes) :
    (o.set config value).isSome = o.accepts value := by
  cases o <;> simp [set, accepts]

end ConfigOption

/-- The character between the name of an option and its value. -/
abbrev equals : UInt8 := 61

/-- What stands in front of the first `=` of a line. -/
def lineKey (line : Bytes) : Bytes := line.takeWhile (· != equals)

/-- What stands behind it. -/
def lineValue (line : Bytes) : Bytes := (line.dropWhile (· != equals)).drop 1

/-- The option of a line and its value, which is not empty. -/
def assignment (line : Bytes) : Option (ConfigOption × Bytes) :=
  if lineValue line = [] then none
  else (ConfigOption.ofName (lineKey line)).map fun o => (o, lineValue line)

/-! ## The prefix tests -/

/-- Only `=` itself is `=` in lower case. -/
theorem tolower_eq_equals {c : UInt8} : tolower c = equals ↔ c = equals := by
  revert c
  apply forall_byte
  decide +kernel

/-- The names of the options hold no `=`. -/
theorem ConfigOption.name_ne_equals (o : ConfigOption) : ∀ c ∈ o.name, c ≠ equals := by
  cases o <;> decide

/-- A line with an `=` is what stands in front of it and behind it. -/
theorem lineKey_append_lineValue {line : Bytes} (h : equals ∈ line) :
    line = lineKey line ++ equals :: lineValue line := by
  have hne : line.dropWhile (· != equals) ≠ [] := by
    intro hnil
    have hall := List.dropWhile_eq_nil_iff.mp hnil equals h
    simp at hall
  obtain ⟨c, rest, hcons⟩ := List.exists_cons_of_ne_nil hne
  have hhead := List.dropWhile_get_zero_not (· != equals) line (by simp [hcons])
  have hc : c = equals := by simpa [hcons] using hhead
  have hline := List.takeWhile_append_dropWhile (p := (· != equals)) (l := line)
  rw [hcons, hc] at hline
  rw [lineKey, lineValue, hcons, List.drop_succ_cons, List.drop_zero, hline]

theorem lineKey_ne_equals (line : Bytes) : ∀ c ∈ lineKey line, c ≠ equals := fun c hc => by
  simpa using List.mem_takeWhile_imp hc

/-- A line is split at its first `=`. -/
theorem lineKey_append {key : Bytes} (h : ∀ c ∈ key, c ≠ equals) (value : Bytes) :
    lineKey (key ++ equals :: value) = key ∧ lineValue (key ++ equals :: value) = value := by
  have hall : ∀ c ∈ key, (c != equals) = true := fun c hc => by simpa using h c hc
  constructor
  · rw [lineKey, List.takeWhile_append_of_pos hall]
    simp
  · rw [lineValue, List.dropWhile_append_of_pos hall]
    simp

/-- In lower case a text has no `=` either. -/
theorem equals_notMem_map_tolower {s : Bytes} (h : ∀ c ∈ s, c ≠ equals) :
    equals ∉ s.map tolower := by
  intro hmem
  obtain ⟨c, hc, heq⟩ := List.mem_map.mp hmem
  exact h c hc (tolower_eq_equals.mp heq)

/-- **The prefix test of the loader** compares the name of the option with what stands in front of
the first `=`. -/
theorem strncasecmpEq_iff (o : ConfigOption) (line : Bytes) :
    strncasecmpEq line (o.name ++ [equals]) (o.name.length + 1) = true ↔
      equals ∈ line ∧ strcasecmpEq (lineKey line) o.name = true := by
  have hname := equals_notMem_map_tolower o.name_ne_equals
  have hequals : tolower equals = equals := by decide
  have hfull : (o.name ++ [equals]).take (o.name.length + 1) = o.name ++ [equals] :=
    List.take_of_length_le (by simp)
  have hlength : o.name.length = (o.name.map tolower).length := by simp
  unfold strncasecmpEq strcasecmpEq
  rw [beq_iff_eq, beq_iff_eq, hfull, List.map_append, List.map_singleton, hequals, List.map_take,
    hlength]
  by_cases hmem : equals ∈ line
  · have hline : line.map tolower =
        (lineKey line).map tolower ++ equals :: (lineValue line).map tolower := by
      conv_lhs => rw [lineKey_append_lineValue hmem]
      rw [List.map_append, List.map_cons, hequals]
    have hkey := equals_notMem_map_tolower (lineKey_ne_equals line)
    rw [hline, take_succ_eq_iff hkey hname]
    exact (and_iff_right hmem).symm
  · have hfree : equals ∉ line.map tolower :=
      equals_notMem_map_tolower fun c hc heq => hmem (heq ▸ hc)
    constructor
    · intro h
      have htaken : equals ∈ (line.map tolower).take ((o.name.map tolower).length + 1) := by
        rw [h]
        simp
      exact absurd (List.mem_of_mem_take htaken) hfree
    · exact fun h => absurd h.1 hmem

/-- Behind a name that passes the test stands the value. -/
theorem drop_eq_lineValue {o : ConfigOption} {line : Bytes} (hmem : equals ∈ line)
    (hkey : strcasecmpEq (lineKey line) o.name = true) :
    line.drop (o.name.length + 1) = lineValue line := by
  have hlen : (lineKey line).length = o.name.length := by
    simp only [strcasecmpEq, beq_iff_eq] at hkey
    simpa using congrArg List.length hkey
  calc line.drop (o.name.length + 1)
      = (lineKey line ++ equals :: lineValue line).drop ((lineKey line).length + 1) := by
        rw [← lineKey_append_lineValue hmem, hlen]
    _ = lineValue line := by
        rw [List.drop_length_add_append, List.drop_succ_cons, List.drop_zero]

/-- A line with a value has its `=`. -/
theorem mem_of_lineValue_ne_nil {line : Bytes} (h : lineValue line ≠ []) : equals ∈ line := by
  by_contra hno
  have hnil : line.dropWhile (· != equals) = [] :=
    List.dropWhile_eq_nil_iff.mpr fun c hc => by
      simpa using fun heq : c = equals => hno (heq ▸ hc)
  exact h (by rw [lineValue, hnil, List.drop_nil])

/-- The test of an option that also looks at the length of the line. -/
theorem hasOption_iff (o : ConfigOption) (line : Bytes) :
    hasOption line (o.name ++ [equals]) = true ↔
      strcasecmpEq (lineKey line) o.name = true ∧ lineValue line ≠ [] := by
  rw [hasOption, Bool.and_eq_true, decide_eq_true_eq, List.length_append, List.length_singleton,
    strncasecmpEq_iff]
  constructor
  · rintro ⟨⟨hmem, hkey⟩, hlen⟩
    rw [← drop_eq_lineValue hmem hkey]
    exact ⟨hkey, by simpa using hlen⟩
  · rintro ⟨hkey, hne⟩
    have hmem := mem_of_lineValue_ne_nil hne
    refine ⟨⟨hmem, hkey⟩, ?_⟩
    rw [← drop_eq_lineValue hmem hkey] at hne
    simpa using hne

/-- A line without a value sets nothing. The branch of `idnt` has no test of the length, but an
empty value is no truth value either. -/
theorem Config.loadLine_of_nil (config : Config) {line : Bytes} (h : lineValue line = []) :
    config.loadLine line = none := by
  have htest : ∀ o : ConfigOption, ¬ hasOption line (o.name ++ [equals]) = true := by
    intro o ho
    exact ((hasOption_iff o line).mp ho).2 h
  have hidnt : strncasecmpEq line (ascii "idnt=") 5 = true → line.drop 5 = [] := by
    intro ho
    obtain ⟨hmem, hkey⟩ := (strncasecmpEq_iff .idnt line).mp ho
    rw [show line.drop 5 = _ from drop_eq_lineValue hmem hkey, h]
  unfold Config.loadLine
  rw [if_neg (show ¬ hasOption line (ascii "bouncer=") = true from htest .bouncer)]
  split_ifs with h2 h3 h4 h5 h6 h7 h8
  · rw [hidnt h2]
    rfl
  · exact absurd h3 (htest .identTimeout)
  · exact absurd h4 (htest .idleTimeout)
  · exact absurd h5 (htest .writeTimeout)
  · exact absurd h6 (htest .dnsLookup)
  · exact absurd h7 (htest .pidFile)
  · exact absurd h8 (htest .welcomeMsg)
  · rfl

/-- A line with a value sets the option its name is of. -/
theorem Config.loadLine_of_ne_nil (config : Config) {line : Bytes} (h : lineValue line ≠ []) :
    config.loadLine line =
      (ConfigOption.ofName (lineKey line)).bind fun o => o.set config (lineValue line) := by
  have hmem := mem_of_lineValue_ne_nil h
  have htest : ∀ o : ConfigOption,
      hasOption line (o.name ++ [equals]) = strcasecmpEq (lineKey line) o.name := by
    intro o
    rw [Bool.eq_iff_iff, hasOption_iff]
    exact and_iff_left h
  have hidnt : strncasecmpEq line (ascii "idnt=") 5 =
      strcasecmpEq (lineKey line) ConfigOption.idnt.name := by
    rw [Bool.eq_iff_iff]
    exact (strncasecmpEq_iff .idnt line).trans (and_iff_right hmem)
  have hdrop : ∀ o : ConfigOption, strcasecmpEq (lineKey line) o.name = true →
      line.drop (o.name.length + 1) = lineValue line := fun o => drop_eq_lineValue hmem
  unfold Config.loadLine ConfigOption.ofName ConfigOption.all
  rw [show hasOption line (ascii "bouncer=") = _ from htest .bouncer, hidnt,
    show hasOption line (ascii "identtimeout=") = _ from htest .identTimeout,
    show hasOption line (ascii "idletimeout=") = _ from htest .idleTimeout,
    show hasOption line (ascii "writetimeout=") = _ from htest .writeTimeout,
    show hasOption line (ascii "dnslookup=") = _ from htest .dnsLookup,
    show hasOption line (ascii "pidfile=") = _ from htest .pidFile,
    show hasOption line (ascii "welcomemsg=") = _ from htest .welcomeMsg]
  simp only [List.find?_cons, List.find?_nil]
  -- the branches are tried in the order of the options
  split_ifs with h1 h2 h3 h4 h5 h6 h7 h8
  · rw [show line.drop 8 = _ from hdrop .bouncer h1, h1]
    rfl
  · rw [show line.drop 5 = _ from hdrop .idnt h2]
    simp only [h1, h2]
    rfl
  · rw [show line.drop 13 = _ from hdrop .identTimeout h3]
    simp only [h1, h2, h3]
    rfl
  · rw [show line.drop 12 = _ from hdrop .idleTimeout h4]
    simp only [h1, h2, h3, h4]
    rfl
  · rw [show line.drop 13 = _ from hdrop .writeTimeout h5]
    simp only [h1, h2, h3, h4, h5]
    rfl
  · rw [show line.drop 10 = _ from hdrop .dnsLookup h6]
    simp only [h1, h2, h3, h4, h5, h6]
    rfl
  · rw [show line.drop 8 = _ from hdrop .pidFile h7]
    simp only [h1, h2, h3, h4, h5, h6, h7]
    rfl
  · rw [show line.drop 11 = _ from hdrop .welcomeMsg h8]
    simp only [h1, h2, h3, h4, h5, h6, h7, h8]
    rfl
  · simp only [h1, h2, h3, h4, h5, h6, h7, h8]
    rfl

/-- **One line does what its option calls for.** -/
theorem Config.loadLine_eq (config : Config) (line : Bytes) :
    config.loadLine line = (assignment line).bind fun a => a.1.set config a.2 := by
  unfold assignment
  by_cases hvalue : lineValue line = []
  · rw [if_pos hvalue, Option.bind_none, config.loadLine_of_nil hvalue]
  · rw [if_neg hvalue, config.loadLine_of_ne_nil hvalue, Option.bind_map]
    rfl

/-! ## Acceptable lines -/

/-- An acceptable line: the name of an option in any case, `=`, and a non-empty value the option's
own check accepts. -/
def Acceptable (line : Bytes) : Prop :=
  ∃ (o : ConfigOption) (key value : Bytes), line = key ++ equals :: value ∧
    strcasecmpEq key o.name = true ∧ value ≠ [] ∧ o.accepts value = true

/-- No two options have the same name. -/
theorem ConfigOption.ofName_eq_some {key : Bytes} {o : ConfigOption} :
    ConfigOption.ofName key = some o ↔ strcasecmpEq key o.name = true := by
  have hnames : ∀ o ∈ all, ∀ o' ∈ all, o.name.map tolower = o'.name.map tolower → o = o' := by
    decide
  constructor
  · intro h
    exact List.find?_some (p := fun o : ConfigOption => strcasecmpEq key o.name) h
  · intro h
    obtain ⟨o', ho'⟩ := Option.isSome_iff_exists.mp
      (List.find?_isSome (p := fun o : ConfigOption => strcasecmpEq key o.name).mpr
        ⟨o, mem_all o, h⟩)
    have hkey : strcasecmpEq key o'.name = true :=
      List.find?_some (p := fun o : ConfigOption => strcasecmpEq key o.name) ho'
    simp only [strcasecmpEq, beq_iff_eq] at h hkey
    rw [ConfigOption.ofName, ho', hnames o' (mem_all o') o (mem_all o) (hkey.symm.trans h)]

/-- What `assignment` takes a line apart into. -/
theorem assignment_eq_some {line value : Bytes} {o : ConfigOption} :
    assignment line = some (o, value) ↔
      ∃ key, line = key ++ equals :: value ∧ strcasecmpEq key o.name = true ∧ value ≠ [] := by
  unfold assignment
  constructor
  · intro h
    split_ifs at h with hvalue
    obtain ⟨o', ho', heq⟩ := Option.map_eq_some_iff.mp h
    obtain ⟨rfl, rfl⟩ := Prod.mk.inj heq
    exact ⟨lineKey line, lineKey_append_lineValue (mem_of_lineValue_ne_nil hvalue),
      ConfigOption.ofName_eq_some.mp ho', hvalue⟩
  · rintro ⟨key, rfl, hkey, hne⟩
    have hfree : ∀ c ∈ key, c ≠ equals := by
      intro c hc heq
      have hmem : tolower c ∈ o.name.map tolower := by
        simp only [strcasecmpEq, beq_iff_eq] at hkey
        rw [← hkey]
        exact List.mem_map_of_mem hc
      obtain ⟨d, hd, hlower⟩ := List.mem_map.mp hmem
      rw [tolower_eq_equals.mpr heq] at hlower
      exact o.name_ne_equals d hd (tolower_eq_equals.mp hlower)
    obtain ⟨hlineKey, hlineValue⟩ := lineKey_append hfree value
    rw [hlineKey, hlineValue, if_neg hne, ConfigOption.ofName_eq_some.mpr hkey]
    rfl

/-- The name of an option, `=` and a value set the option. -/
theorem Config.loadLine_assign (config : Config) (o : ConfigOption) {value : Bytes}
    (hne : value ≠ []) : config.loadLine (o.name ++ equals :: value) = o.set config value := by
  have hassign : assignment (o.name ++ equals :: value) = some (o, value) :=
    assignment_eq_some.mpr ⟨o.name, rfl, by simp [strcasecmpEq], hne⟩
  rw [Config.loadLine_eq, hassign, Option.bind_some]

/-- Such a line is no comment. -/
theorem ConfigOption.head?_name_append (o : ConfigOption) (value : Bytes) :
    (o.name ++ value).head? ≠ some hash := by
  have hnames : ∀ o ∈ all, o.name ≠ [] ∧ o.name.head? ≠ some hash := by decide
  obtain ⟨hne, hhash⟩ := hnames o (mem_all o)
  rwa [List.head?_append_of_ne_nil _ hne]

/-- Acceptable lines are those the loader takes apart and whose value is accepted. -/
theorem acceptable_iff {line : Bytes} :
    Acceptable line ↔ ∃ o value, assignment line = some (o, value) ∧ o.accepts value = true := by
  simp only [assignment_eq_some]
  constructor
  · rintro ⟨o, key, value, hline, hkey, hne, haccepts⟩
    exact ⟨o, value, ⟨key, hline, hkey, hne⟩, haccepts⟩
  · rintro ⟨o, value, ⟨key, hline, hkey, hne⟩, haccepts⟩
    exact ⟨o, key, value, hline, hkey, hne, haccepts⟩

/-- Either all lines are acceptable or there is a first one that is not. -/
theorem acceptable_or_first (lines : List Bytes) :
    (∀ l ∈ lines, Acceptable l) ∨ ∃ before line rest, lines = before ++ line :: rest ∧
      (∀ l ∈ before, Acceptable l) ∧ ¬ Acceptable line := by
  induction lines with
  | nil => exact Or.inl (by simp)
  | cons l lines ih =>
      by_cases hl : Acceptable l
      · rcases ih with hall | ⟨before, line, rest, rfl, hbefore, hline⟩
        · exact Or.inl (by simpa using ⟨hl, hall⟩)
        · exact Or.inr ⟨l :: before, line, rest, rfl, by simpa using ⟨hl, hbefore⟩, hline⟩
      · exact Or.inr ⟨[], l, lines, rfl, by simp, hl⟩

/-! ## The config a file stands for -/

/-- The lines of a file, comments left out. -/
def fileLines (buffer : Bytes) : List Bytes :=
  (textLines buffer).filter fun line => line.head? != some hash

/-- The values given to an option, in the order of the lines. -/
def valuesOf (o : ConfigOption) (lines : List Bytes) : List Bytes :=
  lines.filterMap fun line => ((assignment line).filter fun a => a.1 = o).map Prod.snd

/-- Each scalar option has the value of its last line, or that of a new config; the bouncers are
those of the bouncer lines, the last one first. -/
def Config.ofLines (lines : List Bytes) : Config where
  idnt := ((valuesOf .idnt lines).getLast?.bind parseBool).getD Config.new.idnt
  identTimeout :=
    ((valuesOf .identTimeout lines).getLast?.bind parseTimeout).getD Config.new.identTimeout
  idleTimeout :=
    ((valuesOf .idleTimeout lines).getLast?.bind parseTimeout).getD Config.new.idleTimeout
  writeTimeout :=
    ((valuesOf .writeTimeout lines).getLast?.bind parseTimeout).getD Config.new.writeTimeout
  dnsLookup := ((valuesOf .dnsLookup lines).getLast?.bind parseBool).getD Config.new.dnsLookup
  pidFile := (valuesOf .pidFile lines).getLast?.or Config.new.pidFile
  welcomeMsg := (valuesOf .welcomeMsg lines).getLast?.or Config.new.welcomeMsg
  bouncers := ((valuesOf .bouncer lines).filterMap Bouncer.parse).reverse

/-- One more line adds its value to those of its option. -/
theorem valuesOf_concat {line value : Bytes} {o : ConfigOption}
    (h : assignment line = some (o, value)) (o' : ConfigOption) (lines : List Bytes) :
    valuesOf o' (lines ++ [line]) = valuesOf o' lines ++ if o = o' then [value] else [] := by
  unfold valuesOf
  rw [List.filterMap_append]
  by_cases heq : o = o' <;> simp [h, heq]

/-- One more acceptable line sets its option. -/
theorem ConfigOption.set_ofLines {line value : Bytes} {o : ConfigOption}
    (h : assignment line = some (o, value)) (haccepts : o.accepts value = true)
    (lines : List Bytes) :
    o.set (Config.ofLines lines) value = some (Config.ofLines (lines ++ [line])) := by
  cases o with
  | pidFile => simp [ConfigOption.set, Config.ofLines, valuesOf_concat h]
  | welcomeMsg => simp [ConfigOption.set, Config.ofLines, valuesOf_concat h]
  | _ =>
      -- the values that are parsed
      obtain ⟨v, hv⟩ := Option.isSome_iff_exists.mp haccepts
      simp [ConfigOption.set, Config.ofLines, valuesOf_concat h, hv]

/-- An acceptable line takes the config of the lines before it to that of the lines with it. -/
theorem Config.loadLine_ofLines {line : Bytes} (h : Acceptable line) (lines : List Bytes) :
    (Config.ofLines lines).loadLine line = some (Config.ofLines (lines ++ [line])) := by
  obtain ⟨o, value, hassign, haccepts⟩ := acceptable_iff.mp h
  rw [Config.loadLine_eq, hassign, Option.bind_some, ConfigOption.set_ofLines hassign haccepts]

/-- Any other line is an error. -/
theorem Config.loadLine_of_not_acceptable {line : Bytes} (h : ¬ Acceptable line)
    (config : Config) : config.loadLine line = none := by
  rw [Config.loadLine_eq, Option.bind_eq_none_iff]
  rintro ⟨o, value⟩ hassign
  rw [← Option.not_isSome_iff_eq_none, ConfigOption.isSome_set]
  exact fun haccepts => h (acceptable_iff.mpr ⟨o, value, hassign, haccepts⟩)

/-! ## The run over the lines -/

/-- Comments are skipped. -/
theorem Config.loadAll_filter (config : Config) (lines : List Bytes) :
    config.loadAll lines = config.loadAll (lines.filter fun line => line.head? != some hash) := by
  induction lines generalizing config with
  | nil => rfl
  | cons line rest ih =>
      by_cases hcomment : line.head? = some hash
      · rw [List.filter_cons_of_neg (by simpa using hcomment), Config.loadAll, if_pos hcomment, ih]
      · rw [List.filter_cons_of_pos (by simpa using hcomment), Config.loadAll, if_neg hcomment,
          Config.loadAll, if_neg hcomment]
        cases config.loadLine line with
        | none => rfl
        | some config => exact ih config

/-- Acceptable lines that are no comments take the config of the lines before them to that of all
the lines, whatever follows. -/
theorem Config.loadAll_append {lines : List Bytes}
    (h : ∀ line ∈ lines, line.head? ≠ some hash ∧ Acceptable line) (before rest : List Bytes) :
    (Config.ofLines before).loadAll (lines ++ rest) =
      (Config.ofLines (before ++ lines)).loadAll rest := by
  induction lines generalizing before with
  | nil => rw [List.nil_append, List.append_nil]
  | cons line lines ih =>
      obtain ⟨hcomment, hacceptable⟩ := h line List.mem_cons_self
      rw [List.cons_append, Config.loadAll, if_neg hcomment,
        Config.loadLine_ofLines hacceptable]
      simp only
      rw [ih (fun l hl => h l (List.mem_cons_of_mem _ hl)), List.append_assoc,
        List.singleton_append]

/-- No line is a comment any more. -/
theorem head?_ne_of_mem_fileLines {buffer line : Bytes} (h : line ∈ fileLines buffer) :
    line.head? ≠ some hash := by
  simpa using (List.mem_filter.mp h).2

theorem Config.ofLines_nil : Config.ofLines [] = Config.new := rfl

/-- A file of acceptable lines stands for their config. -/
theorem Config.loadLines_of_acceptable {buffer : Bytes}
    (h : ∀ line ∈ fileLines buffer, Acceptable line) :
    Config.new.loadLines buffer = .ok (Config.ofLines (fileLines buffer)) := by
  have hlines : ∀ line ∈ fileLines buffer, line.head? ≠ some hash ∧ Acceptable line :=
    fun line hline => ⟨head?_ne_of_mem_fileLines hline, h line hline⟩
  have happend := Config.loadAll_append hlines [] []
  rw [Config.loadLines_eq, Config.loadAll_filter, ← Config.ofLines_nil]
  rwa [List.append_nil, List.nil_append, Config.loadAll] at happend

/-- The first line that is not acceptable is the one reported. -/
theorem Config.loadLines_of_first {buffer line : Bytes} {before rest : List Bytes}
    (hlines : fileLines buffer = before ++ line :: rest)
    (hbefore : ∀ l ∈ before, Acceptable l) (hline : ¬ Acceptable line) :
    Config.new.loadLines buffer = .error line := by
  have hmem : ∀ l ∈ before ++ line :: rest, l.head? ≠ some hash := fun l hl =>
    head?_ne_of_mem_fileLines (hlines ▸ hl)
  have happend := Config.loadAll_append
    (fun l hl => ⟨hmem l (List.mem_append_left _ hl), hbefore l hl⟩) [] (line :: rest)
  rw [Config.loadLines_eq, Config.loadAll_filter,
    show (textLines buffer).filter _ = _ from hlines, ← Config.ofLines_nil, happend,
    Config.loadAll, if_neg (hmem line (by simp)), Config.loadLine_of_not_acceptable hline]

/-! ## Line ends and the order of the lines -/

/-- A text of lines with what ends them: any number of line feeds and carriage returns after each
line but the last, which need not be ended. -/
structure EndedLines where
  ended : List (Bytes × Bytes)
  last : Bytes
  oneLine : ∀ l ∈ ended, OneLine l.1 ∧ l.2 ≠ [] ∧ ∀ c ∈ l.2, isEOL c = true
  oneLine_last : OneLine last

/-- The text itself. -/
def EndedLines.text (ls : EndedLines) : Bytes :=
  ls.ended.flatMap (fun l => l.1 ++ l.2) ++ ls.last

/-- The same lines, each ended by a line feed. -/
def EndedLines.unixText (ls : EndedLines) : Bytes :=
  (ls.ended.map Prod.fst ++ [ls.last]).flatMap (· ++ [10])

/-- What ends the lines does not matter to the lines of the text. -/
theorem EndedLines.textLines_text (ls : EndedLines) :
    textLines ls.text = textLines ls.unixText := by
  have hunix : ls.unixText =
      ((ls.ended.map Prod.fst ++ [ls.last]).map fun l => (l, [(10 : UInt8)])).flatMap
        (fun l => l.1 ++ l.2) ++ [] := by
    rw [List.append_nil, List.flatMap_map]
    rfl
  have hone : ∀ l ∈ ls.ended.map Prod.fst ++ [ls.last], OneLine l := by
    intro l hl
    rcases List.mem_append.mp hl with hl | hl
    · obtain ⟨ended, hended, rfl⟩ := List.mem_map.mp hl
      exact (ls.oneLine ended hended).1
    · rw [List.mem_singleton.mp hl]
      exact ls.oneLine_last
  have hfeed : ∀ l ∈ (ls.ended.map Prod.fst ++ [ls.last]).map fun l => (l, [(10 : UInt8)]),
      (∀ c ∈ l.1, isEOL c = false) ∧ l.2 ≠ [] ∧ ∀ c ∈ l.2, isEOL c = true := by
    intro l hl
    obtain ⟨r, hr, rfl⟩ := List.mem_map.mp hl
    refine ⟨hone r hr, by simp, fun c hc => ?_⟩
    rw [List.mem_singleton.mp hc]
    rfl
  rw [textLines, EndedLines.text, runs_flatMap_seps ls.ended ls.oneLine ls.oneLine_last, hunix,
    textLines, runs_flatMap_seps _ hfeed (by simp)]
  simp [List.map_map, Function.comp_def, List.filter_cons]

/-- Is a line of an option. -/
def isLineOf (o : ConfigOption) (line : Bytes) : Bool :=
  (assignment line).any fun a => a.1 = o

/-- The same lines in an order in which only lines of different options have changed places. -/
def Reordered (lines lines' : List Bytes) : Prop :=
  lines.Perm lines' ∧ ∀ o, lines.filter (isLineOf o) = lines'.filter (isLineOf o)

/-- The values given to an option are those on its own lines. -/
theorem valuesOf_filter (o : ConfigOption) (lines : List Bytes) :
    valuesOf o (lines.filter (isLineOf o)) = valuesOf o lines := by
  unfold valuesOf
  rw [List.filterMap_filter]
  congr 1
  funext line
  unfold isLineOf
  cases assignment line with
  | none => simp
  | some a => by_cases ha : a.1 = o <;> simp [ha]

/-- Such lines stand for the same config. -/
theorem Reordered.ofLines {lines lines' : List Bytes} (h : Reordered lines lines') :
    Config.ofLines lines = Config.ofLines lines' := by
  have hvalues : ∀ o, valuesOf o lines = valuesOf o lines' := by
    intro o
    rw [← valuesOf_filter, h.2 o, valuesOf_filter]
  simp only [Config.ofLines, hvalues]

/-! ## The loader -/

/-- What is to be made of the lines of a file. -/
structure Config.ByTheBook (isValidHost : Option Bytes → Bool) (lines : List Bytes)
    (result : Except (List Message) Config) : Prop where
  /-- The first line that is no acceptable assignment is reported as it stands, and there is no
  config. -/
  rejects : ∀ before line rest, lines = before ++ line :: rest → (∀ l ∈ before, Acceptable l) →
    ¬ Acceptable line → result = .error [.errorOnLine line]
  /-- When all are acceptable, their config is returned exactly when it is sane. -/
  checks : (∀ l ∈ lines, Acceptable l) → ∃ messages,
    (Config.ofLines lines).sanityCheck isValidHost = .ok messages ∧
      result = if messages = [] then .ok (Config.ofLines lines) else .error messages

section load

variable (isValidHost : Option Bytes → Bool)

/-- The loader sees nothing of a text but its lines. -/
theorem Config.loadBuffer_congr {buffer buffer' : Bytes}
    (h : textLines buffer = textLines buffer') :
    Config.loadBuffer isValidHost buffer = Config.loadBuffer isValidHost buffer' := by
  unfold Config.loadBuffer
  rw [Config.loadLines_eq, Config.loadLines_eq, h]

/-- The loader comes to a result, and it is the one by the book. -/
theorem Config.loadBuffer_total (buffer : Bytes) :
    ∃ result, Config.loadBuffer isValidHost buffer = .ok result ∧
      Config.ByTheBook isValidHost (fileLines buffer) result := by
  obtain ⟨result, hresult, -⟩ := Config.loadBuffer_spec isValidHost buffer
  refine ⟨result, hresult, ⟨fun before line rest hlines hbefore hline => ?_, fun hall => ?_⟩⟩
  · rw [Config.loadBuffer, Config.loadLines_of_first hlines hbefore hline] at hresult
    exact (Except.ok.inj hresult).symm
  · rw [Config.loadBuffer, Config.loadLines_of_acceptable hall] at hresult
    rcases hcheck : (Config.ofLines (fileLines buffer)).sanityCheck isValidHost with
      fault | messages
    · simp [hcheck] at hresult
    · simp only [hcheck, Mem.ok_bind] at hresult
      exact ⟨messages, rfl, (Except.ok.inj hresult).symm⟩

variable {isValidHost}

/-- A loaded config is that of the lines, which are all acceptable. -/
theorem Config.ofLines_of_loadBuffer {buffer : Bytes} {config : Config}
    (h : Config.loadBuffer isValidHost buffer = .ok (.ok config)) :
    (∀ line ∈ fileLines buffer, Acceptable line) ∧ config = Config.ofLines (fileLines buffer) := by
  obtain ⟨result, hresult, hbook⟩ := Config.loadBuffer_total isValidHost buffer
  obtain rfl : result = .ok config := Except.ok.inj (hresult.symm.trans h)
  rcases acceptable_or_first (fileLines buffer) with hall | ⟨before, line, rest, hlines, hbad⟩
  · obtain ⟨messages, -, hconfig⟩ := hbook.checks hall
    refine ⟨hall, ?_⟩
    split_ifs at hconfig
    exact Except.ok.inj hconfig
  · cases hbook.rejects before line rest hlines hbad.1 hbad.2

/-- A config that is returned for a file is returned for the lines in another order, too. -/
theorem Config.loadBuffer_of_reordered {buffer buffer' : Bytes} {config : Config}
    (h : Reordered (fileLines buffer) (fileLines buffer'))
    (hload : Config.loadBuffer isValidHost buffer = .ok (.ok config)) :
    Config.loadBuffer isValidHost buffer' = .ok (.ok config) := by
  obtain ⟨hall, rfl⟩ := Config.ofLines_of_loadBuffer hload
  obtain ⟨-, hchecked⟩ := Config.loadBuffer_eq_ok.mp hload
  have hall' : ∀ line ∈ fileLines buffer', Acceptable line := fun line hline =>
    hall line (h.1.mem_iff.mpr hline)
  rw [Config.loadBuffer_eq_ok, ← Config.loadLines_eq, Config.loadLines_of_acceptable hall',
    h.ofLines]
  rw [h.ofLines] at hchecked
  exact ⟨rfl, hchecked⟩

theorem Reordered.symm {lines lines' : List Bytes} (h : Reordered lines lines') :
    Reordered lines' lines := ⟨h.1.symm, fun o => (h.2 o).symm⟩

variable (isValidHost)

/-- **The loader goes by the book**, whatever the text. What is printed and returned does not
depend on what ends the lines, and what is returned does not depend on the order of lines of
different options. -/
theorem Config.loadBuffer_byTheBook :
    (∀ buffer, ∃ result, Config.loadBuffer isValidHost buffer = .ok result ∧
      Config.ByTheBook isValidHost (fileLines buffer) result) ∧
    (∀ ls : EndedLines, Config.loadBuffer isValidHost ls.text =
      Config.loadBuffer isValidHost ls.unixText) ∧
    ∀ buffer buffer', Reordered (fileLines buffer) (fileLines buffer') → ∀ config,
      (Config.loadBuffer isValidHost buffer = .ok (.ok config) ↔
        Config.loadBuffer isValidHost buffer' = .ok (.ok config)) := by
  refine ⟨Config.loadBuffer_total isValidHost, fun ls => ?_, fun buffer buffer' h config => ?_⟩
  · exact Config.loadBuffer_congr isValidHost ls.textLines_text
  · exact ⟨Config.loadBuffer_of_reordered h, Config.loadBuffer_of_reordered h.symm⟩

end load

end Ebbnc
