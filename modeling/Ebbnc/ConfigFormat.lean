import Ebbnc.FileFormat

/-!
# The config format: what is printed is read back

* `Config.saveLines` — the lines the printer writes; `Config.textLines_saveBuffer` — the loader
  sees exactly these when no text of the config holds a line terminator.
* `Bouncer.parse_print` — a printed bouncer is read back narrowed (`Bouncer.reread`);
  **`Config.loadAll_saveLines`** — and so is a printed config.
* **`Config.loadBuffer_saveBuffer`** — saving and loading gives the config with its bouncers
  reversed, so doing it twice is the identity.
-/

namespace Ebbnc

open Lib

/-! ## The printed lines -/

/-- The lines of a printed config, without their terminators. -/
def Config.saveLines (config : Config) : List Bytes :=
  [ascii "idnt=" ++ printBool config.idnt,
    ascii "identtimeout=" ++ printInt config.identTimeout,
    ascii "idletimeout=" ++ printInt config.idleTimeout,
    ascii "writetimeout=" ++ printInt config.writeTimeout,
    ascii "dnslookup=" ++ printBool config.dnsLookup] ++
  config.pidFile.toList.map (ascii "pidfile=" ++ ·) ++
  config.welcomeMsg.toList.map (ascii "welcomemsg=" ++ ·) ++
  config.bouncers.map Bouncer.print

/-- The printer writes its lines, a line feed after each. -/
theorem Config.saveBuffer_eq (config : Config) :
    config.saveBuffer = config.saveLines.flatMap (· ++ [10]) := by
  have heol : ascii "\n" = [10] := by decide
  have hfold : ∀ (bs : List Bouncer) (buffer : Bytes),
      bs.foldl (fun buffer b => strCatPrintf (some buffer) (b.print ++ ascii "\n")) buffer =
        buffer ++ (bs.map Bouncer.print).flatMap (· ++ [10]) := by
    intro bs
    induction bs with
    | nil => simp
    | cons b bs ih =>
        intro buffer
        rw [List.foldl_cons, ih]
        simp [strCatPrintf, heol]
  unfold Config.saveBuffer Config.saveLines
  rw [hfold]
  rcases config.pidFile with _ | pidFile <;> rcases config.welcomeMsg with _ | welcomeMsg <;>
    simp [strCatPrintf, heol]

theorem oneLine_printInt (v : ℤ) : OneLine (printInt v) := by
  intro c hc
  have hchar : c = 45 ∨ isdigit c = true := by
    rcases List.mem_append.mp hc with h | h
    · split_ifs at h
      · exact Or.inl (List.mem_singleton.mp h)
      · cases h
    · exact Or.inr (mem_decimal h).1
  rcases hchar with rfl | hdigit
  · decide
  · have hrange : 48 ≤ c ∧ c ≤ 57 := by simpa [isdigit] using hdigit
    simp only [UInt8.le_iff_toNat_le] at hrange
    have h48 : (48 : UInt8).toNat = 48 := rfl
    simp only [isEOL, Bool.or_eq_false_iff, beq_eq_false_iff_ne, ne_eq]
    constructor <;> rintro rfl <;> exact absurd hrange.1 (by decide)

theorem oneLine_printBool (b : Bool) : OneLine (printBool b) := by
  cases b <;> unfold OneLine <;> decide

theorem Bouncer.OneLine.print {b : Bouncer} (h : b.OneLine) : Ebbnc.OneLine b.print := by
  have hkey : Ebbnc.OneLine (ascii "bouncer=") := by unfold Ebbnc.OneLine; decide
  have hcolon : Ebbnc.OneLine (ascii ":") := by unfold Ebbnc.OneLine; decide
  have hblank : Ebbnc.OneLine (ascii " ") := by unfold Ebbnc.OneLine; decide
  simp only [Bouncer.print, oneLine_append]
  exact ⟨⟨⟨⟨⟨⟨⟨⟨⟨hkey, h.listenIP⟩, hcolon⟩, oneLine_printInt _⟩, hblank⟩, h.remoteHost⟩, hcolon⟩,
    oneLine_printInt _⟩, hblank⟩, h.localIP⟩

/-- **The loader sees the printed lines** of a config whose texts hold no line terminator. -/
theorem Config.textLines_saveBuffer {config : Config} (h : config.OneLine) :
    textLines config.saveBuffer = config.saveLines := by
  have hlines : ∀ line ∈ config.saveLines,
      line ≠ [] ∧ ∀ c ∈ line, isEOL c = false := by
    intro line hline
    have hkey : ∀ k ∈ [ascii "idnt=", ascii "identtimeout=", ascii "idletimeout=",
        ascii "writetimeout=", ascii "dnslookup=", ascii "pidfile=", ascii "welcomemsg="],
        k ≠ [] ∧ ∀ c ∈ k, isEOL c = false := by decide
    simp only [List.mem_cons, List.not_mem_nil, or_false, forall_eq_or_imp, forall_eq] at hkey
    obtain ⟨k1, k2, k3, k4, k5, k6, k7⟩ := hkey
    have happ : ∀ {k v : Bytes}, (k ≠ [] ∧ ∀ c ∈ k, isEOL c = false) → Ebbnc.OneLine v →
        k ++ v ≠ [] ∧ ∀ c ∈ k ++ v, isEOL c = false := fun hk hv =>
      ⟨by simp [hk.1], oneLine_append.mpr ⟨hk.2, hv⟩⟩
    simp only [Config.saveLines, List.mem_append, List.mem_cons, List.not_mem_nil, or_false,
      List.mem_map, Option.mem_toList] at hline
    rcases hline with (((rfl | rfl | rfl | rfl | rfl) | ⟨s, hs, rfl⟩) | ⟨s, hs, rfl⟩) |
      ⟨b, hb, rfl⟩
    · exact happ k1 (oneLine_printBool _)
    · exact happ k2 (oneLine_printInt _)
    · exact happ k3 (oneLine_printInt _)
    · exact happ k4 (oneLine_printInt _)
    · exact happ k5 (oneLine_printBool _)
    · exact happ k6 (h.pidFile s hs)
    · exact happ k7 (h.welcomeMsg s hs)
    · refine ⟨?_, (h.bouncers b hb).print⟩
      have hne : ascii "bouncer=" ≠ [] := by decide
      simp [Bouncer.print, hne]
  have hruns := runs_flatMap_append (show isEOL 10 = true by decide) config.saveLines [] hlines
  rwa [List.append_nil, runs_nil, List.append_nil, ← Config.saveBuffer_eq] at hruns

/-! ## One printed bouncer -/

/-- A bouncer the printer writes in a form the loader can take apart: its ports pass their check,
and no text is empty or holds the separator that ends it. -/
structure Bouncer.Printable (b : Bouncer) : Prop where
  listenIP : ∃ ip, b.listenIP = some ip ∧ ip ≠ [] ∧ ∀ c ∈ ip, c ≠ colon
  listenPort : isValidPort b.listenPort = true
  remoteHost : ∃ host, b.remoteHost = some host ∧ host ≠ [] ∧ ∀ c ∈ host, c ≠ colon
  remotePort : isValidPort b.remotePort = true
  localIP : printString b.localIP ≠ [] ∧ ∀ c ∈ printString b.localIP, c ≠ blank

/-- The bouncer that is read back: ports were printed as `int`s, a null local ip as a text. -/
def Bouncer.reread (b : Bouncer) : Bouncer :=
  { b with
    listenPort := toInt b.listenPort
    remotePort := toInt b.remotePort
    localIP := some (printString b.localIP) }

theorem printInt_ne_nil (v : ℤ) : printInt v ≠ [] := by
  simp [printInt, decimal_ne_nil]

/-- A printed port holds no blank. -/
theorem printInt_ne_blank (v : ℤ) : ∀ c ∈ printInt v, c ≠ blank := by
  intro c hc
  rcases List.mem_append.mp hc with h | h
  · split_ifs at h
    · rw [List.mem_singleton.mp h]
      decide
    · cases h
  · rintro rfl
    exact absurd (mem_decimal h).1 (by decide)

/-- A port that passes its check is read back as the `int` it was printed as. -/
theorem scanInteger_port {port : ℤ} (h : isValidPort port = true) :
    scanInteger (printInt (toInt port)) = some (toInt port, []) := by
  obtain ⟨hlo, hhi⟩ := isValidPort_iff.mp h
  exact scanInteger_printInt hlo (by unfold longMax; omega)

/-- **A printed bouncer is read back narrowed.** -/
theorem Bouncer.parse_print {b : Bouncer} (h : b.Printable) :
    Bouncer.parse (b.print.drop 8) = some b.reread := by
  obtain ⟨ip, hip, hipne, hipfree⟩ := h.listenIP
  obtain ⟨host, hhost, hhostne, hhostfree⟩ := h.remoteHost
  have htext : b.print.drop 8 =
      ip ++ colon :: (printInt (toInt b.listenPort) ++ blank :: (host ++ colon ::
        (printInt (toInt b.remotePort) ++ blank :: printString b.localIP))) := by
    have hkey : (ascii "bouncer=").length = 8 := by decide
    have hcolon : ascii ":" = [colon] := by decide
    have hblank : ascii " " = [blank] := by decide
    have hprint : b.print = ascii "bouncer=" ++ (ip ++ colon :: (printInt (toInt b.listenPort) ++
        blank :: (host ++ colon :: (printInt (toInt b.remotePort) ++
          blank :: printString b.localIP)))) := by
      simp [Bouncer.print, hip, hhost, hcolon, hblank, printString]
    rw [hprint, List.drop_left' hkey]
  rw [htext, Bouncer.parse]
  simp only [strtok_append hipne hipfree,
    strtok_append (printInt_ne_nil _) (printInt_ne_blank _), strtok_append hhostne hhostfree,
    strtok_of_forall h.localIP.1 h.localIP.2, scanInteger_port h.listenPort,
    scanInteger_port h.remotePort, strtok_nil, Option.bind_eq_bind, Option.bind_some,
    Option.isSome_none, Bool.false_eq_true, if_false]
  simp [Bouncer.reread, hip, hhost]

/-! ## Loading what was printed -/

/-- A line that is read hands the config on to the next. -/
theorem Config.loadAll_cons {config config' : Config} {line : Bytes} {rest : List Bytes}
    (hcomment : line.head? ≠ some hash) (hload : config.loadLine line = some config') :
    config.loadAll (line :: rest) = config'.loadAll rest := by
  rw [Config.loadAll, if_neg hcomment, hload]

/-- A printed timeout is read back. -/
theorem parseTimeout_printInt {v : ℤ} (hlo : 0 ≤ v) (hhi : v < 2 ^ 31) :
    parseTimeout (printInt v) = some v := by
  have hstrtol := strtol_printInt hlo (by unfold longMax; omega)
  have hint : strToInt (printInt v) = some v := by
    unfold strToInt strToLong
    rw [hstrtol]
    exact congrArg some (toInt_of_mem (by omega) hhi)
  rw [parseTimeout, hint, Option.filter_some, if_pos (by simpa using hlo)]

section lines

variable (config : Config)

/-- A line that sets an option hands the config on to the next. -/
theorem Config.loadAll_assign {config' : Config} (o : ConfigOption) {value : Bytes}
    {rest : List Bytes} (hne : value ≠ []) (hset : o.set config value = some config') :
    config.loadAll ((o.name ++ equals :: value) :: rest) = config'.loadAll rest :=
  Config.loadAll_cons (o.head?_name_append _) ((config.loadLine_assign o hne).trans hset)

theorem printBool_ne_nil (value : Bool) : printBool value ≠ [] := by
  cases value <;> decide

theorem ConfigOption.set_idnt (value : Bool) :
    ConfigOption.idnt.set config (printBool value) = some { config with idnt := value } := by
  cases value <;> rfl

theorem ConfigOption.set_dnsLookup (value : Bool) :
    ConfigOption.dnsLookup.set config (printBool value) =
      some { config with dnsLookup := value } := by
  cases value <;> rfl

/-- The line of a pid file that is not null sets it. -/
theorem Config.loadAll_pidFile {value : Option Bytes} {rest : List Bytes}
    (hnull : config.pidFile = none) (h : ∀ s ∈ value, s ≠ []) :
    config.loadAll (value.toList.map (ascii "pidfile=" ++ ·) ++ rest) =
      { config with pidFile := value }.loadAll rest := by
  cases value with
  | none =>
      have hsame : { config with pidFile := none } = config := by rw [← hnull]
      rw [hsame]
      rfl
  | some s => exact config.loadAll_assign .pidFile (h s rfl) rfl

/-- The line of a welcome message that is not null sets it. -/
theorem Config.loadAll_welcomeMsg {value : Option Bytes} {rest : List Bytes}
    (hnull : config.welcomeMsg = none) (h : ∀ s ∈ value, s ≠ []) :
    config.loadAll (value.toList.map (ascii "welcomemsg=" ++ ·) ++ rest) =
      { config with welcomeMsg := value }.loadAll rest := by
  cases value with
  | none =>
      have hsame : { config with welcomeMsg := none } = config := by rw [← hnull]
      rw [hsame]
      rfl
  | some s => exact config.loadAll_assign .welcomeMsg (h s rfl) rfl

/-- The printed bouncers are put in front of the list one after the other. -/
theorem Config.loadAll_bouncers (bs : List Bouncer) (h : ∀ b ∈ bs, b.Printable) :
    config.loadAll (bs.map Bouncer.print) =
      .ok { config with bouncers := (bs.map Bouncer.reread).reverse ++ config.bouncers } := by
  induction bs generalizing config with
  | nil => rfl
  | cons b bs ih =>
      have hprint := Bouncer.parse_print (h b List.mem_cons_self)
      have hset : ConfigOption.bouncer.set config (b.print.drop 8) =
          some { config with bouncers := b.reread :: config.bouncers } := by
        rw [ConfigOption.set, hprint, Option.map_some]
      have hne : b.print.drop 8 ≠ [] := by
        intro hnil
        rw [hnil] at hprint
        cases hprint
      have hline : b.print = ConfigOption.bouncer.name ++ equals :: b.print.drop 8 := rfl
      rw [List.map_cons, hline, config.loadAll_assign .bouncer hne hset,
        ih _ fun b' hb' => h b' (List.mem_cons_of_mem _ hb')]
      simp

end lines

/-- A config the loader can take apart again once it is printed. -/
structure Config.Printable (config : Config) : Prop where
  identTimeout : 0 ≤ config.identTimeout ∧ config.identTimeout < 2 ^ 31
  idleTimeout : 0 ≤ config.idleTimeout ∧ config.idleTimeout < 2 ^ 31
  writeTimeout : 0 ≤ config.writeTimeout ∧ config.writeTimeout < 2 ^ 31
  pidFile : ∀ s ∈ config.pidFile, s ≠ []
  welcomeMsg : ∀ s ∈ config.welcomeMsg, s ≠ []
  bouncers : ∀ b ∈ config.bouncers, b.Printable

/-- The config that is read back: its bouncers narrowed, and in reverse order. -/
def Config.reread (config : Config) : Config :=
  { config with bouncers := (config.bouncers.map Bouncer.reread).reverse }

/-- **The printed lines are read back.** -/
theorem Config.loadAll_saveLines {config : Config} (h : config.Printable) :
    Config.new.loadAll config.saveLines = .ok config.reread := by
  have htimeout : ∀ {v : ℤ}, 0 ≤ v ∧ v < 2 ^ 31 → parseTimeout (printInt v) = some v :=
    fun hv => parseTimeout_printInt hv.1 hv.2
  have hlines : config.saveLines =
      (ConfigOption.idnt.name ++ equals :: printBool config.idnt) ::
      (ConfigOption.identTimeout.name ++ equals :: printInt config.identTimeout) ::
      (ConfigOption.idleTimeout.name ++ equals :: printInt config.idleTimeout) ::
      (ConfigOption.writeTimeout.name ++ equals :: printInt config.writeTimeout) ::
      (ConfigOption.dnsLookup.name ++ equals :: printBool config.dnsLookup) ::
      (config.pidFile.toList.map (ascii "pidfile=" ++ ·) ++
        (config.welcomeMsg.toList.map (ascii "welcomemsg=" ++ ·) ++
          config.bouncers.map Bouncer.print)) := by
    simp only [Config.saveLines, List.cons_append, List.append_assoc, List.nil_append]
    rfl
  rw [hlines,
    Config.loadAll_assign _ .idnt (printBool_ne_nil _) (ConfigOption.set_idnt _ _),
    Config.loadAll_assign _ .identTimeout (printInt_ne_nil _)
      (congrArg (Option.map _) (htimeout h.identTimeout)),
    Config.loadAll_assign _ .idleTimeout (printInt_ne_nil _)
      (congrArg (Option.map _) (htimeout h.idleTimeout)),
    Config.loadAll_assign _ .writeTimeout (printInt_ne_nil _)
      (congrArg (Option.map _) (htimeout h.writeTimeout)),
    Config.loadAll_assign _ .dnsLookup (printBool_ne_nil _) (ConfigOption.set_dnsLookup _ _)]
  rw [Config.loadAll_pidFile _ rfl h.pidFile, Config.loadAll_welcomeMsg _ rfl h.welcomeMsg,
    Config.loadAll_bouncers _ _ h.bouncers]
  simp [Config.reread, Config.new, Options.new]

/-! ## The round trip -/

section roundTrip

variable (isValidHost : Option Bytes → Bool)

/-- The bouncers the format can carry. -/
structure Bouncer.Saveable (b : Bouncer) : Prop where
  listenIP : ∃ ip, b.listenIP = some ip ∧ isValidIP ip = true ∧ ∀ c ∈ ip, c ≠ colon ∧ c ≠ blank
  listenPort : 0 ≤ b.listenPort ∧ b.listenPort ≤ 65535
  remoteHost : ∃ host, b.remoteHost = some host ∧ host ≠ [] ∧ isValidHost (some host) = true ∧
    ∀ c ∈ host, c ≠ 0 ∧ c ≠ colon ∧ c ≠ blank ∧ c ≠ 13 ∧ c ≠ 10
  remotePort : 0 ≤ b.remotePort ∧ b.remotePort ≤ 65535
  localIP : ∃ ip, b.localIP = some ip ∧ isValidIP ip = true ∧ ∀ c ∈ ip, c ≠ blank

/-- The configs the format can carry. -/
structure Config.Saveable (config : Config) : Prop where
  identTimeout : 0 ≤ config.identTimeout ∧ config.identTimeout < 2 ^ 31
  idleTimeout : 0 ≤ config.idleTimeout ∧ config.idleTimeout < 2 ^ 31
  writeTimeout : 0 ≤ config.writeTimeout ∧ config.writeTimeout < 2 ^ 31
  pidFile : ∀ s ∈ config.pidFile, s ≠ [] ∧ ∀ c ∈ s, c ≠ 0 ∧ c ≠ 13 ∧ c ≠ 10
  welcomeMsg : ∀ s ∈ config.welcomeMsg, s ≠ [] ∧ ∀ c ∈ s, c ≠ 0 ∧ c ≠ 13 ∧ c ≠ 10
  bouncers_ne_nil : config.bouncers ≠ []
  bouncers : ∀ b ∈ config.bouncers, b.Saveable isValidHost

variable {isValidHost}

theorem oneLine_of_ne {s : Bytes} (h : ∀ c ∈ s, c ≠ 13 ∧ c ≠ 10) : OneLine s := by
  intro c hc
  simp [isEOL, (h c hc).1, (h c hc).2]

/-- An accepted address is a line. -/
theorem oneLine_of_isValidIP {ip : Bytes} (h : isValidIP ip = true) : OneLine ip :=
  oneLine_of_ne fun c hc => by
    have hchar := isValidIP_chars h c hc
    constructor <;> rintro rfl <;> exact absurd hchar (by decide)

/-- A port number is a port that passes its check and is left alone by narrowing. -/
theorem isValidPort_of_range {port : ℤ} (h : 0 ≤ port ∧ port ≤ 65535) :
    isValidPort port = true ∧ toInt port = port := by
  have hint : toInt port = port := toInt_of_mem (by omega) (by omega)
  exact ⟨isValidPort_iff.mpr (by rwa [hint]), hint⟩

/-- Such a bouncer is printed in a readable form, on one line, passes the checks, and is read back
as it is. -/
theorem Bouncer.Saveable.spec {b : Bouncer} (h : b.Saveable isValidHost) :
    b.Printable ∧ b.OneLine ∧ b.reread = b ∧ b.Checked isValidHost := by
  obtain ⟨listenIP, hlisten, hlistenValid, hlistenFree⟩ := h.listenIP
  obtain ⟨host, hhost, hhostne, hhostValid, hhostFree⟩ := h.remoteHost
  obtain ⟨localIP, hlocal, hlocalValid, hlocalFree⟩ := h.localIP
  obtain ⟨hlp, hlpInt⟩ := isValidPort_of_range h.listenPort
  obtain ⟨hrp, hrpInt⟩ := isValidPort_of_range h.remotePort
  refine ⟨⟨⟨listenIP, hlisten, isValidIP_ne_nil hlistenValid, fun c hc => (hlistenFree c hc).1⟩,
    hlp, ⟨host, hhost, hhostne, fun c hc => (hhostFree c hc).2.1⟩, hrp, ?_⟩, ⟨?_, ?_, ?_⟩, ?_,
    ⟨⟨listenIP, hlisten, hlistenValid⟩, hlp, ⟨by simp [hhost], by rw [hhost, hhostValid]⟩, hrp,
      ⟨localIP, hlocal, hlocalValid⟩⟩⟩
  · rw [hlocal]
    exact ⟨isValidIP_ne_nil hlocalValid, hlocalFree⟩
  · rw [hlisten]
    exact oneLine_of_isValidIP hlistenValid
  · rw [hhost]
    exact oneLine_of_ne fun c hc => (hhostFree c hc).2.2.2
  · rw [hlocal]
    exact oneLine_of_isValidIP hlocalValid
  · rw [Bouncer.reread, hlpInt, hrpInt, hlocal, printString, Option.getD_some, ← hlocal]

theorem Config.Saveable.printable {config : Config} (h : config.Saveable isValidHost) :
    config.Printable where
  identTimeout := h.identTimeout
  idleTimeout := h.idleTimeout
  writeTimeout := h.writeTimeout
  pidFile := fun s hs => (h.pidFile s hs).1
  welcomeMsg := fun s hs => (h.welcomeMsg s hs).1
  bouncers := fun b hb => (h.bouncers b hb).spec.1

theorem Config.Saveable.oneLine {config : Config} (h : config.Saveable isValidHost) :
    config.OneLine where
  pidFile := fun s hs => oneLine_of_ne fun c hc => ((h.pidFile s hs).2 c hc).2
  welcomeMsg := fun s hs => oneLine_of_ne fun c hc => ((h.welcomeMsg s hs).2 c hc).2
  bouncers := fun b hb => (h.bouncers b hb).spec.2.1

/-- Reversing the bouncers keeps a config one the format can carry. -/
theorem Config.Saveable.reverse {config : Config} (h : config.Saveable isValidHost) :
    Config.Saveable isValidHost { config with bouncers := config.bouncers.reverse } :=
  { h with
    bouncers_ne_nil := by simpa using h.bouncers_ne_nil
    bouncers := fun b hb => h.bouncers b (List.mem_reverse.mp hb) }

/-- Reading back reverses the bouncers and changes nothing else. -/
theorem Config.Saveable.reread {config : Config} (h : config.Saveable isValidHost) :
    config.reread = { config with bouncers := config.bouncers.reverse } := by
  have hmap : config.bouncers.map Bouncer.reread = config.bouncers :=
    (List.map_congr_left fun b hb => (h.bouncers b hb).spec.2.2.1).trans (List.map_id _)
  rw [Config.reread, hmap]

/-- One round: the config with its bouncers reversed. -/
theorem Config.Saveable.load_save {config : Config} (h : config.Saveable isValidHost) :
    Config.loadBuffer isValidHost config.saveBuffer =
      .ok (.ok { config with bouncers := config.bouncers.reverse }) := by
  rw [Config.loadBuffer_eq_ok, Config.textLines_saveBuffer h.oneLine,
    Config.loadAll_saveLines h.printable, h.reread]
  exact ⟨rfl, by simpa using h.bouncers_ne_nil, fun b hb =>
    (h.bouncers b (List.mem_reverse.mp hb)).spec.2.2.2⟩

/-- **Saving and loading** a config the format can carry succeeds and gives it back with its
bouncers reversed; saving and loading twice is the identity. -/
theorem Config.loadBuffer_saveBuffer {config : Config} (h : config.Saveable isValidHost) :
    Config.loadBuffer isValidHost config.saveBuffer =
        .ok (.ok { config with bouncers := config.bouncers.reverse }) ∧
      Config.loadBuffer isValidHost
          (Config.saveBuffer { config with bouncers := config.bouncers.reverse }) =
        .ok (.ok config) := by
  refine ⟨h.load_save, ?_⟩
  rw [h.reverse.load_save]
  simp

end roundTrip

/-- Two bouncers, one bound to an IPv6 address, and a welcome message that looks like a bouncer. -/
def sampleConfig : Config where
  idnt := false
  identTimeout := 10
  idleTimeout := 0
  writeTimeout := 30
  dnsLookup := true
  pidFile := none
  welcomeMsg := some (ascii "bouncer=1.2.3.4:5")
  bouncers := [⟨some (ascii "0.0.0.0"), 21, some (ascii "10.0.0.1"), 2121, some (ascii "::1")⟩,
    ⟨some (ascii "127.0.0.1"), 0, some (ascii "10.0.0.2"), 65535, some (ascii "1.2.3.4")⟩]

theorem sampleConfig_saveable : sampleConfig.Saveable numericHost := by
  refine ⟨by decide, by decide, by decide, by decide, by decide, by decide, ?_⟩
  intro b hb
  simp only [sampleConfig, List.mem_cons, List.not_mem_nil, or_false] at hb
  rcases hb with rfl | rfl
  · exact ⟨⟨_, rfl, by decide, by decide⟩, by decide, ⟨_, rfl, by decide, by decide, by decide⟩,
      by decide, ⟨_, rfl, by decide, by decide⟩⟩
  · exact ⟨⟨_, rfl, by decide, by decide⟩, by decide, ⟨_, rfl, by decide, by decide, by decide⟩,
      by decide, ⟨_, rfl, by decide, by decide⟩⟩

/-- The round trip of the sample. -/
theorem loadBuffer_saveBuffer_sampleConfig :
    Config.loadBuffer numericHost sampleConfig.saveBuffer =
        .ok (.ok { sampleConfig with bouncers := sampleConfig.bouncers.reverse }) ∧
      Config.loadBuffer numericHost
          (Config.saveBuffer { sampleConfig with bouncers := sampleConfig.bouncers.reverse }) =
        .ok (.ok sampleConfig) :=
  Config.loadBuffer_saveBuffer sampleConfig_saveable

end Ebbnc
