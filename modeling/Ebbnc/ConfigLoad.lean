import Ebbnc.Config

/-!
# The config loader: what is accepted

* `Config.Loads` — everything one line can do to a config, and `Config.loadAll_induction`, the
  induction over the lines.
* `Bouncer.parse_eq_some` — what a bouncer definition that is read consists of.
* **`Config.loadBuffer_spec`** — the loader faults on no text, and accepts exactly those whose lines
  are all read and whose config passes the checks.
* **`Config.valid_iff_portsFit`** — a loaded config is valid exactly when the numbers written as
  ports fit in an `int`.
-/

namespace Ebbnc

open Lib

/-! ## Lines -/

/-- Holds no line terminator. -/
def OneLine (s : Bytes) : Prop := ∀ c ∈ s, isEOL c = false

theorem oneLine_append {s t : Bytes} : OneLine (s ++ t) ↔ OneLine s ∧ OneLine t := by
  simp only [OneLine, List.mem_append, or_imp, forall_and]

/-- The texts of a bouncer hold no line terminator. -/
structure Bouncer.OneLine (b : Bouncer) : Prop where
  listenIP : Ebbnc.OneLine (printString b.listenIP)
  remoteHost : Ebbnc.OneLine (printString b.remoteHost)
  localIP : Ebbnc.OneLine (printString b.localIP)

/-- The texts of a config hold no line terminator. -/
structure Config.OneLine (config : Config) : Prop where
  pidFile : ∀ s ∈ config.pidFile, Ebbnc.OneLine s
  welcomeMsg : ∀ s ∈ config.welcomeMsg, Ebbnc.OneLine s
  bouncers : ∀ b ∈ config.bouncers, b.OneLine

/-! ## What one line can do -/

/-- Everything a line that is no error does to a config. -/
inductive Config.Loads (config : Config) (line : Bytes) : Config → Prop
  | bouncer {b : Bouncer} (hopt : hasOption line (ascii "bouncer=") = true)
      (hparse : Bouncer.parse (line.drop 8) = some b) :
      config.Loads line { config with bouncers := b :: config.bouncers }
  | idnt (value : Bool) : config.Loads line { config with idnt := value }
  | identTimeout {value : ℤ} (hvalue : parseTimeout (line.drop 13) = some value) :
      config.Loads line { config with identTimeout := value }
  | idleTimeout {value : ℤ} (hvalue : parseTimeout (line.drop 12) = some value) :
      config.Loads line { config with idleTimeout := value }
  | writeTimeout {value : ℤ} (hvalue : parseTimeout (line.drop 13) = some value) :
      config.Loads line { config with writeTimeout := value }
  | dnsLookup (value : Bool) : config.Loads line { config with dnsLookup := value }
  | pidFile (hne : line.drop 8 ≠ []) :
      config.Loads line { config with pidFile := some (line.drop 8) }
  | welcomeMsg (hne : line.drop 11 ≠ []) :
      config.Loads line { config with welcomeMsg := some (line.drop 11) }

theorem drop_ne_nil_of_hasOption {line option : Bytes} (h : hasOption line option = true) :
    line.drop option.length ≠ [] := by
  rw [hasOption, Bool.and_eq_true, decide_eq_true_eq] at h
  rw [ne_eq, List.drop_eq_nil_iff]
  omega

/-- A line that is no bouncer definition leaves the bouncers alone. -/
theorem Config.loadLine_cases {config config' : Config} {line : Bytes}
    (h : config.loadLine line = some config') :
    config.Loads line config' ∧
      (hasOption line (ascii "bouncer=") = false → config'.bouncers = config.bouncers) := by
  unfold Config.loadLine at h
  by_cases hb : hasOption line (ascii "bouncer=") = true
  · rw [if_pos hb] at h
    obtain ⟨b, hparse, rfl⟩ := Option.map_eq_some_iff.mp h
    exact ⟨.bouncer hb hparse, fun hfalse => absurd hb (by simp [hfalse])⟩
  rw [if_neg hb] at h
  -- each of the other branches sets one field
  split_ifs at h with h1 h2 h3 h4 h5 h6 h7
  · obtain ⟨value, -, rfl⟩ := Option.map_eq_some_iff.mp h
    exact ⟨.idnt value, fun _ => rfl⟩
  · obtain ⟨value, hv, rfl⟩ := Option.map_eq_some_iff.mp h
    exact ⟨.identTimeout hv, fun _ => rfl⟩
  · obtain ⟨value, hv, rfl⟩ := Option.map_eq_some_iff.mp h
    exact ⟨.idleTimeout hv, fun _ => rfl⟩
  · obtain ⟨value, hv, rfl⟩ := Option.map_eq_some_iff.mp h
    exact ⟨.writeTimeout hv, fun _ => rfl⟩
  · obtain ⟨value, -, rfl⟩ := Option.map_eq_some_iff.mp h
    exact ⟨.dnsLookup value, fun _ => rfl⟩
  · obtain rfl := Option.some.inj h
    exact ⟨.pidFile (drop_ne_nil_of_hasOption h6), fun _ => rfl⟩
  · obtain rfl := Option.some.inj h
    exact ⟨.welcomeMsg (drop_ne_nil_of_hasOption h7), fun _ => rfl⟩

/-- **The induction over the lines**: what every line that is read preserves holds at the end. -/
theorem Config.loadAll_induction {P : Config → Prop} {lines : List Bytes}
    (hstep : ∀ line ∈ lines, ∀ config config', P config → config.Loads line config' → P config')
    {config result : Config} (hinit : P config) (h : config.loadAll lines = .ok result) :
    P result := by
  induction lines generalizing config with
  | nil =>
      cases h
      exact hinit
  | cons line rest ih =>
      have hrest : ∀ l ∈ rest, ∀ c c', P c → c.Loads l c' → P c' := fun l hl =>
        hstep l (List.mem_cons_of_mem _ hl)
      rw [Config.loadAll] at h
      split_ifs at h with hcomment
      · exact ih hrest hinit h
      · split at h
        · cases h
        · next config' hload =>
            exact ih hrest
              (hstep line List.mem_cons_self _ _ hinit (Config.loadLine_cases hload).1) h

/-! ## The loaded options -/

/-- A timeout that is read is a non-negative `int`. -/
theorem parseTimeout_range {value : Bytes} {v : ℤ} (h : parseTimeout value = some v) :
    0 ≤ v ∧ v < 2 ^ 31 := by
  obtain ⟨hint, hnonneg⟩ := Option.filter_eq_some_iff.mp h
  unfold strToInt at hint
  split_ifs at hint
  obtain rfl := Option.some.inj hint
  exact ⟨by simpa using hnonneg, (toInt_mem _).2⟩

/-- What holds of the options of every loaded config: timeouts are non-negative `int`s and texts
are lines. -/
structure Config.Lines (config : Config) : Prop where
  identTimeout : 0 ≤ config.identTimeout ∧ config.identTimeout < 2 ^ 31
  idleTimeout : 0 ≤ config.idleTimeout ∧ config.idleTimeout < 2 ^ 31
  writeTimeout : 0 ≤ config.writeTimeout ∧ config.writeTimeout < 2 ^ 31
  pidFile : ∀ s ∈ config.pidFile, s ≠ [] ∧ Ebbnc.OneLine s
  welcomeMsg : ∀ s ∈ config.welcomeMsg, s ≠ [] ∧ Ebbnc.OneLine s
  bouncers : ∀ b ∈ config.bouncers, b.NonNull ∧ b.OneLine

/-! ## One bouncer definition -/

/-- The texts read as ports of a bouncer definition.
Source: `config.c` `Bouncer_parse`, the arguments of `sscanf` -/
def Bouncer.portTexts (s : Bytes) : List Bytes :=
  let (_, saved) := strtok colon s
  let (listenPort, saved) := strtok blank saved
  let (_, saved) := strtok colon saved
  let (remotePort, _) := strtok blank saved
  listenPort.toList ++ remotePort.toList

/-- What a definition that is read consists of. -/
theorem Bouncer.parse_eq_some {s : Bytes} {b : Bouncer} (h : Bouncer.parse s = some b) :
    (∃ listenPort remotePort, Bouncer.portTexts s = [listenPort, remotePort] ∧
      (∃ rest, scanInteger listenPort = some (b.listenPort, rest)) ∧
      ∃ rest, scanInteger remotePort = some (b.remotePort, rest)) ∧
    ∃ listenIP remoteHost localIP, b.listenIP = some listenIP ∧ b.remoteHost = some remoteHost ∧
      b.localIP = some localIP ∧ (∀ c ∈ listenIP, c ∈ s) ∧ (∀ c ∈ remoteHost, c ∈ s) ∧
      ∀ c ∈ localIP, c ∈ s := by
  simp only [Bouncer.parse, Option.bind_eq_bind, Option.bind_eq_some_iff] at h
  obtain ⟨ip, h1, listenPort, h2, ⟨v, rest⟩, hv, host, h3, remotePort, h4, ⟨w, rest'⟩, hw, h⟩ := h
  obtain ⟨-, hip, hs1⟩ := strtok_eq_some (Prod.ext h1 rfl)
  obtain ⟨-, -, hs2⟩ := strtok_eq_some (Prod.ext h2 rfl)
  obtain ⟨-, hhost, hs3⟩ := strtok_eq_some (Prod.ext h3 rfl)
  obtain ⟨-, -, hs4⟩ := strtok_eq_some (Prod.ext h4 rfl)
  have hsub2 : ∀ c ∈ _, c ∈ s := fun c hc => hs1 c (hs2 c hc)
  have htexts : Bouncer.portTexts s = [listenPort, remotePort] := by
    simp [Bouncer.portTexts, h2, h4]
  refine ⟨⟨listenPort, remotePort, htexts, ?_⟩, ip, host, ?_⟩
  · split at h
    · split_ifs at h
      obtain rfl := Option.some.inj h
      exact ⟨⟨rest, hv⟩, rest', hw⟩
    · obtain rfl := Option.some.inj h
      exact ⟨⟨rest, hv⟩, rest', hw⟩
  · split at h
    · next loc h5 =>
        obtain ⟨-, hloc, -⟩ := strtok_eq_some (Prod.ext h5 rfl)
        split_ifs at h
        obtain rfl := Option.some.inj h
        exact ⟨loc, rfl, rfl, rfl, fun c hc => (hip c hc).2, fun c hc => hsub2 c (hhost c hc).2,
          fun c hc => hsub2 c (hs3 c (hs4 c (hloc c hc).2))⟩
    · obtain rfl := Option.some.inj h
      exact ⟨ip, rfl, rfl, rfl, fun c hc => (hip c hc).2, fun c hc => hsub2 c (hhost c hc).2,
        fun c hc => (hip c hc).2⟩

/-! ## The loaded config -/

theorem OneLine.drop {line : Bytes} (h : Ebbnc.OneLine line) (n : ℕ) :
    Ebbnc.OneLine (line.drop n) := fun c hc => h c (List.mem_of_mem_drop hc)

/-- A bouncer read from a line has its strings, and they are parts of the line. -/
theorem Bouncer.lines_of_parse {s : Bytes} {b : Bouncer} (hs : Ebbnc.OneLine s)
    (h : Bouncer.parse s = some b) : b.NonNull ∧ b.OneLine := by
  obtain ⟨-, ip, host, loc, hip, hhost, hloc, mip, mhost, mloc⟩ := Bouncer.parse_eq_some h
  refine ⟨⟨by simp [hip], by simp [hhost], by simp [hloc]⟩, ⟨?_, ?_, ?_⟩⟩
  · rw [hip]
    exact fun c hc => hs c (mip c hc)
  · rw [hhost]
    exact fun c hc => hs c (mhost c hc)
  · rw [hloc]
    exact fun c hc => hs c (mloc c hc)

/-- One line keeps what holds of the options of loaded configs. -/
theorem Config.Lines.loads {config config' : Config} {line : Bytes} (h : config.Lines)
    (hline : Ebbnc.OneLine line) (hloads : config.Loads line config') : config'.Lines := by
  cases hloads with
  | bouncer hopt hparse =>
      refine { h with bouncers := fun b hb => ?_ }
      rcases List.mem_cons.mp hb with rfl | hb
      · exact Bouncer.lines_of_parse (hline.drop 8) hparse
      · exact h.bouncers b hb
  | idnt value => exact { h with }
  | identTimeout hvalue => exact { h with identTimeout := parseTimeout_range hvalue }
  | idleTimeout hvalue => exact { h with idleTimeout := parseTimeout_range hvalue }
  | writeTimeout hvalue => exact { h with writeTimeout := parseTimeout_range hvalue }
  | dnsLookup value => exact { h with }
  | pidFile hne =>
      refine { h with pidFile := ?_ }
      rintro s ⟨⟩
      exact ⟨hne, hline.drop 8⟩
  | welcomeMsg hne =>
      refine { h with welcomeMsg := ?_ }
      rintro s ⟨⟩
      exact ⟨hne, hline.drop 11⟩

/-- The lines of a text, applied to a new config, leave such a config. -/
theorem Config.lines_of_loadAll {buffer : Bytes} {config : Config}
    (h : Config.new.loadAll (textLines buffer) = .ok config) : config.Lines := by
  refine Config.loadAll_induction (P := Config.Lines) ?_ ?_ h
  · intro line hline c c' hc hloads
    exact hc.loads (fun a ha => ((mem_runs hline).2 a ha).1) hloads
  · refine ⟨by decide, by decide, by decide, ?_, ?_, ?_⟩ <;> intro x hx <;> cases hx

section load

variable {isValidHost : Option Bytes → Bool}

/-- **The loader never faults**, and it accepts a text exactly when every line is read and the
checks pass. -/
theorem Config.loadBuffer_spec (isValidHost : Option Bytes → Bool) (buffer : Bytes) :
    ∃ result, Config.loadBuffer isValidHost buffer = .ok result ∧
      ∀ config, result = .ok config ↔ Config.new.loadAll (textLines buffer) = .ok config ∧
        config.bouncers ≠ [] ∧ ∀ b ∈ config.bouncers, b.Checked isValidHost := by
  unfold Config.loadBuffer
  rw [Config.loadLines_eq]
  rcases hload : Config.new.loadAll (textLines buffer) with line | loaded
  · exact ⟨_, rfl, by simp⟩
  · obtain ⟨messages, hcheck, hiff⟩ := Config.sanityCheck_of_nonNull isValidHost
      fun b hb => ((Config.lines_of_loadAll hload).bouncers b hb).1
    refine ⟨if messages = [] then .ok loaded else .error messages, ?_, fun config => ?_⟩
    · simp only [hcheck, Mem.ok_bind]
      rfl
    · rw [Except.ok.injEq]
      by_cases hnil : messages = []
      · rw [if_pos hnil, Except.ok.injEq]
        exact ⟨fun h => ⟨h, h ▸ hiff.mp hnil⟩, fun h => h.1⟩
      · rw [if_neg hnil]
        refine ⟨nofun, fun h => ?_⟩
        obtain ⟨rfl, hchecked⟩ := h
        exact absurd (hiff.mpr hchecked) hnil

/-- When the loader returns a config. -/
theorem Config.loadBuffer_eq_ok {buffer : Bytes} {config : Config} :
    Config.loadBuffer isValidHost buffer = .ok (.ok config) ↔
      Config.new.loadAll (textLines buffer) = .ok config ∧
        config.bouncers ≠ [] ∧ ∀ b ∈ config.bouncers, b.Checked isValidHost := by
  obtain ⟨result, hresult, hiff⟩ := Config.loadBuffer_spec isValidHost buffer
  rw [hresult, Except.ok.injEq, hiff]

end load

/-! ## Loaded configs are valid -/

/-- The bouncer definitions of a text: what follows `bouncer=` on its lines that are no
comments. -/
def definitions (lines : List Bytes) : List Bytes :=
  (lines.filter fun line => line.head? != some hash && hasOption line (ascii "bouncer=")).map
    (·.drop 8)

/-- The loaded bouncers are those of the definitions, the last one first. -/
theorem Config.definitions_of_loadAll {config result : Config} {lines : List Bytes}
    (h : config.loadAll lines = .ok result) :
    ∃ bs : List Bouncer, (definitions lines).map Bouncer.parse = bs.map some ∧
      result.bouncers = bs.reverse ++ config.bouncers := by
  induction lines generalizing config with
  | nil =>
      cases h
      exact ⟨[], rfl, rfl⟩
  | cons line rest ih =>
      rw [Config.loadAll] at h
      split_ifs at h with hcomment
      · obtain ⟨bs, hbs, hresult⟩ := ih h
        refine ⟨bs, ?_, hresult⟩
        rw [definitions, List.filter_cons_of_neg (by simp [hcomment])]
        exact hbs
      · split at h
        · cases h
        next config' hload =>
        obtain ⟨bs, hbs, hresult⟩ := ih h
        rcases hopt : hasOption line (ascii "bouncer=") with _ | _
        · refine ⟨bs, ?_, by rw [hresult, (Config.loadLine_cases hload).2 hopt]⟩
          rw [definitions, List.filter_cons_of_neg (by simp [hopt])]
          exact hbs
        · rw [Config.loadLine, if_pos hopt] at hload
          obtain ⟨b, hparse, rfl⟩ := Option.map_eq_some_iff.mp hload
          refine ⟨b :: bs, ?_, by simp [hresult]⟩
          rw [definitions, List.filter_cons_of_pos (by simp [hopt, hcomment]), List.map_cons,
            List.map_cons, hparse, List.map_cons]
          exact congrArg (some b :: ·) hbs

/-- The numbers written as ports on the bouncer lines of a text fit in an `int`. -/
def PortsFit (buffer : Bytes) : Prop :=
  ∀ s ∈ definitions (textLines buffer), ∀ text ∈ Bouncer.portTexts s,
    ∀ number ∈ scanInteger text, -2 ^ 31 ≤ number.1 ∧ number.1 < 2 ^ 31

variable (isValidHost : Option Bytes → Bool)

/-- What the daemon relies on in a bouncer. -/
structure Bouncer.Valid (b : Bouncer) : Prop where
  listenPort : 0 ≤ b.listenPort ∧ b.listenPort ≤ 65535
  remotePort : 0 ≤ b.remotePort ∧ b.remotePort ≤ 65535
  listenIP : ∃ ip, b.listenIP = some ip ∧ isValidIP ip = true
  localIP : ∃ ip, b.localIP = some ip ∧ isValidIP ip = true
  remoteHost : ∃ host, b.remoteHost = some host ∧ isValidHost (some host) = true

/-- What the daemon relies on in a config. -/
structure Config.Valid (config : Config) : Prop where
  bouncers_ne_nil : config.bouncers ≠ []
  identTimeout : 0 ≤ config.identTimeout
  idleTimeout : 0 ≤ config.idleTimeout
  writeTimeout : 0 ≤ config.writeTimeout
  bouncers : ∀ b ∈ config.bouncers, b.Valid isValidHost

variable {isValidHost}

/-- Of a port that passes its check, being a port number and fitting in an `int` are the same. -/
theorem port_range_iff {port : ℤ} (h : isValidPort port = true) :
    (0 ≤ port ∧ port ≤ 65535) ↔ -2 ^ 31 ≤ port ∧ port < 2 ^ 31 := by
  obtain ⟨hlo, hhi⟩ := isValidPort_iff.mp h
  constructor
  · omega
  · rintro ⟨hmin, hmax⟩
    rw [toInt_of_mem hmin hmax] at hlo hhi
    exact ⟨hlo, hhi⟩

/-- Of a bouncer that passes the checks, being valid is having ports that fit in an `int`. -/
theorem Bouncer.valid_iff {b : Bouncer} (h : b.Checked isValidHost) :
    b.Valid isValidHost ↔ (-2 ^ 31 ≤ b.listenPort ∧ b.listenPort < 2 ^ 31) ∧
      -2 ^ 31 ≤ b.remotePort ∧ b.remotePort < 2 ^ 31 := by
  rw [← port_range_iff h.listenPort, ← port_range_iff h.remotePort]
  obtain ⟨host, hhost⟩ := Option.ne_none_iff_exists'.mp h.remoteHost.1
  exact ⟨fun hv => ⟨hv.listenPort, hv.remotePort⟩, fun hp => ⟨hp.1, hp.2, h.listenIP, h.localIP,
    host, hhost, hhost ▸ h.remoteHost.2⟩⟩

/-- **Loaded configs are valid exactly when the ports written in the text fit in an `int`.** The
checks narrow a port before they look at it, so a port that differs from a port number by a
multiple of `2 ^ 32` passes them. -/
theorem Config.valid_iff_portsFit {buffer : Bytes} {config : Config}
    (h : Config.loadBuffer isValidHost buffer = .ok (.ok config)) :
    config.Valid isValidHost ↔ PortsFit buffer := by
  obtain ⟨hload, hne, hchecked⟩ := Config.loadBuffer_eq_ok.mp h
  have hlines := Config.lines_of_loadAll hload
  obtain ⟨bs, hbs, hresult⟩ := Config.definitions_of_loadAll hload
  have hmem : ∀ b, b ∈ config.bouncers ↔ b ∈ bs := by
    intro b
    rw [hresult]
    simp [Config.new]
  -- each definition stands for one of the bouncers, with the two numbers as its ports
  have hfit : PortsFit buffer ↔ ∀ b ∈ bs,
      (-2 ^ 31 ≤ b.listenPort ∧ b.listenPort < 2 ^ 31) ∧
        -2 ^ 31 ≤ b.remotePort ∧ b.remotePort < 2 ^ 31 := by
    have hports : ∀ {s : Bytes} {b : Bouncer}, Bouncer.parse s = some b →
        ((∀ text ∈ Bouncer.portTexts s, ∀ number ∈ scanInteger text,
            -2 ^ 31 ≤ number.1 ∧ number.1 < 2 ^ 31) ↔
          (-2 ^ 31 ≤ b.listenPort ∧ b.listenPort < 2 ^ 31) ∧
            -2 ^ 31 ≤ b.remotePort ∧ b.remotePort < 2 ^ 31) := by
      intro s b hparse
      obtain ⟨⟨lp, rp, htexts, ⟨rest, hlp⟩, rest', hrp⟩, -⟩ := Bouncer.parse_eq_some hparse
      simp [htexts, hlp, hrp]
    constructor
    · intro hall b hb
      have hsome : some b ∈ (definitions (textLines buffer)).map Bouncer.parse := by
        rw [hbs]
        exact List.mem_map_of_mem hb
      obtain ⟨s, hs, hparse⟩ := List.mem_map.mp hsome
      exact (hports hparse).mp (hall s hs)
    · intro hall s hs
      have hsome : Bouncer.parse s ∈ bs.map some := hbs ▸ List.mem_map_of_mem hs
      obtain ⟨b, hb, hparse⟩ := List.mem_map.mp hsome
      exact (hports hparse.symm).mpr (hall b hb)
  rw [hfit]
  constructor
  · intro hvalid b hb
    exact (Bouncer.valid_iff (hchecked b ((hmem b).mpr hb))).mp
      (hvalid.bouncers b ((hmem b).mpr hb))
  · intro hall
    exact ⟨hne, hlines.identTimeout.1, hlines.idleTimeout.1, hlines.writeTimeout.1, fun b hb =>
      (Bouncer.valid_iff (hchecked b hb)).mpr (hall b ((hmem b).mp hb))⟩

/-- A resolver that knows numeric addresses only. -/
def numericHost (host : Option Bytes) : Bool := host.any isValidIP

/-- A text with one bouncer, whose listen port is `2 ^ 32 + 1`. -/
def wrappedPort : Bytes := ascii "bouncer=1.2.3.4:4294967297 5.6.7.8:1"

/-- The config loaded from it. -/
def wrappedPortConfig : Config :=
  { Config.new with
    bouncers := [⟨some (ascii "1.2.3.4"), 4294967297, some (ascii "5.6.7.8"), 1,
      some (ascii "1.2.3.4")⟩] }

theorem loadBuffer_wrappedPort :
    Config.loadBuffer numericHost wrappedPort = .ok (.ok wrappedPortConfig) := by
  rw [Config.loadBuffer_eq_ok]
  refine ⟨by decide, by decide, ?_⟩
  intro b hb
  obtain rfl := List.mem_singleton.mp hb
  exact ⟨⟨_, rfl, by decide⟩, by decide, by decide, by decide, ⟨_, rfl, by decide⟩⟩

/-- A loaded config need not be valid. -/
theorem not_valid_of_loadBuffer :
    ¬ ∀ buffer config, Config.loadBuffer numericHost buffer = .ok (.ok config) →
      config.Valid numericHost := by
  intro h
  have hvalid := h wrappedPort wrappedPortConfig loadBuffer_wrappedPort
  have hport := (hvalid.bouncers _ List.mem_cons_self).listenPort
  exact absurd hport.2 (by decide)

/-- On the text with the wrapped port both sides are false. -/
theorem valid_iff_portsFit_wrappedPort :
    wrappedPortConfig.Valid numericHost ↔ PortsFit wrappedPort :=
  Config.valid_iff_portsFit loadBuffer_wrappedPort

end Ebbnc
