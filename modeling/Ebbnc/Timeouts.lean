import Ebbnc.Client
import Ebbnc.FileFormat
import Ebbnc.Lib.Numeral

/-!
# The timeouts

What a number in the config file becomes on its way to the calls it is for.

* `strToInt_of_numeral` — `strToInt` takes every numeral, moved into the range of `long` and then
  narrowed; `exists_numeral_of_strToInt` — and besides these only the empty text.
* **`integers_meant_iff`** — where the texts and the timeouts of a loaded config are the numbers
  written.
* **`Client.timeout_exact_iff`** — where the time the relay has `poll` wait is the idle timeout.
-/

namespace Ebbnc

open Lib

/-! ## Integers -/

/-- The value of a numeral is moved into the range of `long` and narrowed. -/
theorem strToInt_of_numeral {s : Bytes} {v : ℤ} (h : Numeral s v) :
    strToInt s = some (toInt (clampLong v)) := by
  unfold strToInt strToLong
  rw [strtol_of_numeral h]
  rfl

/-- Besides numerals only the empty text is an integer. -/
theorem exists_numeral_of_strToInt {s : Bytes} {i : ℤ} (h : strToInt s = some i) (hne : s ≠ []) :
    ∃ v, Numeral s v ∧ i = toInt (clampLong v) := by
  have hrest : (strtol s).2 = [] := by
    unfold strToInt strToLong at h
    split_ifs at h with hempty
    simpa using hempty
  obtain ⟨v, hv⟩ := exists_numeral_of_strtol hrest hne
  rw [strToInt_of_numeral hv] at h
  exact ⟨v, hv, (Option.some.inj h).symm⟩

/-- An `int` is neither moved nor narrowed. -/
theorem toInt_clampLong {v : ℤ} (hlo : -2 ^ 31 ≤ v) (hhi : v < 2 ^ 31) :
    toInt (clampLong v) = v := by
  rw [clampLong_of_mem (by unfold longMin; omega) (by unfold longMax; omega),
    toInt_of_mem hlo hhi]

/-- What `strToInt` is to do: take complete decimal numerals only, whose number is an `int`, and
store that number. -/
def ReadsInt (s : Bytes) : Prop :=
  ∀ i, strToInt s = some i → Numeral s i ∧ -2 ^ 31 ≤ i ∧ i < 2 ^ 31

/-- It does so exactly for the texts that are not empty and, if they are numerals, those of an
`int`. -/
theorem readsInt_iff (s : Bytes) :
    ReadsInt s ↔ s ≠ [] ∧ ∀ v, Numeral s v → -2 ^ 31 ≤ v ∧ v < 2 ^ 31 := by
  constructor
  · intro h
    constructor
    · rintro rfl
      exact (h 0 (by decide)).1.ne_nil rfl
    · intro v hv
      obtain ⟨hread, hrange⟩ := h _ (strToInt_of_numeral hv)
      rwa [← hv.unique hread] at hrange
  · rintro ⟨hne, hrange⟩ i hi
    obtain ⟨v, hv, rfl⟩ := exists_numeral_of_strToInt hi hne
    obtain ⟨hlo, hhi⟩ := hrange v hv
    rw [toInt_clampLong hlo hhi]
    exact ⟨hv, hlo, hhi⟩

/-! ## The timeouts of a loaded config -/

/-- The field a timeout option sets. -/
def ConfigOption.timeoutField : ConfigOption → Option (Config → ℤ)
  | identTimeout => some fun config => config.identTimeout
  | idleTimeout => some fun config => config.idleTimeout
  | writeTimeout => some fun config => config.writeTimeout
  | _ => none

/-- The timeouts mean what is written: each is the number on its last line, and no number outside
of `0 .. INT_MAX` was let through on any line. -/
structure TimeoutsMeant (buffer : Bytes) (config : Config) : Prop where
  last : ∀ o, ∀ field ∈ ConfigOption.timeoutField o,
    ∀ value ∈ (valuesOf o (fileLines buffer)).getLast?, Numeral value (field config)
  rejected : ∀ o, ∀ _field ∈ ConfigOption.timeoutField o, ∀ value ∈ valuesOf o (fileLines buffer),
    ∃ v, Numeral value v ∧ 0 ≤ v ∧ v < 2 ^ 31

/-- The numbers on the timeout lines of a file are in `0 .. INT_MAX`. -/
def TimeoutsFit (buffer : Bytes) : Prop :=
  ∀ o, ∀ _field ∈ ConfigOption.timeoutField o, ∀ value ∈ valuesOf o (fileLines buffer),
    ∀ v, Numeral value v → 0 ≤ v ∧ v < 2 ^ 31

/-- The values given to an option stand on its lines. -/
theorem mem_valuesOf {o : ConfigOption} {value : Bytes} {lines : List Bytes} :
    value ∈ valuesOf o lines ↔ ∃ line ∈ lines, assignment line = some (o, value) := by
  simp only [valuesOf, List.mem_filterMap, Option.map_eq_some_iff, Option.filter_eq_some_iff,
    decide_eq_true_eq]
  constructor
  · rintro ⟨line, hline, ⟨o', value'⟩, ⟨hassign, rfl⟩, rfl⟩
    exact ⟨line, hline, hassign⟩
  · rintro ⟨line, hline, hassign⟩
    exact ⟨line, hline, (o, value), ⟨hassign, rfl⟩, rfl⟩

/-- On an acceptable line a timeout is a numeral, moved and narrowed. -/
theorem parseTimeout_of_mem {o : ConfigOption} {field : Config → ℤ} {value : Bytes}
    {lines : List Bytes} (hall : ∀ line ∈ lines, Acceptable line)
    (ho : field ∈ ConfigOption.timeoutField o) (hvalue : value ∈ valuesOf o lines) :
    ∃ v, Numeral value v ∧ parseTimeout value = some (toInt (clampLong v)) := by
  obtain ⟨line, hline, hassign⟩ := mem_valuesOf.mp hvalue
  obtain ⟨-, -, -, hne⟩ := assignment_eq_some.mp hassign
  obtain ⟨o', value', hassign', haccepts⟩ := acceptable_iff.mp (hall line hline)
  obtain ⟨rfl, rfl⟩ := Prod.mk.inj (Option.some.inj (hassign.symm.trans hassign'))
  have hsome : (parseTimeout value).isSome = true := by
    cases o <;> first | exact haccepts | cases ho
  obtain ⟨i, hi⟩ := Option.isSome_iff_exists.mp hsome
  obtain ⟨v, hv, rfl⟩ :=
    exists_numeral_of_strToInt (Option.filter_eq_some_iff.mp hi).1 hne
  exact ⟨v, hv, hi⟩

/-- A timeout of the config of some lines is the one on its last line. -/
theorem field_ofLines {o : ConfigOption} {field : Config → ℤ} {value : Bytes} {lines : List Bytes}
    {i : ℤ} (ho : field ∈ ConfigOption.timeoutField o)
    (hlast : (valuesOf o lines).getLast? = some value) (hvalue : parseTimeout value = some i) :
    field (Config.ofLines lines) = i := by
  cases o <;> cases ho <;> simp [Config.ofLines, hlast, hvalue]

/-- **Where integers mean what is written.** Of the texts it takes, `strToInt` stores the number
written unless the text is empty or the number no `int`; the timeouts of a loaded config are the
numbers of the file exactly when these are in `0 .. INT_MAX`. -/
theorem integers_meant_iff (isValidHost : Option Bytes → Bool) :
    (∀ s, ReadsInt s ↔ s ≠ [] ∧ ∀ v, Numeral s v → -2 ^ 31 ≤ v ∧ v < 2 ^ 31) ∧
      ∀ buffer config, Config.loadBuffer isValidHost buffer = .ok (.ok config) →
        (TimeoutsMeant buffer config ↔ TimeoutsFit buffer) := by
  refine ⟨readsInt_iff, fun buffer config hload => ?_⟩
  obtain ⟨hall, rfl⟩ := Config.ofLines_of_loadBuffer hload
  constructor
  · intro h o field ho value hvalue v hv
    obtain ⟨w, hw, hrange⟩ := h.rejected o field ho value hvalue
    rwa [hv.unique hw]
  · intro h
    refine ⟨fun o field ho value hlast => ?_, fun o field ho value hvalue => ?_⟩
    · have hvalue := List.mem_of_getLast? hlast
      obtain ⟨v, hv, hparse⟩ := parseTimeout_of_mem hall ho hvalue
      obtain ⟨hlo, hhi⟩ := h o field ho value hvalue v hv
      rw [field_ofLines ho hlast hparse, toInt_clampLong (by omega) hhi]
      exact hv
    · obtain ⟨v, hv, -⟩ := parseTimeout_of_mem hall ho hvalue
      exact ⟨v, hv, h o field ho value hvalue v hv⟩

/-- The bouncer of the samples. -/
def timedBouncer : Bouncer :=
  ⟨some (ascii "1.2.3.4"), 1, some (ascii "5.6.7.8"), 1, some (ascii "1.2.3.4")⟩

/-- The config of that bouncer, with these timeouts. -/
def timedConfig (idleTimeout writeTimeout : ℤ) : Config :=
  { Config.new with
    idleTimeout := idleTimeout
    writeTimeout := writeTimeout
    bouncers := [timedBouncer] }

/-- Its bouncer passes the checks. -/
theorem timedConfig_checked (idleTimeout writeTimeout : ℤ) :
    (timedConfig idleTimeout writeTimeout).bouncers ≠ [] ∧
      ∀ b ∈ (timedConfig idleTimeout writeTimeout).bouncers, b.Checked numericHost := by
  refine ⟨List.cons_ne_nil _ _, fun b hb => ?_⟩
  obtain rfl := List.mem_singleton.mp hb
  exact ⟨⟨_, rfl, by decide⟩, by decide, by decide, by decide, ⟨_, rfl, by decide⟩⟩

/-- A text whose write timeout is `2 ^ 32`. -/
def wrappedTimeout : Bytes := ascii "writetimeout=4294967296\nbouncer=1.2.3.4:1 5.6.7.8:1"

theorem loadBuffer_wrappedTimeout :
    Config.loadBuffer numericHost wrappedTimeout = .ok (.ok (timedConfig 0 0)) := by
  rw [Config.loadBuffer_eq_ok]
  exact ⟨by decide, timedConfig_checked 0 0⟩

/-- Neither the empty text nor a number beyond the range of `int` is turned away. -/
theorem not_integers_meant :
    strToInt [] = some 0 ∧ ¬ (∀ s, ReadsInt s) ∧
      Config.loadBuffer numericHost wrappedTimeout = .ok (.ok (timedConfig 0 0)) ∧
      ¬ ∀ buffer config, Config.loadBuffer numericHost buffer = .ok (.ok config) →
        TimeoutsMeant buffer config := by
  refine ⟨by decide, fun h => ((readsInt_iff []).mp (h [])).1 rfl, loadBuffer_wrappedTimeout,
    fun h => ?_⟩
  have hmeant := h wrappedTimeout _ loadBuffer_wrappedTimeout
  have hnumeral := hmeant.last .writeTimeout _ rfl (ascii "4294967296") (by decide)
  have hvalue := (numeral_iff.mp hnumeral).2.2
  exact absurd hvalue (by decide)

/-! ## The time the relay waits -/

/-- The time the relay has `poll` wait is to be -1 without an idle timeout, and otherwise as many
milliseconds as it has, which are to be an `int`. -/
def Client.WaitsExactly (client : Client) : Prop :=
  ∃ timeout, client.relayPass.next = some (.poll client.cSock client.rSock timeout) ∧
    (timeout = -1 ↔ client.config.idleTimeout = 0) ∧
    (client.config.idleTimeout ≠ 0 →
      timeout = client.config.idleTimeout * 1000 ∧
        -2 ^ 31 ≤ client.config.idleTimeout * 1000 ∧ client.config.idleTimeout * 1000 < 2 ^ 31)

/-- A pass of the relay begins with `poll`. -/
theorem Client.next_relayPass (client : Client) :
    client.relayPass.next = some (.poll client.cSock client.rSock client.timeout) := rfl

/-- Without an idle timeout the relay waits for ever. -/
theorem Client.timeout_of_zero {client : Client} (h : client.config.idleTimeout = 0) :
    client.timeout = -1 := by
  unfold Client.timeout
  rw [if_pos h]

/-- The milliseconds, when they are an `int`. -/
theorem Client.timeout_of_pos {client : Client} (hpos : 0 < client.config.idleTimeout)
    (hsmall : client.config.idleTimeout ≤ 2147483) :
    client.timeout = client.config.idleTimeout * 1000 := by
  unfold Client.timeout
  rw [if_neg (by omega), toInt_of_mem (by omega) (by omega)]

/-- **The time the relay waits is the idle timeout** exactly when that is at most 2147483 seconds:
the product with 1000 is not an `int` beyond. -/
theorem Client.timeout_exact_iff {isValidHost : Option Bytes → Bool} {buffer : Bytes}
    (client : Client) (h : Config.loadBuffer isValidHost buffer = .ok (.ok client.config)) :
    client.WaitsExactly ↔ client.config.idleTimeout ≤ 2147483 := by
  obtain ⟨hnonneg, -⟩ := (Config.lines_of_loadAll (Config.loadBuffer_eq_ok.mp h).1).idleTimeout
  constructor
  · rintro ⟨timeout, -, -, hexact⟩
    by_contra hlarge
    obtain ⟨-, -, hhi⟩ := hexact (by omega)
    omega
  · intro hsmall
    refine ⟨client.timeout, client.next_relayPass, ?_⟩
    rcases eq_or_lt_of_le hnonneg with hzero | hpos
    · rw [Client.timeout_of_zero hzero.symm]
      exact ⟨by simp [← hzero], fun hne => absurd hzero.symm hne⟩
    · rw [Client.timeout_of_pos hpos hsmall]
      exact ⟨⟨fun hneg => by omega, fun h0 => by omega⟩, fun _ => ⟨rfl, by omega, by omega⟩⟩

/-- A text with an idle timeout of 25 days. -/
def longTimeout : Bytes := ascii "bouncer=1.2.3.4:1 5.6.7.8:1\nidletimeout=2147484"

theorem loadBuffer_longTimeout :
    Config.loadBuffer numericHost longTimeout = .ok (.ok (timedConfig 2147484 30)) := by
  rw [Config.loadBuffer_eq_ok]
  exact ⟨by decide, timedConfig_checked 2147484 30⟩

/-- A client with the config of that text. -/
def patientClient : Client := ⟨4, .other 0, 5, timedConfig 2147484 30, timedBouncer⟩

/-- For this client both sides are false. -/
theorem Client.timeout_exact_patient :
    patientClient.WaitsExactly ↔ patientClient.config.idleTimeout ≤ 2147483 :=
  Client.timeout_exact_iff patientClient loadBuffer_longTimeout

/-- A loaded idle timeout need not be the time the relay waits: this one is negative, which `poll`
takes for no timeout at all. -/
theorem Client.not_timeout_exact :
    patientClient.relayPass.next = some (.poll 4 5 (-2147483296)) ∧
      ¬ ∀ (buffer : Bytes) (client : Client),
        Config.loadBuffer numericHost buffer = .ok (.ok client.config) → client.WaitsExactly := by
  refine ⟨by rw [Client.next_relayPass]; decide, fun h => ?_⟩
  obtain ⟨timeout, -, -, hexact⟩ := h longTimeout patientClient loadBuffer_longTimeout
  obtain ⟨-, -, hhi⟩ := hexact (by decide)
  exact absurd hhi (by decide)

end Ebbnc
