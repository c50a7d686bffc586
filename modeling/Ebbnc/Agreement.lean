import Ebbnc.ConfigFormat
import Ebbnc.EditorSafety

/-!
# The editor and the daemon

The header the editor writes against the config the daemon loads from it, and the key the one
encrypts with against the key the other decrypts with.

* `Config.forall_saveBuffer` — the printed text says nothing but what the texts of the config say.
* `Config.Edited` — what the editor guarantees of the configs it builds; `Config.Carried` — what
  the header needs of them.
* **`Config.agreement_iff_carried`** — the daemon loads an edited config exactly when it is carried.
* **`agreement_iff_survives`** — for the config of a session that ends well this is a condition on
  the answers: ports are port numbers as they stand, there is a local ip, texts are clean lines.
* **`key_agreement_iff`** — the two keys are the same exactly when the bytes after the password, as
  far as the key reaches, are NULs; `Completed.key` — the editor's key is that of the password.
-/

namespace Ebbnc

open Lib

/-! ## The characters of a printed config -/

/-- The characters the printer puts between the texts. -/
def isPrinterChar (c : UInt8) : Bool := c == 10 || (32 ≤ c && c < 127)

/-- The texts of a config, a null pointer as it is printed. -/
def Config.texts (config : Config) : List Bytes :=
  config.pidFile.toList ++ config.welcomeMsg.toList ++
    config.bouncers.flatMap fun b =>
      [printString b.listenIP, printString b.remoteHost, printString b.localIP]

section chars

variable {P : UInt8 → Prop} (hP : ∀ c, isPrinterChar c = true → P c)

include hP

theorem forall_printInt (v : ℤ) : ∀ c ∈ printInt v, P c := by
  intro c hc
  apply hP c
  rcases List.mem_append.mp hc with h | h
  · split_ifs at h
    · rw [List.mem_singleton.mp h]
      decide
    · cases h
  · have hrange : 48 ≤ c ∧ c ≤ 57 := by simpa [isdigit] using (mem_decimal h).1
    simp only [isPrinterChar, Bool.or_eq_true, beq_iff_eq, Bool.and_eq_true, decide_eq_true_eq]
    simp only [UInt8.le_iff_toNat_le, UInt8.lt_iff_toNat_lt] at hrange ⊢
    have h48 : (48 : UInt8).toNat = 48 := rfl
    have h57 : (57 : UInt8).toNat = 57 := rfl
    have h32 : (32 : UInt8).toNat = 32 := rfl
    have h127 : (127 : UInt8).toNat = 127 := rfl
    right
    omega

theorem forall_printBool (b : Bool) : ∀ c ∈ printBool b, P c := by
  have hall : ∀ b, ∀ c ∈ printBool b, isPrinterChar c = true := by decide
  exact fun c hc => hP c (hall b c hc)

/-- The characters of a printed bouncer are those of its texts, and the printer's. -/
theorem Bouncer.forall_print (b : Bouncer) :
    (∀ c ∈ b.print, P c) ↔ (∀ c ∈ printString b.listenIP, P c) ∧
      (∀ c ∈ printString b.remoteHost, P c) ∧ ∀ c ∈ printString b.localIP, P c := by
  have hkey : ∀ k ∈ [ascii "bouncer=", ascii ":", ascii " "], ∀ c ∈ k, P c := by
    have hall : ∀ k ∈ [ascii "bouncer=", ascii ":", ascii " "], ∀ c ∈ k,
        isPrinterChar c = true := by decide
    exact fun k hk c hc => hP c (hall k hk c hc)
  simp only [List.mem_cons, List.not_mem_nil, or_false, forall_eq_or_imp, forall_eq] at hkey
  obtain ⟨hbouncer, hcolon, hblank⟩ := hkey
  simp only [Bouncer.print, List.forall_mem_append]
  have hlisten := forall_printInt hP (toInt b.listenPort)
  have hremote := forall_printInt hP (toInt b.remotePort)
  tauto

/-- **The characters of a printed config** are those of its texts, and the printer's. -/
theorem Config.forall_saveBuffer (config : Config) :
    (∀ c ∈ config.saveBuffer, P c) ↔ ∀ s ∈ config.texts, ∀ c ∈ s, P c := by
  have hkey : ∀ k ∈ [ascii "idnt=", ascii "identtimeout=", ascii "idletimeout=",
      ascii "writetimeout=", ascii "dnslookup=", ascii "pidfile=", ascii "welcomemsg=", [10]],
      ∀ c ∈ k, P c := by
    have hall : ∀ k ∈ [ascii "idnt=", ascii "identtimeout=", ascii "idletimeout=",
        ascii "writetimeout=", ascii "dnslookup=", ascii "pidfile=", ascii "welcomemsg=", [10]],
        ∀ c ∈ k, isPrinterChar c = true := by decide
    exact fun k hk c hc => hP c (hall k hk c hc)
  simp only [List.mem_cons, List.not_mem_nil, or_false, forall_eq_or_imp, forall_eq] at hkey
  obtain ⟨k1, k2, k3, k4, k5, k6, k7, k8⟩ := hkey
  have hline : ∀ line, (∀ c ∈ line ++ [10], P c) ↔ ∀ c ∈ line, P c := by
    intro line
    simp only [List.forall_mem_append, List.forall_mem_singleton]
    exact and_iff_left k8
  have hlines : (∀ c ∈ config.saveBuffer, P c) ↔ ∀ line ∈ config.saveLines, ∀ c ∈ line, P c := by
    rw [Config.saveBuffer_eq]
    simp only [List.mem_flatMap, forall_exists_index, and_imp]
    constructor
    · exact fun h line hmem => (hline line).mp fun c hc => h c line hmem hc
    · exact fun h c line hmem => (hline line).mpr (h line hmem) c
  rw [hlines]
  simp only [Config.saveLines, Config.texts, List.forall_mem_append, List.forall_mem_cons,
    List.forall_mem_map, Bouncer.forall_print hP, List.forall_mem_flatMap, iff_true_intro k1,
    iff_true_intro k2, iff_true_intro k3, iff_true_intro k4, iff_true_intro k5, iff_true_intro k6,
    iff_true_intro k7, iff_true_intro (forall_printBool hP _),
    iff_true_intro (forall_printInt hP _),
    List.not_mem_nil, false_imp_iff, implies_true, true_and, and_true]

end chars

/-! ## Configs from the editor -/

/-- A text that is one line and passes the check on control characters. -/
def IsClean (s : Bytes) : Prop := ∀ c ∈ s, isTextChar c = true ∧ isEOL c = false

instance : DecidablePred IsClean := fun s =>
  inferInstanceAs (Decidable (∀ c ∈ s, isTextChar c = true ∧ isEOL c = false))

/-- What a bouncer needs to reach the daemon. -/
structure Bouncer.Carried (b : Bouncer) : Prop where
  listenPort : 0 ≤ b.listenPort ∧ b.listenPort ≤ 65535
  remoteHost : ∀ host ∈ b.remoteHost, IsClean host
  remotePort : 0 ≤ b.remotePort ∧ b.remotePort ≤ 65535
  localIP : b.localIP ≠ none

/-- What a config needs to reach the daemon. -/
structure Config.Carried (config : Config) : Prop where
  pidFile : ∀ s ∈ config.pidFile, s ≠ [] ∧ IsClean s
  welcomeMsg : ∀ s ∈ config.welcomeMsg, s ≠ [] ∧ IsClean s
  bouncers : ∀ b ∈ config.bouncers, b.Carried

section edited

variable (isValidHost : Option Bytes → Bool)

/-- What the editor guarantees of a bouncer. -/
structure Bouncer.Edited (b : Bouncer) : Prop where
  listenIP : ∃ ip, b.listenIP = some ip ∧ isValidIP ip = true ∧ ∀ c ∈ ip, c ≠ colon
  listenPort : isValidPort b.listenPort = true
  remoteHost : ∃ host, b.remoteHost = some host ∧ host ≠ [] ∧ isValidHost (some host) = true ∧
    ∀ c ∈ host, c ≠ 0 ∧ c ≠ colon
  remotePort : isValidPort b.remotePort = true
  localIP : ∀ ip ∈ b.localIP, isValidIP ip = true

/-- What the editor guarantees of a config. -/
structure Config.Edited (config : Config) : Prop where
  identTimeout : 0 ≤ config.identTimeout ∧ config.identTimeout < 2 ^ 31
  idleTimeout : 0 ≤ config.idleTimeout ∧ config.idleTimeout < 2 ^ 31
  writeTimeout : 0 ≤ config.writeTimeout ∧ config.writeTimeout < 2 ^ 31
  pidFile : ∀ s ∈ config.pidFile, ∀ c ∈ s, c ≠ 0
  welcomeMsg : ∀ s ∈ config.welcomeMsg, ∀ c ∈ s, c ≠ 0
  bouncers_ne_nil : config.bouncers ≠ []
  bouncers : ∀ b ∈ config.bouncers, b.Edited isValidHost

variable {isValidHost}

/-- The characters of an address are clean, and none is a blank or a NUL. -/
theorem isAddressChar_clean {c : UInt8} (h : isAddressChar c = true) :
    isTextChar c = true ∧ isEOL c = false ∧ c ≠ blank ∧ c ≠ 0 := by
  revert c
  apply forall_byte
  decide +kernel

/-- The local ip as it is printed: an address or a text without blanks, and clean. -/
theorem Bouncer.Edited.printString_localIP {b : Bouncer} (h : b.Edited isValidHost) :
    printString b.localIP ≠ [] ∧ ∀ c ∈ printString b.localIP,
      isTextChar c = true ∧ isEOL c = false ∧ c ≠ blank ∧ c ≠ 0 := by
  rcases hlocal : b.localIP with _ | ip
  · decide
  · have hip := h.localIP ip hlocal
    exact ⟨isValidIP_ne_nil hip, fun c hc => isAddressChar_clean (isValidIP_chars hip c hc)⟩

/-- The loader can take an edited bouncer apart again. -/
theorem Bouncer.Edited.printable {b : Bouncer} (h : b.Edited isValidHost) : b.Printable := by
  obtain ⟨ip, hip, hvalid, hfree⟩ := h.listenIP
  obtain ⟨host, hhost, hne, -, hhostFree⟩ := h.remoteHost
  exact ⟨⟨ip, hip, isValidIP_ne_nil hvalid, hfree⟩, h.listenPort,
    ⟨host, hhost, hne, fun c hc => (hhostFree c hc).2⟩, h.remotePort,
    h.printString_localIP.1, fun c hc => (h.printString_localIP.2 c hc).2.2.1⟩

/-- What holds of the characters of addresses and of the remote host holds of all texts of a
bouncer. -/
theorem Bouncer.Edited.forall_texts {b : Bouncer} (h : b.Edited isValidHost) {P : UInt8 → Prop}
    (hP : ∀ c, isTextChar c = true ∧ isEOL c = false ∧ c ≠ blank ∧ c ≠ 0 → P c)
    (hhost : ∀ host ∈ b.remoteHost, ∀ c ∈ host, P c) :
    (∀ c ∈ printString b.listenIP, P c) ∧ (∀ c ∈ printString b.remoteHost, P c) ∧
      ∀ c ∈ printString b.localIP, P c := by
  obtain ⟨ip, hip, hvalid, -⟩ := h.listenIP
  obtain ⟨host, hremote, -⟩ := h.remoteHost
  refine ⟨fun c hc => ?_, fun c hc => ?_, fun c hc => hP c (h.printString_localIP.2 c hc)⟩
  · rw [hip] at hc
    exact hP c (isAddressChar_clean (isValidIP_chars hvalid c hc))
  · rw [hremote] at hc
    exact hhost host hremote c hc

/-- What holds of the printer's characters, of those of addresses and of the three texts holds of
all characters of an edited config. -/
theorem Config.Edited.forall_saveBuffer {config : Config} (h : config.Edited isValidHost)
    {P : UInt8 → Prop} (hprinter : ∀ c, isPrinterChar c = true → P c)
    (hP : ∀ c, isTextChar c = true ∧ isEOL c = false ∧ c ≠ blank ∧ c ≠ 0 → P c)
    (hpid : ∀ s ∈ config.pidFile, ∀ c ∈ s, P c) (hwelcome : ∀ s ∈ config.welcomeMsg, ∀ c ∈ s, P c)
    (hhost : ∀ b ∈ config.bouncers, ∀ host ∈ b.remoteHost, ∀ c ∈ host, P c) :
    ∀ c ∈ config.saveBuffer, P c := by
  rw [Config.forall_saveBuffer hprinter]
  intro s hs
  simp only [Config.texts, List.mem_append, Option.mem_toList, List.mem_flatMap, List.mem_cons,
    List.not_mem_nil, or_false] at hs
  rcases hs with (hs | hs) | ⟨b, hb, hs⟩
  · exact hpid s hs
  · exact hwelcome s hs
  · obtain ⟨h1, h2, h3⟩ := (h.bouncers b hb).forall_texts hP (hhost b hb)
    rcases hs with rfl | rfl | rfl
    · exact h1
    · exact h2
    · exact h3

/-- No NUL is printed. -/
theorem Config.Edited.saveBuffer_ne_zero {config : Config} (h : config.Edited isValidHost) :
    ∀ c ∈ config.saveBuffer, c ≠ 0 := by
  refine h.forall_saveBuffer ?_ (fun c hc => hc.2.2.2) h.pidFile h.welcomeMsg ?_
  · rintro c hc rfl
    exact absurd hc (by decide)
  · intro b hb host hhost c hc
    obtain ⟨host', hhost', -, -, hfree⟩ := (h.bouncers b hb).remoteHost
    rw [hhost'] at hhost
    exact (hfree c (Option.some.inj hhost ▸ hc)).1

/-- The printed lines of an edited config are read back when its texts are lines. -/
theorem Config.Edited.loadAll_saveBuffer {config : Config} (h : config.Edited isValidHost)
    (hpid : ∀ s ∈ config.pidFile, s ≠ [] ∧ Ebbnc.OneLine s)
    (hwelcome : ∀ s ∈ config.welcomeMsg, s ≠ [] ∧ Ebbnc.OneLine s)
    (hhost : ∀ b ∈ config.bouncers, ∀ host ∈ b.remoteHost, Ebbnc.OneLine host) :
    Config.new.loadAll (textLines config.saveBuffer) = .ok config.reread := by
  have hline : config.OneLine := by
    refine ⟨fun s hs => (hpid s hs).2, fun s hs => (hwelcome s hs).2, fun b hb => ?_⟩
    obtain ⟨h1, h2, h3⟩ := (h.bouncers b hb).forall_texts (P := fun c => isEOL c = false)
      (fun c hc => hc.2.1) (hhost b hb)
    exact ⟨h1, h2, h3⟩
  rw [Config.textLines_saveBuffer hline]
  exact Config.loadAll_saveLines ⟨h.identTimeout, h.idleTimeout, h.writeTimeout,
    fun s hs => (hpid s hs).1, fun s hs => (hwelcome s hs).1,
    fun b hb => (h.bouncers b hb).printable⟩

end edited

/-! ## Agreement -/

/-- A bouncer as it may be loaded: when it has no local ip, its listen ip may take that place. -/
def Bouncer.LoadsAs (b b' : Bouncer) : Prop :=
  b' = b ∨ b.localIP = none ∧ b' = { b with localIP := b.listenIP }

/-- Loading may reorder the bouncers. -/
def SameBouncers (bs bs' : List Bouncer) : Prop :=
  ∃ images, List.Forall₂ Bouncer.LoadsAs bs images ∧ bs'.Perm images

/-- The editor writes a header for the config, and the daemon loads the same config from it. -/
def Agreement (isValidHost : Option Bytes → Bool) (config : Config) (key : Key) (iv : Block) :
    Prop :=
  ∃ confEmbedded loaded,
    encrypt (some iv.toList) config.saveBuffer (Cursor.start key.toList) =
      .ok (some confEmbedded) ∧
    Config.loadEmbedded isValidHost confEmbedded (Cursor.start key.toList) = .ok (.ok loaded) ∧
    loaded.toOptions = config.toOptions ∧ SameBouncers config.bouncers loaded.bouncers

section agreement

variable {isValidHost : Option Bytes → Bool} {config : Config}

/-- Every bouncer of the one list is one of the other, but perhaps for its local ip. -/
theorem SameBouncers.exists_loadsAs {bs bs' : List Bouncer} (h : SameBouncers bs bs') {b : Bouncer}
    (hb : b ∈ bs) : ∃ b' ∈ bs', b.LoadsAs b' := by
  obtain ⟨images, himages, hperm⟩ := h
  obtain ⟨i, hi, rfl⟩ := List.getElem_of_mem hb
  have hi' : i < images.length := himages.length_eq ▸ hi
  exact ⟨images[i], hperm.mem_iff.mpr (List.getElem_mem hi'), himages.get hi hi'⟩

/-- What the daemon makes of the container of a printed config. -/
theorem Config.Edited.loadEmbedded_container (h : config.Edited isValidHost) {ckey : Cursor UInt8}
    {key : Key} (hkey : ckey.read xteaKeySize = .ok key) (iv : Block) :
    Config.loadEmbedded isValidHost (container key iv config.saveBuffer) ckey =
      if config.saveBuffer.all isTextChar then Config.loadBuffer isValidHost config.saveBuffer
      else .ok (.error [.decryptEmbedded]) := by
  rw [Config.loadEmbedded, Config.decryptEmbedded_container hkey iv h.saveBuffer_ne_zero,
    Mem.ok_bind]
  split_ifs <;> rfl

/-- Agreement is about the text alone: it passes the check on control characters, and what is
loaded from it is the config. -/
theorem Config.Edited.agreement_iff (h : config.Edited isValidHost) (key : Key) (iv : Block) :
    Agreement isValidHost config key iv ↔ config.saveBuffer.all isTextChar = true ∧
      ∃ loaded, Config.loadBuffer isValidHost config.saveBuffer = .ok (.ok loaded) ∧
        loaded.toOptions = config.toOptions ∧ SameBouncers config.bouncers loaded.bouncers := by
  have hkey : (Cursor.start key.toList).read xteaKeySize = .ok key := by
    simpa using Cursor.read_start key []
  have hencrypt := encrypt_eq hkey iv config.saveBuffer
  have hload := h.loadEmbedded_container hkey iv
  constructor
  · rintro ⟨confEmbedded, loaded, hconf, hloaded, hsame⟩
    rw [hencrypt] at hconf
    obtain rfl := Option.some.inj (Except.ok.inj hconf)
    rw [hload] at hloaded
    split_ifs at hloaded with htext
    · exact ⟨htext, loaded, hloaded, hsame⟩
    · cases hloaded
  · rintro ⟨htext, loaded, hloaded, hsame⟩
    rw [if_pos htext] at hload
    exact ⟨_, loaded, hencrypt, hload.trans hloaded, hsame⟩

/-- The printer's characters pass the check on control characters. -/
theorem isTextChar_of_isPrinterChar {c : UInt8} (h : isPrinterChar c = true) :
    isTextChar c = true := by
  revert c
  apply forall_byte
  decide +kernel

/-- An edited config whose text is loaded as the same config is carried. -/
theorem Config.Edited.carried_of_loadBuffer (h : config.Edited isValidHost)
    (htext : ∀ c ∈ config.saveBuffer, isTextChar c = true) {loaded : Config}
    (hloaded : Config.loadBuffer isValidHost config.saveBuffer = .ok (.ok loaded))
    (hoptions : loaded.toOptions = config.toOptions)
    (hsame : SameBouncers config.bouncers loaded.bouncers) : config.Carried := by
  obtain ⟨hload, -, hchecked⟩ := Config.loadBuffer_eq_ok.mp hloaded
  have hlines := Config.lines_of_loadAll hload
  have hpidFile : loaded.pidFile = config.pidFile := congrArg Options.pidFile hoptions
  have hwelcomeMsg : loaded.welcomeMsg = config.welcomeMsg := congrArg Options.welcomeMsg hoptions
  -- what is loaded is made of lines, so what was built is
  have hpid : ∀ s ∈ config.pidFile, s ≠ [] ∧ Ebbnc.OneLine s := hpidFile ▸ hlines.pidFile
  have hwelcome : ∀ s ∈ config.welcomeMsg, s ≠ [] ∧ Ebbnc.OneLine s :=
    hwelcomeMsg ▸ hlines.welcomeMsg
  have hhost : ∀ b ∈ config.bouncers, ∀ host ∈ b.remoteHost, Ebbnc.OneLine host := by
    intro b hb host hhost
    obtain ⟨b', hb', hloads⟩ := hsame.exists_loadsAs hb
    have hremote : b'.remoteHost = some host := by
      rcases hloads with rfl | ⟨-, rfl⟩ <;> exact hhost
    have hline := (hlines.bouncers b' hb').2.remoteHost
    rwa [hremote] at hline
  -- so it is read back narrowed, and each bouncer is the image of one
  rw [h.loadAll_saveBuffer hpid hwelcome hhost] at hload
  obtain rfl := Except.ok.inj hload
  have hmem : ∀ b', b' ∈ config.reread.bouncers ↔ ∃ b ∈ config.bouncers, b.reread = b' := by
    simp [Config.reread]
  have hport : ∀ b ∈ config.bouncers, (0 ≤ b.listenPort ∧ b.listenPort ≤ 65535) ∧
      0 ≤ b.remotePort ∧ b.remotePort ≤ 65535 := by
    intro b hb
    obtain ⟨b', hb', hloads⟩ := hsame.exists_loadsAs hb
    obtain ⟨b₀, hb₀, rfl⟩ := (hmem b').mp hb'
    have hlisten : b.listenPort = toInt b₀.listenPort := by
      rcases hloads with heq | ⟨-, heq⟩ <;> exact (congrArg Bouncer.listenPort heq).symm
    have hremote : b.remotePort = toInt b₀.remotePort := by
      rcases hloads with heq | ⟨-, heq⟩ <;> exact (congrArg Bouncer.remotePort heq).symm
    rw [hlisten, hremote]
    exact ⟨isValidPort_iff.mp (h.bouncers b₀ hb₀).listenPort,
      isValidPort_iff.mp (h.bouncers b₀ hb₀).remotePort⟩
  rw [Config.forall_saveBuffer fun c => isTextChar_of_isPrinterChar] at htext
  have hclean : ∀ s ∈ config.texts, Ebbnc.OneLine s → IsClean s := fun s hs hline c hc =>
    ⟨htext s hs c hc, hline c hc⟩
  refine ⟨fun s hs => ⟨(hpid s hs).1, hclean s ?_ (hpid s hs).2⟩,
    fun s hs => ⟨(hwelcome s hs).1, hclean s ?_ (hwelcome s hs).2⟩, fun b hb =>
    ⟨(hport b hb).1, fun host hremote => hclean host ?_ (hhost b hb host hremote), (hport b hb).2,
      ?_⟩⟩
  · simp [Config.texts, Option.mem_def.mp hs]
  · simp [Config.texts, Option.mem_def.mp hs]
  · simp only [Config.texts, List.mem_append, List.mem_flatMap]
    exact Or.inr ⟨b, hb, by simp [printString, Option.mem_def.mp hremote]⟩
  · -- a null local ip is loaded as the text "(null)", which is no address
    intro hnone
    obtain ⟨ip, hip, hvalid⟩ := (hchecked _ ((hmem _).mpr ⟨b, hb, rfl⟩)).localIP
    rw [Bouncer.reread, hnone] at hip
    obtain rfl := Option.some.inj hip
    exact absurd hvalid (by decide)

/-- The bouncers of a config that is carried are read back as they are. -/
theorem Config.Carried.map_reread (h : config.Carried) :
    config.bouncers.map Bouncer.reread = config.bouncers := by
  refine (List.map_congr_left fun b hb => ?_).trans (List.map_id _)
  have hb' := h.bouncers b hb
  obtain ⟨ip, hip⟩ := Option.ne_none_iff_exists'.mp hb'.localIP
  rw [Bouncer.reread, (isValidPort_of_range hb'.listenPort).2,
    (isValidPort_of_range hb'.remotePort).2, hip, printString, Option.getD_some, ← hip]
  rfl

/-- The text of an edited config that is carried passes the check on control characters. -/
theorem Config.Edited.isTextChar_saveBuffer (h : config.Edited isValidHost)
    (hcarried : config.Carried) : ∀ c ∈ config.saveBuffer, isTextChar c = true :=
  h.forall_saveBuffer (fun _ => isTextChar_of_isPrinterChar) (fun _ hc => hc.1)
    (fun s hs c hc => ((hcarried.pidFile s hs).2 c hc).1)
    (fun s hs c hc => ((hcarried.welcomeMsg s hs).2 c hc).1)
    fun b hb host hremote c hc => ((hcarried.bouncers b hb).remoteHost host hremote c hc).1

/-- An edited config that is carried is loaded with its bouncers reversed. -/
theorem Config.Edited.loadBuffer_of_carried (h : config.Edited isValidHost)
    (hcarried : config.Carried) :
    Config.loadBuffer isValidHost config.saveBuffer =
      .ok (.ok { config with bouncers := config.bouncers.reverse }) := by
  rw [Config.loadBuffer_eq_ok]
  have hload := h.loadAll_saveBuffer
    (fun s hs => ⟨(hcarried.pidFile s hs).1, fun c hc => ((hcarried.pidFile s hs).2 c hc).2⟩)
    (fun s hs => ⟨(hcarried.welcomeMsg s hs).1, fun c hc => ((hcarried.welcomeMsg s hs).2 c hc).2⟩)
    fun b hb host hremote c hc => ((hcarried.bouncers b hb).remoteHost host hremote c hc).2
  rw [Config.reread, hcarried.map_reread] at hload
  refine ⟨hload, by simpa using h.bouncers_ne_nil, fun b hb => ?_⟩
  rw [List.mem_reverse] at hb
  have hedited := h.bouncers b hb
  obtain ⟨listen, hlisten, hlistenValid, -⟩ := hedited.listenIP
  obtain ⟨host, hremote, -, hvalid, -⟩ := hedited.remoteHost
  obtain ⟨ip, hip⟩ := Option.ne_none_iff_exists'.mp (hcarried.bouncers b hb).localIP
  exact ⟨⟨listen, hlisten, hlistenValid⟩, hedited.listenPort,
    ⟨by simp [hremote], by rw [hremote, hvalid]⟩, hedited.remotePort,
    ⟨ip, hip, hedited.localIP ip hip⟩⟩

/-- **The daemon loads an edited config exactly when it is carried**, whatever the key and the
vector are. -/
theorem Config.Edited.agreement_iff_carried (h : config.Edited isValidHost) (key : Key)
    (iv : Block) : Agreement isValidHost config key iv ↔ config.Carried := by
  rw [h.agreement_iff, List.all_eq_true]
  constructor
  · rintro ⟨htext, loaded, hloaded, hoptions, hsame⟩
    exact h.carried_of_loadBuffer htext hloaded hoptions hsame
  · intro hcarried
    exact ⟨h.isTextChar_saveBuffer hcarried, _, h.loadBuffer_of_carried hcarried, rfl,
      config.bouncers, List.forall₂_same.mpr fun b _ => Or.inl rfl, List.reverse_perm _⟩

end agreement

namespace Editor

/-! ## Sessions -/

/-- What an accepted answer needs to reach the daemon: a port is a port number as it stands, not
only once narrowed; there is a local ip; texts are not empty; and hosts and texts are clean. -/
def Stage.Carries : Stage → Bytes → Prop
  | .bouncerListen, value => 0 ≤ (endpointOf value).port ∧ (endpointOf value).port ≤ 65535
  | .bouncerRemote, value =>
      (0 ≤ (endpointOf value).port ∧ (endpointOf value).port ≤ 65535) ∧
        ∀ host ∈ (endpointOf value).host, IsClean host
  | .bouncerLocal, value => strcasecmpEq value (ascii "None") = false
  | .pidFile, value => value ≠ ascii "none" → value ≠ [] ∧ IsClean value
  | .welcomeMsg, value => value ≠ ascii "none" → value ≠ [] ∧ IsClean value
  | _, _ => True

instance : ∀ q value, Decidable (Stage.Carries q value)
  | .bouncerListen, _ => inferInstanceAs (Decidable (_ ∧ _))
  | .bouncerRemote, _ => inferInstanceAs (Decidable ((_ ∧ _) ∧ ∀ _ ∈ _, IsClean _))
  | .bouncerLocal, _ => inferInstanceAs (Decidable (_ = _))
  | .pidFile, _ => inferInstanceAs (Decidable (_ ≠ _ → _ ∧ _))
  | .welcomeMsg, _ => inferInstanceAs (Decidable (_ ≠ _ → _ ∧ _))
  | .bouncerNext, _ => .isTrue trivial
  | .bouncerAnother, _ => .isTrue trivial
  | .idnt, _ => .isTrue trivial
  | .identTimeout, _ => .isTrue trivial
  | .idleTimeout, _ => .isTrue trivial
  | .writeTimeout, _ => .isTrue trivial
  | .dnsLookup, _ => .isTrue trivial
  | .password, _ => .isTrue trivial
  | .past, _ => .isTrue trivial

def Entry.Survives (e : Entry) : Prop := e.stage.Carries e.value

instance : DecidablePred Entry.Survives := fun e =>
  inferInstanceAs (Decidable (e.stage.Carries e.value))

/-- An answer holds no NUL. -/
theorem Entry.value_ne_zero (e : Entry) : ∀ c ∈ e.value, c ≠ 0 := by
  have hdefault : ∀ c ∈ e.stage.defaultValue.getD [], c ≠ 0 := by
    cases e.stage <;> decide
  unfold Entry.value promptInput
  split
  · simp
  · next buffer _ =>
      simp only
      split
      · exact hdefault
      · exact fun _ hc => ne_zero_of_mem_cstr ((List.rdropWhile_prefix _ _).subset hc)

section sessions

variable {isValidHost : Option Bytes → Bool} {alloc : Bool} {log : List Entry} {s : Editor}

/-- The host of an answer is a part of it in front of a colon. -/
theorem endpointOf_host {value host : Bytes} (h : (endpointOf value).host = some host) :
    host ≠ [] ∧ ∀ c ∈ host, c ≠ colon ∧ c ∈ value := by
  obtain ⟨hne, hmem, -⟩ := strtok_eq_some (Prod.ext (h : (strtok colon value).1 = some host) rfl)
  exact ⟨hne, hmem⟩

/-- The endpoint of an accepted answer. -/
theorem EndpointValid.endpointOf {valid : Bytes → Bool} {value : Bytes}
    (h : EndpointValid valid value) : ∃ host, (endpointOf value).host = some host ∧
      valid host = true ∧ isValidPort (endpointOf value).port = true := by
  obtain ⟨host, port, htokens, hvalid, -, hport⟩ := h
  exact ⟨host, by simp [Editor.endpointOf, htokens], hvalid, by
    simpa [Editor.endpointOf, htokens] using hport⟩

/-- The bouncer of three accepted answers. -/
theorem bouncerOf_edited {l r o : Entry} (hl : l.stage = .bouncerListen)
    (hr : r.stage = .bouncerRemote) (ho : o.stage = .bouncerLocal) (hvl : l.Valid isValidHost)
    (hvr : r.Valid isValidHost) (hvo : o.Valid isValidHost) :
    (bouncerOf l r o).Edited isValidHost := by
  rw [Entry.Valid, hl] at hvl
  rw [Entry.Valid, hr] at hvr
  rw [Entry.Valid, ho] at hvo
  obtain ⟨ip, hip, hipValid, hlisten⟩ := EndpointValid.endpointOf hvl
  obtain ⟨host, hhost, hhostValid, hremote⟩ := EndpointValid.endpointOf hvr
  refine ⟨⟨ip, hip, hipValid, fun c hc => ((endpointOf_host hip).2 c hc).1⟩, hlisten,
    ⟨host, hhost, (endpointOf_host hhost).1, hhostValid, fun c hc => ?_⟩, hremote, ?_⟩
  · obtain ⟨hcolon, hmem⟩ := (endpointOf_host hhost).2 c hc
    exact ⟨r.value_ne_zero c hmem, hcolon⟩
  · intro ip hip
    simp only [bouncerOf, localOf] at hip
    split_ifs at hip with hnone
    · cases hip
    · obtain rfl := Option.some.inj hip
      exact hvo.resolve_left hnone

/-- It is carried exactly when the three answers are. -/
theorem bouncerOf_carried {l r o : Entry} (hl : l.stage = .bouncerListen)
    (hr : r.stage = .bouncerRemote) (ho : o.stage = .bouncerLocal) :
    (bouncerOf l r o).Carried ↔ l.Survives ∧ r.Survives ∧ o.Survives := by
  have hlocal : (bouncerOf l r o).localIP ≠ none ↔
      strcasecmpEq o.value (ascii "None") = false := by
    simp [bouncerOf, localOf]
  rw [Entry.Survives, Entry.Survives, Entry.Survives, hl, hr, ho]
  constructor
  · intro h
    exact ⟨h.listenPort, ⟨h.remotePort, h.remoteHost⟩, hlocal.mp h.localIP⟩
  · rintro ⟨h1, ⟨h2, h3⟩, h4⟩
    exact ⟨h1, h3, h2, hlocal.mpr h4⟩

/-- An answer about a bouncer leaves the options alone. -/
theorem apply_of_handStages {e : Entry} (h : e.stage ∈ handStages) (config : Options) :
    e.apply config = config := by
  simp only [handStages, List.mem_cons, List.not_mem_nil, or_false] at h
  unfold Entry.apply
  rcases h with h | h | h | h <;> rw [h]

/-- The options a session stands for are those of the answers after its rounds. -/
theorem applyAll_rounds {rounds : List Round}
    (h : ∀ r ∈ rounds, r.entries.map Entry.stage = handStages) (tail : List Entry) :
    applyAll (rounds.flatMap Round.entries ++ tail) = tail.foldl Entry.apply Options.new := by
  have hfold : ∀ (es : List Entry) (config : Options), (∀ e ∈ es, e.stage ∈ handStages) →
      es.foldl Entry.apply config = config := by
    intro es
    induction es with
    | nil => exact fun _ _ => rfl
    | cons e es ih =>
        intro config hes
        rw [List.foldl_cons, apply_of_handStages (hes e List.mem_cons_self)]
        exact ih config fun x hx => hes x (List.mem_cons_of_mem _ hx)
  rw [applyAll, List.foldl_append, hfold (rounds.flatMap Round.entries)]
  intro e he
  obtain ⟨r, hr, her⟩ := List.mem_flatMap.mp he
  exact h r hr ▸ List.mem_map_of_mem her

/-- The text an answer stands for. -/
def textOf (value : Bytes) : Option Bytes := if value = ascii "none" then none else some value

/-- The options of one accepted answer to each question. -/
theorem foldl_apply_options {tail : List Entry} (hvalid : ∀ e ∈ tail, e.Valid isValidHost)
    (htail : tail.map Entry.stage = optionStages) :
    ∃ ident idle write dnsLookup, ∃ pid ∈ tail, ∃ welcome ∈ tail,
      tail.foldl Entry.apply Options.new =
        ⟨true, ident, idle, write, dnsLookup, textOf pid.value, textOf welcome.value⟩ ∧
      (0 ≤ ident ∧ ident < 2 ^ 31) ∧ (0 ≤ idle ∧ idle < 2 ^ 31) ∧ (0 ≤ write ∧ write < 2 ^ 31) ∧
      ((∀ e ∈ tail, e.Survives) ↔
        Stage.Carries .pidFile pid.value ∧ Stage.Carries .welcomeMsg welcome.value) := by
  simp only [optionStages, List.map_eq_cons_iff, List.map_eq_nil_iff] at htail
  obtain ⟨ident, _, rfl, h1, idle, _, rfl, h2, write, _, rfl, h3, dns, _, rfl, h4, pid, _, rfl, h5,
    welcome, _, rfl, h6, password, _, rfl, h7, past, _, rfl, h8, rfl⟩ := htail
  simp only [List.mem_cons, List.not_mem_nil, or_false, forall_eq_or_imp, forall_eq] at hvalid ⊢
  obtain ⟨v1, v2, v3, v4, -⟩ := hvalid
  rw [Entry.Valid, h1] at v1
  rw [Entry.Valid, h2] at v2
  rw [Entry.Valid, h3] at v3
  rw [Entry.Valid, h4] at v4
  obtain ⟨i, hi, hi0⟩ := v1
  obtain ⟨j, hj, hj0⟩ := v2
  obtain ⟨k, hk, hk0⟩ := v3
  obtain ⟨b, hb⟩ := v4
  have hrange : ∀ {value : Bytes} {n : ℤ}, strToInt value = some n → n < 2 ^ 31 := by
    intro value n hn
    unfold strToInt at hn
    split_ifs at hn
    rw [← Option.some.inj hn]
    exact (toInt_mem _).2
  refine ⟨i, j, k, b, pid, by simp, welcome, by simp, ?_, ⟨hi0, hrange hi⟩, ⟨hj0, hrange hj⟩,
    ⟨hk0, hrange hk⟩, ?_⟩
  · simp only [List.foldl_cons, List.foldl_nil, Entry.apply, h1, h2, h3, h4, h5, h6, h7, h8, hi, hj,
      hk, hb, setTimeout, setBool, setString, textOf, Options.new]
    split_ifs <;> rfl
  · simp only [Entry.Survives, h1, h2, h3, h4, h5, h6, h7, h8]
    simp [Stage.Carries]

/-- The answers of a round are its bouncer. -/
theorem Round.At.carried_iff {r : Round} {i : ℕ} (h : r.At i) :
    r.bouncer.Carried ↔ ∀ e ∈ r.entries, e.Survives := by
  obtain ⟨hl, hremote, ho, ha⟩ := h.stage_eq
  rw [Round.bouncer, bouncerOf_carried hl hremote ho]
  have hanother : r.another.Survives := by
    rw [Entry.Survives, ha]
    trivial
  simp [Round.entries, hanother]

/-- Valid answers make an edited bouncer. -/
theorem Round.At.edited {r : Round} {i : ℕ} (h : r.At i)
    (hvalid : ∀ e ∈ r.entries, e.Valid isValidHost) : r.bouncer.Edited isValidHost := by
  obtain ⟨hl, hremote, ho, -⟩ := h.stage_eq
  exact bouncerOf_edited hl hremote ho (hvalid _ (by simp [Round.entries]))
    (hvalid _ (by simp [Round.entries])) (hvalid _ (by simp [Round.entries]))

/-- What survives of a text that may be none. -/
theorem carries_pidFile_iff (value : Bytes) :
    Stage.Carries .pidFile value ↔ ∀ t ∈ textOf value, t ≠ [] ∧ IsClean t := by
  unfold textOf
  split_ifs with hnone <;> simp [Stage.Carries, hnone]

/-- An answer holds no NUL, so a text that was answered does not. -/
theorem textOf_ne_zero (e : Entry) : ∀ t ∈ textOf e.value, ∀ c ∈ t, c ≠ 0 := by
  intro t ht
  unfold textOf at ht
  split_ifs at ht
  · cases ht
  · rw [← Option.some.inj ht]
    exact e.value_ne_zero

/-- **What a session that ends well built**: an edited config, which is carried exactly when every
accepted answer is. -/
theorem Completed.edited (hc : s.Completed) (h : Run isValidHost alloc log s) :
    ∃ config, s.built = some config ∧ config.Edited isValidHost ∧
      (config.Carried ↔ ∀ e ∈ accepted log, e.Survives) := by
  obtain ⟨rounds, tail, hagrees, hne, htail, hheap, hpast⟩ := hc.agrees h
  have hstages : ∀ r ∈ rounds, ∃ i, r.At i := by
    intro r hr
    obtain ⟨i, hi, rfl⟩ := List.getElem_of_mem hr
    exact ⟨i, hagrees.rounds_at i _ (by simp [hi])⟩
  have hmem : ∀ e, e ∈ accepted log ↔ (∃ r ∈ rounds, e ∈ r.entries) ∨ e ∈ tail := by
    simp [hagrees.accepted_eq]
  have hvalid : ∀ e, ((∃ r ∈ rounds, e ∈ r.entries) ∨ e ∈ tail) → e.Valid isValidHost := fun e he =>
    hagrees.valid e ((hmem e).mpr he)
  obtain ⟨ident, idle, write, dnsLookup, pid, hpid, welcome, hwelcome, hoptions, hident, hidle,
    hwrite, hsurvive⟩ := foldl_apply_options (fun e he => hvalid e (Or.inr he)) htail
  have hconfig : s.config =
      ⟨true, ident, idle, write, dnsLookup, textOf pid.value, textOf welcome.value⟩ := by
    obtain ⟨stale, hstale⟩ := hagrees.config
    rw [hstale, hpast, hagrees.accepted_eq, applyAll_rounds fun r hr => ?_, hoptions]
    · rfl
    · obtain ⟨i, hi⟩ := hstages r hr
      exact hi.stages
  refine ⟨_, hagrees.built hheap, ?_, ?_⟩
  · rw [hconfig]
    refine ⟨hident, hidle, hwrite, textOf_ne_zero pid, textOf_ne_zero welcome,
      by simpa using hne, ?_⟩
    intro b hb
    simp only [List.mem_reverse, List.mem_map] at hb
    obtain ⟨r, hr, rfl⟩ := hb
    obtain ⟨i, hi⟩ := hstages r hr
    exact hi.edited fun e he => hvalid e (Or.inl ⟨r, hr, he⟩)
  · -- the answers of a round are its bouncer, and those of the tail the two texts
    have hround : (∀ b ∈ (rounds.map Round.bouncer).reverse, b.Carried) ↔
        ∀ r ∈ rounds, ∀ e ∈ r.entries, e.Survives := by
      simp only [List.mem_reverse, List.forall_mem_map]
      refine forall₂_congr fun r hr => ?_
      obtain ⟨i, hi⟩ := hstages r hr
      exact hi.carried_iff
    have htail : (∀ e ∈ tail, e.Survives) ↔ (∀ t ∈ textOf pid.value, t ≠ [] ∧ IsClean t) ∧
        ∀ t ∈ textOf welcome.value, t ≠ [] ∧ IsClean t := by
      rw [hsurvive, carries_pidFile_iff]
      exact and_congr_right fun _ => carries_pidFile_iff welcome.value
    have hall : (∀ e ∈ accepted log, e.Survives) ↔
        (∀ r ∈ rounds, ∀ e ∈ r.entries, e.Survives) ∧ ∀ e ∈ tail, e.Survives := by
      simp only [hmem]
      constructor
      · exact fun h => ⟨fun r hr e he => h e (Or.inl ⟨r, hr, he⟩), fun e he => h e (Or.inr he)⟩
      · rintro ⟨h1, h2⟩ e (⟨r, hr, he⟩ | he)
        · exact h1 r hr e he
        · exact h2 e he
    rw [hall, htail, ← hround, hconfig]
    constructor
    · exact fun h => ⟨h.bouncers, h.pidFile, h.welcomeMsg⟩
    · exact fun h => ⟨h.2.1, h.2.2, h.1⟩

/-- **Editor and daemon agree on a session that ends well exactly when every accepted answer
survives**, whatever the key and the vector are. -/
theorem agreement_iff_survives (h : Run isValidHost alloc log s) (hc : s.Completed) (key : Key)
    (iv : Block) :
    (∃ config, s.built = some config ∧ Agreement isValidHost config key iv) ↔
      ∀ e ∈ accepted log, e.Survives := by
  obtain ⟨config, hbuilt, hedited, hcarried⟩ := hc.edited h
  rw [← hcarried, ← hedited.agreement_iff_carried key iv]
  constructor
  · rintro ⟨config', hbuilt', hagree⟩
    rw [hbuilt] at hbuilt'
    rwa [Option.some.inj hbuilt']
  · exact fun hagree => ⟨config, hbuilt, hagree⟩

end sessions

/-- A session on which they agree. -/
theorem agreement_iff_survives_session : ∃ log s,
    replay numericHost (start true) session = some (log, s) ∧ s.Completed ∧
      ∀ key iv, ∃ config, s.built = some config ∧ Agreement numericHost config key iv := by
  obtain ⟨log, s, hreplay, hrun, hlog⟩ := exists_run numericHost session
    (fun r => decide r.2.Completed && decide (∀ e ∈ accepted r.1, e.Survives))
    (by decide +kernel)
  simp only [Bool.and_eq_true, decide_eq_true_eq] at hlog
  exact ⟨log, s, hreplay, hlog.1, fun key iv =>
    (agreement_iff_survives hrun hlog.1 key iv).mpr hlog.2⟩

/-- The same session with the default answer to the question for the local ip. -/
def defaultSession : List Input :=
  [typed "1.2.3.4:21", typed "5.6.7.8:21", typed "", typed "no", typed "", typed "", typed "",
    typed "", typed "", typed "", typed "password", typed ""]

/-- They do not agree on every session that ends well. -/
theorem not_agreement :
    ¬ ∀ (isValidHost : Option Bytes → Bool) (log : List Entry) (s : Editor),
      Run isValidHost true log s → s.Completed → ∀ (key : Key) (iv : Block),
        ∃ config, s.built = some config ∧ Agreement isValidHost config key iv := by
  intro hall
  obtain ⟨log, s, -, hrun, hlog⟩ := exists_run numericHost defaultSession
    (fun r => decide r.2.Completed && decide ¬ (∀ e ∈ accepted r.1, e.Survives))
    (by decide +kernel)
  simp only [Bool.and_eq_true, decide_eq_true_eq] at hlog
  obtain ⟨config, hbuilt, hedited, hcarried⟩ := Completed.edited hlog.1 hrun
  obtain ⟨config', hbuilt', hagree⟩ :=
    hall _ _ _ hrun hlog.1 (Vector.replicate 16 65) (Vector.replicate 8 7)
  rw [hbuilt] at hbuilt'
  obtain rfl := Option.some.inj hbuilt'
  exact hlog.2 (hcarried.mp ((hedited.agreement_iff_carried _ _).mp hagree))

/-! ## Keys -/

/-- The key bytes the editor's cipher reads: the password is copied into a zeroed array.
Source: `makeconf.c` `main`, the case `STAGE_PASSWORD`, and `encrypt` -/
def editorKey (password : Bytes) : Mem Key :=
  (Cursor.start (strncpy (List.replicate 17 0) password 16)).read xteaKeySize

/-- The key bytes the daemon's cipher reads: it is handed the buffer `getpass` returned.
Source: `main.c` `main`, `config.c` `Config_loadEmbedded`, `Config_decryptEmbedded` -/
def daemonKey (memory : Bytes) : Mem Key := (Cursor.start memory).read xteaKeySize

/-- The bytes of a key after the password are NULs. -/
def ZeroBehind (password memory : Bytes) : Prop :=
  ∀ i, password.length < i → i < xteaKeySize → memory[i]? = some 0

/-- The editor's key is the password cut off or filled up with NULs. -/
theorem editorKey_eq {password : Bytes} (hnul : ∀ c ∈ password, c ≠ 0) :
    ∃ key : Key, editorKey password = .ok key ∧
      key.toList = password.take 16 ++ List.replicate (16 - password.length) 0 := by
  let key : Key := ⟨(password.take 16 ++ List.replicate (16 - password.length) 0).toArray, by
    have h16 : xteaKeySize = 16 := rfl
    simp
    omega⟩
  refine ⟨key, ?_, rfl⟩
  rw [editorKey, strncpy, cstr_of_ne_zero hnul]
  exact Cursor.read_start key [0]

/-- **The keys are the same exactly when the bytes after the password are NULs**, as far as the key
reaches. -/
theorem key_agreement_iff {password : Bytes} (hnul : ∀ c ∈ password, c ≠ 0) (rest : Bytes) :
    daemonKey (password ++ 0 :: rest) = editorKey password ↔
      ZeroBehind password (password ++ 0 :: rest) := by
  obtain ⟨key, hkey, hbytes⟩ := editorKey_eq hnul
  rw [hkey, daemonKey, Cursor.read_eq_ok, hbytes]
  have hget : ∀ i, (password.take 16 ++ List.replicate (16 - password.length) 0)[i]? =
      if i < 16 then (if i < password.length then password[i]? else some 0) else none := by
    intro i
    rw [List.getElem?_append, List.length_take, List.getElem?_take, List.getElem?_replicate]
    split_ifs <;> first | rfl | omega
  have htake : ∀ i, ((password ++ 0 :: rest).take 16)[i]? =
      if i < 16 then (password ++ 0 :: rest)[i]? else none := fun i => List.getElem?_take
  constructor
  · intro heq i hlo hhi
    have hi := congrArg (·[i]?) heq
    simp only [Cursor.start] at hi
    rw [hget, htake, if_pos hhi, if_pos hhi, if_neg hlo.not_gt] at hi
    exact hi
  · intro hzero
    refine List.ext_getElem? fun i => ?_
    simp only [Cursor.start]
    rw [hget, htake]
    split_ifs with hhi hlo
    · exact List.getElem?_append_left hlo
    · rcases Nat.eq_or_lt_of_not_lt hlo with rfl | hlt
      · simp
      · exact hzero i hlt hhi
    · rfl

/-- A password of eight characters in a buffer that is clear behind it. -/
theorem key_agreement_iff_password :
    daemonKey (ascii "password" ++ 0 :: List.replicate 7 0) = editorKey (ascii "password") := by
  refine (key_agreement_iff (by decide) _).mpr fun i hlo hhi => ?_
  have hlen : (ascii "password").length = 8 := by decide
  rw [hlen] at hlo
  simp only [xteaKeySize] at hhi
  interval_cases i <;> rfl

/-- The keys of a long enough password need not be the same. -/
theorem not_key_agreement :
    ¬ ∀ (password rest : Bytes), (∀ c ∈ password, c ≠ 0) → minimumPasslen ≤ password.length →
      daemonKey (password ++ 0 :: rest) = editorKey password := by
  intro hall
  have heq := hall (ascii "password") (List.replicate 7 1) (by decide) (by decide)
  obtain ⟨key, hkey, hbytes⟩ := editorKey_eq (show ∀ c ∈ ascii "password", c ≠ 0 by decide)
  rw [hkey, daemonKey, Cursor.read_eq_ok, hbytes] at heq
  exact absurd heq (by decide)

/-! ## From the session to the daemon -/

section daemon

variable {isValidHost : Option Bytes → Bool} {alloc : Bool} {log : List Entry} {s : Editor}

theorem getpass_ne_zero (line : Option Bytes) : ∀ c ∈ getpass line, c ≠ 0 :=
  fun _ hc => ne_zero_of_mem_cstr ((List.rdropWhile_prefix _ _).subset hc)

/-- The password of a session that ends well is long enough, and the editor's key is that of the
password. -/
theorem Completed.key (hc : s.Completed) (h : Run isValidHost alloc log s) :
    ∃ e ∈ accepted log, e.stage = .password ∧ minimumPasslen ≤ (getpass e.input.line).length ∧
      (Cursor.start s.key).read xteaKeySize = editorKey (getpass e.input.line) := by
  obtain ⟨rounds, tail, hagrees, -, htail, -, -⟩ := hc.agrees h
  have hsame : ∀ (es : List Entry) (key : Bytes), (∀ e ∈ es, e.stage ≠ .password) →
      es.foldl (fun key e =>
        if e.stage = .password then strncpy key (getpass e.input.line) 16 else key) key = key := by
    intro es
    induction es with
    | nil => exact fun _ _ => rfl
    | cons e es ih =>
        intro key hes
        rw [List.foldl_cons, if_neg (hes e List.mem_cons_self)]
        exact ih key fun x hx => hes x (List.mem_cons_of_mem _ hx)
  have hrounds : ∀ e ∈ rounds.flatMap Round.entries, e.stage ≠ .password := by
    intro e he hs
    obtain ⟨r, hr, her⟩ := List.mem_flatMap.mp he
    obtain ⟨i, hi, rfl⟩ := List.getElem_of_mem hr
    have hmem := List.mem_map_of_mem (f := Entry.stage) her
    rw [(hagrees.rounds_at i _ (by simp [hi])).stages, hs] at hmem
    exact absurd hmem (by decide)
  -- the password is the last but one of the answers after the rounds
  simp only [optionStages, List.map_eq_cons_iff, List.map_eq_nil_iff] at htail
  obtain ⟨_, _, rfl, h1, _, _, rfl, h2, _, _, rfl, h3, _, _, rfl, h4, _, _, rfl, h5, _, _, rfl, h6,
    password, _, rfl, h7, _, _, rfl, h8, rfl⟩ := htail
  have hmem : password ∈ accepted log := by simp [hagrees.accepted_eq]
  have hlen := hagrees.valid password hmem
  rw [Entry.Valid, h7] at hlen
  refine ⟨password, hmem, h7, hlen, ?_⟩
  rw [hagrees.key, hagrees.accepted_eq, keyOf, List.foldl_append, hsame _ _ hrounds]
  simp only [List.foldl_cons, List.foldl_nil, h1, h2, h3, h4, h5, h6, h7, h8, reduceCtorEq,
    if_false, if_true]
  rfl

/-- **From the session to the daemon**: when every accepted answer survives and the buffer is clear
behind the password, the daemon starts with the config the session built. -/
theorem Completed.loads (hc : s.Completed) (h : Run isValidHost alloc log s)
    (hsurvive : ∀ e ∈ accepted log, e.Survives) (iv : Block) :
    ∃ e ∈ accepted log, e.stage = .password ∧ ∃ config confEmbedded, s.built = some config ∧
      embed (some iv.toList) s config = .ok (some confEmbedded) ∧
      ∀ rest, ZeroBehind (getpass e.input.line) (getpass e.input.line ++ 0 :: rest) →
        loadConfig isValidHost confEmbedded (getpass e.input.line ++ 0 :: rest) =
          .ok (.ok { config with bouncers := config.bouncers.reverse }) := by
  obtain ⟨e, he, hs, hlen, hkey⟩ := hc.key h
  obtain ⟨config, hbuilt, hedited, hcarried⟩ := hc.edited h
  have hcarry := hcarried.mpr hsurvive
  have hnul := getpass_ne_zero e.input.line
  obtain ⟨key, heditor, -⟩ := editorKey_eq hnul
  rw [heditor] at hkey
  refine ⟨e, he, hs, config, _, hbuilt, encrypt_eq hkey iv config.saveBuffer, fun rest hzero => ?_⟩
  obtain ⟨c, cs, hpassword⟩ : ∃ c cs, getpass e.input.line = c :: cs := by
    refine List.exists_cons_of_ne_nil fun hnil => ?_
    rw [hnil] at hlen
    exact absurd hlen (by decide)
  have hc0 : c ≠ 0 := hnul c (by simp [hpassword])
  have hdaemon : (Cursor.start (getpass e.input.line ++ 0 :: rest)).read xteaKeySize = .ok key :=
    ((key_agreement_iff hnul rest).mpr hzero).trans heditor
  have hpeek : (Cursor.start (getpass e.input.line ++ 0 :: rest)).peek 0 = .ok c := by
    rw [Cursor.peek_eq_ok, hpassword]
    rfl
  have htext : config.saveBuffer.all isTextChar = true :=
    List.all_eq_true.mpr (hedited.isTextChar_saveBuffer hcarry)
  simp only [loadConfig]
  rw [hpeek, Mem.ok_bind, if_neg hc0, hedited.loadEmbedded_container hdaemon iv, if_pos htext,
    hedited.loadBuffer_of_carried hcarry]

end daemon

end Editor

end Ebbnc
