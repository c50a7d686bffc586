import Ebbnc.ConfigCrash

/-!
# Config files: reading and printing

* `FileIs` — a stream that reads a file with some content; `GivenBack` — a run that closes its
  stream and gives its buffer back; **`loadFile_leaks`** — what a load from such a file comes to,
  whichever allocations fail.
* `Overflown` — a stream without a position; **`loadFile_crashes_iff`** — the runs in which a load
  from a file accesses what is not there.
* `Printed` — a string in a block of its own, or nothing;
  **`ConfigBlock.saveBuffer_allOrNothing`** — the printer in all its runs.
-/

namespace Ebbnc

open Lib

/-- What a stream answers that reads a file with this content. -/
def FileIs (content : Bytes) : LibcEvent → Prop
  | ⟨.ftell _, size⟩ => size = content.length
  | ⟨.fread _ _ size _, s⟩ => s.1 = content.take size
  | ⟨.ferror _, error⟩ => error = false
  | _ => True

/-- What the load of a file comes to, and how many blocks stay that nothing points to any more. -/
inductive FileLoaded (isValidHost : Option Bytes → Bool) (content : Bytes) :
    Except LoadError ConfigBlock → ℕ → Bool → Prop
  | unableToOpen : FileLoaded isValidHost content (.error .unableToOpen) 0 false
  | unableToLoad : FileLoaded isValidHost content (.error .unableToLoad) 0 true
  | empty (h : content = []) : FileLoaded isValidHost content (.error .unknownError) 0 false
  | read {r : Except LoadError ConfigBlock} {n : ℕ} {short : Bool} (hne : content ≠ [])
      (h : Loaded isValidHost (cstr content) r n short) : FileLoaded isValidHost content r n short

/-- A size that a `long` can hold. -/
theorem toSize_ofNat {n : ℕ} (h : n < 2 ^ 64) : toSize n = n := by
  unfold toSize
  omega

/-- The file is closed and the buffer given back. -/
theorem loadFile_accounted {isValidHost : Option Bytes → Bool} {content : Bytes}
    (hcontent : content.length < 2 ^ 63) (path : Bytes) :
    Program.Sim (libcResources.Accounts LibcEvent.short)
      (fun _ e => LibcEvent.crash e = false ∧ FileIs content e) (loadFile isValidHost path)
      ⟨0, false⟩ fun r s => ∃ lost : Multiset Pointer,
        FileLoaded isValidHost content r lost.card s.noted ∧ s.held = loadedBlocks r + lost := by
  have hsize : toSize content.length = content.length := toSize_ofNat (by omega)
  have hcapacity : toSize ((content.length : ℤ) + 1) = content.length + 1 :=
    @toSize_ofNat (content.length + 1) (by omega)
  unfold loadFile
  refine Program.Sim.call fun fp _ => ?_
  cases fp with
  | none =>
      refine ⟨_, .use rfl rfl (by intro r hr; cases hr) rfl, 0, .unableToOpen, rfl⟩
  | some fp =>
  refine ⟨_, .make rfl rfl (by intro r hr; cases hr) rfl, ?_⟩
  have hfp : ∀ r ∈ [some fp], r ∈ some fp ::ₘ (0 : Multiset Pointer) := by simp
  refine Program.Sim.call fun _ _ => ⟨_, .use rfl rfl hfp rfl, ?_⟩
  refine Program.Sim.call fun size hsizeLaw => ⟨_, .use rfl rfl hfp rfl, ?_⟩
  obtain rfl : size = content.length := hsizeLaw.2
  refine Program.Sim.call fun _ _ => ⟨_, .use rfl rfl hfp rfl, ?_⟩
  refine Program.Sim.call fun buffer _ => ?_
  cases buffer with
  | none =>
      refine ⟨_, .noted rfl rfl (by intro r hr; cases hr) rfl, ?_⟩
      refine Program.Sim.call fun _ _ => ⟨_, .finish rfl rfl hfp rfl rfl, 0, .unableToLoad, rfl⟩
  | some buffer =>
  refine ⟨_, .make rfl rfl (by intro r hr; cases hr) rfl, ?_⟩
  refine Program.Sim.call fun s hread => ?_
  obtain ⟨s, hs⟩ := s
  obtain rfl : s = content := by
    have htake : s = content.take (toSize content.length) := hread.2
    rwa [hsize, List.take_length] at htake
  have hheld : some buffer ::ₘ some fp ::ₘ (0 : Multiset Pointer) = some fp ::ₘ {some buffer} :=
    Multiset.cons_swap _ _ _
  have hfp' : ∀ r ∈ [some fp], r ∈ some buffer ::ₘ some fp ::ₘ (0 : Multiset Pointer) := by simp
  have hbuffer : ∀ r ∈ [some buffer], r ∈ ({some buffer} : Multiset Pointer) := by simp
  have hroom : ¬ toSize ((s.length : ℤ) + 1) < s.length := by omega
  have huses : libcResources.uses ⟨.fread (some buffer) (toSize ((s.length : ℤ) + 1))
      (toSize s.length) (some fp), ⟨s, hs⟩⟩ = [some buffer, some fp] := if_neg hroom
  refine ⟨_, .use rfl rfl ?_ rfl, ?_⟩
  · intro r hr
    rw [huses] at hr
    simpa using hr
  dsimp only
  by_cases hnil : s = []
  · have hcond : ¬ (toSize s.length ≠ 0 ∧ s.length = toSize s.length) := by
      rw [hsize]
      simp [hnil]
    rw [if_neg hcond]
    refine Program.Sim.call fun _ _ => ⟨_, .finish rfl rfl hfp' rfl hheld, ?_⟩
    refine Program.Sim.call fun _ _ => ⟨_, .finish rfl rfl hbuffer rfl rfl, 0, .empty hnil, rfl⟩
  · have hcond : toSize s.length ≠ 0 ∧ s.length = toSize s.length := by
      rw [hsize]
      simpa using hnil
    rw [if_pos hcond]
    refine Program.Sim.call fun error herror => ⟨_, .use rfl rfl hfp' rfl, ?_⟩
    obtain rfl : error = false := herror.2
    refine Program.Sim.call fun _ _ => ⟨_, .finish rfl rfl hfp' rfl hheld, ?_⟩
    refine ((@loadBufferIn_accounted isValidHost ⟨buffer, cstr s⟩ {some buffer}
      (Multiset.mem_singleton_self _)).of_law fun _ _ h => h.1).bind ?_
    rintro r ⟨held, noted⟩ ⟨lost, hloaded, rfl⟩
    have hlast : loadedBlocks r + (lost + {some buffer}) =
        some buffer ::ₘ (loadedBlocks r + lost) := by
      rw [← add_assoc, add_comm, Multiset.singleton_add]
    refine Program.Sim.call fun _ _ =>
      ⟨⟨loadedBlocks r + lost, noted⟩, .finish rfl rfl ?_ rfl hlast, lost, .read hnil hloaded, rfl⟩
    intro p hp
    rw [List.mem_singleton.mp hp, hlast]
    exact Multiset.mem_cons_self _ _

/-- The calls that open a file and look how long it is. -/
def opening (path : Bytes) (fp : ℕ) (size : ℤ) : List LibcEvent :=
  [⟨.fopen path, some fp⟩, ⟨.fseek (some fp) true, ()⟩, ⟨.ftell (some fp), size⟩,
    ⟨.fseek (some fp) false, ()⟩]

/-- The stream that is opened is closed, and the buffer for what is in the file is given back in the
end. What is lost is not the buffer, and is made when the stream is closed already. -/
inductive GivenBack : List LibcEvent → Multiset Pointer → Prop
  | unopened {path : Bytes} : GivenBack [⟨.fopen path, none⟩] 0
  | unread {path : Bytes} {fp n : ℕ} {size : ℤ} :
      GivenBack (opening path fp size ++ [⟨.calloc n, none⟩, ⟨.fclose (some fp), ()⟩]) 0
  | read {path : Bytes} {fp n buffer : ℕ} {size : ℤ} {reading es : List LibcEvent}
      {lost : Multiset Pointer}
      (hreading : ∀ e ∈ reading, libcResources.made e = none ∧ libcResources.ended e = none)
      (hlost : ∀ p ∈ lost, p ≠ some buffer ∧ ∃ e ∈ es, libcResources.made e = some p) :
      GivenBack (opening path fp size ++ ⟨.calloc n, some buffer⟩ ::
        (reading ++ ⟨.fclose (some fp), ()⟩ :: (es ++ [⟨.free (some buffer), ()⟩]))) lost

/-- What is held when the stream is closed is the buffer. -/
theorem eq_buffer_of_mem {path : Bytes} {fp n buffer : ℕ} {size : ℤ} {reading : List LibcEvent}
    (hreading : ∀ e ∈ reading, libcResources.made e = none ∧ libcResources.ended e = none)
    {p : Pointer} (hp : p ∈ libcResources.heldAfter [] (opening path fp size ++
      ⟨.calloc n, some buffer⟩ :: reading ++ [⟨.fclose (some fp), ()⟩])) : p = some buffer := by
  rw [Ledger.heldAfter_concat, Ledger.after, List.mem_append] at hp
  rcases hp with hp | hp
  · cases hp
  obtain ⟨hmem, hne⟩ := List.mem_filter.mp hp
  have hne : some fp ≠ p := by simpa [libcResources, LibcEvent.ended] using hne
  rcases Ledger.mem_heldAfter hmem with hnil | ⟨e, he, hmade⟩
  · cases hnil
  · rcases List.mem_append.mp he with he | he
    · simp only [opening, List.mem_cons, List.not_mem_nil, or_false] at he
      rcases he with rfl | rfl | rfl | rfl
      · exact absurd (Option.some.inj hmade) hne
      all_goals cases hmade
    · rcases List.mem_cons.mp he with rfl | he
      · exact (Option.some.inj hmade).symm
      · rw [(hreading e he).1] at hmade
        cases hmade

/-- A run that reads the file, and what is held after it. -/
theorem GivenBack.of_heldAfter {path : Bytes} {fp n buffer : ℕ} {size : ℤ}
    {reading es t : List LibcEvent} {part lost : Multiset Pointer}
    (hreading : ∀ e ∈ reading, libcResources.made e = none ∧ libcResources.ended e = none)
    (ht : t = opening path fp size ++ ⟨.calloc n, some buffer⟩ ::
      (reading ++ ⟨.fclose (some fp), ()⟩ :: (es ++ [⟨.free (some buffer), ()⟩])))
    (hafter : (libcResources.heldAfter [] t : Multiset Pointer) = part + lost) :
    GivenBack t lost := by
  subst ht
  refine .read hreading fun p hp => ?_
  have hmem : p ∈ libcResources.heldAfter [] (opening path fp size ++
      ⟨.calloc n, some buffer⟩ :: reading ++ [⟨.fclose (some fp), ()⟩] ++ es ++
        [⟨.free (some buffer), ()⟩]) := by
    rw [← Multiset.mem_coe]
    simp only [List.append_assoc, List.cons_append, List.nil_append]
    rw [hafter]
    exact Multiset.mem_add.mpr (Or.inr hp)
  rw [Ledger.heldAfter_concat, Ledger.after, List.mem_append] at hmem
  rcases hmem with hmem | hmem
  · cases hmem
  obtain ⟨hmem, hne⟩ := List.mem_filter.mp hmem
  have hne : some buffer ≠ p := by simpa [libcResources, LibcEvent.ended] using hne
  rw [Ledger.heldAfter_append] at hmem
  rcases Ledger.mem_heldAfter hmem with hheld | hmade
  · exact absurd (eq_buffer_of_mem hreading hheld).symm hne
  · exact ⟨hne.symm, hmade⟩

/-- The rest of a run from where the file has been read. -/
theorem GivenBack.of_close {isValidHost : Option Bytes → Bool} {path content : Bytes}
    {fp n buffer : ℕ} {size : ℤ} {reading t t' : List LibcEvent} {okay : Bool}
    {r : Except LoadError ConfigBlock} {part lost : Multiset Pointer}
    (hreading : ∀ e ∈ reading, libcResources.made e = none ∧ libcResources.ended e = none)
    (hclose : Program.Trace (do
      libc (.fclose (some fp))
      if okay then do
        let config ← loadBufferIn isValidHost ⟨buffer, cstr content⟩
        libc (.free (some buffer))
        pure config
      else do
        libc (.free (some buffer))
        pure (.error .unknownError)) t' (some r))
    (ht : t = opening path fp size ++ ⟨.calloc n, some buffer⟩ :: (reading ++ t'))
    (hafter : (libcResources.heldAfter [] t : Multiset Pointer) = part + lost) :
    GivenBack t lost := by
  obtain ⟨_, t₁, rfl, ht₁⟩ := Program.trace_call.mp hclose
  cases okay with
  | true =>
      obtain ⟨config, es, t₂, rfl, -, ht₂⟩ := Program.trace_bind.mp ht₁
      obtain ⟨_, t₃, rfl, ht₃⟩ := Program.trace_call.mp ht₂
      obtain ⟨rfl, -⟩ := Program.trace_pure.mp ht₃
      exact .of_heldAfter hreading ht hafter
  | false =>
      obtain ⟨_, t₂, rfl, ht₂⟩ := Program.trace_call.mp ht₁
      obtain ⟨rfl, -⟩ := Program.trace_pure.mp ht₂
      have ht' : t = opening path fp size ++ ⟨.calloc n, some buffer⟩ ::
          (reading ++ ⟨.fclose (some fp), ()⟩ :: ([] ++ [⟨.free (some buffer), ()⟩])) := ht
      exact .of_heldAfter hreading ht' hafter

/-- The stream and the buffer, in every run. -/
theorem loadFile_givenBack {isValidHost : Option Bytes → Bool} {path : Bytes}
    {t : List LibcEvent} {r : Except LoadError ConfigBlock} {part lost : Multiset Pointer}
    (ht : Program.Trace (loadFile isValidHost path) t (some r))
    (hafter : (libcResources.heldAfter [] t : Multiset Pointer) = part + lost) :
    GivenBack t lost := by
  have hnone (hnil : libcResources.heldAfter [] t = []) : lost = 0 := by
    refine Multiset.eq_zero_of_forall_notMem fun p hp => ?_
    have hmem : p ∈ part + lost := Multiset.mem_add.mpr (Or.inr hp)
    rw [← hafter, hnil] at hmem
    exact List.not_mem_nil hmem
  obtain ⟨fp, t₁, rfl, ht₁⟩ := Program.trace_call.mp ht
  cases fp with
  | none =>
      obtain ⟨rfl, -⟩ := Program.trace_pure.mp ht₁
      rw [hnone rfl]
      exact .unopened
  | some fp =>
  obtain ⟨_, t₂, rfl, ht₂⟩ := Program.trace_call.mp ht₁
  obtain ⟨size, t₃, rfl, ht₃⟩ := Program.trace_call.mp ht₂
  obtain ⟨_, t₄, rfl, ht₄⟩ := Program.trace_call.mp ht₃
  obtain ⟨buffer, t₅, rfl, ht₅⟩ := Program.trace_call.mp ht₄
  cases buffer with
  | none =>
      obtain ⟨_, t₆, rfl, ht₆⟩ := Program.trace_call.mp ht₅
      obtain ⟨rfl, -⟩ := Program.trace_pure.mp ht₆
      rw [hnone (by simp [Ledger.heldAfter, Ledger.after, libcResources, LibcEvent.made,
        LibcEvent.ended])]
      exact .unread
  | some buffer =>
  obtain ⟨content, t₆, rfl, ht₆⟩ := Program.trace_call.mp ht₅
  by_cases hcond : toSize size ≠ 0 ∧ content.1.length = toSize size
  · rw [if_pos hcond] at ht₆
    obtain ⟨error, t₇, rfl, ht₇⟩ := Program.trace_call.mp ht₆
    have hreading : ∀ e ∈ ([⟨.fread (some buffer) (toSize (size + 1)) (toSize size) (some fp),
        content⟩, ⟨.ferror (some fp), error⟩] : List LibcEvent),
        libcResources.made e = none ∧ libcResources.ended e = none := by
      simp [libcResources, LibcEvent.made, LibcEvent.ended]
    exact .of_close hreading ht₇ rfl hafter
  · rw [if_neg hcond] at ht₆
    have hreading : ∀ e ∈ ([⟨.fread (some buffer) (toSize (size + 1)) (toSize size) (some fp),
        content⟩] : List LibcEvent),
        libcResources.made e = none ∧ libcResources.ended e = none := by
      simp [libcResources, LibcEvent.made, LibcEvent.ended]
    exact .of_close hreading ht₆ rfl hafter

/-- **The memory of a load from a file** of this content: in every run in which the stream answers
as such a file does and nothing is accessed through a null pointer, the stream is closed and the
buffer given back, whatever fails, and what is loaded is the text up to the first NUL. A file of no
bytes is refused. -/
theorem loadFile_leaks {isValidHost : Option Bytes → Bool} {content path : Bytes}
    (hcontent : content.length < 2 ^ 63) {t : List LibcEvent} {r : Except LoadError ConfigBlock}
    (ht : Program.Trace (loadFile isValidHost path) t (some r))
    (hfile : ∀ e ∈ t, FileIs content e) (hfresh : libcResources.Fresh [] t) :
    (libcResources.Careful [] t ↔ ∀ e ∈ t, LibcEvent.crash e = false) ∧
      (libcResources.Careful [] t → ∃ lost : Multiset Pointer,
        FileLoaded isValidHost content r lost.card (t.any LibcEvent.short) ∧
        libcResources.heldAfter [] t = loadedBlocks r + lost ∧ GivenBack t lost) := by
  have hcrash (h : libcResources.Careful [] t) := crash_of_careful h List.not_mem_nil
  have haccount (h : ∀ e ∈ t, LibcEvent.crash e = false) :=
    Ledger.account_of_sim (P := fun e => LibcEvent.crash e = false ∧ FileIs content e)
      (loadFile_accounted hcontent path) ht (fun e he => ⟨h e he, hfile e he⟩) List.nodup_nil hfresh
  refine ⟨⟨hcrash, fun h => (haccount h).1⟩, fun h => ?_⟩
  obtain ⟨lost, hloaded, hafter⟩ := (haccount (hcrash h)).2 r rfl
  exact ⟨lost, hloaded, hafter, loadFile_givenBack ht hafter⟩

/-- A load of a file with one line. -/
def commentRun : List LibcEvent :=
  [⟨.fopen (ascii "ebbnc.conf"), some 1⟩, ⟨.fseek (some 1) true, ()⟩,
    ⟨.ftell (some 1), (1 : ℤ)⟩, ⟨.fseek (some 1) false, ()⟩, ⟨.calloc 2, some 2⟩,
    ⟨.fread (some 2) 2 1 (some 1), ⟨ascii "#", by decide⟩⟩, ⟨.ferror (some 1), false⟩,
    ⟨.fclose (some 1), ()⟩, ⟨.calloc sizeofConfig, none⟩, ⟨.free (some 2), ()⟩]

theorem trace_commentRun :
    Program.Trace (loadFile numericHost (ascii "ebbnc.conf")) commentRun
      (some (.error .unableToLoad)) := by
  unfold commentRun
  repeat refine .call _ ?_
  exact .ret _

/-- There is no memory for a config; the stream and the buffer are given back all the same. -/
theorem loadFile_leaks_comment :
    (libcResources.Careful [] commentRun ↔ ∀ e ∈ commentRun, LibcEvent.crash e = false) ∧
      (libcResources.Careful [] commentRun → ∃ lost : Multiset Pointer,
        FileLoaded numericHost (ascii "#") (.error .unableToLoad) lost.card true ∧
        libcResources.heldAfter [] commentRun = (0 : Multiset Pointer) + lost ∧
        GivenBack commentRun lost) :=
  loadFile_leaks (by decide) trace_commentRun (by simp [commentRun, FileIs, ascii]) (by decide)

/-! ## Files without a size -/

/-- A stream that has no position, a pipe say, and from which something can be read. -/
def Overflown (t : List LibcEvent) : Prop :=
  ∃ fp buffer s, (⟨.ftell fp, (-1 : ℤ)⟩ : LibcEvent) ∈ t ∧
    (⟨.fread buffer (toSize 0) (toSize (-1)) fp, s⟩ : LibcEvent) ∈ t ∧ s.1 ≠ []

/-- What `ftell` may return. -/
def TellsSize : LibcEvent → Prop
  | ⟨.ftell _, size⟩ => -1 ≤ size ∧ size < 2 ^ 63 - 1
  | _ => True

/-- Only where there is no size, more bytes are asked for than there is room for. -/
theorem eq_neg_one_of_toSize_lt {size : ℤ} {n : ℕ} (hsize : -1 ≤ size ∧ size < 2 ^ 63 - 1)
    (hle : n ≤ toSize size) (hlt : toSize (size + 1) < n) : size = -1 := by
  unfold toSize at hle hlt
  omega

theorem Overflown.append {t : List LibcEvent} (h : Overflown t) (t' : List LibcEvent) :
    Overflown (t ++ t') := by
  obtain ⟨fp, buffer, s, htell, hread, hne⟩ := h
  exact ⟨fp, buffer, s, List.mem_append_left _ htell, List.mem_append_left _ hread, hne⟩

/-- What is read is stored behind the end of a buffer of no bytes. -/
theorem Overflown.crash {t : List LibcEvent} (h : Overflown t) :
    ∃ e ∈ t, LibcEvent.crash e = true := by
  obtain ⟨fp, buffer, s, -, hread, hne⟩ := h
  refine ⟨_, hread, ?_⟩
  have hlt : toSize 0 < s.1.length := List.length_pos_of_ne_nil hne
  rw [LibcEvent.crash, LibcEvent.uses, if_pos hlt]
  simp

/-- A run from which nothing follows. -/
theorem overflown_stays {α : Type} {Law : List LibcEvent → LibcEvent → Prop} {p : Libc α}
    {t : List LibcEvent} (h : Overflown t) :
    Program.Sim (Program.Recorder fun _ _ => True) Law p t fun _ t' => Overflown t' := by
  induction p generalizing t with
  | ret a => exact h
  | call c k ih => exact fun r _ => ⟨_, ⟨trivial, rfl⟩, ih r (h.append _)⟩

/-- A run in which nothing is accessed that is not there, and which is not doomed. -/
def Harmless (t : List LibcEvent) : Prop :=
  (∀ e ∈ t, LibcEvent.crash e = false) ∧ ¬ Doomed t

theorem Unharmed.harmless {t : List LibcEvent} (h : Unharmed t) : Harmless t :=
  ⟨h.sound, h.not_doomed⟩

/-- Two more events are too few for a first token to be stored in a bouncer that is not there. -/
theorem Unharmed.harmless_two {t : List LibcEvent} (h : Unharmed t) {e e' : LibcEvent}
    (he : LibcEvent.crash e = false) (he' : LibcEvent.crash e' = false) :
    Harmless (t ++ [e] ++ [e']) := by
  refine ⟨fun x hx => ?_, ?_⟩
  · simp only [List.mem_append, List.mem_singleton] at hx
    rcases hx with (hx | rfl) | rfl
    · exact h.sound x hx
    · exact he
    · exact he'
  · rintro ⟨t₁, q, s, p, t₂, heq, htoken⟩
    rcases concat_eq_append_cons heq with ⟨-, hnil⟩ | ⟨t₃, hrest, heq⟩
    · cases hnil
    rcases concat_eq_append_cons heq with ⟨-, rfl⟩ | ⟨t₄, rfl, rfl⟩
    · have hlength := congrArg List.length hrest
      simp at hlength
    · obtain ⟨q', s', p', t₅, rfl, hp⟩ := h.followed _ _ rfl
      exact htoken (no_token hrest hp)

/-- A call that accesses nothing that is not there. -/
theorem Unharmed.call {α : Type} {t : List LibcEvent} (ht : Unharmed t) {c : LibcCall}
    {f : LibcReply c → Libc α} {Q : α → List LibcEvent → Prop}
    (hc : ∀ r, LibcEvent.crash ⟨c, r⟩ = false ∧
      (⟨c, r⟩ : LibcEvent) ≠ ⟨.calloc sizeofBouncer, none⟩)
    (hf : ∀ r t', TellsSize ⟨c, r⟩ → Unharmed t' → t' = t ++ [⟨c, r⟩] →
      Program.Sim (Program.Recorder fun _ _ => True) (fun _ e => TellsSize e) (f r) t' Q) :
    Program.Sim (Program.Recorder fun _ _ => True) (fun _ e => TellsSize e) (libc c >>= f) t Q :=
  Program.Sim.call fun r hr =>
    ⟨_, ⟨trivial, rfl⟩, hf r _ hr (ht.concat (hc r).1 (hc r).2) rfl⟩

/-- A load from a file, up to the load of the buffer and from there on. -/
theorem loadFile_tracked {isValidHost : Option Bytes → Bool} (path : Bytes) :
    Program.Sim (Program.Recorder fun _ _ => True) (fun _ e => TellsSize e)
      (loadFile isValidHost path) [] fun _ t' => Harmless t' ∨ Crashed t' ∨ Overflown t' := by
  unfold loadFile
  refine Unharmed.nil.call (fun _ => ⟨rfl, by simp⟩) fun fp t _ ht _ => ?_
  cases fp with
  | none => exact Or.inl ht.harmless
  | some fp =>
  refine ht.call (fun _ => ⟨rfl, by simp⟩) fun _ t _ ht _ => ?_
  refine ht.call (fun _ => ⟨rfl, by simp⟩) fun size t hsize ht htell => ?_
  have htell : (⟨.ftell (some fp), size⟩ : LibcEvent) ∈ t := by simp [htell]
  refine ht.call (fun _ => ⟨rfl, by simp⟩) fun _ t' _ ht ht' => ?_
  have htell : (⟨.ftell (some fp), size⟩ : LibcEvent) ∈ t' := by
    rw [ht']
    exact List.mem_append_left _ htell
  refine Program.Sim.call fun buffer _ => ⟨_, ⟨trivial, rfl⟩, ?_⟩
  cases buffer with
  | none =>
      exact Program.Sim.call fun _ _ => ⟨_, ⟨trivial, rfl⟩, Or.inl (ht.harmless_two rfl rfl)⟩
  | some buffer =>
  have ht'' : Unharmed (t' ++ [⟨.calloc (toSize (size + 1)), some buffer⟩]) := by
    refine ht.concat rfl fun h => ?_
    exact Bool.false_ne_true (congrArg LibcEvent.short h)
  refine Program.Sim.call fun s _ => ⟨_, ⟨trivial, rfl⟩, ?_⟩
  by_cases hover : toSize (size + 1) < s.1.length
  · -- there is room for all but what comes from a stream without a position
    obtain rfl : size = -1 := eq_neg_one_of_toSize_lt hsize s.2 hover
    refine Program.Sim.mono (overflown_stays ?_) fun _ _ h => Or.inr (Or.inr h)
    refine ⟨some fp, some buffer, s, by simp [htell], by simp, ?_⟩
    intro hnil
    rw [hnil] at hover
    exact absurd hover (Nat.not_lt_zero _)
  · have hread : Unharmed (t' ++ [⟨.calloc (toSize (size + 1)), some buffer⟩] ++
        [⟨.fread (some buffer) (toSize (size + 1)) (toSize size) (some fp), s⟩]) := by
      refine ht''.concat ?_ (by simp)
      simp [LibcEvent.crash, LibcEvent.uses, hover]
    split_ifs
    · refine hread.call (fun _ => ⟨rfl, by simp⟩) fun error t _ ht _ => ?_
      refine ht.call (fun _ => ⟨rfl, by simp⟩) fun _ t _ ht _ => ?_
      cases error with
      | true =>
          exact ht.call (fun _ => ⟨rfl, by simp⟩) fun _ t _ ht _ => Or.inl ht.harmless
      | false =>
          refine Program.Sim.bind ((loadBufferIn_tracked _ ht).of_law fun _ _ _ => trivial) ?_
          rintro r t' ((ht' | rfl) | hcrashed)
          · exact ht'.call (fun _ => ⟨rfl, by simp⟩) fun _ t _ ht _ => Or.inl ht.harmless
          · exact Program.Sim.call fun _ _ =>
              ⟨_, ⟨trivial, rfl⟩, Or.inl (ht.harmless_two rfl rfl)⟩
          · exact Program.Sim.call fun _ _ =>
              ⟨_, ⟨trivial, rfl⟩, Or.inr (Or.inl (hcrashed.append _))⟩
    · refine hread.call (fun _ => ⟨rfl, by simp⟩) fun _ t _ ht _ => ?_
      exact ht.call (fun _ => ⟨rfl, by simp⟩) fun _ t _ ht _ => Or.inl ht.harmless

/-- **When a load from a file accesses what is not there**: in the doomed runs, and when the file
has no size and is not empty, a pipe say, whose bytes go into a buffer that has no room for any. -/
theorem loadFile_crashes_iff {isValidHost : Option Bytes → Bool} {path : Bytes}
    {t : List LibcEvent} {r : Except LoadError ConfigBlock}
    (ht : Program.Trace (loadFile isValidHost path) t (some r)) (hsize : ∀ e ∈ t, TellsSize e) :
    (∃ e ∈ t, LibcEvent.crash e = true) ↔ Doomed t ∨ Overflown t := by
  obtain ⟨t', hpath, hend⟩ := (loadFile_tracked path).path ht
    fun _ e _ heq _ _ => hsize e (by simp [heq])
  obtain ⟨rfl, -⟩ := Program.Recorder.of_path hpath
  have hover (h : Overflown t') : ∃ e ∈ t', LibcEvent.crash e = true := h.crash
  rcases hend r rfl with ⟨hsound, hdoomed⟩ | hcrashed | hoverflown
  · have hno : ¬ ∃ e ∈ t', LibcEvent.crash e = true := by
      rintro ⟨e, he, hcrash⟩
      rw [hsound e he] at hcrash
      cases hcrash
    refine iff_of_false hno ?_
    rintro (h | h)
    · exact hdoomed h
    · exact hno (hover h)
  · exact iff_of_true hcrashed.2 (Or.inl hcrashed.1)
  · exact iff_of_true (hover hoverflown) (Or.inr hoverflown)

/-- A load from a pipe. -/
def pipeRun : List LibcEvent :=
  [⟨.fopen (ascii "/dev/stdin"), some 1⟩, ⟨.fseek (some 1) true, ()⟩,
    ⟨.ftell (some 1), (-1 : ℤ)⟩, ⟨.fseek (some 1) false, ()⟩, ⟨.calloc 0, some 2⟩,
    ⟨.fread (some 2) (toSize 0) (toSize (-1)) (some 1), ⟨ascii "#", by decide⟩⟩,
    ⟨.fclose (some 1), ()⟩, ⟨.free (some 2), ()⟩]

theorem trace_pipeRun :
    Program.Trace (loadFile numericHost (ascii "/dev/stdin")) pipeRun
      (some (.error .unknownError)) := by
  unfold pipeRun
  repeat refine .call _ ?_
  exact .ret _

/-- What comes through the pipe is stored behind the end of the buffer. -/
theorem loadFile_crashes_iff_pipe :
    (∃ e ∈ pipeRun, LibcEvent.crash e = true) ↔ Doomed pipeRun ∨ Overflown pipeRun :=
  loadFile_crashes_iff trace_pipeRun (by simp [pipeRun, TellsSize])

/-! ## The printer -/

section save

variable {P : LibcEvent → Prop}

/-- Reading strings. -/
theorem readStrings_accounted {α : Type} {args : List (Option Str)} {held : Multiset Pointer}
    {noted : Bool} {f : Unit → Libc α} {Q : α → Account Pointer → Prop}
    (hargs : ∀ s, some s ∈ args → some s.block ∈ held) (hf : AccountedIf P (f ()) ⟨held, noted⟩ Q) :
    AccountedIf P (readStrings args >>= f) ⟨held, noted⟩ Q := by
  induction args with
  | nil => exact hf
  | cons arg args ih =>
      have hrest := ih fun s hs => hargs s (List.mem_cons_of_mem _ hs)
      cases arg with
      | none => exact hrest
      | some s => exact Accounted.access (hargs s List.mem_cons_self) hrest

/-- What a printer leaves: a string in a block of its own, or nothing when there is no memory. -/
def Printed (text : Bytes) (frame : Multiset Pointer) (noted : Bool) (r : Option Str)
    (s : Account Pointer) : Prop :=
  r = none ∧ s = ⟨frame, true⟩ ∨ ∃ p, r = some ⟨p, text⟩ ∧ s = ⟨{some p} + frame, noted⟩

/-- **Appending to a string**: it is gone in any case. -/
theorem strCatPrintfIn_accounted (s : Option Str) {args : List (Option Str)} (formatted : Bytes)
    {frame : Multiset Pointer} (hargs : ∀ s, some s ∈ args → some s.block ∈ frame) {noted : Bool} :
    AccountedIf P (strCatPrintfIn s args formatted) ⟨pointed (Str.ptr s) + frame, noted⟩
      (Printed (strCatPrintf (s.map Str.text) formatted) frame noted) := by
  have hmem (x : Multiset Pointer) : ∀ s, some s ∈ args → some s.block ∈ x + frame :=
    fun s hs => Multiset.mem_add.mpr (Or.inr (hargs s hs))
  unfold strCatPrintfIn
  refine readStrings_accounted (hmem _) (Accounted.calloc ?_ fun buf1 => ?_)
  · exact Accounted.free rfl (Or.inl ⟨rfl, rfl⟩)
  refine readStrings_accounted ?_ (Accounted.access (by simp) ?_)
  · intro s hs
    exact Multiset.mem_add.mpr (Or.inr (hmem _ s hs))
  cases s with
  | none =>
      refine Accounted.free (zero_add _).symm (Or.inr ⟨buf1, rfl, ?_⟩)
      simp
  | some s =>
      refine Accounted.access (by simp) (Accounted.calloc ?_ fun buf2 => ?_)
      · exact Accounted.free rfl (Accounted.free rfl (Or.inl ⟨rfl, rfl⟩))
      · refine Accounted.access (by simp) (Accounted.access (by simp)
          (Accounted.access (by simp) ?_))
        refine Accounted.free (R := {some buf2} + ({some s.block} + frame)) ?_ ?_
        · simp only [Str.ptr_some, pointed_some]
          abel
        · refine Accounted.free (R := {some buf2} + frame) ?_ (Or.inr ⟨buf2, rfl, rfl⟩)
          simp only [pointed_some]
          abel

/-- One line more of a printed config. -/
theorem Printed.bind {s : Str} {args : List (Option Str)} {formatted text : Bytes}
    {frame : Multiset Pointer} (hargs : ∀ s, some s ∈ args → some s.block ∈ frame) {noted : Bool}
    {f : Str → Libc (Option Str)}
    (hf : ∀ p, AccountedIf P (f ⟨p, s.text ++ formatted⟩) ⟨{some p} + frame, noted⟩
      (Printed text frame noted)) :
    AccountedIf P (do
      match ← strCatPrintfIn (some s) args formatted with
      | none => pure none
      | some s => f s) ⟨{some s.block} + frame, noted⟩ (Printed text frame noted) := by
  refine (strCatPrintfIn_accounted (some s) formatted hargs).bind ?_
  rintro r _ (⟨rfl, rfl⟩ | ⟨p, rfl, rfl⟩)
  · exact Or.inl ⟨rfl, rfl⟩
  · exact hf p

/-- The bouncers. -/
theorem saveBouncers_accounted {bs : List BouncerBlock} {frame : Multiset Pointer} {noted : Bool}
    (hbs : ∀ p ∈ (bs.map BouncerBlock.blocks).sum, p ∈ frame) (hblock : ∀ b ∈ bs, b.block ≠ none)
    (buffer : Str) :
    AccountedIf P (saveBouncers buffer bs) ⟨{some buffer.block} + frame, noted⟩
      (Printed ((bs.map BouncerBlock.erase).foldl
        (fun buffer b => strCatPrintf (some buffer) (b.print ++ ascii "\n")) buffer.text)
        frame noted) := by
  induction bs generalizing buffer with
  | nil => exact Or.inr ⟨buffer.block, rfl, rfl⟩
  | cons b bs ih =>
      rw [List.map_cons, List.sum_cons] at hbs
      have hb (p : Pointer) (hp : p ∈ b.blocks) : p ∈ frame :=
        hbs p (Multiset.mem_add.mpr (Or.inl hp))
      unfold saveBouncers
      refine Accounted.access ?_ (Printed.bind ?_ fun p => ?_)
      · obtain ⟨p, hp⟩ := Option.ne_none_iff_exists'.mp (hblock b List.mem_cons_self)
        refine Multiset.mem_add.mpr (Or.inr (hb _ ?_))
        simp [BouncerBlock.blocks, hp]
      · intro s hs
        apply hb
        simp only [List.mem_cons, List.not_mem_nil, or_false] at hs
        rcases hs with hs | hs | hs <;> simp [BouncerBlock.blocks, ← hs]
      · exact ih (fun p hp => hbs p (Multiset.mem_add.mpr (Or.inr hp)))
          (fun b' hb' => hblock b' (List.mem_cons_of_mem b hb')) ⟨p, _⟩

/-- **Printing a config is all or nothing**: in the end there is the whole text in one block, or
there was too little memory and nothing is left. -/
theorem ConfigBlock.saveBuffer_accounted {config : ConfigBlock}
    (hblock : ∀ b ∈ config.bouncers, b.block ≠ none) {frame : Multiset Pointer} {noted : Bool} :
    AccountedIf P config.saveBuffer ⟨config.blocks + frame, noted⟩
      (Printed config.erase.saveBuffer (config.blocks + frame) noted) := by
  have hnil : ∀ s : Str, some s ∈ ([] : List (Option Str)) → some s.block ∈
      config.blocks + frame := fun s hs => absurd hs List.not_mem_nil
  unfold saveBuffer
  refine Accounted.access (by simp [blocks]) ?_
  have hfirst := @strCatPrintfIn_accounted P none []
    (ascii "idnt=" ++ printBool config.idnt ++ ascii "\n") _ hnil noted
  rw [Str.ptr_none, pointed_none, zero_add] at hfirst
  refine hfirst.bind ?_
  rintro r _ (⟨rfl, rfl⟩ | ⟨p, rfl, rfl⟩)
  · exact Or.inl ⟨rfl, rfl⟩
  refine Printed.bind hnil fun p => Printed.bind hnil fun p => Printed.bind hnil fun p =>
    Printed.bind hnil fun p => ?_
  have hbouncers : ∀ p ∈ (config.bouncers.map BouncerBlock.blocks).sum,
      p ∈ config.blocks + frame := by
    intro p hp
    simp only [blocks, Multiset.mem_add]
    tauto
  have hpid (s : Str) (h : config.pidFile = some s) :
      ∀ s', some s' ∈ [some s] → some s'.block ∈ config.blocks + frame := by
    intro s' hs'
    obtain rfl := Option.some.inj (List.mem_singleton.mp hs')
    simp [blocks, h]
  have hwelcome (s : Str) (h : config.welcomeMsg = some s) :
      ∀ s', some s' ∈ [some s] → some s'.block ∈ config.blocks + frame := by
    intro s' hs'
    obtain rfl := Option.some.inj (List.mem_singleton.mp hs')
    simp [blocks, h]
  have hpidFile : config.erase.pidFile = config.pidFile.map Str.text := rfl
  have hwelcomeMsg : config.erase.welcomeMsg = config.welcomeMsg.map Str.text := rfl
  unfold Config.saveBuffer
  rw [hpidFile, hwelcomeMsg]
  cases h₁ : config.pidFile with
  | none =>
      cases h₂ : config.welcomeMsg with
      | none => exact saveBouncers_accounted hbouncers hblock _
      | some welcomeMsg =>
          exact Printed.bind (hwelcome welcomeMsg h₂) fun p =>
            saveBouncers_accounted hbouncers hblock _
  | some pidFile =>
      refine Printed.bind (hpid pidFile h₁) fun p => ?_
      cases h₂ : config.welcomeMsg with
      | none => exact saveBouncers_accounted hbouncers hblock _
      | some welcomeMsg =>
          exact Printed.bind (hwelcome welcomeMsg h₂) fun p =>
            saveBouncers_accounted hbouncers hblock _

/-- **Printing a config is all or nothing**: in every run, whichever allocations fail, nothing is
used that is not there, and in the end there is the whole text in a block of its own, or an
allocation failed and nothing has changed. -/
theorem ConfigBlock.saveBuffer_allOrNothing {config : ConfigBlock}
    (hblock : ∀ b ∈ config.bouncers, b.block ≠ none) {held : List Pointer}
    {frame : Multiset Pointer} (hheld : held = config.blocks + frame)
    (hnodup : held.Nodup) {t : List LibcEvent} {r : Option Str}
    (ht : Program.Trace config.saveBuffer t (some r)) (hfresh : libcResources.Fresh held t) :
    libcResources.Careful held t ∧
      (r = none ∧ t.any LibcEvent.short = true ∧
          (libcResources.heldAfter held t : Multiset Pointer) = held ∨
        ∃ p, r = some ⟨p, config.erase.saveBuffer⟩ ∧ t.any LibcEvent.short = false ∧
          (libcResources.heldAfter held t : Multiset Pointer) = {some p} + held) := by
  have haccount := @saveBuffer_accounted (fun _ => True) config hblock frame false
  rw [← hheld] at haccount
  obtain ⟨hcareful, hend⟩ := Ledger.account_of_sim haccount ht (fun _ _ => trivial) hnodup hfresh
  refine ⟨hcareful, ?_⟩
  rcases hend r rfl with ⟨rfl, hs⟩ | ⟨p, rfl, hs⟩
  · obtain ⟨hafter, hshort⟩ := Account.mk.inj hs
    exact Or.inl ⟨rfl, hshort, hafter⟩
  · obtain ⟨hafter, hshort⟩ := Account.mk.inj hs
    exact Or.inr ⟨p, rfl, hshort, hafter⟩

end save

/-- A new config. -/
def newConfig : ConfigBlock := ⟨1, [], true, 10, 0, 30, true, none, none⟩

/-- It is printed until there is no memory to put the first two lines together. -/
def shortRun : List LibcEvent :=
  [⟨.access (some 1), ()⟩, ⟨.calloc 11, some 2⟩, ⟨.access (some 2), ()⟩, ⟨.free none, ()⟩,
    ⟨.calloc 17, some 3⟩, ⟨.access (some 3), ()⟩, ⟨.access (some 2), ()⟩, ⟨.calloc 27, none⟩,
    ⟨.free (some 3), ()⟩, ⟨.free (some 2), ()⟩]

theorem trace_shortRun : Program.Trace newConfig.saveBuffer shortRun (some none) := by
  unfold shortRun
  repeat refine .call _ ?_
  exact .ret _

/-- Both lines are given back. -/
theorem saveBuffer_allOrNothing_short :
    libcResources.Careful [some 1] shortRun ∧
      ((none : Option Str) = none ∧ shortRun.any LibcEvent.short = true ∧
          (libcResources.heldAfter [some 1] shortRun : Multiset Pointer) = [some 1] ∨
        ∃ p, none = some (⟨p, newConfig.erase.saveBuffer⟩ : Str) ∧
          shortRun.any LibcEvent.short = false ∧
          (libcResources.heldAfter [some 1] shortRun : Multiset Pointer) =
            {some p} + ([some 1] : List Pointer)) :=
  @ConfigBlock.saveBuffer_allOrNothing newConfig (fun _ h => absurd h List.not_mem_nil) [some 1] 0
    rfl (List.nodup_singleton _) _ _ trace_shortRun (by decide)

end Ebbnc
