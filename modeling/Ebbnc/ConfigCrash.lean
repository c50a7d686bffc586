import Ebbnc.ConfigLeaks

/-!
# When the config loader crashes

`Bouncer_parse` does not look at what `Bouncer_new` returns. All other allocations that may fail are
checked; this one is followed by a write through a null pointer, as soon as there is memory for a
copy of the definition and a first token in it.

* `Doomed` — a run with a bouncer for which there is no memory, and a first token to be stored in
  it; `Unharmed` — a run without, and without any access to nothing.
* `Tracked` — a program that keeps a run one or the other, with its rules.
* **`loadBufferIn_crashes_iff`** — the loader accesses a null pointer in exactly the doomed runs.
-/

namespace Ebbnc

open Lib

/-! ## Runs -/

/-- There is no memory for a bouncer, but for a copy of its definition, and that has a token. -/
def Doomed (t : List LibcEvent) : Prop :=
  ∃ t₁ q s p t₂, t = t₁ ++ (⟨.calloc sizeofBouncer, none⟩ : LibcEvent) ::
    (⟨.access q, ()⟩ : LibcEvent) :: (⟨.strdup s, some p⟩ : LibcEvent) :: t₂ ∧
    (strtok colon s).1 ≠ none

/-- Nothing is accessed that is not there, and whenever there is no memory for a bouncer there is
none for a copy of its definition either, or no token in it. -/
structure Unharmed (t : List LibcEvent) : Prop where
  sound : ∀ e ∈ t, LibcEvent.crash e = false
  followed : ∀ t₁ t₂, t = t₁ ++ (⟨.calloc sizeofBouncer, none⟩ : LibcEvent) :: t₂ →
    ∃ q s p t₃, t₂ = (⟨.access q, ()⟩ : LibcEvent) :: (⟨.strdup s, p⟩ : LibcEvent) :: t₃ ∧
      (p = none ∨ (strtok colon s).1 = none)

/-- A doomed run in which the null pointer was accessed. -/
def Crashed (t : List LibcEvent) : Prop := Doomed t ∧ ∃ e ∈ t, LibcEvent.crash e = true

/-- The calls that cannot harm. -/
def LibcCall.Safe : LibcCall → Prop
  | .strdup _ => True
  | .strndup _ _ => True
  | .free _ => True
  | .access p => p ≠ none
  | .getaddrinfo _ => True
  | _ => False

theorem crash_of_safe {e : LibcEvent} (h : e.1.Safe) : LibcEvent.crash e = false := by
  obtain ⟨c, r⟩ := e
  cases c with
  | free p => cases p <;> simp [LibcEvent.crash, LibcEvent.uses]
  | access p => simpa [LibcEvent.crash, LibcEvent.uses] using fun hp => h hp.symm
  | strdup s => rfl
  | strndup s n => rfl
  | getaddrinfo host => rfl
  | calloc size => cases h
  | fopen path => cases h
  | fseek fp toEnd => cases h
  | ftell fp => cases h
  | fread buffer capacity size fp => cases h
  | ferror fp => cases h
  | fclose fp => cases h

/-- Where an event stands in a run with one event more. -/
theorem concat_eq_append_cons {t t₁ t₂ : List LibcEvent} {e e' : LibcEvent}
    (h : t ++ [e'] = t₁ ++ e :: t₂) :
    e' = e ∧ t₂ = [] ∨ ∃ t₃, t₂ = t₃ ++ [e'] ∧ t = t₁ ++ e :: t₃ := by
  rcases List.eq_nil_or_concat t₂ with rfl | ⟨t₃, e'', rfl⟩
  · exact Or.inl ⟨(List.cons.inj (List.append_inj' h rfl).2).1, rfl⟩
  · rw [List.concat_eq_append, ← List.cons_append, ← List.append_assoc] at h
    obtain ⟨rfl, hlast⟩ := List.append_inj' h rfl
    obtain rfl := (List.cons.inj hlast).1
    exact Or.inr ⟨t₃, List.concat_eq_append, rfl⟩

theorem Unharmed.nil : Unharmed [] := ⟨by simp, fun _ _ h => by simp at h⟩

/-- One event more. -/
theorem Unharmed.concat {t : List LibcEvent} {e : LibcEvent} (h : Unharmed t)
    (hcrash : LibcEvent.crash e = false) (he : e ≠ ⟨.calloc sizeofBouncer, none⟩) :
    Unharmed (t ++ [e]) := by
  refine ⟨fun e' he' => ?_, fun t₁ t₂ heq => ?_⟩
  · rcases List.mem_append.mp he' with he' | he'
    · exact h.sound e' he'
    · rw [List.mem_singleton.mp he', hcrash]
  · rcases concat_eq_append_cons heq with ⟨rfl, -⟩ | ⟨t₃, rfl, rfl⟩
    · exact absurd rfl he
    · obtain ⟨q, s, p, t₄, rfl, hp⟩ := h.followed _ _ rfl
      exact ⟨q, s, p, t₄ ++ [e], by simp, hp⟩

/-- More events that cannot harm. -/
theorem Unharmed.append {t t' : List LibcEvent} (h : Unharmed t) (hsafe : ∀ e ∈ t', e.1.Safe) :
    Unharmed (t ++ t') := by
  induction t' using List.reverseRecOn with
  | nil => rwa [List.append_nil]
  | append_singleton t' e ih =>
      rw [← List.append_assoc]
      have he := hsafe e (List.mem_append_right _ (List.mem_singleton_self e))
      refine (ih fun e' he' => hsafe e' (List.mem_append_left _ he')).concat (crash_of_safe he) ?_
      rintro rfl
      exact he

/-- A definition that is not read into a bouncer. -/
theorem Unharmed.null {t : List LibcEvent} (h : Unharmed t) {q : ℕ} {s : Bytes} {p : Pointer}
    (hp : p = none ∨ (strtok colon s).1 = none) :
    Unharmed (t ++ [⟨.calloc sizeofBouncer, none⟩] ++ [⟨.access (some q), ()⟩] ++
      [⟨.strdup s, p⟩]) := by
  refine ⟨fun e he => ?_, fun t₁ t₂ heq => ?_⟩
  · simp only [List.mem_append, List.mem_singleton] at he
    rcases he with ((he | rfl) | rfl) | rfl
    · exact h.sound e he
    · rfl
    · exact crash_of_safe (Option.some_ne_none q)
    · rfl
  · rcases concat_eq_append_cons heq with ⟨hevent, -⟩ | ⟨t₃, rfl, heq₁⟩
    · cases hevent
    rcases concat_eq_append_cons heq₁ with ⟨hevent, -⟩ | ⟨t₄, rfl, heq₂⟩
    · cases hevent
    rcases concat_eq_append_cons heq₂ with ⟨-, rfl⟩ | ⟨t₅, rfl, rfl⟩
    · exact ⟨some q, s, p, [], rfl, hp⟩
    · obtain ⟨q', s', p', t₆, rfl, hp'⟩ := h.followed _ _ rfl
      exact ⟨q', s', p', t₆ ++ [_] ++ [_] ++ [_], rfl, hp'⟩

/-- A copy of a definition without a token, or none, is no copy of one with a token. -/
theorem no_token {q q' : Pointer} {s s' : Bytes} {p : ℕ} {p' : Pointer} {t t' : List LibcEvent}
    (h : (⟨.access q, ()⟩ : LibcEvent) :: (⟨.strdup s, some p⟩ : LibcEvent) :: t =
      (⟨.access q', ()⟩ : LibcEvent) :: (⟨.strdup s', p'⟩ : LibcEvent) :: t')
    (hp : p' = none ∨ (strtok colon s').1 = none) : (strtok colon s).1 = none := by
  obtain ⟨-, hrest⟩ := List.cons.inj h
  obtain ⟨hevent, -⟩ := List.cons.inj hrest
  obtain ⟨hs, hreply⟩ := Sigma.mk.inj hevent
  obtain rfl := LibcCall.strdup.inj hs
  obtain rfl := eq_of_heq hreply
  rcases hp with hp | hp
  · cases hp
  · exact hp

/-- An unharmed run is not doomed. -/
theorem Unharmed.not_doomed {t : List LibcEvent} (h : Unharmed t) : ¬ Doomed t := by
  rintro ⟨t₁, q, s, p, t₂, rfl, htoken⟩
  obtain ⟨q', s', p', t₃, heq, hp⟩ := h.followed _ _ rfl
  exact htoken (no_token heq hp)

theorem Doomed.append {t : List LibcEvent} (h : Doomed t) (t' : List LibcEvent) :
    Doomed (t ++ t') := by
  obtain ⟨t₁, q, s, p, t₂, rfl, htoken⟩ := h
  exact ⟨t₁, q, s, p, t₂ ++ t', by simp, htoken⟩

theorem Crashed.append {t : List LibcEvent} (h : Crashed t) (t' : List LibcEvent) :
    Crashed (t ++ t') := by
  obtain ⟨hdoomed, e, he, hcrash⟩ := h
  exact ⟨hdoomed.append t', e, List.mem_append_left _ he, hcrash⟩

/-! ## Programs -/

/-- From a run on, the program keeps it unharmed and ends with a value that fits, or it crashes. -/
abbrev Tracked {α : Type} (p : Libc α) (t : List LibcEvent) (Q : α → Prop) : Prop :=
  Program.Sim (Program.Recorder fun _ _ => True) (fun _ _ => True) p t fun a t' =>
    Unharmed t' ∧ Q a ∨ Crashed t'

namespace Tracked

variable {α β : Type} {t : List LibcEvent} {Q : α → Prop}

/-- What follows a crash does not matter. -/
theorem crashed {p : Libc α} (h : Crashed t) : Tracked p t Q := by
  induction p generalizing t with
  | ret a => exact Or.inr h
  | call c k ih => exact fun r _ => ⟨_, ⟨trivial, rfl⟩, ih r (h.append _)⟩

theorem bind {p : Libc α} {f : α → Libc β} {Q' : β → Prop} (h : Tracked p t Q)
    (hf : ∀ a t', Unharmed t' → Q a → Tracked (f a) t' Q') : Tracked (p >>= f) t Q' := by
  refine Program.Sim.bind h fun a t' ha => ?_
  rcases ha with ⟨ht', hQ⟩ | hcrashed
  · exact hf a t' ht' hQ
  · exact crashed hcrashed

/-- A safe call. -/
theorem call {c : LibcCall} {f : LibcReply c → Libc α} (ht : Unharmed t) (hc : c.Safe)
    (hf : ∀ r t', Unharmed t' → Tracked (f r) t' Q) : Tracked (libc c >>= f) t Q := by
  refine Program.Sim.call fun r _ => ⟨_, ⟨trivial, rfl⟩, hf r _ (ht.append ?_)⟩
  intro e he
  rw [List.mem_singleton.mp he]
  exact hc

/-- A program of safe calls, and what is known of its value. -/
theorem of_only {p : Libc α} {s : Account Pointer} {Q' : α → Account Pointer → Prop}
    (ht : Unharmed t) (honly : Program.Only LibcCall.Safe p) (h : Accounted p s Q')
    (hQ : ∀ a s', Q' a s' → Q a) : Tracked p t Q := by
  refine (honly.record h (fun c hc r _ => crash_of_safe hc) t).mono ?_
  rintro a t' ⟨t₁, s', rfl, hsafe, hQ'⟩
  exact Or.inl ⟨ht.append hsafe, hQ a s' hQ'⟩

/-- A program of safe calls. -/
theorem of_safe {p : Libc α} (ht : Unharmed t) (honly : Program.Only LibcCall.Safe p) :
    Tracked p t fun _ => True := by
  induction p generalizing t with
  | ret a => exact Or.inl ⟨ht, trivial⟩
  | call c k ih => exact call ht honly.1 fun r t' ht' => ih r ht' (honly.2 r)

/-- The same of a program that may end with something else, too. -/
theorem weaken {p : Libc α} {t₀ : List LibcEvent} (h : Tracked p t fun _ => True) :
    Program.Sim (Program.Recorder fun _ _ => True) (fun _ _ => True) p t fun _ t' =>
      (Unharmed t' ∨ t' = t₀) ∨ Crashed t' :=
  Program.Sim.mono h fun _ _ h => h.imp (fun h => Or.inl h.1) id

end Tracked

/-! ## Safe programs -/

section safe

variable {α : Type}

theorem only_strdup {s : Str} {f : Option Str → Libc α}
    (hf : ∀ r, Program.Only LibcCall.Safe (f r)) :
    Program.Only LibcCall.Safe (strdup s >>= f) :=
  ⟨Option.some_ne_none _, fun _ => ⟨trivial, fun _ => hf _⟩⟩

theorem only_access {p : Pointer} {f : Unit → Libc α} (hp : p ≠ none)
    (hf : Program.Only LibcCall.Safe (f ())) :
    Program.Only LibcCall.Safe (libc (.access p) >>= f) := ⟨hp, fun _ => hf⟩

theorem only_getaddrinfo {host : Option Bytes} {f : ℕ → Libc α}
    (hf : ∀ p, Program.Only LibcCall.Safe (f p)) :
    Program.Only LibcCall.Safe (libc (.getaddrinfo host) >>= f) := ⟨trivial, hf⟩

theorem only_free {p : Pointer} {f : Unit → Libc α} (hf : Program.Only LibcCall.Safe (f ())) :
    Program.Only LibcCall.Safe (libc (.free p) >>= f) := ⟨trivial, fun _ => hf⟩

/-- Giving back a bouncer. -/
theorem BouncerBlock.only_free (b : BouncerBlock) {f : Unit → Libc α}
    (hf : Program.Only LibcCall.Safe (f ())) : Program.Only LibcCall.Safe (b.free >>= f) := by
  unfold free
  cases b.block with
  | none => exact hf
  | some p => exact only_access (Option.some_ne_none p) (Ebbnc.only_free (Ebbnc.only_free
      (Ebbnc.only_free hf)))

/-- Reading the tokens into a bouncer that is there. -/
theorem BouncerBlock.parseTokens_only (temp : Str) {b : BouncerBlock} (hb : b.block ≠ none) :
    Program.Only LibcCall.Safe (parseTokens temp b) := by
  unfold parseTokens
  refine only_access (Option.some_ne_none _) ?_
  rcases strtok colon temp.text with ⟨_ | ip, saved⟩
  · trivial
  refine only_strdup fun listenIP => only_access hb ?_
  cases listenIP with
  | none => trivial
  | some listenIP =>
  refine only_access (Option.some_ne_none _) ?_
  rcases strtok blank saved with ⟨port, saved⟩
  dsimp only
  rcases port.bind scanInteger with _ | ⟨listenPort, _⟩
  · trivial
  refine only_access hb (only_access (Option.some_ne_none _) ?_)
  rcases strtok colon saved with ⟨_ | host, saved⟩
  · trivial
  refine only_strdup fun remoteHost => only_access hb ?_
  cases remoteHost with
  | none => trivial
  | some remoteHost =>
  refine only_access (Option.some_ne_none _) ?_
  rcases strtok blank saved with ⟨port, saved⟩
  dsimp only
  rcases port.bind scanInteger with _ | ⟨remotePort, _⟩
  · trivial
  refine only_access hb (only_access (Option.some_ne_none _) ?_)
  rcases strtok blank saved with ⟨_ | ip, saved⟩
  · refine only_strdup fun localIP => only_access hb ?_
    cases localIP <;> trivial
  · refine only_strdup fun localIP => only_access hb ?_
    cases localIP with
    | none => trivial
    | some localIP =>
      refine only_access (Option.some_ne_none _) ?_
      rcases strtok blank saved with ⟨_ | rest, saved⟩ <;> trivial

end safe

/-! ## The loader -/

/-- Without a token nothing is stored. -/
theorem BouncerBlock.parseTokens_noToken (temp : Str) (h : (strtok colon temp.text).1 = none)
    {t : List LibcEvent} (ht : Unharmed t) (b : BouncerBlock) :
    Tracked (parseTokens temp b) t fun r => r = (b, some .parse) := by
  unfold parseTokens
  refine Tracked.call ht (Option.some_ne_none _) fun _ t' ht' => ?_
  rcases htoken : strtok colon temp.text with ⟨_ | ip, saved⟩
  · exact Or.inl ⟨ht', rfl⟩
  · rw [htoken] at h
    cases h

/-- A first token is stored, wherever the bouncer is. -/
theorem BouncerBlock.parseTokens_token (temp : Str) (h : (strtok colon temp.text).1 ≠ none)
    {t : List LibcEvent} (ht : Doomed t) {b : BouncerBlock} (hb : b.block = none) :
    Tracked (parseTokens temp b) t fun _ => False := by
  unfold parseTokens
  refine Program.Sim.call fun _ _ => ⟨_, ⟨trivial, rfl⟩, ?_⟩
  rcases htoken : strtok colon temp.text with ⟨_ | ip, saved⟩
  · rw [htoken] at h
    exact absurd rfl h
  · refine Program.Sim.call fun _ _ => ⟨_, ⟨trivial, rfl⟩, ?_⟩
    refine Program.Sim.call fun _ _ => ⟨_, ⟨trivial, rfl⟩, ?_⟩
    refine Program.Sim.call fun _ _ => ⟨_, ⟨trivial, rfl⟩, Tracked.crashed ?_⟩
    refine ⟨((ht.append _).append _).append _ |>.append _, ⟨.access b.block, ()⟩, by simp, ?_⟩
    simp [hb, LibcEvent.crash, LibcEvent.uses]

/-- **One bouncer definition** crashes the program exactly when there is a first token for a bouncer
that is not there. -/
theorem BouncerBlock.parse_tracked (s : Str) {t : List LibcEvent} (ht : Unharmed t) :
    Tracked (parse s) t fun r => ∀ b, r = .ok b → b.block ≠ none ∧ b.erase.NonNull := by
  have haccounted := @parse_accounted s {some s.block} (by simp) false
  unfold parse new at haccounted ⊢
  refine Program.Sim.call fun r _ => ⟨_, ⟨trivial, rfl⟩, ?_⟩
  cases r with
  | none =>
      refine Program.Sim.call fun _ _ => ⟨_, ⟨trivial, rfl⟩, ?_⟩
      refine Program.Sim.call fun temp _ => ⟨_, ⟨trivial, rfl⟩, ?_⟩
      cases temp with
      | none =>
          refine Tracked.call (ht.null (Or.inl rfl)) trivial fun _ t' ht' => Or.inl ⟨ht', ?_⟩
          intro b h
          cases h
      | some p =>
          by_cases htoken : (strtok colon s.text).1 = none
          · refine (parseTokens_noToken ⟨p, s.text⟩ htoken (ht.null (Or.inr htoken)) _).bind ?_
            rintro _ t' ht' rfl
            refine Tracked.call ht' trivial fun _ t' ht' => Or.inl ⟨ht', ?_⟩
            intro b h
            cases h
          · have hdoomed : Doomed (t ++ [⟨.calloc sizeofBouncer, none⟩] ++
                [⟨.access (some s.block), ()⟩] ++ [⟨.strdup s.text, some p⟩]) :=
              ⟨t, some s.block, s.text, p, [], by simp, htoken⟩
            exact (parseTokens_token ⟨p, s.text⟩ htoken hdoomed rfl).bind fun _ _ _ h => h.elim
  | some p =>
      have ht' : Unharmed (t ++ [⟨.calloc sizeofBouncer, some p⟩]) := by
        refine ht.concat rfl ?_
        intro h
        cases h
      obtain ⟨s', -, hrest⟩ := haccounted (some p) rfl
      refine Tracked.of_only ht' ?_ hrest ?_
      · refine only_access (Option.some_ne_none p) (only_strdup fun temp => ?_)
        cases temp with
        | none => exact Ebbnc.only_free (only_free _ trivial)
        | some temp =>
            refine (parseTokens_only temp (Option.some_ne_none p)).bind ?_
            rintro ⟨b, failure⟩
            cases failure with
            | none => exact Ebbnc.only_free trivial
            | some failure => exact Ebbnc.only_free (only_free b trivial)
      · rintro r ⟨held, noted⟩ ⟨owned, hdefined, -⟩ b rfl
        cases hdefined with
        | ok hblock hstrings _ => exact ⟨hblock, hstrings⟩

namespace ConfigBlock

variable {config : ConfigBlock} {t : List LibcEvent}

theorem storeBool_only (value : Bytes) (store : Bool → ConfigBlock) :
    Program.Only LibcCall.Safe (config.storeBool value store) := by
  unfold storeBool
  cases parseBool value with
  | none => trivial
  | some b => exact only_access (Option.some_ne_none _) trivial

theorem storeTimeout_only (value : Bytes) (store : ℤ → ConfigBlock) :
    Program.Only LibcCall.Safe (config.storeTimeout value store) := by
  unfold storeTimeout
  cases strToInt value with
  | none => trivial
  | some i => exact only_access (Option.some_ne_none _) trivial

/-- A line that is no bouncer definition. -/
theorem loadLine_only (line : Str) (h : ¬ hasOption line.text (ascii "bouncer=") = true) :
    Program.Only LibcCall.Safe (config.loadLine line) := by
  unfold loadLine
  refine only_access (Option.some_ne_none _) ?_
  rw [if_neg h]
  split_ifs
  · exact storeBool_only _ _
  · exact storeTimeout_only _ _
  · exact storeTimeout_only _ _
  · exact storeTimeout_only _ _
  · exact storeBool_only _ _
  · exact only_strdup fun _ => only_access (Option.some_ne_none _) trivial
  · exact only_strdup fun _ => only_access (Option.some_ne_none _) trivial
  · trivial

/-- One line. -/
theorem loadLine_tracked (hwhole : config.Whole) (line : Str) (ht : Unharmed t) :
    Tracked (config.loadLine line) t fun r => r.1.Whole := by
  by_cases h : hasOption line.text (ascii "bouncer=") = true
  · unfold loadLine
    refine Tracked.call ht (Option.some_ne_none _) fun _ t' ht' => ?_
    rw [if_pos h]
    refine (BouncerBlock.parse_tracked (line.skip 8) ht').bind ?_
    rintro (failure | b) t' ht' hb
    · exact Or.inl ⟨ht', hwhole⟩
    · refine Tracked.call ht' (hb b rfl).1 fun _ t' ht' => ?_
      refine Tracked.call ht' (Option.some_ne_none _) fun _ t' ht' => Or.inl ⟨ht', ?_⟩
      intro b' hb'
      rcases List.mem_cons.mp hb' with rfl | hb'
      · exact hb b' rfl
      · exact hwhole b' hb'
  · have haccounted := @loadLine_accounted config {some line.block} false hwhole line (by simp)
    refine Tracked.of_only ht (loadLine_only line h) haccounted ?_
    rintro r s' ⟨lost, stray, -, hwhole', -⟩
    exact hwhole'

/-- The loop over the lines. -/
theorem loadLines_tracked (buffer : ℕ) (p1 : Bytes) (hwhole : config.Whole) (ht : Unharmed t) :
    Tracked (config.loadLines buffer p1) t fun r => r.1.Whole := by
  induction hn : p1.length using Nat.strong_induction_on generalizing p1 config t with
  | _ n ih =>
  rw [loadLines]
  by_cases hnil : p1 = []
  · rw [dif_pos hnil]
    exact Tracked.call ht (Option.some_ne_none _) fun _ t' ht' => Or.inl ⟨ht', hwhole⟩
  rw [dif_neg hnil]
  have hlt := @length_skip_lt _ isEOL _ hnil
  generalize (p1.dropWhile fun c => !isEOL c).dropWhile isEOL = next at hlt ⊢
  refine Tracked.call ht (Option.some_ne_none _) fun _ t' ht' => ?_
  refine Tracked.call ht' trivial fun line t' ht' => ?_
  cases line with
  | none => exact Or.inl ⟨ht', hwhole⟩
  | some p =>
      refine Tracked.call ht' (Option.some_ne_none _) fun _ t' ht' => ?_
      split_ifs
      · exact Tracked.call ht' trivial fun _ t' ht' => ih next.length (hn ▸ hlt) next hwhole ht' rfl
      · refine (loadLine_tracked hwhole _ ht').bind ?_
        rintro ⟨config', failure⟩ t' ht' hwhole'
        cases failure with
        | none =>
            exact Tracked.call ht' trivial fun _ t' ht' =>
              ih next.length (hn ▸ hlt) next hwhole' ht' rfl
        | some failure => cases failure <;> exact Or.inl ⟨ht', hwhole'⟩

/-- The checks, and giving back a config. -/
theorem free_only {α : Type} {f : Unit → Libc α} (hf : Program.Only LibcCall.Safe (f ())) :
    Program.Only LibcCall.Safe (config.free >>= f) :=
  only_access (Option.some_ne_none _) (only_free (only_free (only_free hf)))

end ConfigBlock

section check

variable {isValidHost : Option Bytes → Bool}

/-- The check on a host. -/
theorem isValidHostIn_only (host : Option Str) :
    Program.Only LibcCall.Safe (isValidHostIn isValidHost host) := by
  have hlookup : Program.Only LibcCall.Safe (do
      if isValidHost (host.map Str.text) then do
        let res ← libc (.getaddrinfo (host.map Str.text))
        libc (.access (some res))
        pure true
      else pure false) := by
    split_ifs
    · exact only_getaddrinfo fun _ => only_access (Option.some_ne_none _) trivial
    · trivial
  unfold isValidHostIn
  cases host with
  | none => exact hlookup
  | some host => exact only_access (Option.some_ne_none _) hlookup

/-- The checks on a bouncer with its strings. -/
theorem BouncerBlock.check_only {b : BouncerBlock} (hblock : b.block ≠ none)
    (hstrings : b.erase.NonNull) : Program.Only LibcCall.Safe (b.check isValidHost) := by
  have hptr (s : Option Str) (h : s.map Str.text ≠ none) : Str.ptr s ≠ none := by
    cases s with
    | none => exact absurd rfl h
    | some s => exact Option.some_ne_none _
  obtain ⟨hlisten, -, hlocal⟩ := hstrings
  unfold check
  exact only_access hblock (only_access (hptr _ hlisten)
    ((isValidHostIn_only b.remoteHost).bind fun _ => only_access (hptr _ hlocal) trivial))

theorem BouncerBlock.checkList_only {bs : List BouncerBlock}
    (h : ∀ b ∈ bs, b.block ≠ none ∧ b.erase.NonNull) :
    Program.Only LibcCall.Safe (BouncerBlock.checkList isValidHost bs) := by
  induction bs with
  | nil => trivial
  | cons b bs ih =>
      obtain ⟨hblock, hstrings⟩ := h b List.mem_cons_self
      refine (check_only hblock hstrings).bind fun messages => ?_
      split_ifs
      · exact ih fun b' hb' => h b' (List.mem_cons_of_mem b hb')
      · trivial

theorem ConfigBlock.sanityCheck_only {config : ConfigBlock} (hwhole : config.Whole) :
    Program.Only LibcCall.Safe (config.sanityCheck isValidHost) := by
  unfold sanityCheck
  refine only_access (Option.some_ne_none _) ?_
  split_ifs
  · trivial
  · exact BouncerBlock.checkList_only hwhole

/-- The loader; it may end at once. -/
theorem loadBufferIn_tracked (buffer : Str) {t : List LibcEvent} (ht : Unharmed t) :
    Program.Sim (Program.Recorder fun _ _ => True) (fun _ _ => True)
      (loadBufferIn isValidHost buffer) t fun _ t' =>
        (Unharmed t' ∨ t' = t ++ [⟨.calloc sizeofConfig, none⟩]) ∨ Crashed t' := by
  unfold loadBufferIn ConfigBlock.new
  refine Program.Sim.call fun r _ => ⟨_, ⟨trivial, rfl⟩, ?_⟩
  cases r with
  | none => exact Or.inl (Or.inr rfl)
  | some p =>
  have ht' : Unharmed (t ++ [⟨.calloc sizeofConfig, some p⟩]) := by
    refine ht.concat rfl ?_
    intro h
    cases h
  have hnew : (⟨p, [], true, 10, 0, 30, true, none, none⟩ : ConfigBlock).Whole :=
    fun b hb => absurd hb List.not_mem_nil
  refine Tracked.weaken (Tracked.call ht' (Option.some_ne_none p) fun _ t' ht' => ?_)
  refine (ConfigBlock.loadLines_tracked buffer.block buffer.text hnew ht').bind ?_
  rintro ⟨config, loopEnd⟩ t' ht' hwhole
  cases loopEnd with
  | done =>
      refine Tracked.of_safe ht' ((ConfigBlock.sanityCheck_only hwhole).bind fun messages => ?_)
      split_ifs
      · trivial
      · exact ConfigBlock.free_only trivial
  | error line =>
      exact Tracked.of_safe ht' (only_access (Option.some_ne_none _)
        (only_free (ConfigBlock.free_only trivial)))
  | strduperror line => exact Tracked.of_safe ht' (only_free (ConfigBlock.free_only trivial))

end check

/-- **When the loader crashes**: in the runs in which there is no memory for a bouncer, but for a
copy of its definition, which has a token, and in no others. -/
theorem loadBufferIn_crashes_iff {isValidHost : Option Bytes → Bool} {buffer : Str}
    {t : List LibcEvent} {r : Except LoadError ConfigBlock}
    (ht : Program.Trace (loadBufferIn isValidHost buffer) t (some r)) :
    (∃ e ∈ t, LibcEvent.crash e = true) ↔ Doomed t := by
  obtain ⟨t', hpath, hend⟩ := (loadBufferIn_tracked buffer Unharmed.nil).path ht
    fun _ _ _ _ _ _ => trivial
  obtain ⟨rfl, -⟩ := Program.Recorder.of_path hpath
  rcases hend r rfl with (hunharmed | rfl) | hcrashed
  · refine iff_of_false ?_ hunharmed.not_doomed
    rintro ⟨e, he, hcrash⟩
    rw [hunharmed.sound e he] at hcrash
    cases hcrash
  · refine iff_of_false ?_ ?_
    · rintro ⟨e, he, hcrash⟩
      rw [List.nil_append, List.mem_singleton] at he
      rw [he] at hcrash
      cases hcrash
    · rintro ⟨t₁, q, s, p, t₂, heq, -⟩
      have hlength := congrArg List.length heq
      simp at hlength
      omega
  · exact iff_of_true hcrashed.2 hcrashed.1

/-- A file with one bouncer. -/
def oneBouncer : Str := ⟨0, ascii "bouncer=1.2.3.4:1 h:2"⟩

/-- A load of it, with memory for everything but the bouncer and its listen ip. -/
def uncheckedRun : List LibcEvent :=
  [⟨.calloc sizeofConfig, some 1⟩, ⟨.access (some 1), ()⟩,
    ⟨.access (some 0), ()⟩, ⟨.strndup (ascii "bouncer=1.2.3.4:1 h:2") 21, some 2⟩,
    ⟨.access (some 2), ()⟩, ⟨.access (some 2), ()⟩, ⟨.calloc sizeofBouncer, none⟩,
    ⟨.access (some 2), ()⟩, ⟨.strdup (ascii "1.2.3.4:1 h:2"), some 3⟩,
    ⟨.access (some 3), ()⟩, ⟨.access (some 3), ()⟩, ⟨.strdup (ascii "1.2.3.4"), none⟩,
    ⟨.access none, ()⟩, ⟨.free (some 3), ()⟩, ⟨.free (some 2), ()⟩,
    ⟨.access (some 1), ()⟩, ⟨.free none, ()⟩, ⟨.free none, ()⟩, ⟨.free (some 1), ()⟩]

theorem trace_uncheckedRun :
    Program.Trace (loadBufferIn numericHost oneBouncer) uncheckedRun
      (some (.error .unableToLoad)) := by
  unfold uncheckedRun
  refine .call _ (.call _ ?_)
  unfold ConfigBlock.loadLines
  repeat refine .call _ ?_
  exact .ret _

/-- The null pointer that `Bouncer_new` returned is written to. -/
theorem loadBufferIn_crashes_iff_unchecked :
    (∃ e ∈ uncheckedRun, LibcEvent.crash e = true) ↔ Doomed uncheckedRun :=
  loadBufferIn_crashes_iff trace_uncheckedRun

end Ebbnc
