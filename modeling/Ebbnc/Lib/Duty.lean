import Ebbnc.Lib.Program

/-!
# Calls that are followed up

Programs in which some calls have to be followed up at once, by a program that depends on the call,
its reply and the calls before it: a failure by its report, a transaction by its end.

* `Program.Dutiful` — a run that is calls with their follow-ups, one after the other;
  `Program.DutifulSoFar` — the last follow-up may be still going on.
* `Program.Owing` — the machine that remembers the run and what is left of a follow-up;
  `Program.Owing.call`, `Program.Owing.followUp` — its rules.
* **`Program.Owing.dutiful`** — every run of a program that follows it is such a run.
-/

namespace Lib

namespace Program

variable {Call : Type} {Reply : Call → Type} {α β : Type}

section dutiful

variable (Free : List (Event Reply) → Event Reply → Prop)
  (duty : List (Event Reply) → Event Reply → Program Reply Unit)

/-- A run of calls that are free to be made, each with its follow-up. -/
inductive Dutiful : List (Event Reply) → Prop
  | nil : Dutiful []
  | concat {t t' : List (Event Reply)} {e : Event Reply} (h : Dutiful t) (hfree : Free t e)
      (hduty : Trace (duty t e) t' (some ())) : Dutiful (t ++ e :: t')

/-- The same, with a follow-up at the end that may be going on. -/
def DutifulSoFar (t : List (Event Reply)) : Prop :=
  Dutiful Free duty t ∨ ∃ t₁ e t₂, t = t₁ ++ e :: t₂ ∧ Dutiful Free duty t₁ ∧ Free t₁ e ∧
    Trace (duty t₁ e) t₂ none

end dutiful

/-- The run so far, and what has to be done next. -/
structure Owing (Reply : Call → Type) where
  run : List (Event Reply)
  owed : Program Reply Unit

namespace Owing

variable (Free : List (Event Reply) → Event Reply → Prop)
  (duty : List (Event Reply) → Event Reply → Program Reply Unit)

/-- When nothing has to be done, a free call; else the next call of the follow-up. -/
inductive Step : Owing Reply → Event Reply → Owing Reply → Prop
  | free {t : List (Event Reply)} {e : Event Reply} (h : Free t e) :
      Step ⟨t, .ret ()⟩ e ⟨t ++ [e], duty t e⟩
  | owed {t : List (Event Reply)} {c : Call} {k : Reply c → Program Reply Unit} (r : Reply c) :
      Step ⟨t, .call c k⟩ ⟨c, r⟩ ⟨t ++ [⟨c, r⟩], k r⟩

variable {Free duty} {Law : Owing Reply → Event Reply → Prop} {t : List (Event Reply)}

/-- A free call, its follow-up and what comes then. -/
theorem call {c : Call} {f : Reply c → Program Reply α} {Q : α → Owing Reply → Prop}
    (hfree : ∀ r, Free t ⟨c, r⟩)
    (hf : ∀ r, Law ⟨t, .ret ()⟩ ⟨c, r⟩ →
      Sim (Step Free duty) Law (f r) ⟨t ++ [⟨c, r⟩], duty t ⟨c, r⟩⟩ Q) :
    Sim (Step Free duty) Law (Program.perform c >>= f) ⟨t, .ret ()⟩ Q :=
  Sim.call fun r hlaw => ⟨_, .free (hfree r), hf r hlaw⟩

/-- What has to be done is done. -/
theorem followUp {p : Program Reply Unit} {f : Unit → Program Reply α}
    {Q : α → Owing Reply → Prop}
    (hf : ∀ t', Sim (Step Free duty) Law (f ()) ⟨t ++ t', .ret ()⟩ Q) :
    Sim (Step Free duty) Law (p >>= f) ⟨t, p⟩ Q := by
  induction p generalizing t with
  | ret _ =>
      have h := hf []
      rw [List.append_nil] at h
      exact h
  | call c k ih =>
      refine fun r _ => ⟨_, .owed r, ih r fun t' => ?_⟩
      rw [List.append_assoc]
      exact hf _

/-- What a path has remembered: the calls with their follow-ups, and the last of these as far as
it has come. -/
theorem of_path {s : Owing Reply} (h : Path (Step Free duty) ⟨[], .ret ()⟩ t s) :
    s.run = t ∧ (Dutiful Free duty t ∧ s.owed = .ret () ∨
      ∃ t₁ e t₂, t = t₁ ++ e :: t₂ ∧ Dutiful Free duty t₁ ∧ Free t₁ e ∧
        Path Program.Step (duty t₁ e) t₂ s.owed) := by
  induction h with
  | refl => exact ⟨rfl, Or.inl ⟨.nil, rfl⟩⟩
  | step _ hstep ih =>
      obtain ⟨hrun, hinv⟩ := ih
      cases hstep with
      | free hfree =>
          obtain rfl := hrun
          refine ⟨rfl, Or.inr ⟨_, _, [], rfl, ?_, hfree, .refl⟩⟩
          rcases hinv with ⟨hdutiful, -⟩ | ⟨t₁, e₁, t₂, rfl, hdutiful, hfree₁, hpath⟩
          · exact hdutiful
          · exact hdutiful.concat hfree₁ (Trace.of_path hpath)
      | owed r =>
          obtain rfl := hrun
          refine ⟨rfl, ?_⟩
          rcases hinv with ⟨-, howed⟩ | ⟨t₁, e₁, t₂, rfl, hdutiful, hfree₁, hpath⟩
          · cases howed
          · exact Or.inr ⟨t₁, e₁, t₂ ++ [_], by simp, hdutiful, hfree₁, hpath.step (.call r)⟩

/-- **Every run of a program that follows the machine** is calls with their follow-ups, and none of
these is left out when the run is over. -/
theorem dutiful {p : Program Reply α} {Q : α → Owing Reply → Prop} {o : Option α}
    (h : Sim (Step Free duty) Law p ⟨[], .ret ()⟩ Q) (hQ : ∀ a s, Q a s → s.owed = .ret ())
    (ht : Trace p t o)
    (hlaw : Along (fun t₁ e => ∀ s, s.run = t₁ → Law s e) t) :
    DutifulSoFar Free duty t ∧ (o.isSome → Dutiful Free duty t) := by
  have hlaw' : Along (fun t₁ e => ∀ s, Path (Step Free duty) ⟨[], .ret ()⟩ t₁ s → Law s e) t :=
    fun t₁ e t₂ heq s hpath => hlaw t₁ e t₂ heq s (of_path hpath).1
  obtain ⟨s, hpath, hend⟩ := h.path ht hlaw'
  have hdone : s.owed = .ret () → Dutiful Free duty t := by
    intro howed
    rcases (of_path hpath).2 with ⟨hdutiful, -⟩ | ⟨t₁, e, t₂, rfl, hdutiful, hfree, hpath⟩
    · exact hdutiful
    · rw [howed] at hpath
      exact hdutiful.concat hfree (Trace.of_path hpath)
  refine ⟨?_, ?_⟩
  · cases howed : s.owed with
    | ret _ => exact Or.inl (hdone howed)
    | call c k =>
        rcases (of_path hpath).2 with ⟨hdutiful, -⟩ | ⟨t₁, e, t₂, rfl, hdutiful, hfree, hpath⟩
        · exact Or.inl hdutiful
        · rw [howed] at hpath
          exact Or.inr ⟨t₁, e, t₂, rfl, hdutiful, hfree, Trace.of_path hpath⟩
  · intro ho
    obtain ⟨a, rfl⟩ := Option.isSome_iff_exists.mp ho
    exact hdone (hQ a s (hend a rfl))

end Owing

end Program

end Lib
