import Mathlib.Data.List.Induction
import Mathlib.Tactic.Common

/-!
# Paths of a labelled transition relation

Runs of a state machine with a record of what happened on the way, for any states `σ`, labels `ε`
and step relation.

* `Path Step s es s'` — from `s` the labels `es` lead to `s'`, the last step last.
* **`Path.invariant`** — what holds at the start and is kept by every step holds at the end of
  every path, as a property of the state and of the labels so far.
* `Path.exists_prefix` — a path passes through the end of each of its prefixes.
* `Along` — what holds of each label and the labels before it.
* `DoneWithin` — a machine that takes inputs is done after so many steps; `not_doneWithin` — it can
  be kept from that by an invariant.
-/

namespace Lib

variable {σ ε : Type} {Step : σ → ε → σ → Prop}

/-- The labels of the steps from one state to another. -/
inductive Path (Step : σ → ε → σ → Prop) (s : σ) : List ε → σ → Prop
  | refl : Path Step s [] s
  | step {es : List ε} {s' s'' : σ} {e : ε} (h : Path Step s es s') (hstep : Step s' e s'') :
      Path Step s (es ++ [e]) s''

namespace Path

/-- **The induction over a path**: a property of the labels so far and the state. -/
theorem invariant {s : σ} {I : List ε → σ → Prop} (hinit : I [] s)
    (hstep : ∀ es s' e s'', Path Step s es s' → I es s' → Step s' e s'' → I (es ++ [e]) s'')
    {es : List ε} {s' : σ} (h : Path Step s es s') : I es s' := by
  induction h with
  | refl => exact hinit
  | step h hs ih => exact hstep _ _ _ _ h ih hs

/-- A path passes through the end of each of its prefixes. -/
theorem exists_prefix {s s'' : σ} {es : List ε} (h : Path Step s es s'') {es₁ es₂ : List ε}
    (hes : es = es₁ ++ es₂) : ∃ s', Path Step s es₁ s' ∧ Path Step s' es₂ s'' := by
  induction h generalizing es₂ with
  | refl =>
      obtain ⟨rfl, rfl⟩ := List.append_eq_nil_iff.mp hes.symm
      exact ⟨s, .refl, .refl⟩
  | @step es s' s'' e h hs ih =>
      rcases List.eq_nil_or_concat es₂ with rfl | ⟨es₃, e', rfl⟩
      · rw [List.append_nil] at hes
        exact ⟨s'', hes ▸ h.step hs, .refl⟩
      · rw [List.concat_eq_append, ← List.append_assoc] at hes
        obtain ⟨rfl, he⟩ := List.append_inj' hes rfl
        obtain rfl := (List.cons.inj he).1
        obtain ⟨mid, hpre, hpost⟩ := ih rfl
        exact ⟨mid, hpre, by simpa using hpost.step hs⟩

/-- A path of one step. -/
theorem single {s s' : σ} {e : ε} (h : Step s e s') : Path Step s [e] s' := Path.refl.step h

/-- Without a step a path stays where it is. -/
theorem eq_of_nil {s s' : σ} (h : Path Step s [] s') : s' = s := by
  generalize hes : ([] : List ε) = es at h
  cases h with
  | refl => rfl
  | step => simp at hes

/-- A path with one label is a step. -/
theorem of_single {s s' : σ} {e : ε} (h : Path Step s [e] s') : Step s e s' := by
  generalize hes : [e] = es at h
  cases h with
  | refl => cases hes
  | @step es mid _ e' h hs =>
      obtain ⟨rfl, he⟩ := List.append_inj' (show [] ++ [e] = es ++ [e'] from hes) rfl
      rw [← h.eq_of_nil, (List.cons.inj he).1]
      exact hs

/-- Paths compose. -/
theorem trans {s s' s'' : σ} {es es' : List ε} (h : Path Step s es s') (h' : Path Step s' es' s'') :
    Path Step s (es ++ es') s'' := by
  induction h' with
  | refl => simpa using h
  | step _ hs ih => simpa using ih.step hs

/-- A step in front of a path. -/
theorem cons {s s' s'' : σ} {e : ε} {es : List ε} (h : Step s e s') (h' : Path Step s' es s'') :
    Path Step s (e :: es) s'' := (single h).trans h'

end Path

/-! ## Along a list of labels -/

/-- What holds of each label of a list and the labels before it. -/
def Along (P : List ε → ε → Prop) (es : List ε) : Prop :=
  ∀ es₁ e es₂, es = es₁ ++ e :: es₂ → P es₁ e

section along

variable {P : List ε → ε → Prop}

@[simp] theorem along_nil : Along P [] := fun _ _ _ h => absurd h (by simp)

/-- One label more. -/
theorem along_concat {es : List ε} {e : ε} : Along P (es ++ [e]) ↔ Along P es ∧ P es e := by
  constructor
  · exact fun h => ⟨fun es₁ x es₂ hes => h es₁ x (es₂ ++ [e]) (by simp [hes]), h es e [] rfl⟩
  · rintro ⟨h, he⟩ es₁ x es₂ hes
    rcases List.eq_nil_or_concat es₂ with rfl | ⟨es₃, y, rfl⟩
    · obtain ⟨rfl, hx⟩ := List.append_inj' hes rfl
      rwa [← (List.cons.inj hx).1]
    · rw [List.concat_eq_append, ← List.cons_append, ← List.append_assoc] at hes
      obtain ⟨rfl, -⟩ := List.append_inj' hes rfl
      exact h es₁ x es₃ rfl

/-- What holds along a list holds along its prefixes. -/
theorem Along.of_append {es es' : List ε} (h : Along P (es ++ es')) : Along P es :=
  fun es₁ e es₂ hes => h es₁ e (es₂ ++ es') (by simp [hes])

/-- Along one list and then another. -/
theorem along_append {es es' : List ε} :
    Along P (es ++ es') ↔ Along P es ∧ Along (fun es₁ e => P (es ++ es₁) e) es' := by
  induction es' using List.reverseRecOn with
  | nil => simp
  | append_singleton es' e ih =>
      rw [← List.append_assoc, along_concat, along_concat, ih, and_assoc]

/-- Along a list, from its first label on. -/
theorem along_cons {es : List ε} {e : ε} :
    Along P (e :: es) ↔ P [] e ∧ Along (fun es₁ e' => P (e :: es₁) e') es := by
  have hsingle : Along P [e] ↔ P [] e := by
    rw [← List.nil_append [e], along_concat]
    exact and_iff_right along_nil
  rw [← List.singleton_append, along_append, hsingle]
  rfl

/-- Along a list, by positions. -/
theorem along_iff_getElem {es : List ε} :
    Along P es ↔ ∀ i (h : i < es.length), P (es.take i) es[i] := by
  constructor
  · intro h i hi
    exact h (es.take i) es[i] (es.drop (i + 1)) (by simp)
  · rintro h es₁ e es₂ rfl
    simpa using h es₁.length (by simp)

instance decidableAlong [∀ es e, Decidable (P es e)] (es : List ε) : Decidable (Along P es) :=
  decidable_of_iff _ along_iff_getElem.symm

end along

/-! ## Machines that are done after so many steps -/

section done

variable {ι φ : Type} (step : σ → ι → Except φ σ) (Law : σ → ι → Prop) (done : σ → Prop)

/-- Whatever lawful inputs it gets, the machine is done after so many steps at most, none of which
fails. -/
def DoneWithin : ℕ → σ → Prop
  | 0, s => done s
  | n + 1, s => done s ∨ ∀ i, Law s i → ∃ s', step s i = .ok s' ∧ DoneWithin n s'

variable {step Law done}

/-- A machine that is done needs no more steps. -/
theorem DoneWithin.of_done {s : σ} (h : done s) (n : ℕ) : DoneWithin step Law done n s := by
  cases n with
  | zero => exact h
  | succ n => exact Or.inl h

/-- One step more. -/
theorem DoneWithin.of_step {n : ℕ} {s : σ}
    (h : ∀ i, Law s i → ∃ s', step s i = .ok s' ∧ DoneWithin step Law done n s') :
    DoneWithin step Law done (n + 1) s := Or.inr h

/-- **A machine that can be kept from being done** never is: an invariant of states that are not
done, with a lawful input after which it holds again or the step fails. -/
theorem not_doneWithin {I : σ → Prop} (hdone : ∀ s, I s → ¬ done s)
    (hstep : ∀ s, I s → ∃ i, Law s i ∧ ∀ s', step s i = .ok s' → I s') {s : σ} (hs : I s) (n : ℕ) :
    ¬ DoneWithin step Law done n s := by
  induction n generalizing s with
  | zero => exact hdone s hs
  | succ n ih =>
      rintro (h | h)
      · exact hdone s hs h
      · obtain ⟨i, hlaw, hkeep⟩ := hstep s hs
        obtain ⟨s', hs', hwithin⟩ := h i hlaw
        exact ih (hkeep s' hs') hwithin

end done

end Lib
