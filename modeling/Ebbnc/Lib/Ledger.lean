import Ebbnc.Lib.Machine
import Mathlib.Data.List.Induction
import Mathlib.Data.List.Nodup

/-!
# Resources over a run

What a run makes of resources that have to be given back, for any events and any kind of resource:
descriptors, cells of memory, locks. A `Ledger` says of every event which resources it uses, which
one it makes and which one it ends.

* `Ledger.heldAfter` — the resources that are held after a run.
* `Ledger.Careful` — nothing is used that is not held; `Ledger.Fresh` — nothing is made that is.
* **`Ledger.perm_of_careful`** — conservation: what was held and what was made is what is held and
  what was ended, each as often.
-/

namespace Lib

/-- How events concern resources. -/
structure Ledger (ε ρ : Type) where
  /-- The resources an event uses, with the one it ends. -/
  uses : ε → List ρ
  /-- The resource an event makes. -/
  made : ε → Option ρ
  /-- The resource an event ends. -/
  ended : ε → Option ρ

namespace Ledger

variable {ε ρ : Type} [DecidableEq ρ] (L : Ledger ε ρ)

/-- The resources that are held after an event. -/
def after (held : List ρ) (e : ε) : List ρ :=
  (L.made e).toList ++ held.filter fun r => L.ended e ≠ some r

/-- The resources that are held after a run. -/
def heldAfter (held : List ρ) (t : List ε) : List ρ := t.foldl L.after held

/-- Nothing is made that is held already. -/
def Fresh (held : List ρ) (t : List ε) : Prop :=
  Along (fun t e => ∀ r ∈ L.made e, r ∉ L.heldAfter held t) t

/-- Nothing is used that is not held. -/
def Careful (held : List ρ) (t : List ε) : Prop :=
  Along (fun t e => ∀ r ∈ L.uses e, r ∈ L.heldAfter held t) t

instance (held : List ρ) (t : List ε) : Decidable (L.Fresh held t) :=
  inferInstanceAs (Decidable (Along _ t))

instance (held : List ρ) (t : List ε) : Decidable (L.Careful held t) :=
  inferInstanceAs (Decidable (Along _ t))

variable {L} {held : List ρ} {t : List ε} {e : ε}

@[simp] theorem heldAfter_nil : L.heldAfter held [] = held := rfl

@[simp] theorem heldAfter_concat :
    L.heldAfter held (t ++ [e]) = L.after (L.heldAfter held t) e := by
  simp [heldAfter]

/-- An event that neither makes nor ends anything. -/
theorem after_of_none (hmade : L.made e = none) (hended : L.ended e = none) :
    L.after held e = held := by
  simp [after, hmade, hended]

/-- The same at the end of a run. -/
theorem heldAfter_concat_of_none (hmade : L.made e = none) (hended : L.ended e = none) :
    L.heldAfter held (t ++ [e]) = L.heldAfter held t := by
  rw [heldAfter_concat, after_of_none hmade hended]

/-- **The frame rule**: what is held apart from the part an event is about stays as it is. -/
theorem after_perm_append {apart part : List ρ} (hperm : held.Perm (apart ++ part))
    (hheld : held.Nodup) (hended : ∀ r ∈ L.ended e, r ∈ part) :
    (L.after held e).Perm (apart ++ L.after part e) := by
  have hapart : apart.filter (fun r => L.ended e ≠ some r) = apart := by
    apply List.filter_eq_self.mpr
    intro r hr
    have hdisjoint := (List.nodup_append.mp (hperm.nodup_iff.mp hheld)).2.2
    simpa using fun h => hdisjoint r hr r (hended r h) rfl
  have hfilter := hperm.filter fun r => L.ended e ≠ some r
  rw [List.filter_append, hapart] at hfilter
  rw [after, after]
  apply (hfilter.append_left _).trans
  rw [← List.append_assoc, ← List.append_assoc]
  exact List.perm_append_comm.append_right _

/-! ## Conservation -/

/-- Nothing is held twice. -/
theorem nodup_heldAfter (hheld : held.Nodup) (hfresh : L.Fresh held t) :
    (L.heldAfter held t).Nodup := by
  induction t using List.reverseRecOn with
  | nil => exact hheld
  | append_singleton t e ih =>
      obtain ⟨ht, he⟩ := along_concat.mp hfresh
      rw [heldAfter_concat, after]
      cases hmade : L.made e with
      | none => exact (ih ht).filter _
      | some r =>
          have hr : r ∉ (L.heldAfter held t).filter fun r => L.ended e ≠ some r :=
            fun h => he r hmade (List.mem_of_mem_filter h)
          exact List.nodup_cons.mpr ⟨hr, (ih ht).filter _⟩

/-- Taking one resource out of those that are held. -/
theorem perm_cons_filter {r : ρ} (hheld : held.Nodup) (hr : r ∈ held) :
    held.Perm (r :: held.filter fun r' => some r ≠ some r') := by
  have hfilter : (held.filter fun r' => some r ≠ some r') = held.erase r := by
    rw [hheld.erase_eq_filter]
    apply List.filter_congr
    intro r' _
    rcases eq_or_ne r r' with rfl | hne
    · simp
    · simp [hne, hne.symm]
  rw [hfilter]
  exact List.perm_cons_erase hr

/-- **Conservation**: what was held and what was made is what is held and what was ended. -/
theorem perm_of_careful (hended : ∀ e, ∀ r ∈ L.ended e, r ∈ L.uses e) (hheld : held.Nodup)
    (hfresh : L.Fresh held t) (hcareful : L.Careful held t) :
    (held ++ t.filterMap L.made).Perm (L.heldAfter held t ++ t.filterMap L.ended) := by
  induction t using List.reverseRecOn with
  | nil => simp
  | append_singleton t e ih =>
      obtain ⟨hfresh, -⟩ := along_concat.mp hfresh
      obtain ⟨hcareful, huses⟩ := along_concat.mp hcareful
      have ih := ih hfresh hcareful
      -- what the event ends is held before it
      have hstep : (L.heldAfter held t).Perm
          ((L.ended e).toList ++ (L.heldAfter held t).filter fun r => L.ended e ≠ some r) := by
        cases hend : L.ended e with
        | none => simp
        | some r =>
            exact perm_cons_filter (nodup_heldAfter hheld hfresh) (huses r (hended e r hend))
      have hmade : (t ++ [e]).filterMap L.made = t.filterMap L.made ++ (L.made e).toList := by
        cases h : L.made e <;> simp [h]
      have hend : (t ++ [e]).filterMap L.ended = t.filterMap L.ended ++ (L.ended e).toList := by
        cases h : L.ended e <;> simp [h]
      rw [heldAfter_concat, after, hmade, hend]
      rw [List.perm_iff_count] at hstep ih ⊢
      intro r
      have hstep := hstep r
      have ih := ih r
      simp only [List.count_append] at hstep ih ⊢
      omega

/-- What is given back in the end: when nothing is held any more, everything that was held or made
was ended, each as often. -/
theorem ended_perm_of_heldAfter_nil (hended : ∀ e, ∀ r ∈ L.ended e, r ∈ L.uses e)
    (hheld : held.Nodup) (hfresh : L.Fresh held t) (hcareful : L.Careful held t)
    (hnil : L.heldAfter held t = []) :
    (t.filterMap L.ended).Perm (held ++ t.filterMap L.made) := by
  have hperm := perm_of_careful hended hheld hfresh hcareful
  rw [hnil, List.nil_append] at hperm
  exact hperm.symm

/-- What was made and is not held any more was ended. -/
theorem mem_ended_of_not_held (hended : ∀ e, ∀ r ∈ L.ended e, r ∈ L.uses e) (hheld : held.Nodup)
    (hfresh : L.Fresh held t) (hcareful : L.Careful held t) {r : ρ}
    (hmade : r ∈ t.filterMap L.made) (hgone : r ∉ L.heldAfter held t) :
    r ∈ t.filterMap L.ended := by
  have hmem := (perm_of_careful hended hheld hfresh hcareful).mem_iff.mp
    (List.mem_append_right held hmade)
  exact (List.mem_append.mp hmem).resolve_left hgone

/-! ## Acquiring and giving back -/

theorem heldAfter_append {t₁ t₂ : List ε} :
    L.heldAfter held (t₁ ++ t₂) = L.heldAfter (L.heldAfter held t₁) t₂ :=
  List.foldl_append

/-- While nothing is ended, what is made is added. -/
theorem heldAfter_of_ended_nil (h : t.filterMap L.ended = []) :
    L.heldAfter held t = (t.filterMap L.made).reverse ++ held := by
  induction t using List.reverseRecOn with
  | nil => rfl
  | append_singleton t e ih =>
      rw [List.filterMap_append, List.append_eq_nil_iff] at h
      have hended : L.ended e = none := by simpa using h.2
      rw [heldAfter_concat, after, ih h.1, hended]
      cases hmade : L.made e <;> simp [hmade]

/-- While nothing is made, what is ended is taken away. -/
theorem heldAfter_of_made_nil (h : t.filterMap L.made = []) :
    L.heldAfter held t = held.filter fun r => r ∉ t.filterMap L.ended := by
  induction t using List.reverseRecOn with
  | nil => simp
  | append_singleton t e ih =>
      rw [List.filterMap_append, List.append_eq_nil_iff] at h
      have hmade : L.made e = none := by simpa using h.2
      rw [heldAfter_concat, after, ih h.1, hmade, Option.toList_none, List.nil_append,
        List.filter_filter]
      apply List.filter_congr
      intro r _
      cases hended : L.ended e with
      | none => simp [hended]
      | some r' =>
          have hmem : r ∈ (t ++ [e]).filterMap L.ended ↔ r ∈ t.filterMap L.ended ∨ r = r' := by
            simp [List.filterMap_append, hended]
          simp only [hmem, not_or, Bool.decide_and, Option.some.injEq, ne_eq, eq_comm (a := r)]
          rw [Bool.and_comm]

/-- One event and what follows it. -/
theorem careful_cons {t : List ε} :
    L.Careful held (e :: t) ↔ (∀ r ∈ L.uses e, r ∈ held) ∧ L.Careful (L.after held e) t :=
  along_cons

/-- One run after the other. -/
theorem careful_append {t₁ t₂ : List ε} :
    L.Careful held (t₁ ++ t₂) ↔ L.Careful held t₁ ∧ L.Careful (L.heldAfter held t₁) t₂ := by
  simp only [Careful, along_append, heldAfter_append]

/-- A run that uses only what is held from the beginning and ends nothing. -/
theorem careful_of_ended_nil (huses : ∀ e ∈ t, ∀ r ∈ L.uses e, r ∈ held)
    (hended : t.filterMap L.ended = []) : L.Careful held t := by
  rintro t₁ e t₂ rfl r hr
  rw [List.filterMap_append, List.append_eq_nil_iff] at hended
  rw [heldAfter_of_ended_nil hended.1]
  exact List.mem_append_right _ (huses e (by simp) r hr)

/-- A run that ends resources that are held, each of them once, and does nothing else. -/
theorem careful_of_nodup (huses : ∀ e ∈ t, L.uses e = (L.ended e).toList)
    (hmade : t.filterMap L.made = []) (hnodup : (t.filterMap L.ended).Nodup)
    (hheld : ∀ r ∈ t.filterMap L.ended, r ∈ held) : L.Careful held t := by
  induction t using List.reverseRecOn with
  | nil => exact along_nil
  | append_singleton t e ih =>
      rw [List.filterMap_append, List.append_eq_nil_iff] at hmade
      rw [List.filterMap_append] at hnodup hheld
      have hih := ih (fun e' he' => huses e' (List.mem_append_left _ he')) hmade.1
        (List.nodup_append.mp hnodup).1 fun r hr => hheld r (List.mem_append_left _ hr)
      refine along_concat.mpr ⟨hih, fun r hr => ?_⟩
      -- what ends now did not end before
      rw [huses e (List.mem_append_right _ (List.mem_singleton_self e)), Option.mem_toList] at hr
      have hmem : r ∈ [e].filterMap L.ended := by simpa using hr
      rw [heldAfter_of_made_nil hmade.1, List.mem_filter]
      refine ⟨hheld r (List.mem_append_right _ hmem), ?_⟩
      simpa using fun h => (List.nodup_append.mp hnodup).2.2 r h r hmem rfl

/-- **Giving back what was acquired**: a run that first makes and ends nothing, and then ends what
it made and makes nothing, leaves what it found, and made nothing twice. -/
theorem heldAfter_restored {t₁ t₂ : List ε} (hended : t₁.filterMap L.ended = [])
    (hmade : t₂.filterMap L.made = [])
    (hperm : (t₂.filterMap L.ended).Perm (t₁.filterMap L.made)) (hheld : held.Nodup)
    (hfresh : L.Fresh held (t₁ ++ t₂)) :
    L.heldAfter held (t₁ ++ t₂) = held ∧ ((t₁ ++ t₂).filterMap L.made).Nodup := by
  have hnodup := nodup_heldAfter hheld hfresh.of_append
  rw [heldAfter_of_ended_nil hended] at hnodup
  obtain ⟨hmadeNodup, -, hdisjoint⟩ := List.nodup_append.mp hnodup
  refine ⟨?_, ?_⟩
  · rw [heldAfter_append, heldAfter_of_ended_nil hended, heldAfter_of_made_nil hmade,
      List.filter_append]
    have hgone : (t₁.filterMap L.made).reverse.filter (fun r => r ∉ t₂.filterMap L.ended) = [] := by
      apply List.filter_eq_nil_iff.mpr
      intro r hr
      simpa using hperm.mem_iff.mpr (List.mem_reverse.mp hr)
    have hkept : held.filter (fun r => r ∉ t₂.filterMap L.ended) = held := by
      apply List.filter_eq_self.mpr
      intro r hr
      simpa using fun h => hdisjoint r (List.mem_reverse.mpr (hperm.mem_iff.mp h)) r hr rfl
    rw [hgone, hkept, List.nil_append]
  · rw [List.filterMap_append, hmade, List.append_nil]
    exact List.nodup_reverse.mp hmadeNodup

end Ledger

end Lib
