import Ebbnc.Lib.Ledger
import Ebbnc.Lib.Program
import Mathlib.Data.Multiset.UnionInter

/-!
# Keeping account of resources

A state machine that keeps the account of a `Ledger`: what is held, as a multiset, in which the
parts a program owns and a frame it does not touch are summands, and whether something of note has
happened on the way.

* `Account`, `Ledger.Accounts` — the machine; it makes no event that uses what is not held.
* `Ledger.Accounts.use`, `Ledger.Accounts.make`, `Ledger.Accounts.finish`, `Ledger.Accounts.noted`
  — the kinds of its steps.
* **`Ledger.careful_of_accounts`** — a path of the machine is careful, and ends with what is held
  after the run.
* **`Ledger.account_of_sim`** — the same for the runs of a program that follows the machine.
-/

namespace Lib

/-- What is held, and whether something of note has happened. -/
structure Account (ρ : Type) where
  held : Multiset ρ
  noted : Bool

namespace Ledger

variable {ε ρ : Type} (L : Ledger ε ρ) (note : ε → Bool)

/-- An event ends a part of what is held, makes something, and uses nothing that is not held. -/
inductive Accounts : Account ρ → ε → Account ρ → Prop
  | intro {e : ε} {rest : Multiset ρ} {noted : Bool}
      (huses : ∀ r ∈ L.uses e, r ∈ ((L.ended e).toList : Multiset ρ) + rest) :
      Accounts ⟨(L.ended e).toList + rest, noted⟩ e ⟨(L.made e).toList + rest, noted || note e⟩

namespace Accounts

variable {L note} {s : Account ρ} {e : ε} {r : ρ} {rest : Multiset ρ}

/-- An event that only uses what is held. -/
theorem use (hmade : L.made e = none) (hended : L.ended e = none)
    (huses : ∀ r ∈ L.uses e, r ∈ s.held) (hnote : note e = false) : L.Accounts note s e s := by
  have h := @Accounts.intro ε ρ L note e s.held s.noted (by simpa [hended] using huses)
  simpa [hmade, hended, hnote] using h

/-- An event that makes something. -/
theorem make (hmade : L.made e = some r) (hended : L.ended e = none)
    (huses : ∀ r ∈ L.uses e, r ∈ s.held) (hnote : note e = false) :
    L.Accounts note s e ⟨r ::ₘ s.held, s.noted⟩ := by
  have h := @Accounts.intro ε ρ L note e s.held s.noted (by simpa [hended] using huses)
  simpa [hmade, hended, hnote] using h

/-- An event that ends something. -/
theorem finish (hmade : L.made e = none) (hended : L.ended e = some r)
    (huses : ∀ r ∈ L.uses e, r ∈ s.held) (hnote : note e = false) (hheld : s.held = r ::ₘ rest) :
    L.Accounts note s e ⟨rest, s.noted⟩ := by
  obtain ⟨held, noted⟩ := s
  obtain rfl := hheld
  have h := @Accounts.intro ε ρ L note e rest noted (by simpa [hended] using huses)
  simpa [hmade, hended, hnote] using h

/-- An event of note that only uses what is held. -/
theorem noted (hmade : L.made e = none) (hended : L.ended e = none)
    (huses : ∀ r ∈ L.uses e, r ∈ s.held) (hnote : note e = true) :
    L.Accounts note s e ⟨s.held, true⟩ := by
  have h := @Accounts.intro ε ρ L note e s.held s.noted (by simpa [hended] using huses)
  simpa [hmade, hended, hnote] using h

end Accounts

variable {L note} [DecidableEq ρ] {held : List ρ} {t : List ε}

/-- **A path of the machine is careful**, and it ends with what is held after the run and with
whether something of note is in it. -/
theorem careful_of_accounts {s s' : Account ρ} (h : Path (L.Accounts note) s t s')
    (hs : s.held = held) (hheld : held.Nodup) (hfresh : L.Fresh held t) :
    L.Careful held t ∧ s'.held = L.heldAfter held t ∧ s'.noted = (s.noted || t.any note) := by
  induction h with
  | refl => exact ⟨along_nil, hs, by simp⟩
  | @step t s' s'' e _ hstep ih =>
      obtain ⟨hfresh, -⟩ := along_concat.mp hfresh
      obtain ⟨hcareful, hafter, hnoted⟩ := ih hfresh
      cases hstep with
      | @intro _ rest noted huses =>
        obtain ⟨rest, rfl⟩ : ∃ l : List ρ, (l : Multiset ρ) = rest := Quot.exists_rep rest
        rw [Multiset.coe_add] at hafter huses
        have hperm := Multiset.coe_eq_coe.mp hafter
        have hnodup := hperm.nodup_iff.mpr (nodup_heldAfter hheld hfresh)
        refine ⟨along_concat.mpr ⟨hcareful, fun r hr => hperm.subset (huses r hr)⟩, ?_, ?_⟩
        · -- what is left of what was held is the rest
          have hdisjoint := (List.nodup_append.mp hnodup).2.2
          have hended : (L.ended e).toList.filter (fun r => L.ended e ≠ some r) = [] := by
            cases L.ended e <;> simp
          have hkept : rest.filter (fun r => L.ended e ≠ some r) = rest := by
            apply List.filter_eq_self.mpr
            intro r hr
            simpa using fun h => hdisjoint r (by simp [h]) r hr rfl
          have hrest := hperm.filter fun r => L.ended e ≠ some r
          rw [List.filter_append, hended, hkept, List.nil_append] at hrest
          rw [heldAfter_concat, after, Multiset.coe_add]
          exact Multiset.coe_eq_coe.mpr (hrest.append_left _)
        · simp only at hnoted
          simp [hnoted, Bool.or_assoc]

/-- What is held was held or is made. -/
theorem mem_heldAfter {r : ρ} (h : r ∈ L.heldAfter held t) :
    r ∈ held ∨ ∃ e ∈ t, L.made e = some r := by
  induction t using List.reverseRecOn with
  | nil => exact Or.inl h
  | append_singleton t e ih =>
      rw [heldAfter_concat, after, List.mem_append, Option.mem_toList] at h
      rcases h with hmade | hkept
      · exact Or.inr ⟨e, by simp, hmade⟩
      · rcases ih (List.mem_of_mem_filter hkept) with hheld | ⟨e', he', hmade⟩
        · exact Or.inl hheld
        · exact Or.inr ⟨e', List.mem_append_left _ he', hmade⟩

/-- What is held beside all that was held before is made in the run. -/
theorem made_of_heldAfter {part lost : Multiset ρ} (hheld : held.Nodup) (hfresh : L.Fresh held t)
    (hafter : (L.heldAfter held t : Multiset ρ) = part + (lost + held)) {r : ρ} (hr : r ∈ lost) :
    r ∉ held ∧ ∃ e ∈ t, L.made e = some r := by
  have hnodup := Multiset.coe_nodup.mpr (nodup_heldAfter hheld hfresh)
  rw [hafter] at hnodup
  have hdisjoint := (Multiset.nodup_add.mp (Multiset.nodup_add.mp hnodup).2.1).2.2
  have hnot : r ∉ held := fun h => Multiset.disjoint_left.mp hdisjoint hr (Multiset.mem_coe.mpr h)
  have hmem : r ∈ L.heldAfter held t := by
    rw [← Multiset.mem_coe, hafter]
    simp [hr]
  exact ⟨hnot, (mem_heldAfter hmem).resolve_left hnot⟩

end Ledger

/-! ## Programs -/

namespace Ledger

variable {Call ρ α : Type} [DecidableEq ρ] {Reply : Call → Type} {L : Ledger (Event Reply) ρ}
  {note : Event Reply → Bool} {held : List ρ} {t : List (Event Reply)}

/-- **The runs of a program that keeps account** are careful, as long as all replies are lawful, and
when one is over its account fits its value. -/
theorem account_of_sim {P : Event Reply → Prop} {p : Program Reply α} {Q : α → Account ρ → Prop}
    (h : Program.Sim (L.Accounts note) (fun _ e => P e) p ⟨held, false⟩ Q) {o : Option α}
    (ht : Program.Trace p t o) (hlaw : ∀ e ∈ t, P e) (hheld : held.Nodup)
    (hfresh : L.Fresh held t) :
    L.Careful held t ∧ ∀ a ∈ o, Q a ⟨L.heldAfter held t, t.any note⟩ := by
  obtain ⟨⟨held', noted'⟩, hpath, hQ⟩ := h.path ht fun t₁ e t₂ heq _ _ => hlaw e (by simp [heq])
  obtain ⟨hcareful, hafter, hnoted⟩ := careful_of_accounts hpath rfl hheld hfresh
  refine ⟨hcareful, fun a ha => ?_⟩
  have hend := hQ a ha
  simp only [Bool.false_or] at hafter hnoted
  rwa [hafter, hnoted] at hend

end Ledger

end Lib
