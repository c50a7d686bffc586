import Ebbnc.Lib.Ledger
import Mathlib.Data.Finset.Card
import Mathlib.Order.Bounds.Basic

/-!
# The least free place

Places of a type with an order that are taken one after the other, always the least one that is
free, and how many of them fit below a bound.

* `LeastFree` — what is taken, one after the other.
* **`LeastFree.forall_mem_iff`** — all of it is below a bound when there is enough room there.
* `Ledger.Lowest`, `Ledger.Lowest.leastFree` — a run that always makes the least resource.
-/

namespace Lib

variable {ρ : Type} [DecidableEq ρ] {held taken : List ρ} {below : Finset ρ}

/-- No more places of a set are held than there are. -/
theorem length_filter_le_card (hheld : held.Nodup) :
    (held.filter (· ∈ below)).length ≤ below.card := by
  rw [← List.toFinset_card_of_nodup (hheld.filter _)]
  apply Finset.card_le_card
  intro r hr
  simpa using (List.mem_filter.mp (List.mem_toFinset.mp hr)).2

/-- When all places of a set are held, these are as many. -/
theorem card_le_length_filter (h : ∀ r ∈ below, r ∈ held) :
    below.card ≤ (held.filter (· ∈ below)).length := by
  refine le_trans (Finset.card_le_card fun r hr => ?_) (List.toFinset_card_le _)
  exact List.mem_toFinset.mpr (List.mem_filter.mpr ⟨h r hr, by simpa using hr⟩)

variable [LE ρ] (places : Set ρ)

/-- Each of these is the least place that is neither held nor taken before it. -/
def LeastFree : List ρ → List ρ → Prop
  | _, [] => True
  | held, r :: taken => IsLeast {s | s ∈ places ∧ s ∉ held} r ∧ LeastFree (r :: held) taken

variable {places}

/-- **Everything that is taken is below the bound** when there is room for it beside what is held
there. -/
theorem LeastFree.forall_mem_iff (h : LeastFree places held taken) (hheld : held.Nodup)
    (hplaces : ∀ r ∈ below, r ∈ places)
    (hbelow : ∀ r ∈ below, ∀ s ∈ places, s ∉ below → ¬ s ≤ r) :
    (∀ r ∈ taken, r ∈ below) ↔
      (held.filter (· ∈ below)).length + taken.length ≤ below.card := by
  induction taken generalizing held with
  | nil =>
      have hle : (held.filter (· ∈ below)).length ≤ below.card := length_filter_le_card hheld
      simpa using hle
  | cons r taken ih =>
      obtain ⟨⟨⟨hplace, hfree⟩, hleast⟩, hrest⟩ := h
      have ih := ih hrest (List.nodup_cons.mpr ⟨hfree, hheld⟩)
      rw [List.forall_mem_cons, ih, List.length_cons]
      by_cases hr : r ∈ below
      · rw [List.filter_cons_of_pos (by simpa using hr), List.length_cons]
        constructor
        · rintro ⟨-, hle⟩
          omega
        · exact fun hle => ⟨hr, by omega⟩
      · -- what is taken now is beyond the bound, so nothing below it is free
        have hall : ∀ s ∈ below, s ∈ held := by
          intro s hs
          by_contra hnot
          exact hbelow s hs r hplace hr (hleast ⟨hplaces s hs, hnot⟩)
        have hfull := card_le_length_filter hall
        constructor
        · exact fun h => absurd h.1 hr
        · exact fun hle => by omega

namespace Ledger

variable {ε : Type} (L : Ledger ε ρ) (places)

/-- What is made is the least place that is not held. -/
def Lowest (held : List ρ) (t : List ε) : Prop :=
  Along (fun t e => ∀ r ∈ L.made e, IsLeast {s | s ∈ places ∧ s ∉ L.heldAfter held t} r) t

variable {L places} {t : List ε}

/-- Nothing is made that is held already. -/
theorem Lowest.fresh (h : L.Lowest places held t) : L.Fresh held t :=
  fun t₁ e t₂ heq r hr => (h t₁ e t₂ heq r hr).1.2

/-- One event and what follows it. -/
theorem lowest_cons {e : ε} :
    L.Lowest places held (e :: t) ↔
      (∀ r ∈ L.made e, IsLeast {s | s ∈ places ∧ s ∉ held} r) ∧
        L.Lowest places (L.after held e) t := along_cons

/-- While nothing is ended, the least free places are taken one after the other. -/
theorem Lowest.leastFree (h : L.Lowest places held t) (hended : t.filterMap L.ended = []) :
    LeastFree places held (t.filterMap L.made) := by
  induction t generalizing held with
  | nil => trivial
  | cons e t ih =>
      obtain ⟨he, ht⟩ := lowest_cons.mp h
      rw [← List.singleton_append, List.filterMap_append, List.append_eq_nil_iff] at hended
      have hnone : L.ended e = none := by simpa using hended.1
      have hafter : L.after held e = (L.made e).toList ++ held := by
        simp [after, hnone]
      have ih : LeastFree places (L.after held e) (t.filterMap L.made) := ih ht hended.2
      rw [hafter] at ih
      cases hmade : L.made e with
      | none =>
          rw [List.filterMap_cons_none hmade]
          simpa [hmade] using ih
      | some r =>
          rw [List.filterMap_cons_some hmade]
          exact ⟨he r hmade, by simpa [hmade] using ih⟩

end Ledger

end Lib
