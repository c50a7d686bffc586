import Mathlib.Data.List.Perm.Subperm
import Mathlib.Tactic.Common

/-!
# Linked lists on a heap

Cells in memory, for any type of cells: pointers are positions, memory that was given back is
empty and is never handed out again.

* `Heap.load`, `Heap.alloc`, `Heap.store`, `Heap.release` — memory and what it holds afterwards.
* `Chain` — the cells a pointer leads to, one link after the other.
* **`Chain.nodup`** — no cell is passed twice.
* `Chain.congr` — the frame rule: what is stored elsewhere leaves the list as it is.
-/

namespace Lib

/-- Memory; a cell that was given back is none. -/
abbrev Heap (α : Type) := List (Option α)

namespace Heap

variable {α : Type} (heap : Heap α)

/-- What is in a cell, unless it was given back or never handed out. -/
def load (p : ℕ) : Option α := heap[p]?.join

/-- A new cell, at the end of the memory. -/
def alloc (a : α) : Heap α := heap ++ [some a]

/-- Another value for a cell. -/
def store (p : ℕ) (a : α) : Heap α := heap.set p (some a)

/-- A cell is given back. -/
def release (p : ℕ) : Heap α := heap.set p none

variable {heap} {p q : ℕ} {a b : α}

/-- Only what was handed out holds something. -/
theorem lt_of_load (h : heap.load p = some a) : p < heap.length := by
  by_contra hp
  rw [load, List.getElem?_eq_none (Nat.le_of_not_lt hp)] at h
  cases h

/-- What was not handed out yet holds nothing. -/
@[simp] theorem load_length : heap.load heap.length = none := by simp [load]

@[simp] theorem length_release : (heap.release p).length = heap.length := List.length_set

@[simp] theorem load_alloc_self : (heap.alloc a).load heap.length = some a := by
  simp [load, alloc]

/-- A new cell leaves the others as they are. -/
theorem load_alloc_of_ne (h : p ≠ heap.length) : (heap.alloc a).load p = heap.load p := by
  rcases Nat.lt_or_gt_of_ne h with hlt | hgt
  · simp only [load, alloc, List.getElem?_append_left hlt]
  · have hnone : (heap ++ [some a])[p]? = none :=
      List.getElem?_eq_none (by simp only [List.length_append, List.length_singleton]; omega)
    rw [load, load, alloc, hnone, List.getElem?_eq_none (Nat.le_of_lt hgt)]

/-- Storing in a cell that was handed out. -/
theorem load_store_self (h : heap.load p = some b) : (heap.store p a).load p = some a := by
  simp [load, store, List.getElem?_set_self (lt_of_load h)]

theorem load_store_of_ne (h : p ≠ q) : (heap.store p a).load q = heap.load q := by
  simp only [load, store, List.getElem?_set_ne h]

/-- What was given back holds nothing. -/
@[simp] theorem load_release_self : (heap.release p).load p = none := by
  rcases Nat.lt_or_ge p heap.length with hlt | hge
  · simp [load, release, List.getElem?_set_self hlt]
  · rw [load, List.getElem?_eq_none (by simpa using hge)]
    rfl

theorem load_release_of_ne (h : p ≠ q) : (heap.release p).load q = heap.load q := by
  simp only [load, release, List.getElem?_set_ne h]

end Heap

/-! ## Linked lists -/

section chain

variable {α : Type} (next : α → Option ℕ)

/-- The cells a pointer leads to, each with its place. -/
def Chain (heap : Heap α) : Option ℕ → List (ℕ × α) → Prop
  | p, [] => p = none
  | p, (q, a) :: cells => p = some q ∧ heap.load q = some a ∧ Chain heap (next a) cells

variable {next} {heap heap' : Heap α} {p : Option ℕ} {cells cells' : List (ℕ × α)}

@[simp] theorem chain_nil : Chain next heap p [] ↔ p = none := Iff.rfl

@[simp] theorem chain_cons {q : ℕ} {a : α} :
    Chain next heap p ((q, a) :: cells) ↔
      p = some q ∧ heap.load q = some a ∧ Chain next heap (next a) cells := Iff.rfl

/-- A pointer leads to one list at most. -/
theorem Chain.unique (h : Chain next heap p cells) (h' : Chain next heap p cells') :
    cells = cells' := by
  induction cells generalizing p cells' with
  | nil =>
      obtain rfl := h
      cases cells' with
      | nil => rfl
      | cons cell' cells' => cases h'.1
  | cons cell cells ih =>
      obtain ⟨rfl, hload, hrest⟩ := h
      cases cells' with
      | nil => cases h'
      | cons cell' cells' =>
          obtain ⟨hp, hload', hrest'⟩ := h'
          have hplace : cell.1 = cell'.1 := Option.some.inj hp
          rw [← hplace, hload] at hload'
          have hcell : cell = cell' := Prod.ext hplace (Option.some.inj hload')
          subst hcell
          rw [ih hrest hrest']

/-- From a cell of the list on, the pointer to it leads to what follows. -/
theorem Chain.of_append {cells₁ cells₂ : List (ℕ × α)} {q : ℕ} {a : α}
    (h : Chain next heap p (cells₁ ++ (q, a) :: cells₂)) :
    Chain next heap (some q) ((q, a) :: cells₂) := by
  induction cells₁ generalizing p with
  | nil => exact ⟨rfl, h.2⟩
  | cons cell cells₁ ih => exact ih h.2.2

/-- **No cell is passed twice**: otherwise the list would go on for ever. -/
theorem Chain.nodup (h : Chain next heap p cells) : (cells.map Prod.fst).Nodup := by
  induction cells generalizing p with
  | nil => exact List.nodup_nil
  | cons cell cells ih =>
      obtain ⟨q, a⟩ := cell
      obtain ⟨rfl, hload, hrest⟩ := h
      refine List.nodup_cons.mpr ⟨?_, ih hrest⟩
      intro hmem
      obtain ⟨⟨q', a'⟩, hcell, rfl⟩ := List.mem_map.mp hmem
      obtain ⟨cells₁, cells₂, rfl⟩ := List.append_of_mem hcell
      -- the pointer leads to the whole list and to its end
      have hwhole : Chain next heap (some q') ((q', a) :: (cells₁ ++ (q', a') :: cells₂)) :=
        ⟨rfl, hload, hrest⟩
      have heq := congrArg List.length (hwhole.unique hrest.of_append)
      simp only [List.length_cons, List.length_append] at heq
      omega

/-- **The frame rule**: where the cells of the list are as they were, so is the list. -/
theorem Chain.congr (h : Chain next heap p cells)
    (heq : ∀ cell ∈ cells, heap'.load cell.1 = heap.load cell.1) : Chain next heap' p cells := by
  induction cells generalizing p with
  | nil => exact h
  | cons cell cells ih =>
      obtain ⟨hp, hload, hrest⟩ := h
      refine ⟨hp, ?_, ih hrest fun cell' h' => heq cell' (List.mem_cons_of_mem _ h')⟩
      rw [heq cell List.mem_cons_self, hload]

/-- The cells of a list are in memory. -/
theorem Chain.load_of_mem (h : Chain next heap p cells) {cell : ℕ × α} (hcell : cell ∈ cells) :
    heap.load cell.1 = some cell.2 := by
  obtain ⟨cells₁, cells₂, rfl⟩ := List.append_of_mem hcell
  exact h.of_append.2.1

/-- A list is not longer than the memory. -/
theorem Chain.length_le (h : Chain next heap p cells) : cells.length ≤ heap.length := by
  have hsubset : cells.map Prod.fst ⊆ List.range heap.length := by
    intro q hq
    obtain ⟨cell, hcell, rfl⟩ := List.mem_map.mp hq
    exact List.mem_range.mpr (Heap.lt_of_load (h.load_of_mem hcell))
  have hle := (h.nodup.subperm hsubset).length_le
  rwa [List.length_map, List.length_range] at hle

end chain

end Lib
