import Mathlib.Data.List.DropRight
import Mathlib.Data.List.TakeWhile
import Mathlib.Tactic.Common

/-!
# Maximal runs of a list

The lines of a text are its maximal runs of characters that end no line. `runs sep l` is that
notion for any separator: the non-empty pieces `List.splitOnP` leaves.

* **`runs_eq_of_ne_nil`** — the first run and the rest, as a scanning loop finds them.
* `runs_append_cons` — a run, a separator and the rest; `mem_runs` — what the runs are made of.
* **`runs_flatMap_append`** — pieces written out with a separator after each are the runs read back;
  **`runs_flatMap_seps`** — so are they with any number of separators after each.
* `append_cons_inj` — a text is split at its first separator in one way; `take_succ_eq_iff` — the
  test whether a text begins with a name and a separator.
-/

namespace Lib

variable {α : Type} {sep : α → Bool}

/-- The maximal runs of elements that are no separators. -/
def runs (sep : α → Bool) (l : List α) : List (List α) :=
  (l.splitOnP sep).filter fun r => !r.isEmpty

@[simp] theorem runs_nil : runs sep [] = [] := by simp [runs]

/-- Separators in front are skipped. -/
theorem runs_cons_sep {a : α} (h : sep a = true) (l : List α) : runs sep (a :: l) = runs sep l := by
  simp [runs, List.splitOnP_cons_eq_if_modifyHead, h]

theorem runs_dropWhile (l : List α) : runs sep (l.dropWhile sep) = runs sep l := by
  induction l with
  | nil => rfl
  | cons a l ih =>
      by_cases h : sep a = true
      · rw [List.dropWhile_cons_of_pos h, ih, runs_cons_sep h]
      · rw [List.dropWhile_cons_of_neg h]

/-- A run up to a separator is the first one. -/
theorem runs_append_cons {r : List α} (hr : ∀ a ∈ r, sep a = false) (hne : r ≠ []) {s : α}
    (hs : sep s = true) (l : List α) : runs sep (r ++ s :: l) = r :: runs sep l := by
  rw [runs, List.splitOnP_append_cons_of_forall_mem hr s hs, List.filter_cons_of_pos (by simpa)]
  rfl

/-- A list without separators is one run. -/
theorem runs_of_forall {r : List α} (hr : ∀ a ∈ r, sep a = false) (hne : r ≠ []) :
    runs sep r = [r] := by
  rw [runs, List.splitOnP_eq_singleton hr]
  simpa using hne

/-- **The scanning loop**: the characters up to the first separator are a run unless there are
none, and the runs of what follows the separators after them are the others. -/
theorem runs_eq_of_ne_nil (l : List α) :
    runs sep l =
      (if l.takeWhile (fun a => !sep a) = [] then [] else [l.takeWhile fun a => !sep a]) ++
        runs sep ((l.dropWhile fun a => !sep a).dropWhile sep) := by
  have hrun : ∀ a ∈ l.takeWhile (fun a => !sep a), sep a = false := by
    intro a ha
    simpa using List.mem_takeWhile_imp ha
  rw [runs_dropWhile]
  conv_lhs => rw [← List.takeWhile_append_dropWhile (p := fun a => !sep a) (l := l)]
  by_cases hne : l.takeWhile (fun a => !sep a) = []
  · simp [hne]
  · rw [if_neg hne]
    rcases hd : l.dropWhile (fun a => !sep a) with _ | ⟨s, rest⟩
    · rw [List.append_nil, runs_of_forall hrun hne]
      rfl
    · have hs : sep s = true := by
        have hhead := List.dropWhile_get_zero_not (fun a => !sep a) l (by simp [hd])
        simpa [hd] using hhead
      rw [runs_append_cons hrun hne hs, runs_cons_sep hs]
      rfl

/-- Skipping the first run and the separators after it leaves less. -/
theorem length_skip_lt {l : List α} (hne : l ≠ []) :
    ((l.dropWhile fun a => !sep a).dropWhile sep).length < l.length := by
  obtain ⟨a, rest, rfl⟩ := List.exists_cons_of_ne_nil hne
  rw [List.length_cons, Nat.lt_succ_iff]
  by_cases h : sep a = true
  · rw [List.dropWhile_cons_of_neg (by simpa using h), List.dropWhile_cons_of_pos h]
    exact List.length_dropWhile_le _ _
  · rw [List.dropWhile_cons_of_pos (by simpa using h)]
    exact (List.length_dropWhile_le _ _).trans (List.length_dropWhile_le _ _)

/-- Every run is non-empty, free of separators and made of elements of the list. -/
theorem mem_runs {l r : List α} (h : r ∈ runs sep l) : r ≠ [] ∧ ∀ a ∈ r, sep a = false ∧ a ∈ l := by
  induction hlen : l.length using Nat.strong_induction_on generalizing l with
  | _ n ih =>
      by_cases hnil : l = []
      · subst hnil
        simp at h
      · rw [runs_eq_of_ne_nil] at h
        rcases List.mem_append.mp h with h | h
        · split_ifs at h with hne
          · cases h
          · rw [List.mem_singleton.mp h]
            exact ⟨hne, fun a ha => ⟨by simpa using List.mem_takeWhile_imp ha,
              (List.takeWhile_sublist _).subset ha⟩⟩
        · obtain ⟨hne, hmem⟩ := ih _ (hlen ▸ length_skip_lt hnil) h rfl
          exact ⟨hne, fun a ha => ⟨(hmem a ha).1, (List.dropWhile_sublist _).subset
            ((List.dropWhile_sublist _).subset (hmem a ha).2)⟩⟩

/-- **Reading back what was written**: pieces free of separators, each followed by one, are the
runs of the text. -/
theorem runs_flatMap_append {s : α} (hs : sep s = true) (ls : List (List α)) (rest : List α)
    (h : ∀ r ∈ ls, r ≠ [] ∧ ∀ a ∈ r, sep a = false) :
    runs sep (ls.flatMap (fun r => r ++ [s]) ++ rest) = ls ++ runs sep rest := by
  induction ls with
  | nil => rfl
  | cons r ls ih =>
      obtain ⟨hne, hfree⟩ := h r List.mem_cons_self
      rw [List.flatMap_cons, List.append_assoc, List.append_assoc, List.singleton_append,
        runs_append_cons hfree hne hs, ih fun r' hr' => h r' (List.mem_cons_of_mem _ hr')]
      rfl

/-- Separators in front are skipped, however many there are. -/
theorem runs_append_sep {seps : List α} (h : ∀ s ∈ seps, sep s = true) (l : List α) :
    runs sep (seps ++ l) = runs sep l := by
  induction seps with
  | nil => rfl
  | cons s seps ih =>
      rw [List.cons_append, runs_cons_sep (h s List.mem_cons_self),
        ih fun s' hs' => h s' (List.mem_cons_of_mem _ hs')]

/-- **What separates the pieces does not matter**: pieces free of separators, each followed by some
of them, and a last piece that none follow are the runs, the empty ones left out. -/
theorem runs_flatMap_seps (ls : List (List α × List α)) {last : List α}
    (h : ∀ l ∈ ls, (∀ a ∈ l.1, sep a = false) ∧ l.2 ≠ [] ∧ ∀ s ∈ l.2, sep s = true)
    (hlast : ∀ a ∈ last, sep a = false) :
    runs sep (ls.flatMap (fun l => l.1 ++ l.2) ++ last) =
      (ls.map Prod.fst ++ [last]).filter fun r => !r.isEmpty := by
  induction ls with
  | nil =>
      by_cases hne : last = []
      · simp [hne]
      · rw [List.flatMap_nil, List.nil_append, runs_of_forall hlast hne]
        simp [hne]
  | cons l ls ih =>
      obtain ⟨r, seps⟩ := l
      obtain ⟨hfree, hsepsne, hseps⟩ := h (r, seps) List.mem_cons_self
      have hrest := ih fun l hl => h l (List.mem_cons_of_mem _ hl)
      rw [List.flatMap_cons, List.append_assoc, List.append_assoc, List.map_cons, List.cons_append]
      by_cases hne : r = []
      · rw [hne, List.nil_append, runs_append_sep hseps, hrest]
        rfl
      · obtain ⟨s, seps, rfl⟩ := List.exists_cons_of_ne_nil hsepsne
        have hafter : ∀ x ∈ seps, sep x = true := fun x hx => hseps x (List.mem_cons_of_mem _ hx)
        rw [List.cons_append, runs_append_cons hfree hne (hseps s List.mem_cons_self),
          runs_append_sep hafter, hrest, List.filter_cons_of_pos (by simpa using hne)]

/-! ## Up to the first separator -/

section first

variable {sep : α} {l l' rest rest' : List α}

/-- What stands in front of the first separator, and what behind it. -/
theorem append_cons_inj (h : sep ∉ l) (h' : sep ∉ l') :
    l ++ sep :: rest = l' ++ sep :: rest' ↔ l = l' ∧ rest = rest' := by
  induction l generalizing l' with
  | nil =>
      cases l' with
      | nil => simp
      | cons a l' =>
          have ha : sep ≠ a := fun heq => h' (heq ▸ List.mem_cons_self)
          simp [ha]
  | cons a l ih =>
      cases l' with
      | nil =>
          have ha : a ≠ sep := fun heq => h (heq ▸ List.mem_cons_self)
          simp [ha]
      | cons a' l' =>
          have hrest := ih (List.not_mem_of_not_mem_cons h) (List.not_mem_of_not_mem_cons h')
          simp only [List.cons_append, List.cons.injEq, hrest, and_assoc]

/-- A text begins with something free of separators in front of the first one. -/
theorem isPrefix_append_cons_iff {start : List α} (h : sep ∉ start) :
    start <+: l ++ sep :: rest ↔ start <+: l := by
  constructor
  · intro hstart
    rcases List.prefix_or_prefix_of_prefix hstart (List.prefix_append l _) with hle | ⟨more, rfl⟩
    · exact hle
    · have hmore : more <+: sep :: rest := (List.prefix_append_right_inj l).mp hstart
      rcases List.prefix_cons_iff.mp hmore with rfl | ⟨more, rfl, -⟩
      · simp
      · exact absurd (List.mem_append_right _ List.mem_cons_self) h
  · exact fun hstart => hstart.trans (List.prefix_append l _)

end first

/-- The beginning of a text, as long as a name and a separator, is these just when the name stands
in front of its first separator. -/
theorem take_succ_eq_iff {sep : α} {key name : List α} (hkey : sep ∉ key) (hname : sep ∉ name)
    (value : List α) :
    (key ++ sep :: value).take (name.length + 1) = name ++ [sep] ↔ key = name := by
  have hlen : (name ++ [sep]).length = name.length + 1 := by simp
  rw [eq_comm, ← hlen, ← List.prefix_iff_eq_take]
  constructor
  · rintro ⟨rest, hrest⟩
    rw [List.append_assoc, List.singleton_append] at hrest
    exact ((append_cons_inj hname hkey).mp hrest).1.symm
  · rintro rfl
    exact ⟨value, by simp⟩

end Lib
