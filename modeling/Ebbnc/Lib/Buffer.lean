import Mathlib.Data.List.Basic
import Mathlib.Tactic.Common

/-!
# Bounds-checked buffers

A C function walks its buffers with pointers: it reads and writes at the pointer, steps it
forward, and now and then looks one element back. A `Cursor` is such a pointer together with the
object it points into, split at the pointer; every access that would leave the object is a
`Fault` instead of a value, so a run that ends in `Except.ok` touched nothing outside its buffers.

* `Mem` — computations that may fault.
* `Cursor.peek`, `Cursor.read`, `Cursor.put`, `Cursor.poke`, `Cursor.store`, `Cursor.write`,
  `Cursor.fill`, `Cursor.advance`, `Cursor.back` — the accesses, each with the lemma that says when
  it succeeds.
-/

namespace Lib

/-- The ways a run of a C program can leave the memory it owns. -/
inductive Fault
  /-- An access outside the object a pointer points into. -/
  | outOfBounds
  /-- An access through a null pointer. -/
  | nullPointer
  deriving DecidableEq, Repr

/-- A string of bytes. -/
abbrev Bytes := List UInt8

/-- What holds of the 256 characters, one by one, holds of every byte. -/
theorem forall_byte {p : UInt8 → Prop} (h : ∀ n : Fin 256, p (UInt8.ofNat n)) (c : UInt8) :
    p c := by
  simpa using h ⟨c.toNat, c.toNat_lt⟩

/-- A computation that may fault. -/
abbrev Mem := Except Fault

namespace Mem

variable {α β : Type}

/-- A computation that did not fault hands its value on. -/
@[simp] theorem ok_bind (a : α) (f : α → Mem β) : (Except.ok a >>= f : Mem β) = f a := rfl

/-- A fault ends the computation. -/
@[simp] theorem error_bind (e : Fault) (f : α → Mem β) :
    ((Except.error e : Mem α) >>= f) = Except.error e := rfl

/-- Returning a value does not fault. -/
@[simp] theorem pure_eq_ok (a : α) : (pure a : Mem α) = Except.ok a := rfl

/-- Raising a fault is the error result. -/
@[simp] theorem throw_eq_error (e : Fault) : (throw e : Mem α) = Except.error e := rfl

end Mem

/-- A pointer into an object: the elements before it and the elements from it on. -/
structure Cursor (α : Type) where
  /-- The elements the pointer has passed. -/
  before : List α
  /-- The elements from the pointer to the end of the object. -/
  after : List α
  deriving DecidableEq, Repr

namespace Cursor

variable {α : Type}

/-- The pointer to the first element of an object. -/
def start (buffer : List α) : Cursor α := ⟨[], buffer⟩

/-- The whole object a cursor points into. -/
def buffer (c : Cursor α) : List α := c.before ++ c.after

/-- The pointer to a place of an object. -/
def place (buffer : List α) (p : Nat) : Cursor α := ⟨buffer.take p, buffer.drop p⟩

/-- `*(p + i)`: the element `i` places from the pointer. -/
def peek (c : Cursor α) (i : Nat) : Mem α :=
  match c.after[i]? with
  | some a => pure a
  | none => throw .outOfBounds

/-- The `n` elements from the pointer on, as `memcpy` reads them. -/
def read (c : Cursor α) (n : Nat) : Mem (Vector α n) :=
  if h : n ≤ c.after.length then
    pure ⟨(c.after.take n).toArray, by simp [h]⟩
  else throw .outOfBounds

/-- `*p++ = a`. -/
def put (c : Cursor α) (a : α) : Mem (Cursor α) :=
  match c.after with
  | [] => throw .outOfBounds
  | _ :: rest => pure ⟨c.before ++ [a], rest⟩

/-- `*p = a`. -/
def poke (c : Cursor α) (a : α) : Mem (Cursor α) :=
  match c.after with
  | [] => throw .outOfBounds
  | _ :: rest => pure ⟨c.before, a :: rest⟩

/-- `p[i] = a`. -/
def store (c : Cursor α) (i : Nat) (a : α) : Mem (Cursor α) :=
  if i < c.after.length then pure ⟨c.before, c.after.set i a⟩ else throw .outOfBounds

/-- The elements from the pointer on overwritten by those of `v`, as `memcpy` writes them. -/
def write {n : Nat} (c : Cursor α) (v : Vector α n) : Mem (Cursor α) :=
  if n ≤ c.after.length then pure ⟨c.before, v.toList ++ c.after.drop n⟩
  else throw .outOfBounds

/-- The elements from the pointer on overwritten by others, as library functions fill a buffer. -/
def fill (c : Cursor α) (bytes : List α) : Mem (Cursor α) :=
  if bytes.length ≤ c.after.length then pure ⟨c.before, bytes ++ c.after.drop bytes.length⟩
  else throw .outOfBounds

/-- `p += n`; a pointer may go one past the last element and no further. -/
def advance (c : Cursor α) (n : Nat) : Mem (Cursor α) :=
  if n ≤ c.after.length then pure ⟨c.before ++ c.after.take n, c.after.drop n⟩
  else throw .outOfBounds

/-- `*(p - 1)`. -/
def back (c : Cursor α) : Mem α :=
  match c.before.getLast? with
  | some a => pure a
  | none => throw .outOfBounds

/-! ## When an access succeeds -/

@[simp] theorem buffer_mk (l r : List α) : (Cursor.mk l r).buffer = l ++ r := rfl

/-- Reading inside the object gives the element there. -/
theorem peek_eq_ok {c : Cursor α} {i : Nat} {a : α} :
    c.peek i = .ok a ↔ c.after[i]? = some a := by
  unfold peek
  cases h : c.after[i]? with
  | none => simp
  | some b => simp

/-- Reading the elements a buffer starts with. -/
theorem read_append {n : Nat} (l rest : List α) (v : Vector α n) :
    (Cursor.mk l (v.toList ++ rest)).read n = .ok v := by
  have hlen : n ≤ (v.toList ++ rest).length := by simp
  unfold read
  rw [dif_pos hlen]
  congr 1
  apply Vector.toList_inj.mp
  simp [Vector.toList]

/-- Reading the elements an object starts with. -/
theorem read_start {n : Nat} (v : Vector α n) (rest : List α) :
    (start (v.toList ++ rest)).read n = .ok v := read_append [] rest v

/-- What is read is what the object holds there. -/
theorem read_eq_ok {c : Cursor α} {n : Nat} {v : Vector α n} :
    c.read n = .ok v ↔ c.after.take n = v.toList := by
  unfold read
  by_cases h : n ≤ c.after.length
  · rw [dif_pos h, Mem.pure_eq_ok, Except.ok.injEq, ← Vector.toList_inj]
    rfl
  · rw [dif_neg h]
    refine ⟨nofun, fun htake => ?_⟩
    have hlen := congrArg List.length htake
    rw [List.length_take, Vector.length_toList] at hlen
    omega

@[simp] theorem put_cons (l : List α) (x : α) (rest : List α) (a : α) :
    (Cursor.mk l (x :: rest)).put a = .ok ⟨l ++ [a], rest⟩ := rfl

@[simp] theorem poke_cons (l : List α) (x : α) (rest : List α) (a : α) :
    (Cursor.mk l (x :: rest)).poke a = .ok ⟨l, a :: rest⟩ := rfl

/-- Storing inside the object replaces the element there. -/
theorem store_of_lt {c : Cursor α} {i : Nat} (a : α) (h : i < c.after.length) :
    c.store i a = .ok ⟨c.before, c.after.take i ++ a :: c.after.drop (i + 1)⟩ := by
  rw [store, if_pos h, List.set_eq_take_append_cons_drop, if_pos h]
  rfl

/-- Reading behind some elements. -/
theorem peek_append (l xs : List α) (x : α) (rest : List α) :
    (Cursor.mk l (xs ++ x :: rest)).peek xs.length = .ok x := by
  rw [peek_eq_ok]
  simp

/-- Storing behind some elements. -/
theorem store_append (l xs : List α) (x : α) (rest : List α) (a : α) :
    (Cursor.mk l (xs ++ x :: rest)).store xs.length a = .ok ⟨l, xs ++ a :: rest⟩ := by
  rw [store, if_pos (by simp), List.set_append_right _ _ (Nat.le_refl _), Nat.sub_self,
    List.set_cons_zero]
  rfl

/-- Writing where there is room for it. -/
theorem write_of_le {n : Nat} {c : Cursor α} (v : Vector α n) (h : n ≤ c.after.length) :
    c.write v = .ok ⟨c.before, v.toList ++ c.after.drop n⟩ := if_pos h

/-- Filling a buffer where there is room for it. -/
theorem fill_of_le {c : Cursor α} {bytes : List α} (h : bytes.length ≤ c.after.length) :
    c.fill bytes = .ok ⟨c.before, bytes ++ c.after.drop bytes.length⟩ := if_pos h

/-- Stepping over elements that are there. -/
theorem advance_of_le {c : Cursor α} {n : Nat} (h : n ≤ c.after.length) :
    c.advance n = .ok ⟨c.before ++ c.after.take n, c.after.drop n⟩ := if_pos h

/-- Stepping over the elements just written. -/
theorem advance_append {n : Nat} (l rest : List α) (v : Vector α n) :
    (Cursor.mk l (v.toList ++ rest)).advance n = .ok ⟨l ++ v.toList, rest⟩ := by
  rw [advance_of_le (by simp)]
  simp

/-- What is written, read, turned back and written elsewhere is there what it was. -/
theorem read_of_leftInverse {n : Nat} {f g : Vector α n → Vector α n}
    (h : Function.LeftInverse g f) (v : Vector α n) {c d : Cursor α} (hc : n ≤ c.after.length)
    (hd : n ≤ d.after.length) :
    (do
      let c ← c.write (f v)
      let w ← c.read n
      let d ← d.write (g w)
      d.read n) = .ok v := by
  rw [write_of_le _ hc, Mem.ok_bind, read_append, Mem.ok_bind, write_of_le _ hd, Mem.ok_bind,
    read_append, h v]

/-- Looking back at the element just passed. -/
@[simp] theorem back_append (l : List α) (a : α) (rest : List α) :
    (Cursor.mk (l ++ [a]) rest).back = .ok a := by
  simp [back]

/-! ## What a write leaves alone -/

/-- Two objects agree outside of the `len` elements from `c` on: what is read there from the one is
read there from the other. -/
def Frame (c : Cursor α) (len : Nat) (buffer : List α) : Prop :=
  ∀ p n, p + n ≤ c.before.length ∨ c.before.length + len ≤ p →
    (place buffer p).read n = (place c.buffer p).read n

/-- What is left alone outside of some elements is left alone outside of more. -/
theorem Frame.mono {c : Cursor α} {m n : Nat} {buffer : List α} (h : c.Frame m buffer)
    (hle : m ≤ n) : c.Frame n buffer := by
  intro p k hp
  apply h p k
  rcases hp with hp | hp
  · exact Or.inl hp
  · exact Or.inr (by omega)

/-- What is read depends on the elements read alone. -/
theorem read_congr {c d : Cursor α} {n : Nat} (h : c.after.take n = d.after.take n)
    (hlen : n ≤ c.after.length ↔ n ≤ d.after.length) : c.read n = d.read n := by
  unfold read
  by_cases hc : n ≤ c.after.length
  · rw [dif_pos hc, dif_pos (hlen.mp hc)]
    congr 2
    rw [h]
  · rw [dif_neg hc, dif_neg fun hd => hc (hlen.mpr hd)]

/-- Overwriting elements leaves everything outside of them alone. -/
theorem frame_overwrite (c : Cursor α) (written : List α) (h : written.length ≤ c.after.length) :
    c.Frame written.length (c.before ++ written ++ c.after.drop written.length) := by
  intro p n hp
  have hlen : (c.before ++ written ++ c.after.drop written.length).length = c.buffer.length := by
    simp [buffer]
    omega
  apply read_congr
  · simp only [place]
    rcases hp with hp | hp
    · -- in front of the elements
      rw [buffer, List.append_assoc, List.drop_append_of_le_length (by omega),
        List.drop_append_of_le_length (by omega), List.take_append_of_le_length (by simp; omega),
        List.take_append_of_le_length (by simp; omega)]
    · -- behind them
      obtain ⟨k, rfl⟩ := Nat.exists_eq_add_of_le hp
      rw [← List.length_append, List.drop_length_add_append, buffer, List.length_append,
        Nat.add_assoc, List.drop_length_add_append, List.drop_drop]
  · simp only [place, List.length_drop, hlen]

end Cursor

end Lib
