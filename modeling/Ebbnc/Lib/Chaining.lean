import Mathlib.Data.List.Basic
import Mathlib.Logic.Function.Iterate
import Mathlib.Tactic.Common
import Mathlib.Tactic.Ring

/-!
# Block cipher modes

The general facts about running a block cipher over a message, for any block type, any
pair of mutually inverse block maps and any way of mixing two blocks that undoes itself.

* `blocks`, `join` — a list cut into blocks of one width, and put together again.
* `pad` — a message filled up to whole blocks, every added element naming how many were added.
* `cbcEncrypt`, `cbcDecrypt` — cipher block chaining, with **`cbcDecrypt_cbcEncrypt`** and
  **`cbcEncrypt_cbcDecrypt`**: the two directions undo each other;
  **`getElem?_cbcDecrypt_modify`**: what a changed ciphertext block does.
-/

namespace Lib

/-! ## Blocks of a list -/

section blocks

variable {α : Type} {k : ℕ}

/-- The elements of a list of blocks, in order. -/
def join (bs : List (Vector α k)) : List α := bs.flatMap Vector.toList

@[simp] theorem join_nil : join ([] : List (Vector α k)) = [] := rfl

@[simp] theorem join_cons (b : Vector α k) (bs : List (Vector α k)) :
    join (b :: bs) = b.toList ++ join bs := rfl

@[simp] theorem join_append (bs cs : List (Vector α k)) : join (bs ++ cs) = join bs ++ join cs := by
  simp [join]

/-- A list of blocks has `k` elements for each block. -/
@[simp] theorem length_join (bs : List (Vector α k)) : (join bs).length = k * bs.length := by
  induction bs with
  | nil => simp
  | cons b bs ih =>
      simp [ih]
      ring

/-- The first `n` blocks of a list, fewer when it is too short. -/
def blocksN (k : ℕ) : ℕ → List α → List (Vector α k)
  | 0, _ => []
  | n + 1, l =>
      if h : k ≤ l.length then ⟨(l.take k).toArray, by simp [h]⟩ :: blocksN k n (l.drop k)
      else []

/-- The whole blocks of a list. -/
def blocks (k : ℕ) (l : List α) : List (Vector α k) := blocksN k (l.length / k) l

/-- The blocks of a list made of blocks are those blocks. -/
theorem blocksN_join (bs : List (Vector α k)) (rest : List α) :
    blocksN k bs.length (join bs ++ rest) = bs := by
  induction bs with
  | nil => rfl
  | cons b bs ih =>
      have hlen : k ≤ (join (b :: bs) ++ rest).length := by simp
      rw [List.length_cons, blocksN, dif_pos hlen]
      simp only [join_cons, List.append_assoc]
      congr 1
      · apply Vector.toList_inj.mp
        simp [Vector.toList]
      · rw [List.drop_left' (by simp)]
        exact ih

/-- Cutting up what was put together gives the blocks back. -/
@[simp] theorem blocks_join (hk : 0 < k) (bs : List (Vector α k)) : blocks k (join bs) = bs := by
  unfold blocks
  rw [length_join, Nat.mul_div_cancel_left _ hk]
  simpa using blocksN_join bs []

/-- Every list is some whole blocks and a rest shorter than a block. -/
theorem exists_join_append (hk : 0 < k) (l : List α) :
    ∃ (bs : List (Vector α k)) (tail : List α), l = join bs ++ tail ∧ tail.length < k := by
  induction h : l.length using Nat.strong_induction_on generalizing l with
  | _ n ih =>
      by_cases hlt : l.length < k
      · exact ⟨[], l, by simp, hlt⟩
      · have hle : k ≤ l.length := not_lt.mp hlt
        obtain ⟨bs, tail, hl, htail⟩ := ih (l.drop k).length (by simp; omega) (l.drop k) rfl
        refine ⟨⟨(l.take k).toArray, by simp [hle]⟩ :: bs, tail, ?_, htail⟩
        rw [join_cons, List.append_assoc, ← hl]
        simp [Vector.toList]

/-- A list of a whole number of blocks is made of blocks. -/
theorem exists_join (hk : 0 < k) {l : List α} (h : k ∣ l.length) :
    ∃ bs : List (Vector α k), l = join bs := by
  obtain ⟨bs, tail, rfl, htail⟩ := exists_join_append hk l
  obtain ⟨m, hm⟩ := h
  rw [List.length_append, length_join] at hm
  have hdvd : k ∣ tail.length := (Nat.dvd_add_right ⟨bs.length, rfl⟩).mp ⟨m, hm⟩
  have htail0 : tail = [] := List.length_eq_zero_iff.mp (Nat.eq_zero_of_dvd_of_lt hdvd htail)
  exact ⟨bs, by simp [htail0]⟩

end blocks

/-! ## Padding -/

section padding

variable {α : Type}

/-- How many elements fill a message of length `n` up to whole blocks: at least one, at most a
whole block. -/
def padLength (k n : ℕ) : ℕ := k - n % k

theorem padLength_pos {k : ℕ} (hk : 0 < k) (n : ℕ) : 0 < padLength k n :=
  Nat.sub_pos_of_lt (Nat.mod_lt n hk)

theorem padLength_le (k n : ℕ) : padLength k n ≤ k := Nat.sub_le _ _

/-- The padded length is the next multiple of the block width. -/
theorem add_padLength {k : ℕ} (hk : 0 < k) (n : ℕ) : n + padLength k n = (n / k + 1) * k := by
  have hmod := Nat.mod_lt n hk
  have hdiv := Nat.div_add_mod n k
  unfold padLength
  rw [Nat.add_mul, Nat.mul_comm (n / k) k]
  omega

/-- Adding whole blocks in front does not change how much padding is needed. -/
theorem padLength_add_mul (k m n : ℕ) : padLength k (k * m + n) = padLength k n := by
  unfold padLength
  rw [Nat.mul_add_mod]

/-- A message filled up to whole blocks with the mark of the number of elements added. -/
def pad (k : ℕ) (mark : ℕ → α) (m : List α) : List α :=
  m ++ List.replicate (padLength k m.length) (mark (padLength k m.length))

theorem length_pad {k : ℕ} (hk : 0 < k) (mark : ℕ → α) (m : List α) :
    (pad k mark m).length = (m.length / k + 1) * k := by
  rw [pad, List.length_append, List.length_replicate, add_padLength hk]

/-- The last element of a padded message is the mark of its padding. -/
theorem getLast?_pad {k : ℕ} (hk : 0 < k) (mark : ℕ → α) (m : List α) :
    (pad k mark m).getLast? = some (mark (padLength k m.length)) := by
  obtain ⟨p, hp⟩ := Nat.exists_eq_succ_of_ne_zero (padLength_pos hk m.length).ne'
  rw [pad, hp, List.replicate_succ', ← List.append_assoc, List.getLast?_concat]

/-- Padding leaves whole blocks in front alone. -/
theorem pad_join_append {k : ℕ} (mark : ℕ → α) (bs : List (Vector α k)) (tail : List α) :
    pad k mark (join bs ++ tail) = join bs ++ pad k mark tail := by
  simp only [pad, List.length_append, length_join, padLength_add_mul, List.append_assoc]

end padding

/-! ## Cipher block chaining -/

section chaining

variable {B : Type} (mix : B → B → B) (E D : B → B)

/-- Each block is mixed with the ciphertext block before it (`iv` for the first) and encrypted. -/
def cbcEncrypt (iv : B) : List B → List B
  | [] => []
  | p :: ps => E (mix p iv) :: cbcEncrypt (E (mix p iv)) ps

/-- Each ciphertext block is decrypted and mixed with the ciphertext block before it. -/
def cbcDecrypt (iv : B) : List B → List B
  | [] => []
  | c :: cs => mix (D c) iv :: cbcDecrypt c cs

@[simp] theorem length_cbcEncrypt (iv : B) (ps : List B) :
    (cbcEncrypt mix E iv ps).length = ps.length := by
  induction ps generalizing iv with
  | nil => rfl
  | cons p ps ih => simp [cbcEncrypt, ih]

@[simp] theorem length_cbcDecrypt (iv : B) (cs : List B) :
    (cbcDecrypt mix D iv cs).length = cs.length := by
  induction cs generalizing iv with
  | nil => rfl
  | cons c cs ih => simp [cbcDecrypt, ih]

/-- Encrypting one block more mixes it with the last ciphertext block so far. -/
theorem cbcEncrypt_concat (iv : B) (ps : List B) (q : B) :
    cbcEncrypt mix E iv (ps ++ [q]) =
      cbcEncrypt mix E iv ps ++ [E (mix q ((cbcEncrypt mix E iv ps).getLastD iv))] := by
  induction ps generalizing iv with
  | nil => rfl
  | cons p ps ih =>
      rw [List.cons_append, cbcEncrypt, ih, cbcEncrypt, List.getLastD_cons]
      rfl

/-- Each ciphertext block is made of its plaintext block and the ciphertext block before it. -/
theorem cbcEncrypt_eq_zipWith (iv : B) (ps : List B) :
    cbcEncrypt mix E iv ps =
      List.zipWith (fun p c => E (mix p c)) ps (iv :: cbcEncrypt mix E iv ps) := by
  induction ps generalizing iv with
  | nil => rfl
  | cons p ps ih =>
      rw [cbcEncrypt, List.zipWith_cons_cons, ← ih]

/-- Each plaintext block is made of its ciphertext block and the ciphertext block before it. -/
theorem cbcDecrypt_eq_zipWith (iv : B) (cs : List B) :
    cbcDecrypt mix D iv cs = List.zipWith (fun c c' => mix (D c) c') cs (iv :: cs) := by
  induction cs generalizing iv with
  | nil => rfl
  | cons c cs ih =>
      rw [cbcDecrypt, List.zipWith_cons_cons, ← ih]

variable {mix E D}

/-- **Decryption undoes encryption.** -/
theorem cbcDecrypt_cbcEncrypt (hmix : ∀ a b, mix (mix a b) b = a) (hD : ∀ b, D (E b) = b)
    (iv : B) (ps : List B) : cbcDecrypt mix D iv (cbcEncrypt mix E iv ps) = ps := by
  induction ps generalizing iv with
  | nil => rfl
  | cons p ps ih => rw [cbcEncrypt, cbcDecrypt, hD, hmix, ih]

/-- **Encryption undoes decryption.** -/
theorem cbcEncrypt_cbcDecrypt (hmix : ∀ a b, mix (mix a b) b = a) (hE : ∀ b, E (D b) = b)
    (iv : B) (cs : List B) : cbcEncrypt mix E iv (cbcDecrypt mix D iv cs) = cs := by
  induction cs generalizing iv with
  | nil => rfl
  | cons c cs ih => rw [cbcDecrypt, cbcEncrypt, hmix, hE, ih]

/-- The plaintext block at a place. -/
theorem getElem?_cbcDecrypt (iv : B) (cs : List B) (i : ℕ) :
    (cbcDecrypt mix D iv cs)[i]? = cs[i]?.bind fun c => (iv :: cs)[i]?.map (mix (D c)) := by
  rw [cbcDecrypt_eq_zipWith, List.getElem?_zipWith]
  cases cs[i]? <;> cases (iv :: cs)[i]? <;> rfl

/-- **A changed ciphertext block** changes the plaintext block that stands after it by as much, and
no other but its own; the first of the blocks is the vector. -/
theorem getElem?_cbcDecrypt_modify (hmix : ∀ a b d, mix a (mix b d) = mix (mix a b) d) {iv iv' : B}
    {cs cs' : List B} {j : ℕ} {delta : B}
    (hmodify : iv' :: cs' = (iv :: cs).modify j fun c => mix c delta) {i : ℕ} (hi : i + 1 ≠ j) :
    (cbcDecrypt mix D iv' cs')[i]? =
      (cbcDecrypt mix D iv cs)[i]?.map fun p => if i = j then mix p delta else p := by
  have hown : cs'[i]? = cs[i]? := by
    have h := congrArg (fun bs => bs[i + 1]?) hmodify
    simpa [List.getElem?_modify, hi.symm] using h
  have hbefore : (iv' :: cs')[i]? =
      (iv :: cs)[i]?.map fun c => if j = i then mix c delta else c := by
    rw [hmodify, List.getElem?_modify]
    split <;> simp [*]
  rw [getElem?_cbcDecrypt, getElem?_cbcDecrypt, hown, hbefore]
  cases cs[i]? with
  | none => rfl
  | some c =>
    cases (iv :: cs)[i]? with
    | none => rfl
    | some c' =>
      by_cases hij : i = j
      · simp [hij, hmix]
      · simp [hij, Ne.symm hij]

end chaining

end Lib
