import Ebbnc.Listen
import Ebbnc.Lib.Buffer
import Ebbnc.Lib.LeastFree
import Mathlib.Data.Finset.Image

/-!
# The set of descriptors

The `fd_set` that `Server_accept` fills, as it is in memory: it has a bit for each descriptor below
`FD_SETSIZE`, and nothing keeps the sockets below it.

* `fdZero`, `fdSet`, `fdIsset` — the macros; `Server.fillSet` — the first loop of `Server_accept`.
* `Represents` — the bits are those of a list of descriptors; `Server.fillSet_eq_ok_iff` — the loop
  stays inside the set when all sockets have a bit.
* **`Server.fillSet_listenAll`** — how many bouncers there may be.
-/

namespace Ebbnc

open Lib

/-- `FD_SETSIZE`. -/
def fdSetsize : ℕ := 1024

/-- The descriptors that have a bit. -/
def settable : Finset ℤ := (Finset.range fdSetsize).image fun n : ℕ => (n : ℤ)

/-- `FD_ZERO`. -/
def fdZero : Cursor Bool := Cursor.start (List.replicate fdSetsize false)

/-- `FD_SET`. -/
def fdSet (fd : ℤ) (set : Cursor Bool) : Mem (Cursor Bool) :=
  if fd < 0 then throw .outOfBounds else set.store fd.toNat true

/-- `FD_ISSET`. -/
def fdIsset (fd : ℤ) (set : Cursor Bool) : Mem Bool :=
  if fd < 0 then throw .outOfBounds else set.peek fd.toNat

/-- The first loop, over the servers that are left, without the variable `max`.
Source: `server.c` `Server_accept` -/
def Server.fillSet : List Server → Cursor Bool → Mem (Cursor Bool)
  | [], set => pure set
  | server :: servers, set => do
    let set ← fdSet server.sock set
    Server.fillSet servers set

/-- The bits of these descriptors are set, and no others. -/
structure Represents (set : Cursor Bool) (fds : List ℤ) : Prop where
  length : set.after.length = fdSetsize
  bits : ∀ fd ∈ settable, fdIsset fd set = .ok (decide (fd ∈ fds))

section bits

variable {set set' : Cursor Bool} {fds fds' : List ℤ} {fd : ℤ}

theorem mem_settable : fd ∈ settable ↔ 0 ≤ fd ∧ fd < fdSetsize := by
  rw [settable, Finset.mem_image]
  constructor
  · rintro ⟨n, hn, rfl⟩
    have hlt := Finset.mem_range.mp hn
    omega
  · rintro ⟨hnonneg, hlt⟩
    exact ⟨fd.toNat, Finset.mem_range.mpr (by omega), by omega⟩

theorem card_settable : settable.card = fdSetsize := by
  have hinjective : Function.Injective fun n : ℕ => (n : ℤ) := fun _ _ h => by simpa using h
  rw [settable, Finset.card_image_of_injective _ hinjective, Finset.card_range]

/-- Nothing is set at first. -/
theorem represents_fdZero : Represents fdZero [] := by
  refine ⟨List.length_replicate, fun fd hfd => ?_⟩
  obtain ⟨hnonneg, hlt⟩ := mem_settable.mp hfd
  rw [fdIsset, if_neg (not_lt.mpr hnonneg), Cursor.peek_eq_ok]
  exact List.getElem?_replicate_of_lt (by omega)

/-- The order of the list does not matter. -/
theorem Represents.congr (h : Represents set fds) (hmem : ∀ fd, fd ∈ fds ↔ fd ∈ fds') :
    Represents set fds' := by
  refine ⟨h.length, fun fd hfd => ?_⟩
  rw [h.bits fd hfd, decide_eq_decide.mpr (hmem fd)]

/-- Setting a bit that is there. -/
theorem Represents.fdSet (h : Represents set fds) (hfd : fd ∈ settable) :
    ∃ set', fdSet fd set = .ok set' ∧ Represents set' (fd :: fds) := by
  obtain ⟨hnonneg, hlt⟩ := mem_settable.mp hfd
  have hroom : fd.toNat < set.after.length := by
    rw [h.length]
    omega
  refine ⟨⟨set.before, set.after.set fd.toNat true⟩, ?_, ?_, fun fd' hfd' => ?_⟩
  · rw [Ebbnc.fdSet, if_neg (not_lt.mpr hnonneg), Cursor.store, if_pos hroom]
    rfl
  · rw [List.length_set, h.length]
  · obtain ⟨hnonneg', -⟩ := mem_settable.mp hfd'
    have hbit := h.bits fd' hfd'
    rw [fdIsset, if_neg (not_lt.mpr hnonneg'), Cursor.peek_eq_ok] at hbit ⊢
    rcases eq_or_ne fd fd' with rfl | hne
    · rw [List.getElem?_set_self hroom]
      simp
    · rw [List.getElem?_set_ne (by omega), hbit]
      simp [hne.symm]

/-- Setting one that is not. -/
theorem Represents.fdSet_error (h : Represents set fds) (hfd : fd ∉ settable) :
    Ebbnc.fdSet fd set = .error .outOfBounds := by
  rw [Ebbnc.fdSet]
  split_ifs with hneg
  · rfl
  · have hroom : ¬ fd.toNat < set.after.length := by
      rw [h.length]
      exact fun hlt => hfd (mem_settable.mpr ⟨by omega, by omega⟩)
    rw [Cursor.store, if_neg hroom]
    rfl

namespace Server

variable {servers : List Server}

/-- The loop adds the sockets. -/
theorem fillSet_represents (h : Represents set fds) (hok : fillSet servers set = .ok set') :
    Represents set' (servers.map sock ++ fds) ∧ ∀ server ∈ servers, server.sock ∈ settable := by
  induction servers generalizing set fds with
  | nil =>
      obtain rfl := Except.ok.inj hok
      exact ⟨h, fun _ hmem => absurd hmem List.not_mem_nil⟩
  | cons server servers ih =>
      rw [fillSet] at hok
      by_cases hsock : server.sock ∈ settable
      · obtain ⟨set₁, hset, h₁⟩ := h.fdSet hsock
        rw [hset, Mem.ok_bind] at hok
        obtain ⟨hrest, hall⟩ := ih h₁ hok
        exact ⟨hrest.congr fun fd => List.perm_middle.mem_iff,
          List.forall_mem_cons.mpr ⟨hsock, hall⟩⟩
      · rw [h.fdSet_error hsock] at hok
        cases hok

/-- **The loop stays inside the set** when all sockets have a bit. -/
theorem fillSet_eq_ok_iff (h : Represents set fds) :
    (∃ set', fillSet servers set = .ok set') ↔ ∀ server ∈ servers, server.sock ∈ settable := by
  constructor
  · rintro ⟨set', hok⟩
    exact (fillSet_represents h hok).2
  · intro hall
    induction servers generalizing set fds with
    | nil => exact ⟨set, rfl⟩
    | cons server servers ih =>
        obtain ⟨hsock, hall⟩ := List.forall_mem_cons.mp hall
        obtain ⟨set₁, hset, h₁⟩ := h.fdSet hsock
        rw [fillSet, hset, Mem.ok_bind]
        exact ih h₁ hall

end Server

end bits

/-! ## How many bouncers there may be -/

namespace Server

section room

variable {base heap : Heap ServerCell} {config : Config} {fds : List ℤ} {t : List ServerEvent}
  {p : ℕ}

/-- **The room in the set**: where `socket` makes the least descriptor that is free, the first loop
of `Server_accept` stays inside the set for the servers of `Server_listenAll` exactly when there
are not more bouncers than there are descriptors below `FD_SETSIZE` that are free. Then the set is
that of the sockets. -/
theorem fillSet_listenAll (ht : Program.Trace (listenAll base config) t (some (some p, heap)))
    (hfds : fds.Nodup) (hlowest : serverDescriptors.Lowest {fd | 0 ≤ fd} fds t) :
    ∃ servers, Linked base heap (some p) servers ∧
      ((∃ set, fillSet servers fdZero = .ok set) ↔
        (fds.filter (· ∈ settable)).length + config.bouncers.length ≤ fdSetsize) ∧
      ∀ set, fillSet servers fdZero = .ok set → Represents set (servers.map sock) := by
  obtain ⟨acquired, released, o, rfl, hrest, hresult⟩ :=
    listenRest_runs Linked.nil (fun _ h => absurd h List.not_mem_nil) ht
  cases o with
  | none => cases hresult.1
  | some servers =>
      obtain ⟨rfl, hsocks, hbouncers, -⟩ := hrest.of_some
      rw [List.map_nil, List.append_nil] at hsocks hbouncers
      rw [List.append_nil] at hlowest
      have htaken : LeastFree {fd : ℤ | 0 ≤ fd} fds (acquired.filterMap ServerEvent.made) :=
        hlowest.leastFree hrest.ended
      have hlength : (acquired.filterMap ServerEvent.made).length = config.bouncers.length := by
        have hsocks := congrArg List.length hsocks
        have hbouncers := congrArg List.length hbouncers
        simp only [List.length_map, List.length_reverse] at hsocks hbouncers
        omega
      have hbelow : ∀ fd ∈ settable, ∀ fd' ∈ {fd : ℤ | 0 ≤ fd}, fd' ∉ settable → ¬ fd' ≤ fd := by
        intro fd hfd fd' hplace hnot
        have hlt := (mem_settable.mp hfd).2
        have hle : ¬ fd' < fdSetsize := fun h => hnot (mem_settable.mpr ⟨hplace, h⟩)
        omega
      have hfits := htaken.forall_mem_iff hfds (fun fd hfd => (mem_settable.mp hfd).1) hbelow
      rw [hlength, card_settable] at hfits
      have hall : (∀ server ∈ servers, server.sock ∈ settable) ↔
          ∀ fd ∈ acquired.filterMap ServerEvent.made, fd ∈ settable := by
        rw [← List.forall_mem_map (f := sock) (P := (· ∈ settable)), hsocks]
        simp only [List.mem_reverse]
      refine ⟨servers, hresult, ?_, fun set hset => ?_⟩
      · rw [fillSet_eq_ok_iff represents_fdZero, hall, hfits]
      · simpa using (fillSet_represents represents_fdZero hset).1

end room

/-- The same two bouncers, which both have their port. -/
def roomyRun : List ServerEvent :=
  [⟨.sys (.calloc sizeofServer), true⟩, ⟨.sys (.socket 2), .ok 3⟩, ⟨.reuseaddr 3, ()⟩,
    ⟨.sys (.bind 3 (loopback 2121)), .ok ()⟩, ⟨.listen 3, .ok ()⟩,
    ⟨.sys (.calloc sizeofServer), true⟩, ⟨.sys (.socket 2), .ok 4⟩, ⟨.reuseaddr 4, ()⟩,
    ⟨.sys (.bind 4 (loopback 21)), .ok ()⟩, ⟨.listen 4, .ok ()⟩]

/-- The memory after it. -/
def roomyHeap : Heap ServerCell :=
  [some ⟨3, loopback 2121, some crowdedConfig, crowdedConfig.bouncers[0]?, none⟩,
    some ⟨4, loopback 21, some crowdedConfig, crowdedConfig.bouncers[1]?, some 0⟩]

theorem trace_roomyRun :
    Program.Trace (listenAll [] crowdedConfig) roomyRun (some (some 1, roomyHeap)) := by
  unfold roomyRun
  repeat refine .call _ ?_
  exact .ret _

/-- Descriptors three and four are the least ones behind the standard streams. -/
theorem lowest_roomyRun : serverDescriptors.Lowest {fd | 0 ≤ fd} [0, 1, 2] roomyRun := by
  have hthree : IsLeast {fd : ℤ | fd ∈ {fd : ℤ | 0 ≤ fd} ∧ fd ∉ [0, 1, 2]} 3 := by
    refine ⟨⟨by decide, by decide⟩, fun fd hfd => ?_⟩
    obtain ⟨hnonneg, hfree⟩ := hfd
    simp only [Set.mem_ofPred_eq, List.mem_cons, List.not_mem_nil, or_false] at hnonneg hfree
    omega
  have hfour : IsLeast {fd : ℤ | fd ∈ {fd : ℤ | 0 ≤ fd} ∧ fd ∉ [3, 0, 1, 2]} 4 := by
    refine ⟨⟨by decide, by decide⟩, fun fd hfd => ?_⟩
    obtain ⟨hnonneg, hfree⟩ := hfd
    simp only [Set.mem_ofPred_eq, List.mem_cons, List.not_mem_nil, or_false] at hnonneg hfree
    omega
  refine Ledger.lowest_cons.mpr ⟨nofun, Ledger.lowest_cons.mpr ⟨?_, ?_⟩⟩
  · rintro fd ⟨⟩
    exact hthree
  · iterate 4 refine Ledger.lowest_cons.mpr ⟨nofun, ?_⟩
    refine Ledger.lowest_cons.mpr ⟨?_, ?_⟩
    · rintro fd ⟨⟩
      exact hfour
    · iterate 3 refine Ledger.lowest_cons.mpr ⟨nofun, ?_⟩
      exact along_nil

/-- There is room for two. -/
theorem fillSet_listenAll_roomy :
    ∃ servers, Linked [] roomyHeap (some 1) servers ∧
      ((∃ set, fillSet servers fdZero = .ok set) ↔
        (([0, 1, 2] : List ℤ).filter (· ∈ settable)).length + crowdedConfig.bouncers.length ≤
          fdSetsize) ∧
      ∀ set, fillSet servers fdZero = .ok set → Represents set (servers.map sock) :=
  fillSet_listenAll trace_roomyRun (by decide) lowest_roomyRun

end Server

end Ebbnc
