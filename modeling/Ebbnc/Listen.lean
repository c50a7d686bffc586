import Ebbnc.Server

/-!
# Listening for all bouncers

What `Server_listenAll` does in every run: the sockets of all bouncers or none, whatever fails on
the way, through the two functions that give servers back.

* `Server.Opening` — how `Server_listen2` goes; `Server.Attempt` — how `Server_listen` goes.
* `Server.Linked` — the list of servers a pointer leads to.
* `Server.freeList_runs`, `Server.listen_runs`, `Server.listenRest_runs` — the calls of each
  function in every run, and the memory it leaves.
* `ServerEvent.refused`, `Bouncer.listenAddr` — why a server may not listen.
* **`Server.listenAll_allOrNothing`** — the list of servers, or nothing at all.
-/

namespace Ebbnc

open Lib

/-- A call of an opening that fails. -/
def ServerEvent.refused : ServerEvent → Bool
  | ⟨.sys (.calloc _), false⟩ => true
  | ⟨.sys (.socket _), .error _⟩ => true
  | ⟨.sys (.bind _ _), .error _⟩ => true
  | ⟨.listen _, .error _⟩ => true
  | _ => false

/-- The address a bouncer listens on. -/
def Bouncer.listenAddr (bouncer : Bouncer) : Option SockaddrAny :=
  bouncer.listenIP.bind fun ip => ipPortToSockaddr ip (toInt bouncer.listenPort)

namespace Server

/-! ## Memory -/

section memory

variable {heap : Heap ServerCell} {p : ℕ} {cell : ServerCell}

theorem load_eq (h : heap.load p = some cell) : load heap p = pure cell := by
  rw [load, h]

theorem modify_eq (h : heap.load p = some cell) (f : ServerCell → ServerCell) :
    modify heap p f = pure (heap.store p (f cell)) := by
  rw [modify, h]

theorem release_eq (h : heap.load p = some cell) : release heap p = pure (heap.release p) := by
  rw [release, h]

end memory

/-- A call of `close`. -/
def closing (sock : ℤ) : ServerEvent := ⟨.sys (.close sock), ()⟩

/-! ## Giving servers back -/

section free

variable {heap heap' : Heap ServerCell} {p : ℕ} {cell : ServerCell} {t : List ServerEvent}

/-- `Server_free` closes the socket, if there is one. -/
theorem free_runs {link : Option ℕ} (h : heap.load p = some cell)
    (ht : Program.Trace (free heap (some p)) t (some (link, heap'))) :
    t = (if 0 ≤ cell.sock then [closing cell.sock] else []) ∧ link = none ∧
      heap' = heap.release p := by
  unfold free at ht
  simp only [load_eq h, release_eq h, Program.ret_bind] at ht
  split_ifs at ht ⊢ with hsock
  · obtain ⟨_, t', rfl, hrest⟩ := Program.trace_call.mp ht
    obtain ⟨rfl, rfl, rfl⟩ := Program.trace_pure_mk.mp hrest
    exact ⟨rfl, rfl, rfl⟩
  · obtain ⟨rfl, rfl, rfl⟩ := Program.trace_pure_mk.mp ht
    exact ⟨rfl, rfl, rfl⟩

/-- The loop of `Server_freeList` ends at a server without a next one. -/
theorem freeNext_last {passes : ℕ} (h : heap.load p = some cell) (hnext : cell.next = none)
    (ht : Program.Trace (freeNext (passes + 1) heap p) t (some heap')) : t = [] ∧ heap' = heap := by
  rw [freeNext, load_eq h, Program.ret_bind] at ht
  simp only [hnext] at ht
  exact Program.trace_pure.mp ht

/-- One pass of the loop of `Server_freeList` gives the next server back and takes it out of the
list. -/
theorem freeNext_pass {n passes : ℕ} {c : ServerCell} (h : heap.load p = some cell)
    (hnext : cell.next = some n) (hn : heap.load n = some c) (hne : n ≠ p)
    (ht : Program.Trace (freeNext (passes + 1) heap p) t (some heap')) :
    ∃ heap₂ t₂, t = (if 0 ≤ c.sock then [closing c.sock] else []) ++ t₂ ∧
      heap₂.load p = some { cell with next := c.next } ∧ heap₂.load n = none ∧
      (∀ q, q ≠ p → q ≠ n → heap₂.load q = heap.load q) ∧
      Program.Trace (freeNext passes heap₂ p) t₂ (some heap') := by
  rw [freeNext, load_eq h, Program.ret_bind] at ht
  simp only [hnext] at ht
  rw [load_eq hn, Program.ret_bind] at ht
  obtain ⟨⟨link, heap₁⟩, t₁, t₂, rfl, hfree, ht₂⟩ := Program.trace_bind.mp ht
  obtain ⟨rfl, rfl, rfl⟩ := free_runs hn hfree
  have hload₁ : (heap.release n).load p = some cell := by
    rw [Heap.load_release_of_ne hne, h]
  have hload₂ := Heap.load_store_self (a := { cell with next := none }) hload₁
  dsimp only at ht₂
  -- `Server_free` sets the link to null, and then it is set to the server behind
  rw [modify_eq hload₁, Program.ret_bind, modify_eq hload₂, Program.ret_bind] at ht₂
  refine ⟨_, t₂, rfl, Heap.load_store_self hload₂, ?_, ?_, ht₂⟩
  · rw [Heap.load_store_of_ne hne.symm, Heap.load_store_of_ne hne.symm, Heap.load_release_self]
  · intro q hqp hqn
    rw [Heap.load_store_of_ne hqp.symm, Heap.load_store_of_ne hqp.symm,
      Heap.load_release_of_ne hqn.symm]

/-- The loop of `Server_freeList` closes the sockets of all servers behind the first one, gives
these servers back and leaves the rest of the memory as it is. -/
theorem freeNext_runs {cells : List (ℕ × ServerCell)} {passes : ℕ}
    (h : Chain ServerCell.next heap (some p) ((p, cell) :: cells))
    (hsock : ∀ c ∈ cells, 0 ≤ c.2.sock) (hpasses : cells.length < passes)
    (ht : Program.Trace (freeNext passes heap p) t (some heap')) :
    t = cells.map (fun c => closing c.2.sock) ∧
      heap'.load p = some { cell with next := none } ∧
      (∀ c ∈ cells, heap'.load c.1 = none) ∧
      ∀ q, q ≠ p → (∀ c ∈ cells, q ≠ c.1) → heap'.load q = heap.load q := by
  induction cells generalizing passes heap cell t with
  | nil =>
      obtain ⟨passes, rfl⟩ : ∃ k, passes = k + 1 := Nat.exists_eq_succ_of_ne_zero (by omega)
      obtain ⟨-, hload, hnone⟩ := chain_cons.mp h
      rw [chain_nil] at hnone
      obtain ⟨rfl, rfl⟩ := freeNext_last hload hnone ht
      refine ⟨rfl, ?_, fun _ hc => absurd hc List.not_mem_nil, fun _ _ _ => rfl⟩
      rw [hload, ← hnone]
  | cons c cells ih =>
      obtain ⟨passes, rfl⟩ : ∃ k, passes = k + 1 := Nat.exists_eq_succ_of_ne_zero (by omega)
      obtain ⟨n, c⟩ := c
      obtain ⟨hp, hplaces⟩ := List.nodup_cons.mp h.nodup
      obtain ⟨hn, -⟩ := List.nodup_cons.mp hplaces
      have hpn : n ≠ p := fun heq => hp (heq ▸ List.mem_cons_self)
      have hpcells : ∀ c' ∈ cells, c'.1 ≠ p := fun c' hc' heq =>
        hp (List.mem_cons_of_mem _ (List.mem_map.mpr ⟨c', hc', heq⟩))
      have hncells : ∀ c' ∈ cells, c'.1 ≠ n := fun c' hc' heq =>
        hn (List.mem_map.mpr ⟨c', hc', heq⟩)
      obtain ⟨-, hload, hnext⟩ := chain_cons.mp h
      obtain ⟨hnext, hc, hrest⟩ := chain_cons.mp hnext
      obtain ⟨heap₂, t₂, rfl, hload₂, hn₂, hframe, ht₂⟩ := freeNext_pass hload hnext hc hpn ht
      have hchain : Chain ServerCell.next heap₂ (some p)
          ((p, { cell with next := c.next }) :: cells) :=
        chain_cons.mpr ⟨rfl, hload₂, hrest.congr fun c' hc' =>
          hframe c'.1 (hpcells c' hc') (hncells c' hc')⟩
      have hsock' : ∀ c' ∈ cells, 0 ≤ c'.2.sock := fun c' hc' =>
        hsock c' (List.mem_cons_of_mem _ hc')
      obtain ⟨rfl, hhead, hgone, hrest'⟩ := ih hchain hsock' (by simpa using hpasses) ht₂
      refine ⟨?_, hhead, ?_, ?_⟩
      · rw [if_pos (hsock (n, c) List.mem_cons_self)]
        rfl
      · intro c' hc'
        rcases List.mem_cons.mp hc' with rfl | hc'
        · rw [hrest' n hpn fun c' hc' => (hncells c' hc').symm, hn₂]
        · exact hgone c' hc'
      · intro q hqp hq
        rw [hrest' q hqp fun c' hc' => hq c' (List.mem_cons_of_mem _ hc')]
        exact hframe q hqp (hq (n, c) List.mem_cons_self)

/-- `Server_freeList` closes the sockets of all servers of the list and gives all of them back. -/
theorem freeList_runs {servers link : Option ℕ} {cells : List (ℕ × ServerCell)}
    (h : Chain ServerCell.next heap servers cells) (hsock : ∀ c ∈ cells, 0 ≤ c.2.sock)
    (ht : Program.Trace (freeList heap servers) t (some (link, heap'))) :
    (∃ socks : List ℤ, t = socks.map closing ∧ socks.Perm (cells.map fun c => c.2.sock)) ∧
      (∀ c ∈ cells, heap'.load c.1 = none) ∧
      ∀ q, (∀ c ∈ cells, q ≠ c.1) → heap'.load q = heap.load q := by
  cases cells with
  | nil =>
      obtain rfl := chain_nil.mp h
      obtain ⟨rfl, -, rfl⟩ := Program.trace_pure_mk.mp ht
      exact ⟨⟨[], rfl, .refl _⟩, fun _ hc => absurd hc List.not_mem_nil, fun _ _ => rfl⟩
  | cons c cells =>
      obtain ⟨p, c⟩ := c
      have hlength := h.length_le
      obtain ⟨rfl, -, -⟩ := chain_cons.mp h
      have hrest : ∀ c' ∈ cells, 0 ≤ c'.2.sock := fun c' hc' =>
        hsock c' (List.mem_cons_of_mem _ hc')
      obtain ⟨heap₁, t₁, t₂, rfl, hnext, ht₂⟩ := Program.trace_bind.mp ht
      obtain ⟨rfl, hhead, hgone, hframe⟩ :=
        freeNext_runs h hrest (by rw [List.length_cons] at hlength; omega) hnext
      obtain ⟨⟨link, heap₂⟩, t₃, t₄, rfl, hfree, ht₄⟩ := Program.trace_bind.mp ht₂
      obtain ⟨rfl, -, rfl⟩ := free_runs hhead hfree
      obtain ⟨rfl, -, rfl⟩ := Program.trace_pure_mk.mp ht₄
      have hplaces : ∀ c' ∈ cells, p ≠ c'.1 := fun c' hc' heq =>
        (List.nodup_cons.mp h.nodup).1 (List.mem_map.mpr ⟨c', hc', heq.symm⟩)
      refine ⟨⟨cells.map (fun c => c.2.sock) ++ [c.sock], ?_, ?_⟩, ?_, ?_⟩
      · rw [if_pos (hsock (p, c) List.mem_cons_self)]
        simp [Function.comp_def]
      · exact List.perm_append_comm
      · intro c' hc'
        rcases List.mem_cons.mp hc' with rfl | hc'
        · exact Heap.load_release_self
        · rw [Heap.load_release_of_ne (hplaces c' hc'), hgone c' hc']
      · intro q hq
        have hqp : q ≠ p := hq (p, c) List.mem_cons_self
        rw [Heap.load_release_of_ne hqp.symm]
        exact hframe q hqp fun c' hc' => hq c' (List.mem_cons_of_mem _ hc')

end free

/-! ## One server -/

/-- How `Server_listen2` goes: the calls, whether the server listens, its socket and its address. -/
inductive Opening (ip : Option Bytes) (port : ℤ) :
    List ServerEvent → Bool → ℤ → SockaddrAny → Prop
  | nullIP {addr : SockaddrAny} (hip : ip = none) : Opening ip port [⟨.fault, ()⟩] false (-1) addr
  | invalidIP {text : Bytes} {addr : SockaddrAny} (hip : ip = some text)
      (haddr : ipPortToSockaddr text port = none) : Opening ip port [] false (-1) addr
  | noSocket {addr : SockaddrAny} {errno : Errno} :
      Opening ip port [⟨.sys (.socket addr.family), .error errno⟩] false (-1) addr
  | noBind {addr : SockaddrAny} {sock : ℕ} {errno : Errno} :
      Opening ip port
        [⟨.sys (.socket addr.family), .ok sock⟩, ⟨.reuseaddr sock, ()⟩,
          ⟨.sys (.bind sock addr), .error errno⟩] false sock addr
  | noListen {addr : SockaddrAny} {sock : ℕ} {errno : Errno} :
      Opening ip port
        [⟨.sys (.socket addr.family), .ok sock⟩, ⟨.reuseaddr sock, ()⟩,
          ⟨.sys (.bind sock addr), .ok ()⟩, ⟨.listen sock, .error errno⟩] false sock addr
  | listening {text : Bytes} {addr : SockaddrAny} {sock : ℕ} (hip : ip = some text)
      (haddr : ipPortToSockaddr text port = some addr) :
      Opening ip port
        [⟨.sys (.socket addr.family), .ok sock⟩, ⟨.reuseaddr sock, ()⟩,
          ⟨.sys (.bind sock addr), .ok ()⟩, ⟨.listen sock, .ok ()⟩] true sock addr

section listen

variable {heap heap' : Heap ServerCell} {t : List ServerEvent}

/-- `Server_listen2` does what an opening says, and writes to the server only. -/
theorem listen2_runs {p : ℕ} {cell : ServerCell} {ip : Option Bytes} {port : ℤ} {okay : Bool}
    (h : heap.load p = some cell) (hsock : cell.sock = -1)
    (ht : Program.Trace (listen2 heap p ip port) t (some (okay, heap'))) :
    ∃ sock addr, Opening ip port t okay sock addr ∧
      heap'.load p = some { cell with sock := sock, addr := addr } ∧
      ∀ q, q ≠ p → heap'.load q = heap.load q := by
  have hcell : { cell with sock := -1, addr := cell.addr } = cell := by rw [← hsock]
  unfold listen2 at ht
  cases ip with
  | none =>
      obtain ⟨_, t₁, rfl, hrest⟩ := Program.trace_call.mp ht
      obtain ⟨rfl, rfl, rfl⟩ := Program.trace_pure_mk.mp hrest
      exact ⟨-1, cell.addr, .nullIP rfl, by rw [hcell, h], fun _ _ => rfl⟩
  | some text =>
      cases haddr : ipPortToSockaddr text port with
      | none =>
          simp only [haddr] at ht
          obtain ⟨rfl, rfl, rfl⟩ := Program.trace_pure_mk.mp ht
          exact ⟨-1, cell.addr, .invalidIP rfl haddr, by rw [hcell, h], fun _ _ => rfl⟩
      | some addr =>
          simp only [haddr] at ht
          rw [modify_eq h, Program.ret_bind] at ht
          have h₁ : (heap.store p { cell with addr := addr }).load p =
              some { cell with addr := addr } := Heap.load_store_self h
          -- the memory after the assignment of the socket
          have hmemory : ∀ sock, ((heap.store p { cell with addr := addr }).store p
              { cell with sock := sock, addr := addr }).load p =
                some { cell with sock := sock, addr := addr } ∧
              ∀ q, q ≠ p → ((heap.store p { cell with addr := addr }).store p
                { cell with sock := sock, addr := addr }).load q = heap.load q := by
            intro sock
            refine ⟨Heap.load_store_self h₁, fun q hq => ?_⟩
            rw [Heap.load_store_of_ne hq.symm, Heap.load_store_of_ne hq.symm]
          obtain ⟨reply, t₁, rfl, ht₁⟩ := Program.trace_call.mp ht
          cases reply with
          | error errno =>
              dsimp only at ht₁
              rw [modify_eq h₁, Program.ret_bind] at ht₁
              obtain ⟨rfl, rfl, rfl⟩ := Program.trace_pure_mk.mp ht₁
              exact ⟨-1, addr, .noSocket, hmemory (-1)⟩
          | ok sock =>
              dsimp only at ht₁
              rw [modify_eq h₁, Program.ret_bind] at ht₁
              obtain ⟨_, t₂, rfl, ht₂⟩ := Program.trace_call.mp ht₁
              obtain ⟨bound, t₃, rfl, ht₃⟩ := Program.trace_call.mp ht₂
              cases bound with
              | error errno =>
                  obtain ⟨rfl, rfl, rfl⟩ := Program.trace_pure_mk.mp ht₃
                  exact ⟨sock, addr, .noBind, hmemory sock⟩
              | ok _ =>
                  obtain ⟨listens, t₄, rfl, ht₄⟩ := Program.trace_call.mp ht₃
                  cases listens with
                  | error errno =>
                      obtain ⟨rfl, rfl, rfl⟩ := Program.trace_pure_mk.mp ht₄
                      exact ⟨sock, addr, .noListen, hmemory sock⟩
                  | ok _ =>
                      obtain ⟨rfl, rfl, rfl⟩ := Program.trace_pure_mk.mp ht₄
                      exact ⟨sock, addr, .listening rfl haddr, hmemory sock⟩

/-- A server in memory. -/
def cell (server : Server) (next : Option ℕ) : ServerCell :=
  ⟨server.sock, server.addr, some server.config, some server.bouncer, next⟩

/-- How `Server_listen` goes: the calls that open the socket, those that give it back, and the
server. -/
inductive Attempt (config : Config) (bouncer : Bouncer) :
    List ServerEvent → List ServerEvent → Option Server → Prop
  | noMemory : Attempt config bouncer [⟨.sys (.calloc sizeofServer), false⟩] [] none
  | failed {es : List ServerEvent} {sock : ℤ} {addr : SockaddrAny}
      (h : Opening bouncer.listenIP (toInt bouncer.listenPort) es false sock addr) :
      Attempt config bouncer (⟨.sys (.calloc sizeofServer), true⟩ :: es)
        (if 0 ≤ sock then [closing sock] else []) none
  | listening {es : List ServerEvent} {sock : ℤ} {addr : SockaddrAny}
      (h : Opening bouncer.listenIP (toInt bouncer.listenPort) es true sock addr) :
      Attempt config bouncer (⟨.sys (.calloc sizeofServer), true⟩ :: es) []
        (some ⟨sock, addr, config, bouncer⟩)

/-- A server in new memory, without a socket. -/
theorem new_runs {p : Option ℕ} (ht : Program.Trace (new heap) t (some (p, heap'))) :
    (t = [⟨.sys (.calloc sizeofServer), false⟩] ∧ p = none ∧ heap' = heap) ∨
      (t = [⟨.sys (.calloc sizeofServer), true⟩] ∧ p = some heap.length ∧
        heap'.load heap.length = some { ServerCell.zero with sock := -1 } ∧
        ∀ q, q ≠ heap.length → heap'.load q = heap.load q) := by
  obtain ⟨okay, t₁, rfl, ht₁⟩ := Program.trace_call.mp ht
  cases okay with
  | false =>
      obtain ⟨rfl, rfl, rfl⟩ := Program.trace_pure_mk.mp ht₁
      exact Or.inl ⟨rfl, rfl, rfl⟩
  | true =>
      have hload : (heap.alloc ServerCell.zero).load heap.length = some .zero :=
        Heap.load_alloc_self
      rw [if_pos rfl] at ht₁
      dsimp only at ht₁
      rw [modify_eq hload, Program.ret_bind] at ht₁
      obtain ⟨rfl, rfl, rfl⟩ := Program.trace_pure_mk.mp ht₁
      refine Or.inr ⟨rfl, rfl, Heap.load_store_self hload, fun q hq => ?_⟩
      rw [Heap.load_store_of_ne hq.symm, Heap.load_alloc_of_ne hq]

/-- `Server_listen` does what an attempt says; when the server does not listen it leaves the memory
as it is. -/
theorem listen_runs {config : Config} {bouncer : Bouncer} {p : Option ℕ}
    (ht : Program.Trace (listen heap config bouncer) t (some (p, heap'))) :
    ∃ acquired released o, t = acquired ++ released ∧
      Attempt config bouncer acquired released o ∧ p = o.map (fun _ => heap.length) ∧
      heap'.load heap.length = o.map (fun server => server.cell none) ∧
      ∀ q, q ≠ heap.length → heap'.load q = heap.load q := by
  obtain ⟨⟨server, heap₁⟩, t₁, t₂, rfl, hnew, ht₂⟩ := Program.trace_bind.mp ht
  rcases new_runs hnew with ⟨rfl, rfl, rfl⟩ | ⟨rfl, rfl, hload, hframe⟩
  · obtain ⟨rfl, rfl, rfl⟩ := Program.trace_pure_mk.mp ht₂
    exact ⟨_, [], none, rfl, .noMemory, rfl, Heap.load_length, fun _ _ => rfl⟩
  · dsimp only at ht₂
    rw [modify_eq hload, Program.ret_bind] at ht₂
    have hload₁ := Heap.load_store_self
      (a := { ServerCell.zero with sock := -1, config := some config }) hload
    rw [modify_eq hload₁, Program.ret_bind] at ht₂
    have hload₂ := Heap.load_store_self
      (a := { ServerCell.zero with sock := -1, config := some config, bouncer := some bouncer })
      hload₁
    obtain ⟨⟨okay, heap₂⟩, t₃, t₄, rfl, hlisten, ht₄⟩ := Program.trace_bind.mp ht₂
    obtain ⟨sock, addr, hopening, hload₃, hframe₃⟩ := listen2_runs hload₂ rfl hlisten
    have hframe' : ∀ q, q ≠ heap.length → heap₂.load q = heap.load q := by
      intro q hq
      rw [hframe₃ q hq, Heap.load_store_of_ne hq.symm, Heap.load_store_of_ne hq.symm, hframe q hq]
    cases okay with
    | true =>
        obtain ⟨rfl, rfl, rfl⟩ := Program.trace_pure_mk.mp ht₄
        exact ⟨_, [], some ⟨sock, addr, config, bouncer⟩, by simp, .listening hopening, rfl,
          hload₃, hframe'⟩
    | false =>
        obtain ⟨⟨link, heap₃⟩, t₅, t₆, rfl, hfree, ht₆⟩ := Program.trace_bind.mp ht₄
        obtain ⟨rfl, -, rfl⟩ := free_runs hload₃ hfree
        obtain ⟨rfl, rfl, rfl⟩ := Program.trace_pure_mk.mp ht₆
        refine ⟨_, _, none, ?_, .failed hopening, rfl, Heap.load_release_self, fun q hq => ?_⟩
        · simp
        · rw [Heap.load_release_of_ne hq.symm, hframe' q hq]

end listen

/-! ## The list of servers -/

/-- The list of servers a pointer leads to. They are in memory that held nothing in `base`, and the
rest of the memory is as it is there. -/
def Linked (base heap : Heap ServerCell) (p : Option ℕ) (servers : List Server) : Prop :=
  ∃ cells, Chain ServerCell.next heap p cells ∧
    List.Forall₂ (fun c server => c.2 = server.cell c.2.next) cells servers ∧
    (∀ c ∈ cells, base.load c.1 = none) ∧
    ∀ q, (∀ c ∈ cells, q ≠ c.1) → heap.load q = base.load q

section linked

variable {base heap heap' : Heap ServerCell} {p : Option ℕ} {servers : List Server}
  {server : Server} {t : List ServerEvent}

/-- No server at all. -/
theorem Linked.nil : Linked base base none [] :=
  ⟨[], chain_nil.mpr rfl, .nil, fun _ h => absurd h List.not_mem_nil, fun _ _ => rfl⟩

/-- Memory with the same contents. -/
theorem Linked.congr (h : Linked base heap p servers) (heq : ∀ q, heap'.load q = heap.load q) :
    Linked base heap' p servers := by
  obtain ⟨cells, hchain, hservers, hbase, hrest⟩ := h
  exact ⟨cells, hchain.congr fun c _ => heq c.1, hservers, hbase, fun q hq =>
    (heq q).trans (hrest q hq)⟩

/-- A new server in front of the others. -/
theorem Linked.cons {n : ℕ} (h : Linked base heap p servers) (hnone : heap.load n = none)
    (hload : heap'.load n = some (server.cell p))
    (hframe : ∀ q, q ≠ n → heap'.load q = heap.load q) :
    Linked base heap' (some n) (server :: servers) := by
  obtain ⟨cells, hchain, hservers, hbase, hrest⟩ := h
  have hn : ∀ c ∈ cells, c.1 ≠ n := by
    rintro c hc rfl
    rw [hchain.load_of_mem hc] at hnone
    cases hnone
  refine ⟨(n, server.cell p) :: cells, ?_, .cons rfl hservers, ?_, ?_⟩
  · exact chain_cons.mpr ⟨rfl, hload, hchain.congr fun c hc => hframe c.1 (hn c hc)⟩
  · intro c hc
    rcases List.mem_cons.mp hc with rfl | hc
    · rw [← hrest n fun c hc => (hn c hc).symm, hnone]
    · exact hbase c hc
  · intro q hq
    rw [hframe q (hq _ List.mem_cons_self)]
    exact hrest q fun c hc => hq c (List.mem_cons_of_mem _ hc)

/-- The sockets of the servers, as they are in memory. -/
theorem socks_eq {cells : List (ℕ × ServerCell)}
    (h : List.Forall₂ (fun c server => c.2 = server.cell c.2.next) cells servers) :
    cells.map (fun c => c.2.sock) = servers.map sock := by
  induction h with
  | nil => rfl
  | cons h _ ih => rw [List.map_cons, List.map_cons, ih, h]; rfl

/-- `Server_freeList` closes the sockets of the list and leaves the memory as it was. -/
theorem Linked.freeList {link : Option ℕ} (h : Linked base heap p servers)
    (hsock : ∀ server ∈ servers, 0 ≤ server.sock)
    (ht : Program.Trace (freeList heap p) t (some (link, heap'))) :
    (∃ socks : List ℤ, t = socks.map closing ∧ socks.Perm (servers.map sock)) ∧
      ∀ q, heap'.load q = base.load q := by
  obtain ⟨cells, hchain, hservers, hbase, hrest⟩ := h
  have hsocks : ∀ c ∈ cells, 0 ≤ c.2.sock := by
    intro c hc
    have hmem : c.2.sock ∈ cells.map fun c => c.2.sock := List.mem_map.mpr ⟨c, hc, rfl⟩
    rw [socks_eq hservers] at hmem
    obtain ⟨server, hserver, heq⟩ := List.mem_map.mp hmem
    rw [← heq]
    exact hsock server hserver
  obtain ⟨hcloses, hgone, hframe⟩ := freeList_runs hchain hsocks ht
  rw [socks_eq hservers] at hcloses
  refine ⟨hcloses, fun q => ?_⟩
  by_cases hq : ∀ c ∈ cells, q ≠ c.1
  · rw [hframe q hq, hrest q hq]
  · push Not at hq
    obtain ⟨c, hc, rfl⟩ := hq
    rw [hgone c hc, hbase c hc]

end linked

/-- How the loop of `Server_listenAll` goes when some servers listen already: the calls that open
sockets, those that give them back, and the list of servers. -/
inductive Rest (config : Config) :
    List Bouncer → List Server → List ServerEvent → List ServerEvent → Option (List Server) → Prop
  | done {servers : List Server} : Rest config [] servers [] [] (some servers)
  | failed {bouncer : Bouncer} {bouncers : List Bouncer} {servers : List Server}
      {acquired released : List ServerEvent} {socks : List ℤ}
      (h : Attempt config bouncer acquired released none)
      (hsocks : socks.Perm (servers.map Server.sock)) :
      Rest config (bouncer :: bouncers) servers acquired (released ++ socks.map closing) none
  | next {bouncer : Bouncer} {bouncers : List Bouncer} {servers : List Server} {server : Server}
      {acquired acquired' released' : List ServerEvent} {o : Option (List Server)}
      (h : Attempt config bouncer acquired [] (some server))
      (hrest : Rest config bouncers (server :: servers) acquired' released' o) :
      Rest config (bouncer :: bouncers) servers (acquired ++ acquired') released' o

/-- A server that listens has a socket. -/
theorem Attempt.sock_nonneg {config : Config} {bouncer : Bouncer}
    {acquired released : List ServerEvent} {server : Server}
    (h : Attempt config bouncer acquired released (some server)) : 0 ≤ server.sock := by
  cases h with
  | listening h =>
      cases h with
      | listening _ _ => exact Int.natCast_nonneg _

/-- The loop of `Server_listenAll` does what `Rest` says; it leaves the list of servers, or the
memory as it was in the beginning. -/
theorem listenRest_runs {config : Config} {bouncers : List Bouncer}
    {base heap heap' : Heap ServerCell} {p p' : Option ℕ} {servers : List Server}
    {t : List ServerEvent}
    (hlinked : Linked base heap p servers) (hsock : ∀ server ∈ servers, 0 ≤ server.sock)
    (ht : Program.Trace (listenRest config bouncers p heap) t (some (p', heap'))) :
    ∃ acquired released o, t = acquired ++ released ∧
      Rest config bouncers servers acquired released o ∧
      match o with
      | some servers' => Linked base heap' p' servers'
      | none => p' = none ∧ ∀ q, heap'.load q = base.load q := by
  induction bouncers generalizing heap p servers t with
  | nil =>
      obtain ⟨rfl, rfl, rfl⟩ := Program.trace_pure_mk.mp ht
      exact ⟨[], [], some servers, rfl, .done, hlinked⟩
  | cons bouncer bouncers ih =>
      obtain ⟨⟨server, heap₁⟩, t₁, t₂, rfl, hlisten, ht₂⟩ := Program.trace_bind.mp ht
      obtain ⟨acquired, released, o, rfl, hattempt, rfl, hload, hframe⟩ := listen_runs hlisten
      cases o with
      | none =>
          have hsame : ∀ q, heap₁.load q = heap.load q := by
            intro q
            rcases eq_or_ne q heap.length with rfl | hq
            · rw [hload, Heap.load_length, Option.map_none]
            · exact hframe q hq
          obtain ⟨⟨link, heap₂⟩, t₃, t₄, rfl, hfree, ht₄⟩ := Program.trace_bind.mp ht₂
          obtain ⟨⟨socks, rfl, hsocks⟩, hbase⟩ := (hlinked.congr hsame).freeList hsock hfree
          obtain ⟨rfl, rfl, rfl⟩ := Program.trace_pure_mk.mp ht₄
          exact ⟨acquired, released ++ socks.map closing, none, by simp, .failed hattempt hsocks,
            rfl, hbase⟩
      | some server =>
          have hload : heap₁.load heap.length = some (server.cell none) := hload
          dsimp only [Option.map_some] at ht₂
          rw [modify_eq hload, Program.ret_bind] at ht₂
          have hlinked₂ : Linked base (heap₁.store heap.length (server.cell p)) (some heap.length)
              (server :: servers) := by
            refine hlinked.cons Heap.load_length (Heap.load_store_self hload) fun q hq => ?_
            rw [Heap.load_store_of_ne hq.symm, hframe q hq]
          have hsock₂ : ∀ server' ∈ server :: servers, 0 ≤ server'.sock := by
            intro server' hmem
            rcases List.mem_cons.mp hmem with rfl | hmem
            · exact hattempt.sock_nonneg
            · exact hsock server' hmem
          obtain ⟨acquired', released', o, rfl, hrest, hresult⟩ := ih hlinked₂ hsock₂ ht₂
          cases hattempt with
          | listening hopening =>
              exact ⟨_, released', o, by simp, .next (.listening hopening) hrest, hresult⟩

/-! ## Descriptors -/

/-- The socket was made, bound to the address of the bouncer and set to listen, in this order. -/
def Listens (server : Server) (t : List ServerEvent) : Prop :=
  ∃ (text : Bytes) (fd : ℕ), server.bouncer.listenIP = some text ∧
    ipPortToSockaddr text (toInt server.bouncer.listenPort) = some server.addr ∧
    server.sock = fd ∧
    [⟨.sys (.socket server.addr.family), .ok fd⟩, ⟨.sys (.bind fd server.addr), .ok ()⟩,
      ⟨.listen fd, .ok ()⟩].Sublist t

section opening

variable {ip : Option Bytes} {port : ℤ} {es : List ServerEvent} {okay : Bool} {sock : ℤ}
  {addr : SockaddrAny}

/-- An opening makes the socket it leaves. -/
theorem Opening.made (h : Opening ip port es okay sock addr) :
    es.filterMap ServerEvent.made = if 0 ≤ sock then [sock] else [] := by
  cases h with
  | nullIP _ => rfl
  | invalidIP _ _ => rfl
  | noSocket => rfl
  | noBind => rw [if_pos (Int.natCast_nonneg _)]; rfl
  | noListen => rw [if_pos (Int.natCast_nonneg _)]; rfl
  | listening _ _ => rw [if_pos (Int.natCast_nonneg _)]; rfl

/-- It ends nothing. -/
theorem Opening.ended (h : Opening ip port es okay sock addr) :
    es.filterMap ServerEvent.ended = [] := by
  cases h <;> rfl

/-- It uses nothing but the socket it made. -/
theorem Opening.careful (h : Opening ip port es okay sock addr) (held : List ℤ) :
    serverDescriptors.Careful held es := by
  -- after the call of `socket` everything is done on what it made
  have hsocket : ∀ {family fd : ℕ} {rest : List ServerEvent},
      (∀ e ∈ rest, e.1.uses = [(fd : ℤ)]) → rest.filterMap ServerEvent.ended = [] →
      serverDescriptors.Careful held (⟨.sys (.socket family), .ok fd⟩ :: rest) := by
    intro family fd rest huses hended
    refine Ledger.careful_cons.mpr ⟨nofun, Ledger.careful_of_ended_nil ?_ hended⟩
    intro e he r hr
    have hr : r ∈ e.1.uses := hr
    rw [huses e he, List.mem_singleton] at hr
    exact hr ▸ List.mem_cons_self
  cases h with
  | nullIP _ => exact Ledger.careful_of_ended_nil (by simp [serverDescriptors, ServerCall.uses]) rfl
  | invalidIP _ _ => exact Ledger.careful_of_ended_nil (by simp) rfl
  | noSocket =>
    exact Ledger.careful_of_ended_nil
      (by simp [serverDescriptors, ServerCall.uses, Syscall.uses]) rfl
  | noBind => exact hsocket (by simp [ServerCall.uses, Syscall.uses]) rfl
  | noListen => exact hsocket (by simp [ServerCall.uses, Syscall.uses]) rfl
  | listening _ _ => exact hsocket (by simp [ServerCall.uses, Syscall.uses]) rfl

/-- It goes through a null pointer only where there is no address. -/
theorem Opening.fault (h : Opening ip port es okay sock addr) :
    ∀ e ∈ es, e.1 = .fault → ip = none := by
  cases h with
  | nullIP hip => exact fun _ _ _ => hip
  | _ => simp

/-- A socket that listens was opened for that. -/
theorem Opening.listens {config : Config} {bouncer : Bouncer}
    (h : Opening bouncer.listenIP (toInt bouncer.listenPort) es true sock addr) :
    Listens ⟨sock, addr, config, bouncer⟩ es := by
  cases h with
  | @listening text _ fd hip haddr => exact ⟨text, fd, hip, haddr, rfl, by simp⟩

end opening

theorem Listens.mono {server : Server} {t t' : List ServerEvent} (h : server.Listens t)
    (ht : t.Sublist t') : server.Listens t' := by
  obtain ⟨text, fd, hip, haddr, hsock, hsub⟩ := h
  exact ⟨text, fd, hip, haddr, hsock, hsub.trans ht⟩

section closing

variable {socks : List ℤ}

@[simp] theorem made_closing : (socks.map closing).filterMap ServerEvent.made = [] := by
  induction socks with
  | nil => rfl
  | cons sock socks ih => exact ih

@[simp] theorem ended_closing : (socks.map closing).filterMap ServerEvent.ended = socks := by
  induction socks with
  | nil => rfl
  | cons sock socks ih => exact congrArg (sock :: ·) ih

end closing

section attempt

variable {config : Config} {bouncer : Bouncer} {acquired released : List ServerEvent}
  {o : Option Server}

/-- What an attempt gives back is sockets. -/
theorem Attempt.sockets (h : Attempt config bouncer acquired released o) :
    ∃ socks : List ℤ, released = socks.map closing ∧
      acquired.filterMap ServerEvent.made = socks ++ (o.map sock).toList := by
  cases h with
  | noMemory => exact ⟨[], rfl, rfl⟩
  | @failed es sock addr h =>
      refine ⟨if 0 ≤ sock then [sock] else [], ?_, ?_⟩
      · split_ifs <;> rfl
      · rw [Option.map_none, Option.toList_none, List.append_nil, ← h.made]
        rfl
  | listening h =>
      refine ⟨[], rfl, ?_⟩
      have hsock := (@Attempt.listening config bouncer _ _ _ h).sock_nonneg
      rw [List.filterMap_cons_none rfl, h.made, if_pos hsock]
      rfl

/-- The server of an attempt is the one for the bouncer, and it listens. -/
theorem Attempt.server {server : Server}
    (h : Attempt config bouncer acquired released (some server)) :
    server.bouncer = bouncer ∧ server.config = config ∧ server.Listens acquired := by
  cases h with
  | listening h => exact ⟨rfl, rfl, h.listens.mono (List.sublist_cons_self _ _)⟩

/-- An attempt ends nothing before it gives everything back. -/
theorem Attempt.ended (h : Attempt config bouncer acquired released o) :
    acquired.filterMap ServerEvent.ended = [] := by
  cases h with
  | noMemory => rfl
  | failed h => exact h.ended
  | listening h => exact h.ended

theorem Attempt.careful (h : Attempt config bouncer acquired released o) (held : List ℤ) :
    serverDescriptors.Careful held acquired := by
  cases h with
  | noMemory => exact Ledger.careful_cons.mpr ⟨fun _ hr => absurd hr List.not_mem_nil, along_nil⟩
  | failed h =>
      exact Ledger.careful_cons.mpr ⟨fun _ hr => absurd hr List.not_mem_nil, h.careful _⟩
  | listening h =>
      exact Ledger.careful_cons.mpr ⟨fun _ hr => absurd hr List.not_mem_nil, h.careful _⟩

theorem Attempt.fault (h : Attempt config bouncer acquired released o) :
    ∀ e ∈ acquired, e.1 = .fault → bouncer.listenIP = none := by
  cases h with
  | noMemory => simp
  | failed h => exact fun e he heq => h.fault e ((List.mem_cons.mp he).resolve_left
      fun h => by rw [h] at heq; cases heq) heq
  | listening h => exact fun e he heq => h.fault e ((List.mem_cons.mp he).resolve_left
      fun h => by rw [h] at heq; cases heq) heq

/-- When a server does not listen, a call failed or there is no address for it. -/
theorem Attempt.refused (h : Attempt config bouncer acquired released none) :
    (∃ e ∈ acquired, e.refused = true) ∨ bouncer.listenAddr = none := by
  cases h with
  | noMemory => exact Or.inl ⟨_, List.mem_cons_self, rfl⟩
  | @failed _ _ addr h =>
      cases h with
      | nullIP hip => exact Or.inr (by rw [Bouncer.listenAddr, hip]; rfl)
      | invalidIP hip haddr => exact Or.inr (by rw [Bouncer.listenAddr, hip]; exact haddr)
      | @noSocket _ errno =>
          exact Or.inl ⟨⟨.sys (.socket addr.family), .error errno⟩, by simp, rfl⟩
      | @noBind _ sock errno =>
          exact Or.inl ⟨⟨.sys (.bind sock addr), .error errno⟩, by simp, rfl⟩
      | @noListen _ sock errno =>
          exact Or.inl ⟨⟨.listen sock, .error errno⟩, by simp, rfl⟩

end attempt

section rest

variable {config : Config} {bouncers : List Bouncer} {servers servers' : List Server}
  {acquired released : List ServerEvent} {o : Option (List Server)}

theorem Rest.ended (h : Rest config bouncers servers acquired released o) :
    acquired.filterMap ServerEvent.ended = [] := by
  induction h with
  | done => rfl
  | failed h _ => exact h.ended
  | next h _ ih => rw [List.filterMap_append, h.ended, ih, List.append_nil]

theorem Rest.careful (h : Rest config bouncers servers acquired released o) (held : List ℤ) :
    serverDescriptors.Careful held acquired := by
  induction h generalizing held with
  | done => exact along_nil
  | failed h _ => exact h.careful held
  | next h _ ih => exact Ledger.careful_append.mpr ⟨h.careful held, ih _⟩

theorem Rest.fault (h : Rest config bouncers servers acquired released o) :
    ∀ e ∈ acquired, e.1 = .fault → ∃ bouncer ∈ bouncers, bouncer.listenIP = none := by
  induction h with
  | done => exact fun _ he => absurd he List.not_mem_nil
  | failed h _ => exact fun e he heq => ⟨_, List.mem_cons_self, h.fault e he heq⟩
  | next h _ ih =>
      intro e he heq
      rcases List.mem_append.mp he with he | he
      · exact ⟨_, List.mem_cons_self, h.fault e he heq⟩
      · obtain ⟨bouncer, hmem, hip⟩ := ih e he heq
        exact ⟨bouncer, List.mem_cons_of_mem _ hmem, hip⟩

/-- When not all servers listen, a call failed or there is no address for one of them. -/
theorem Rest.refused (h : Rest config bouncers servers acquired released none) :
    (∃ e ∈ acquired, e.refused = true) ∨ ∃ bouncer ∈ bouncers, bouncer.listenAddr = none := by
  generalize ho : (none : Option (List Server)) = o at h
  induction h with
  | done => cases ho
  | failed h _ => exact h.refused.imp id fun hip => ⟨_, List.mem_cons_self, hip⟩
  | next _ _ ih =>
      rcases ih ho with ⟨e, he, hrefused⟩ | ⟨bouncer, hmem, hip⟩
      · exact Or.inl ⟨e, List.mem_append_right _ he, hrefused⟩
      · exact Or.inr ⟨bouncer, List.mem_cons_of_mem _ hmem, hip⟩

/-- When one server does not listen, the sockets of all are closed. -/
theorem Rest.of_none (h : Rest config bouncers servers acquired released none) :
    ∃ socks : List ℤ, released = socks.map closing ∧
      socks.Perm (acquired.filterMap ServerEvent.made ++ servers.map sock) := by
  generalize ho : (none : Option (List Server)) = o at h
  induction h with
  | done => cases ho
  | failed h hsocks =>
      obtain ⟨socks', rfl, hmade⟩ := h.sockets
      refine ⟨_, (List.map_append).symm, ?_⟩
      rw [hmade, Option.map_none, Option.toList_none, List.append_nil]
      exact hsocks.append_left _
  | next h _ ih =>
      obtain ⟨socks, rfl, hsocks⟩ := ih ho
      obtain ⟨socks', hnil, hmade⟩ := h.sockets
      obtain rfl := List.map_eq_nil_iff.mp hnil.symm
      refine ⟨socks, rfl, hsocks.trans ?_⟩
      rw [List.filterMap_append, hmade]
      exact List.perm_middle

/-- When all of them listen, each has the socket that was made for it. -/
theorem Rest.of_some (h : Rest config bouncers servers acquired released (some servers')) :
    released = [] ∧
      servers'.map sock =
        (acquired.filterMap ServerEvent.made).reverse ++ servers.map sock ∧
      servers'.map bouncer = bouncers.reverse ++ servers.map bouncer ∧
      ∀ server ∈ servers', server ∈ servers ∨ server.config = config ∧ server.Listens acquired := by
  generalize ho : some servers' = o at h
  induction h with
  | done =>
      obtain rfl := Option.some.inj ho
      exact ⟨rfl, rfl, rfl, fun _ h => Or.inl h⟩
  | failed _ _ => cases ho
  | next h _ ih =>
      obtain ⟨hreleased, hsocks, hbouncers, hservers⟩ := ih ho
      obtain ⟨socks', hnil, hmade⟩ := h.sockets
      obtain rfl := List.map_eq_nil_iff.mp hnil.symm
      refine ⟨hreleased, ?_, ?_, ?_⟩
      · rw [hsocks, List.filterMap_append, hmade]
        simp
      · rw [hbouncers, List.map_cons, h.server.1]
        simp
      · intro server hserver
        rcases hservers server hserver with hmem | ⟨hconfig, hlistens⟩
        · rcases List.mem_cons.mp hmem with rfl | hmem
          · exact Or.inr ⟨h.server.2.1, h.server.2.2.mono (List.sublist_append_left _ _)⟩
          · exact Or.inl hmem
        · exact Or.inr ⟨hconfig, hlistens.mono (List.sublist_append_right _ _)⟩

end rest

/-! ## All or nothing -/

/-- Every bouncer has its server: these are in reverse order, and each has a socket of its own
that is open and listens. -/
structure Complete (config : Config) (fds : List ℤ) (t : List ServerEvent)
    (servers : List Server) : Prop where
  bouncers : servers.map bouncer = config.bouncers.reverse
  config : ∀ server ∈ servers, server.config = config
  listens : ∀ server ∈ servers, server.Listens t
  held : serverDescriptors.heldAfter fds t = servers.map sock ++ fds
  nodup : (servers.map sock ++ fds).Nodup

/-- Nothing is left of what was done: every socket that was made is closed, once, and no other
one is. -/
structure Undone (base heap : Heap ServerCell) (fds : List ℤ) (t : List ServerEvent) : Prop where
  held : serverDescriptors.heldAfter fds t = fds
  closed : ∀ fd ∈ t.filterMap ServerEvent.made, (t.filterMap ServerEvent.ended).count fd = 1
  others : ∀ fd ∈ t.filterMap ServerEvent.ended, fd ∈ t.filterMap ServerEvent.made
  memory : ∀ q, heap.load q = base.load q

/-- What `Server_listenAll` has done when it returns. It returns null only when a call failed or
there is a bouncer without an address to listen on. -/
structure AllOrNothing (base : Heap ServerCell) (config : Config) (fds : List ℤ)
    (t : List ServerEvent) (p : Option ℕ) (heap : Heap ServerCell) : Prop where
  result : (∃ servers, Linked base heap p servers ∧ Complete config fds t servers) ∨
    p = none ∧ Undone base heap fds t ∧
      ((∃ e ∈ t, e.refused = true) ∨ ∃ bouncer ∈ config.bouncers, bouncer.listenAddr = none)
  /-- Nothing is used that is not open. -/
  careful : serverDescriptors.Careful fds t
  /-- No pointer is followed that leads nowhere. -/
  faultless : (∀ bouncer ∈ config.bouncers, bouncer.listenIP ≠ none) → ∀ e ∈ t, e.1 ≠ .fault

section all

variable {base heap : Heap ServerCell} {config : Config} {fds : List ℤ} {t : List ServerEvent}
  {p : Option ℕ} {acquired released : List ServerEvent} {servers : List Server}

/-- What is made, ended and closed when one server does not listen. -/
theorem Rest.released_none {bouncers : List Bouncer}
    (h : Rest config bouncers [] acquired released none) :
    (∀ e ∈ released, ∃ sock, e = closing sock) ∧ released.filterMap ServerEvent.made = [] ∧
      (released.filterMap ServerEvent.ended).Perm (acquired.filterMap ServerEvent.made) := by
  obtain ⟨socks, rfl, hsocks⟩ := h.of_none
  rw [List.map_nil, List.append_nil] at hsocks
  refine ⟨?_, made_closing, ?_⟩
  · intro e he
    obtain ⟨sock, -, rfl⟩ := List.mem_map.mp he
    exact ⟨sock, rfl⟩
  · rw [ended_closing]
    exact hsocks

/-- The list of servers is complete. -/
theorem Rest.complete (h : Rest config config.bouncers [] acquired released (some servers))
    (hfds : fds.Nodup) (hfresh : serverDescriptors.Fresh fds (acquired ++ released)) :
    Complete config fds (acquired ++ released) servers := by
  obtain ⟨rfl, hsocks, hbouncers, hservers⟩ := h.of_some
  rw [List.append_nil] at hfresh ⊢
  rw [List.map_nil, List.append_nil] at hsocks hbouncers
  have hheld : serverDescriptors.heldAfter fds acquired = servers.map sock ++ fds := by
    rw [hsocks]
    exact Ledger.heldAfter_of_ended_nil h.ended
  have hnodup : (servers.map sock ++ fds).Nodup := by
    rw [← hheld]
    exact Ledger.nodup_heldAfter hfds hfresh
  have hown : ∀ server ∈ servers, server.config = config ∧ server.Listens acquired :=
    fun server hmem => (hservers server hmem).resolve_left List.not_mem_nil
  exact ⟨hbouncers, fun server h => (hown server h).1, fun server h => (hown server h).2, hheld,
    hnodup⟩

/-- Everything is undone. -/
theorem Rest.undone {bouncers : List Bouncer} (h : Rest config bouncers [] acquired released none)
    (hfds : fds.Nodup) (hfresh : serverDescriptors.Fresh fds (acquired ++ released))
    (hmemory : ∀ q, heap.load q = base.load q) :
    Undone base heap fds (acquired ++ released) := by
  obtain ⟨-, hmade, hperm⟩ := h.released_none
  obtain ⟨hheld, hnodup⟩ := Ledger.heldAfter_restored h.ended hmade hperm hfds hfresh
  have hmadeAll : (acquired ++ released).filterMap ServerEvent.made =
      acquired.filterMap ServerEvent.made := by
    rw [List.filterMap_append, hmade, List.append_nil]
  have hendedAll : (acquired ++ released).filterMap ServerEvent.ended =
      released.filterMap ServerEvent.ended := by
    rw [List.filterMap_append, h.ended, List.nil_append]
  have hnodup : (acquired.filterMap ServerEvent.made).Nodup := by
    rw [← hmadeAll]
    exact hnodup
  refine ⟨hheld, ?_, ?_, hmemory⟩
  · intro fd hfd
    rw [hmadeAll] at hfd
    rw [hendedAll, hperm.count_eq]
    exact List.count_eq_one_of_mem hnodup hfd
  · intro fd hfd
    rw [hendedAll] at hfd
    rw [hmadeAll]
    exact hperm.mem_iff.mp hfd

/-- What is given back is held. -/
theorem Rest.released_careful {bouncers : List Bouncer}
    (h : Rest config bouncers [] acquired released none) (hfds : fds.Nodup)
    (hfresh : serverDescriptors.Fresh fds (acquired ++ released)) :
    serverDescriptors.Careful (serverDescriptors.heldAfter fds acquired) released := by
  obtain ⟨hclosing, hmade, hperm⟩ := h.released_none
  have hheld : serverDescriptors.heldAfter fds acquired =
      (acquired.filterMap ServerEvent.made).reverse ++ fds := Ledger.heldAfter_of_ended_nil h.ended
  have hnodup := Ledger.nodup_heldAfter hfds hfresh.of_append
  rw [hheld] at hnodup ⊢
  refine Ledger.careful_of_nodup ?_ hmade ?_ ?_
  · intro e he
    obtain ⟨sock, rfl⟩ := hclosing e he
    rfl
  · exact hperm.nodup_iff.mpr (List.nodup_reverse.mp (List.nodup_append.mp hnodup).1)
  · exact fun fd hfd => List.mem_append_left _ (List.mem_reverse.mpr (hperm.mem_iff.mp hfd))

/-- **All or nothing**: whatever the calls reply, `Server_listenAll` returns the list of the
servers of all bouncers, or something fails, and it returns null and everything is as it was. -/
theorem listenAll_allOrNothing (ht : Program.Trace (listenAll base config) t (some (p, heap)))
    (hfds : fds.Nodup) (hfresh : serverDescriptors.Fresh fds t) :
    AllOrNothing base config fds t p heap := by
  obtain ⟨acquired, released, o, rfl, hrest, hresult⟩ :=
    listenRest_runs Linked.nil (fun _ h => absurd h List.not_mem_nil) ht
  have hfault : (∀ bouncer ∈ config.bouncers, bouncer.listenIP ≠ none) →
      ∀ e ∈ acquired, e.1 ≠ .fault := by
    intro hips e he hfault
    obtain ⟨bouncer, hmem, hip⟩ := hrest.fault e he hfault
    exact hips bouncer hmem hip
  cases o with
  | some servers =>
      refine ⟨Or.inl ⟨servers, hresult, hrest.complete hfds hfresh⟩, ?_, ?_⟩
      · obtain ⟨rfl, -, -, -⟩ := hrest.of_some
        rw [List.append_nil]
        exact hrest.careful fds
      · obtain ⟨rfl, -, -, -⟩ := hrest.of_some
        rw [List.append_nil]
        exact hfault
  | none =>
      have hrefused : (∃ e ∈ acquired ++ released, e.refused = true) ∨
          ∃ bouncer ∈ config.bouncers, bouncer.listenAddr = none :=
        hrest.refused.imp (fun ⟨e, he, h⟩ => ⟨e, List.mem_append_left released he, h⟩) id
      refine ⟨Or.inr ⟨hresult.1, hrest.undone hfds hfresh hresult.2, hrefused⟩, ?_, ?_⟩
      · exact Ledger.careful_append.mpr ⟨hrest.careful fds, hrest.released_careful hfds hfresh⟩
      · intro hips e he
        rcases List.mem_append.mp he with he | he
        · exact hfault hips e he
        · obtain ⟨sock, rfl⟩ := hrest.released_none.1 e he
          exact nofun

end all

/-- Two bouncers on one host, the second of which cannot have its port. -/
def crowdedConfig : Config :=
  { Options.new with
    bouncers := [⟨some (ascii "127.0.0.1"), 2121, some (ascii "10.0.0.1"), 21,
        some (ascii "127.0.0.1")⟩,
      ⟨some (ascii "127.0.0.1"), 21, some (ascii "10.0.0.2"), 21, some (ascii "127.0.0.1")⟩] }

/-- The first server listens, the second one is not allowed to. -/
def crowdedRun : List ServerEvent :=
  [⟨.sys (.calloc sizeofServer), true⟩, ⟨.sys (.socket 2), .ok 3⟩, ⟨.reuseaddr 3, ()⟩,
    ⟨.sys (.bind 3 (loopback 2121)), .ok ()⟩, ⟨.listen 3, .ok ()⟩,
    ⟨.sys (.calloc sizeofServer), true⟩, ⟨.sys (.socket 2), .ok 4⟩, ⟨.reuseaddr 4, ()⟩,
    ⟨.sys (.bind 4 (loopback 21)), .error 13⟩, ⟨.sys (.close 4), ()⟩,
    ⟨.sys (.close 3), ()⟩]

theorem trace_crowdedRun :
    Program.Trace (listenAll [] crowdedConfig) crowdedRun (some (none, [none, none])) := by
  unfold crowdedRun
  repeat refine .call _ ?_
  exact .ret _

/-- Nothing is left of the first server. -/
theorem listenAll_allOrNothing_crowded :
    AllOrNothing [] crowdedConfig [0, 1, 2] crowdedRun none [none, none] :=
  listenAll_allOrNothing trace_crowdedRun (by decide) (by decide)

end Server

end Ebbnc
