import Ebbnc.Server

/-!
# Connections and their threads

The process as a whole: the server's thread accepts connections, and every connection has a thread
of its own. Calls of different threads come in any order.

* `Thread`, `World` — the threads and what is left for each of them to do; `World.Step` — one
  call of one of them.
* `processDescriptors`, `acceptedDescriptors` — the descriptors of the process as resources, and
  those `accept` returned.
* `Intake` — what becomes of a connection before it has its thread.
* `World.Tidy` — every connection that is open belongs to a thread that has not finished.
* **`World.tidy_iff`** — when that is so after a call of `Server_accept`.
-/

namespace Ebbnc

open Lib

/-- The thread of a connection: what it has done and what is left. -/
structure Thread where
  client : Client
  done : List Event
  rest : Sys (Option Unit)

/-- The thread has returned. -/
def Thread.finished (thread : Thread) : Bool :=
  match thread.rest with
  | .ret (some _) => true
  | _ => false

/-- The descriptors a thread has. -/
def Thread.held (thread : Thread) : List ℤ := openAfter [thread.client.cSock] thread.done

/-- A thread that has done nothing yet, for so many passes of the relay.
Source: `client.c` `Client_launch`, the call of `pthread_create` -/
def Thread.start (passes : ℕ) (client : Client) : Thread where
  client := client
  done := []
  rest := client.threadMain passes

/-- What is left for the server's thread, and the threads of the connections. -/
structure World where
  server : Daemon (Option Unit)
  threads : List Thread

/-- Before the first of so many calls of `Server_accept`. -/
def World.start (servers : List Server) (passes : ℕ) : World := ⟨Server.loop servers passes, []⟩

/-- A call of the server's thread, or of the thread of a connection. -/
inductive Act
  | server (e : ServerEvent)
  | thread (i : ℕ) (e : Event)

/-- The descriptors a call is made on. -/
def Act.uses : Act → List ℤ
  | server e => e.1.uses
  | thread _ e => e.1.uses

/-- The descriptor a call makes. -/
def Act.made : Act → Option ℤ
  | server e => e.made
  | thread _ e => e.made

/-- The descriptor a call ends. -/
def Act.ended : Act → Option ℤ
  | server e => e.ended
  | thread _ e => e.ended

/-- The descriptor `accept` returns. -/
def Act.accepted : Act → Option ℤ
  | server ⟨.accept _, .ok (sock, _)⟩ => some (sock : ℕ)
  | _ => none

/-- The descriptors of the process. -/
def processDescriptors : Ledger Act ℤ := ⟨Act.uses, Act.made, Act.ended⟩

/-- Those that `accept` returned. -/
def acceptedDescriptors : Ledger Act ℤ := ⟨Act.uses, Act.accepted, Act.ended⟩

/-- One call, of any thread. -/
inductive World.Step : World → Act → World → Prop
  | server {c : ServerCall} {k : ServerReply c → Daemon (Option Unit)} {threads : List Thread}
      (reply : ServerReply c) (passes : ℕ) :
      Step ⟨.call c k, threads⟩ (.server ⟨c, reply⟩)
        ⟨k reply, threads ++ (ServerEvent.started ⟨c, reply⟩).map (Thread.start passes)⟩
  | thread {server : Daemon (Option Unit)} {before after : List Thread} {client : Client}
      {done : List Event} {c : Syscall} {k : Reply c → Sys (Option Unit)} (reply : Reply c) :
      Step ⟨server, before ++ ⟨client, done, .call c k⟩ :: after⟩
        (.thread before.length ⟨c, reply⟩)
        ⟨server, before ++ ⟨client, done ++ [⟨c, reply⟩], k reply⟩ :: after⟩

/-- Every connection that is open belongs to a thread that was started and has not finished, so
there are no more of them than such threads. -/
structure World.Tidy (acts : List Act) (w : World) : Prop where
  owned : ∀ fd ∈ acceptedDescriptors.heldAfter [] acts, ∃ thread ∈ w.threads,
    thread.client.cSock = fd ∧ fd ∈ thread.held ∧ thread.finished = false
  length_le : (acceptedDescriptors.heldAfter [] acts).length ≤
    (w.threads.filter fun thread => !thread.finished).length

/-! ## Connections without a thread -/

/-- The connections that have no thread: the one that was accepted last, and those that never get
one. -/
structure Intake where
  pending : Option ℕ
  orphans : List ℤ

namespace Intake

/-- The descriptors of these connections. -/
def held (s : Intake) : List ℤ := (s.pending.map Nat.cast).toList ++ s.orphans

/-- What the server's thread does with a connection. -/
inductive Step : Intake → ServerEvent → Intake → Prop
  | aside {s : Intake} {e : ServerEvent} (hmade : e.made = none) (hended : e.ended = none)
      (hstarted : e.started = []) (hfails : e.fails = false) : Step s e s
  | accept {fd : ℤ} {sock : ℕ} {addr : SockaddrAny} {orphans : List ℤ} :
      Step ⟨none, orphans⟩ ⟨.accept fd, .ok (sock, addr)⟩ ⟨some sock, orphans⟩
  | noMemory {size sock : ℕ} {orphans : List ℤ} :
      Step ⟨some sock, orphans⟩ ⟨.sys (.calloc size), false⟩ ⟨none, sock :: orphans⟩
  | noThread {client : Client} {sock : ℕ} {orphans : List ℤ} :
      Step ⟨some sock, orphans⟩ ⟨.pthreadCreate client, false⟩ ⟨none, sock :: orphans⟩
  | thread {client : Client} {sock : ℕ} {orphans : List ℤ} (hc : client.cSock = sock)
      (hr : client.rSock = -1) :
      Step ⟨some sock, orphans⟩ ⟨.pthreadCreate client, true⟩ ⟨none, orphans⟩

/-- Any reply is lawful here. -/
def Law (_ : Intake) (_ : ServerEvent) : Prop := True

end Intake

section intake

variable {orphans : List ℤ} {s : Intake}

/-- A connection gets its thread, or never does. -/
theorem launch_intake (server : Server) (sock : ℕ) (addr : SockaddrAny) :
    Program.Sim Intake.Step Intake.Law (Client.launch server sock addr) ⟨some sock, orphans⟩
      fun _ s' => s'.pending = none := by
  refine Program.Sim.call fun memory _ => ?_
  cases memory with
  | false => exact ⟨_, .noMemory, rfl⟩
  | true =>
    refine ⟨_, .aside rfl rfl rfl rfl, ?_⟩
    refine Program.Sim.call fun okay _ => ?_
    cases okay with
    | false => exact ⟨_, .noThread, rfl⟩
    | true => exact ⟨_, .thread rfl rfl, rfl⟩

theorem acceptReady_intake (ready : List ℤ) (servers : List Server) (hs : s.pending = none) :
    Program.Sim Intake.Step Intake.Law (Server.acceptReady ready servers) s
      fun _ s' => s'.pending = none := by
  induction servers generalizing s with
  | nil => exact hs
  | cons server servers ih =>
    obtain ⟨pending, orphans⟩ := s
    obtain rfl : pending = none := hs
    rw [Server.acceptReady]
    split
    · refine Program.Sim.call fun reply _ => ?_
      cases reply with
      | error errno => exact ⟨_, .aside rfl rfl rfl rfl, rfl⟩
      | ok connection =>
        obtain ⟨sock, addr⟩ := connection
        exact ⟨_, .accept, (launch_intake server sock addr).bind fun _ s' hs' => ih hs'⟩
    · exact ih rfl

theorem accept_intake (servers : List Server) (hs : s.pending = none) :
    Program.Sim Intake.Step Intake.Law (Server.accept servers) s fun _ s' => s'.pending = none := by
  refine Program.Sim.call fun reply _ => ⟨s, .aside rfl rfl rfl rfl, ?_⟩
  cases reply with
  | error errno => exact Program.Sim.perform fun _ _ => ⟨s, .aside rfl rfl rfl rfl, hs⟩
  | ok ready => exact acceptReady_intake ready.1 servers hs

/-- Between two calls of `Server_accept` no connection waits for its thread. -/
theorem loop_intake (servers : List Server) (passes : ℕ) (hs : s.pending = none) :
    Program.Sim Intake.Step Intake.Law (Server.loop servers passes) s
      fun _ s' => s'.pending = none := by
  have hbody : ∀ s : Intake, s.pending = none →
      Program.Sim Intake.Step Intake.Law (do Server.accept servers; pure true) s
        fun more s' => if more then s'.pending = none else s'.pending = none :=
    fun s hs => (accept_intake servers hs).bind fun _ s' hs' => by simpa using hs'
  refine (Program.Sim.loop hbody passes hs).mono fun o s' h => ?_
  cases o <;> exact h

end intake

/-! ## Every state of the process -/

/-- A thread has kept to its custody so far, and will. -/
def Thread.Keeps (thread : Thread) : Prop :=
  ∃ custody, Path (Custody.Step thread.client.cSock) .alone thread.done custody ∧
    Ebbnc.Keeps thread.client.cSock thread.rest custody fun o s' =>
      o = some () → s'.held thread.client.cSock = []

/-- A thread that has not given back everything has not finished. -/
theorem Thread.Keeps.finished {thread : Thread} (h : thread.Keeps) {fd : ℤ}
    (hfd : fd ∈ thread.held) : thread.finished = false := by
  obtain ⟨client, done, rest⟩ := thread
  obtain ⟨custody, hpath, hkeeps⟩ := h
  have hheld : openAfter [client.cSock] done = custody.held client.cSock :=
    (Custody.invariant_of_path hpath).held
  cases rest with
  | call c k => rfl
  | ret o =>
    cases o with
    | none => rfl
    | some _ =>
      have hnil : custody.held client.cSock = [] := hkeeps rfl
      rw [Thread.held, hheld, hnil] at hfd
      cases hfd

namespace World

/-- Where every descriptor is, given the connections that have no thread. -/
structure Accounts (fds : List ℤ) (acts : List Act) (w : World) (s : Intake) : Prop where
  server : Program.Sim Intake.Step Intake.Law w.server s fun _ s' => s'.pending = none
  threads : ∀ thread ∈ w.threads, thread.Keeps
  held : (processDescriptors.heldAfter fds acts).Perm
    (fds ++ s.held ++ w.threads.flatMap Thread.held)
  accepted : ∀ fd ∈ acceptedDescriptors.heldAfter [] acts, fd ∈ s.held ∨
    ∃ thread ∈ w.threads, thread.client.cSock = fd ∧ fd ∈ thread.held
  intake : ∀ fd ∈ s.held, fd ∈ acceptedDescriptors.heldAfter [] acts
  nodup : (acceptedDescriptors.heldAfter [] acts).Nodup
  failed : (∃ e, Act.server e ∈ acts ∧ e.fails = true) ↔ s.orphans ≠ []

section accounts

variable {fds : List ℤ} {acts : List Act} {w : World} {s s' : Intake} {e : ServerEvent}
  {threads : List Thread} {server server' : Daemon (Option Unit)}

/-- A call that makes no descriptor accepts no connection. -/
theorem accepted_of_made {e : ServerEvent} (h : e.made = none) :
    (Act.server e).accepted = none := by
  obtain ⟨c, reply⟩ := e
  cases c with
  | accept fd =>
      cases reply with
      | error _ => rfl
      | ok _ => cases h
  | _ => rfl

/-- One more act of the server in the history. -/
theorem failed_concat (e : ServerEvent)
    (h : (∃ e, Act.server e ∈ acts ∧ e.fails = true) ↔ s.orphans ≠ [])
    (hstep : s'.orphans ≠ [] ↔ s.orphans ≠ [] ∨ e.fails = true) :
    (∃ e', Act.server e' ∈ acts ++ [Act.server e] ∧ e'.fails = true) ↔ s'.orphans ≠ [] := by
  rw [hstep, ← h]
  constructor
  · rintro ⟨e', hmem, hfails⟩
    rcases List.mem_append.mp hmem with hmem | hmem
    · exact Or.inl ⟨e', hmem, hfails⟩
    · obtain rfl : e' = e := by simpa using hmem
      exact Or.inr hfails
  · rintro (⟨e', hmem, hfails⟩ | hfails)
    · exact ⟨e', List.mem_append_left _ hmem, hfails⟩
    · exact ⟨e, by simp, hfails⟩

/-- A call that neither makes nor ends a descriptor and starts no thread. -/
theorem Accounts.aside (h : Accounts fds acts ⟨server, threads⟩ s) (hmade : e.made = none)
    (hended : e.ended = none) (hstarted : e.started = []) (hheld : s'.held = s.held)
    (horphans : s'.orphans ≠ [] ↔ s.orphans ≠ [] ∨ e.fails = true) (passes : ℕ)
    (hserver : Program.Sim Intake.Step Intake.Law server' s' fun _ s' => s'.pending = none) :
    Accounts fds (acts ++ [.server e]) ⟨server', threads ++ e.started.map (Thread.start passes)⟩
      s' := by
  have hprocess : processDescriptors.heldAfter fds (acts ++ [.server e]) =
      processDescriptors.heldAfter fds acts := Ledger.heldAfter_concat_of_none hmade hended
  have haccepted : acceptedDescriptors.heldAfter [] (acts ++ [.server e]) =
      acceptedDescriptors.heldAfter [] acts :=
    Ledger.heldAfter_concat_of_none (accepted_of_made hmade) hended
  rw [hstarted, List.map_nil, List.append_nil]
  refine ⟨hserver, h.threads, ?_, ?_, ?_, ?_, failed_concat e h.failed horphans⟩
  · rw [hprocess, hheld]
    exact h.held
  · rw [haccepted, hheld]
    exact h.accepted
  · rw [haccepted, hheld]
    exact h.intake
  · rw [haccepted]
    exact h.nodup

/-- A connection that is open is a descriptor of the process. -/
theorem Accounts.accepted_subset (h : Accounts fds acts w s) {fd : ℤ}
    (hfd : fd ∈ acceptedDescriptors.heldAfter [] acts) :
    fd ∈ processDescriptors.heldAfter fds acts := by
  apply h.held.mem_iff.mpr
  rcases h.accepted fd hfd with hfd | ⟨thread, hthread, -, hfd⟩
  · simp [hfd]
  · exact List.mem_append_right _ (List.mem_flatMap.mpr ⟨thread, hthread, hfd⟩)

/-- A connection is accepted. -/
theorem Accounts.accept {fd : ℤ} {sock : ℕ} {addr : SockaddrAny} {orphans : List ℤ}
    (h : Accounts fds acts ⟨server, threads⟩ ⟨none, orphans⟩)
    (hfresh : (sock : ℤ) ∉ processDescriptors.heldAfter fds acts)
    (hserver : Program.Sim Intake.Step Intake.Law server' ⟨some sock, orphans⟩
      fun _ s' => s'.pending = none) :
    Accounts fds (acts ++ [.server ⟨.accept fd, .ok (sock, addr)⟩]) ⟨server', threads⟩
      ⟨some sock, orphans⟩ := by
  have hprocess : processDescriptors.heldAfter fds
      (acts ++ [.server ⟨.accept fd, .ok (sock, addr)⟩]) =
        (sock : ℤ) :: processDescriptors.heldAfter fds acts := by
    rw [Ledger.heldAfter_concat]
    exact congrArg ((sock : ℤ) :: ·) (List.filter_eq_self.mpr fun _ _ => rfl)
  have haccepted : acceptedDescriptors.heldAfter []
      (acts ++ [.server ⟨.accept fd, .ok (sock, addr)⟩]) =
        (sock : ℤ) :: acceptedDescriptors.heldAfter [] acts := by
    rw [Ledger.heldAfter_concat]
    exact congrArg ((sock : ℤ) :: ·) (List.filter_eq_self.mpr fun _ _ => rfl)
  refine ⟨hserver, h.threads, ?_, ?_, ?_, ?_, failed_concat _ h.failed ?_⟩
  · rw [hprocess, List.append_assoc]
    apply (h.held.cons (sock : ℤ)).trans
    rw [List.append_assoc]
    exact List.perm_middle.symm
  · intro fd' hfd'
    rw [haccepted] at hfd'
    rcases List.mem_cons.mp hfd' with rfl | hfd'
    · exact Or.inl List.mem_cons_self
    · exact (h.accepted fd' hfd').imp (List.mem_cons_of_mem _) id
  · intro fd' hfd'
    rw [haccepted]
    rcases List.mem_cons.mp hfd' with rfl | hfd'
    · exact List.mem_cons_self
    · exact List.mem_cons_of_mem _ (h.intake fd' hfd')
  · rw [haccepted]
    exact List.nodup_cons.mpr ⟨fun hmem => hfresh (h.accepted_subset hmem), h.nodup⟩
  · simp [ServerEvent.fails]

/-- A connection gets its thread. -/
theorem Accounts.started {client : Client} {sock : ℕ} {orphans : List ℤ}
    (h : Accounts fds acts ⟨server, threads⟩ ⟨some sock, orphans⟩) (hc : client.cSock = sock)
    (hr : client.rSock = -1) (passes : ℕ)
    (hserver : Program.Sim Intake.Step Intake.Law server' ⟨none, orphans⟩
      fun _ s' => s'.pending = none) :
    Accounts fds (acts ++ [.server ⟨.pthreadCreate client, true⟩])
      ⟨server', threads ++ [Thread.start passes client]⟩ ⟨none, orphans⟩ := by
  have hprocess : processDescriptors.heldAfter fds
      (acts ++ [.server ⟨.pthreadCreate client, true⟩]) =
        processDescriptors.heldAfter fds acts := Ledger.heldAfter_concat_of_none rfl rfl
  have haccepted : acceptedDescriptors.heldAfter []
      (acts ++ [.server ⟨.pthreadCreate client, true⟩]) =
        acceptedDescriptors.heldAfter [] acts := Ledger.heldAfter_concat_of_none rfl rfl
  have hthread : (Thread.start passes client).held = [(sock : ℤ)] := by
    rw [← hc]
    rfl
  refine ⟨hserver, ?_, ?_, ?_, ?_, ?_, failed_concat _ h.failed ?_⟩
  · intro thread hmem
    rcases List.mem_append.mp hmem with hmem | hmem
    · exact h.threads thread hmem
    · obtain rfl := List.mem_singleton.mp hmem
      exact ⟨.alone, .refl, Client.threadMain_keeps (hc ▸ Int.natCast_nonneg sock) hr passes⟩
  · rw [hprocess, List.flatMap_append, List.flatMap_singleton, hthread]
    apply h.held.trans
    rw [List.perm_iff_count]
    intro fd
    simp only [Intake.held, List.count_append, Option.map_some, Option.map_none, Option.toList_some,
      Option.toList_none, List.count_nil]
    omega
  · intro fd hfd
    rw [haccepted] at hfd
    rcases h.accepted fd hfd with hfd | ⟨thread, hmem, hfd⟩
    · rcases List.mem_cons.mp hfd with rfl | hfd
      · refine Or.inr ⟨Thread.start passes client, by simp, hc, ?_⟩
        rw [hthread]
        exact List.mem_cons_self
      · exact Or.inl hfd
    · exact Or.inr ⟨thread, List.mem_append_left _ hmem, hfd⟩
  · intro fd hfd
    rw [haccepted]
    exact h.intake fd (List.mem_cons_of_mem _ hfd)
  · rw [haccepted]
    exact h.nodup
  · simp [ServerEvent.fails]

/-- A call of the server's thread. -/
theorem Accounts.step_server (h : Accounts fds acts ⟨server, threads⟩ s)
    (hfresh : ∀ fd ∈ e.made, fd ∉ processDescriptors.heldAfter fds acts)
    (hstep : Intake.Step s e s') (passes : ℕ)
    (hserver : Program.Sim Intake.Step Intake.Law server' s' fun _ s' => s'.pending = none) :
    Accounts fds (acts ++ [.server e]) ⟨server', threads ++ e.started.map (Thread.start passes)⟩
      s' := by
  cases hstep with
  | aside hmade hended hstarted hfails =>
      exact h.aside hmade hended hstarted rfl (by simp [hfails]) passes hserver
  | @accept fd sock addr orphans =>
      rw [show ServerEvent.started ⟨.accept fd, .ok (sock, addr)⟩ = [] from rfl, List.map_nil,
        List.append_nil]
      exact h.accept (hfresh sock rfl) hserver
  | @noMemory size sock orphans =>
      have hheld : Intake.held ⟨none, (sock : ℤ) :: orphans⟩ =
          Intake.held ⟨some sock, orphans⟩ := rfl
      refine h.aside rfl rfl rfl hheld ?_ passes hserver
      simp [ServerEvent.fails]
  | @noThread client sock orphans =>
      have hheld : Intake.held ⟨none, (sock : ℤ) :: orphans⟩ =
          Intake.held ⟨some sock, orphans⟩ := rfl
      refine h.aside rfl rfl rfl hheld ?_ passes hserver
      simp [ServerEvent.fails]
  | thread hc hr => exact h.started hc hr passes hserver

/-- The descriptors of all other parts of the process, and those of one thread. -/
theorem Accounts.split {before after : List Thread} {thread : Thread}
    (h : Accounts fds acts ⟨server, before ++ thread :: after⟩ s) :
    (processDescriptors.heldAfter fds acts).Perm
      ((fds ++ s.held ++ (before.flatMap Thread.held ++ after.flatMap Thread.held)) ++
        thread.held) := by
  apply h.held.trans
  rw [List.perm_iff_count]
  intro fd
  simp only [List.flatMap_append, List.flatMap_cons, List.count_append]
  omega

/-- Connections that a thread does not close belong to whom they belonged. -/
theorem Accounts.accepted_thread {before after : List Thread} {thread thread' : Thread} {fd : ℤ}
    (h : Accounts fds acts ⟨server, before ++ thread :: after⟩ s)
    (hc : thread'.client = thread.client) (hkept : fd ∈ thread.held → fd ∈ thread'.held)
    (hfd : fd ∈ acceptedDescriptors.heldAfter [] acts) :
    fd ∈ s.held ∨
      ∃ owner ∈ before ++ thread' :: after, owner.client.cSock = fd ∧ fd ∈ owner.held := by
  rcases h.accepted fd hfd with hfd | ⟨owner, hmem, hsock, hfd⟩
  · exact Or.inl hfd
  apply Or.inr
  rcases List.mem_append.mp hmem with hmem | hmem
  · exact ⟨owner, List.mem_append_left _ hmem, hsock, hfd⟩
  rcases List.mem_cons.mp hmem with rfl | hmem
  · exact ⟨thread', List.mem_append_right _ List.mem_cons_self, hc ▸ hsock, hkept hfd⟩
  · exact ⟨owner, List.mem_append_right _ (List.mem_cons_of_mem _ hmem), hsock, hfd⟩

/-- A call of the thread of a connection. -/
theorem Accounts.step_thread {before after : List Thread} {client : Client} {done : List Event}
    {c : Syscall} {k : Reply c → Sys (Option Unit)} {reply : Reply c}
    (h : Accounts fds acts ⟨server, before ++ ⟨client, done, .call c k⟩ :: after⟩ s)
    (hfds : (processDescriptors.heldAfter fds acts).Nodup)
    (hfresh : ∀ fd ∈ Event.made ⟨c, reply⟩, fd ∉ processDescriptors.heldAfter fds acts) (i : ℕ) :
    Accounts fds (acts ++ [.thread i ⟨c, reply⟩])
      ⟨server, before ++ ⟨client, done ++ [⟨c, reply⟩], k reply⟩ :: after⟩ s := by
  have hthreads := h.threads
  rw [List.forall_mem_append, List.forall_mem_cons] at hthreads
  obtain ⟨hbefore, ⟨custody, hpath, hkeeps⟩, hafter⟩ := hthreads
  have hheld : openAfter [client.cSock] done = custody.held client.cSock :=
    (Custody.invariant_of_path hpath).held
  have hsplit := h.split
  have hmine : ∀ fd ∈ custody.held client.cSock, fd ∈ processDescriptors.heldAfter fds acts := by
    intro fd hfd
    rw [← hheld] at hfd
    exact hsplit.mem_iff.mpr (List.mem_append_right _ hfd)
  obtain ⟨custody', hstep, hrest⟩ := hkeeps reply fun fd hfd hmem => hfresh fd hfd (hmine fd hmem)
  have hended : ∀ fd ∈ processDescriptors.ended (.thread i ⟨c, reply⟩),
      fd ∈ openAfter [client.cSock] done := by
    intro fd hfd
    rw [hheld]
    exact hstep.uses_held fd (descriptors_ended ⟨c, reply⟩ fd hfd)
  have hopen : openAfter [client.cSock] (done ++ [⟨c, reply⟩]) =
      processDescriptors.after (openAfter [client.cSock] done) (.thread i ⟨c, reply⟩) :=
    openAfter_concat _ _ _
  have haccepted : acceptedDescriptors.heldAfter [] (acts ++ [.thread i ⟨c, reply⟩]) =
      (acceptedDescriptors.heldAfter [] acts).filter fun fd => Event.ended ⟨c, reply⟩ ≠ some fd :=
    Ledger.heldAfter_concat
  refine ⟨h.server, ?_, ?_, ?_, ?_, ?_, ?_⟩
  · rw [List.forall_mem_append, List.forall_mem_cons]
    exact ⟨hbefore, ⟨custody', hpath.step hstep, hrest⟩, hafter⟩
  · rw [Ledger.heldAfter_concat]
    apply (Ledger.after_perm_append hsplit hfds hended).trans
    rw [List.perm_iff_count]
    intro fd
    simp only [List.flatMap_append, List.flatMap_cons, List.count_append, Thread.held, hopen]
    omega
  · intro fd hfd
    rw [haccepted, List.mem_filter] at hfd
    have hkept : fd ∈ openAfter [client.cSock] done →
        fd ∈ openAfter [client.cSock] (done ++ [⟨c, reply⟩]) := by
      intro hmem
      rw [hopen]
      exact List.mem_append_right _ (List.mem_filter.mpr ⟨hmem, hfd.2⟩)
    exact h.accepted_thread rfl hkept hfd.1
  · intro fd hfd
    rw [haccepted, List.mem_filter]
    refine ⟨h.intake fd hfd, ?_⟩
    have hdisjoint := (List.nodup_append.mp (hsplit.nodup_iff.mp hfds)).2.2
    have hapart : fd ∈ fds ++ s.held ++ (before.flatMap Thread.held ++ after.flatMap Thread.held) :=
      List.mem_append_left _ (List.mem_append_right _ hfd)
    exact decide_eq_true fun heq => hdisjoint fd hapart fd (hended fd heq) rfl
  · rw [haccepted]
    exact h.nodup.filter _
  · rw [← h.failed]
    simp

end accounts

/-- **Every state of the process** is accounted for, whatever the calls reply and in whatever order
the threads run. -/
theorem accounts_of_path {servers : List Server} {passes : ℕ} {fds : List ℤ} {acts : List Act}
    {w : World} (hrun : Path Step (start servers passes) acts w) (hfds : fds.Nodup)
    (hfresh : processDescriptors.Fresh fds acts) : ∃ s, Accounts fds acts w s := by
  induction hrun with
  | refl =>
      refine ⟨⟨none, []⟩, loop_intake servers passes rfl, ?_, ?_, ?_, ?_, List.nodup_nil, ?_⟩
      · exact fun _ hmem => absurd hmem List.not_mem_nil
      · simp [start, Intake.held]
      · exact fun _ hmem => absurd hmem List.not_mem_nil
      · exact fun _ hmem => absurd hmem List.not_mem_nil
      · simp
  | @step acts w w' act hrun hstep ih =>
      obtain ⟨hfresh, hnew⟩ := along_concat.mp hfresh
      obtain ⟨s, h⟩ := ih hfresh
      have hnodup := Ledger.nodup_heldAfter hfds hfresh
      cases hstep with
      | server reply passes =>
          obtain ⟨s', hstep, hserver⟩ := h.server reply trivial
          exact ⟨s', h.step_server hnew hstep passes hserver⟩
      | thread reply => exact ⟨s, h.step_thread hnodup hnew _⟩

/-! ## Connections and threads -/

section tidy

variable {fds : List ℤ} {acts : List Act} {w : World} {s : Intake}

/-- When every connection has a thread, the open ones belong to threads that have not finished. -/
theorem Accounts.tidy (h : Accounts fds acts w s) (hpending : s.pending = none)
    (horphans : s.orphans = []) : w.Tidy acts := by
  have hheld : s.held = [] := by
    rw [Intake.held, hpending, horphans]
    rfl
  have howned : ∀ fd ∈ acceptedDescriptors.heldAfter [] acts, ∃ thread ∈ w.threads,
      thread.client.cSock = fd ∧ fd ∈ thread.held ∧ thread.finished = false := by
    intro fd hfd
    rcases h.accepted fd hfd with hfd | ⟨thread, hmem, hc, hfd⟩
    · rw [hheld] at hfd
      cases hfd
    · exact ⟨thread, hmem, hc, hfd, (h.threads thread hmem).finished hfd⟩
  refine ⟨howned, ?_⟩
  have hsubset : acceptedDescriptors.heldAfter [] acts ⊆
      (w.threads.filter fun thread => !thread.finished).map fun thread => thread.client.cSock := by
    intro fd hfd
    obtain ⟨thread, hmem, hc, -, hfinished⟩ := howned fd hfd
    exact List.mem_map.mpr ⟨thread, List.mem_filter.mpr ⟨hmem, by rw [hfinished]; rfl⟩, hc⟩
  have hle := (h.nodup.subperm hsubset).length_le
  rwa [List.length_map] at hle

/-- **Connections and threads**: whatever the calls reply and in whatever order the threads run,
when `Server_accept` has returned every connection that is open belongs to a thread that has not
finished, just when no `Client_new` and no `pthread_create` has failed so far. -/
theorem tidy_iff {servers : List Server} {passes : ℕ}
    (hrun : Path Step (start servers passes) acts w) (hover : w.server = .ret none)
    (hfds : fds.Nodup) (hfresh : processDescriptors.Fresh fds acts) :
    w.Tidy acts ↔ ∀ e, Act.server e ∈ acts → e.fails = false := by
  obtain ⟨s, h⟩ := accounts_of_path hrun hfds hfresh
  have hpending : s.pending = none := by
    have hserver := h.server
    rw [hover] at hserver
    exact hserver
  constructor
  · intro htidy e hmem
    by_contra hfails
    rw [Bool.not_eq_false] at hfails
    obtain ⟨fd, hfd⟩ := List.exists_mem_of_ne_nil _ (h.failed.mp ⟨e, hmem, hfails⟩)
    have hheld : fd ∈ s.held := List.mem_append_right _ hfd
    obtain ⟨thread, hthread, -, howned, -⟩ := htidy.owned fd (h.intake fd hheld)
    -- the connection has no thread and belongs to one
    have hnodup := h.held.nodup_iff.mp (Ledger.nodup_heldAfter hfds hfresh)
    exact (List.nodup_append.mp hnodup).2.2 fd (List.mem_append_right _ hheld) fd
      (List.mem_flatMap.mpr ⟨thread, hthread, howned⟩) rfl
  · intro hall
    have horphans : s.orphans = [] := by
      by_contra hne
      obtain ⟨e, hmem, hfails⟩ := h.failed.mpr hne
      rw [hall e hmem] at hfails
      cases hfails
    exact h.tidy hpending horphans

end tidy

/-- The server the visitor comes to. -/
def door : Server :=
  ⟨3, loopback 2000, Client.visitor.config, Client.visitor.bouncer⟩

/-- The visitor is accepted and has a thread. -/
def welcomed : List Act :=
  [.server ⟨.select 4 [3], .ok ⟨[3], List.Subset.refl _⟩⟩,
    .server ⟨.accept 3, .ok (4, Client.visitor.cAddr)⟩,
    .server ⟨.sys (.calloc sizeofClient), true⟩, .server ⟨.pthreadCreate Client.visitor, true⟩]

/-- The visitor is accepted, and there is no memory. -/
def abandoned : List Act :=
  [.server ⟨.select 4 [3], .ok ⟨[3], List.Subset.refl _⟩⟩,
    .server ⟨.accept 3, .ok (4, Client.visitor.cAddr)⟩,
    .server ⟨.sys (.calloc sizeofClient), false⟩]

theorem path_welcomed :
    Path Step (start [door] 1) welcomed ⟨.ret none, [Thread.start 1 Client.visitor]⟩ :=
  .cons (.server _ 1) (.cons (.server _ 1) (.cons (.server _ 1) (.single (.server _ 1))))

theorem path_abandoned : Path Step (start [door] 1) abandoned ⟨.ret none, []⟩ :=
  .cons (.server _ 1) (.cons (.server _ 1) (.single (.server _ 1)))

/-- The visitor's connection belongs to the thread. -/
theorem tidy_welcomed : World.Tidy welcomed ⟨.ret none, [Thread.start 1 Client.visitor]⟩ := by
  have htidy := @tidy_iff [0, 1, 2, 3] _ _ _ _ path_welcomed rfl (by decide) (by decide)
  apply htidy.mpr
  intro e hmem
  simp only [welcomed, List.mem_cons, List.not_mem_nil, or_false] at hmem
  rcases hmem with h | h | h | h <;> cases h <;> rfl

/-- **A connection that is left open**: there is no memory for the client, `Server_accept` returns,
and the connection is open and has no thread. -/
theorem not_tidy_abandoned :
    Path Step (start [door] 1) abandoned ⟨.ret none, []⟩ ∧
      processDescriptors.Fresh [0, 1, 2, 3] abandoned ∧
      ¬ World.Tidy abandoned ⟨.ret none, []⟩ := by
  refine ⟨path_abandoned, by decide, ?_⟩
  intro h
  exact absurd h.length_le (by decide)

end World

end Ebbnc
