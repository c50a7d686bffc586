import Ebbnc.Connections

/-!
# Connections keep to themselves

The process with all its threads once more: what one of the threads does is what it would do if it
were alone, for a connection that one of the servers accepted.

* `Act.of` — the calls of one thread, taken out of those of the process.
* `Act.visitor` — the client of a connection that is accepted, with the bouncer of the server it
  came to; `Reception` — from there to its thread.
* **`World.threads_alone`** — the threads are those of such clients, at most one for each
  connection, and each has run by itself, whatever the others did in between.
* **`World.descriptors_apart`** — no two threads use one descriptor unless it is closed in between.
-/

namespace Ebbnc

open Lib

/-- The calls of one thread. -/
def Act.of (i : ℕ) : Act → Option Event
  | .thread j e => if j = i then some e else none
  | .server _ => none

/-- The client of a connection that one of the servers accepts. -/
def ServerEvent.visitor (servers : List Server) : ServerEvent → Option Client
  | ⟨.accept fd, .ok (sock, addr)⟩ =>
      (servers.find? fun server => server.sock = fd).map fun server =>
        Client.ofServer server sock addr
  | _ => none

/-- The client of a connection that is accepted. -/
def Act.visitor (servers : List Server) : Act → Option Client
  | .server e => e.visitor servers
  | .thread _ _ => none

/-! ## From the connection to its thread -/

namespace Reception

/-- What the server's thread does with the client of a connection, which waits for its thread. -/
inductive Step (servers : List Server) : Option Client → ServerEvent → Option Client → Prop
  | aside {s : Option Client} {e : ServerEvent} (hvisitor : e.visitor servers = none)
      (hstarted : e.started = []) : Step servers s e s
  | accept {client : Client} {e : ServerEvent} (hvisitor : e.visitor servers = some client)
      (hstarted : e.started = []) : Step servers none e (some client)
  | start {client : Client} : Step servers (some client) ⟨.pthreadCreate client, true⟩ none
  | turnAway {s : Option Client} {e : ServerEvent} (hvisitor : e.visitor servers = none)
      (hstarted : e.started = []) : Step servers s e none

/-- Any reply is lawful here. -/
def Law (_ : Option Client) (_ : ServerEvent) : Prop := True

end Reception

/-- The program does what the reception can do. -/
abbrev Receives {α : Type} (servers : List Server) (p : Daemon α) (s : Option Client)
    (Q : α → Option Client → Prop) : Prop :=
  p.Sim (Reception.Step servers) Reception.Law s Q

section reception

variable {servers : List Server}

/-- The client gets its thread, or is turned away. -/
theorem launch_receives (server : Server) (sock : ℕ) (addr : SockaddrAny) :
    Receives servers (Client.launch server sock addr)
      (some (Client.ofServer server sock addr)) fun _ s' => s' = none := by
  refine Program.Sim.call fun memory _ => ?_
  cases memory with
  | false => exact ⟨none, .turnAway rfl rfl, rfl⟩
  | true =>
    refine ⟨_, .aside rfl rfl, ?_⟩
    refine Program.Sim.call fun okay _ => ?_
    cases okay with
    | false => exact ⟨none, .turnAway rfl rfl, rfl⟩
    | true => exact ⟨none, .start, rfl⟩

/-- The server of a descriptor. -/
theorem find_of_mem (hsocks : (servers.map Server.sock).Nodup) {server : Server}
    (hmem : server ∈ servers) :
    (servers.find? fun other => other.sock = server.sock) = some server := by
  induction servers with
  | nil => cases hmem
  | cons first servers ih =>
      rw [List.map_cons, List.nodup_cons] at hsocks
      rcases List.mem_cons.mp hmem with rfl | hmem
      · simp
      · have hne : first.sock ≠ server.sock := fun heq =>
          hsocks.1 (heq ▸ List.mem_map_of_mem hmem)
        rw [List.find?_cons_of_neg (by simpa using hne)]
        exact ih hsocks.2 hmem

theorem acceptReady_receives (hsocks : (servers.map Server.sock).Nodup) (ready : List ℤ)
    {rest : List Server} (hrest : ∀ server ∈ rest, server ∈ servers) :
    Receives servers (Server.acceptReady ready rest) none fun _ s' => s' = none := by
  induction rest with
  | nil => rfl
  | cons server rest ih =>
    have hrest' := fun server' h => hrest server' (List.mem_cons_of_mem _ h)
    rw [Server.acceptReady]
    split
    · refine Program.Sim.call fun reply _ => ?_
      cases reply with
      | error errno => exact ⟨none, .aside rfl rfl, rfl⟩
      | ok connection =>
        obtain ⟨sock, addr⟩ := connection
        have hvisitor : ServerEvent.visitor servers ⟨.accept server.sock, .ok (sock, addr)⟩ =
            some (Client.ofServer server sock addr) := by
          simp [ServerEvent.visitor, find_of_mem hsocks (hrest server List.mem_cons_self)]
        refine ⟨_, .accept hvisitor rfl, (launch_receives server sock addr).bind ?_⟩
        rintro _ _ rfl
        exact ih hrest'
    · exact ih hrest'

theorem accept_receives (hsocks : (servers.map Server.sock).Nodup) :
    Receives servers (Server.accept servers) none fun _ s' => s' = none := by
  refine Program.Sim.call fun reply _ => ⟨none, .aside rfl rfl, ?_⟩
  cases reply with
  | error errno => exact Program.Sim.perform fun _ _ => ⟨none, .aside rfl rfl, rfl⟩
  | ok ready => exact acceptReady_receives hsocks ready.1 fun _ h => h

/-- Between two calls of `Server_accept` nobody waits. -/
theorem loop_receives (hsocks : (servers.map Server.sock).Nodup) (passes : ℕ) :
    Receives servers (Server.loop servers passes) none fun _ s' => s' = none := by
  have hbody : ∀ s : Option Client, s = none →
      Receives servers (do Server.accept servers; pure true) s
        fun more s' => if more then s' = none else s' = none := by
    rintro _ rfl
    apply (accept_receives hsocks).bind
    rintro _ _ rfl
    rfl
  refine (Program.Sim.loop hbody passes rfl).mono fun o s' h => ?_
  cases o <;> exact h

end reception

/-! ## Every thread by itself -/

/-- Descriptors that keep to the custody are new when they are made. -/
theorem Custody.fresh_of_path {cSock : ℤ} {t : List Event} {s : Custody}
    (h : Path (Custody.Step cSock) .alone t s) : Fresh [cSock] t := by
  induction h with
  | refl => exact along_nil
  | @step t s s' e h hstep ih =>
      refine along_concat.mpr ⟨ih, ?_⟩
      have hnodup := hstep.nodup (invariant_of_path h).nodup
      rw [hstep.made_eq, ← List.cons_append, List.nodup_append] at hnodup
      intro fd hfd hopen
      rw [(invariant_of_path h).held] at hopen
      apply hnodup.2.2 fd ?_ fd (by simpa using hfd) rfl
      rcases Custody.mem_of_held hopen with rfl | hmade
      · exact List.mem_cons_self
      · exact List.mem_cons_of_mem _ hmade

namespace World

variable {servers : List Server} {fds : List ℤ} {acts : List Act} {w : World}

/-- Who the threads are and what each has done, given the client that waits for its thread. -/
structure Roster (servers : List Server) (acts : List Act) (w : World) (s : Option Client) :
    Prop where
  server : Receives servers w.server s fun _ s' => s' = none
  clients : (w.threads.map Thread.client ++ s.toList).Sublist (acts.filterMap (Act.visitor servers))
  done : ∀ i thread, w.threads[i]? = some thread → acts.filterMap (Act.of i) = thread.done
  alone : ∀ thread ∈ w.threads, ∃ passes,
    Path Program.Step (thread.client.threadMain passes) thread.done thread.rest
  beyond : ∀ i, w.threads.length ≤ i → acts.filterMap (Act.of i) = []

/-- A call of the server's thread is none of the others'. -/
theorem of_concat_server (i : ℕ) (e : ServerEvent) :
    (acts ++ [Act.server e]).filterMap (Act.of i) = acts.filterMap (Act.of i) := by
  simp [Act.of]

/-- A call of the server's thread that starts none. -/
theorem Roster.idle {server server' : Daemon (Option Unit)} {threads : List Thread}
    {s s' : Option Client} {e : ServerEvent} (h : Roster servers acts ⟨server, threads⟩ s)
    (hserver : Receives servers server' s' fun _ s' => s' = none)
    (hclients : (threads.map Thread.client ++ s'.toList).Sublist
      ((acts ++ [Act.server e]).filterMap (Act.visitor servers))) :
    Roster servers (acts ++ [.server e]) ⟨server', threads⟩ s' where
  server := hserver
  clients := hclients
  done i thread hi := by rw [of_concat_server, h.done i thread hi]
  alone := h.alone
  beyond i hi := by rw [of_concat_server, h.beyond i hi]

/-- The waiting client gets its thread. -/
theorem Roster.started {server server' : Daemon (Option Unit)} {threads : List Thread}
    {client : Client} (h : Roster servers acts ⟨server, threads⟩ (some client)) (passes : ℕ)
    (hserver : Receives servers server' none fun _ s' => s' = none) :
    Roster servers (acts ++ [.server ⟨.pthreadCreate client, true⟩])
      ⟨server', threads ++ [Thread.start passes client]⟩ none where
  server := hserver
  clients := by
    have hvisitor : (acts ++ [Act.server ⟨.pthreadCreate client, true⟩]).filterMap
        (Act.visitor servers) = acts.filterMap (Act.visitor servers) := by
      simp [Act.visitor, ServerEvent.visitor]
    rw [hvisitor, List.map_append, List.append_assoc]
    exact h.clients
  done i thread hi := by
    rw [of_concat_server]
    rcases Nat.lt_or_ge i threads.length with hlt | hge
    · rw [List.getElem?_append_left hlt] at hi
      exact h.done i thread hi
    · rw [List.getElem?_append_right hge, List.getElem?_singleton] at hi
      split_ifs at hi
      obtain rfl := Option.some.inj hi
      exact h.beyond i hge
  alone thread hmem := by
    rcases List.mem_append.mp hmem with hmem | hmem
    · exact h.alone thread hmem
    · obtain rfl := List.mem_singleton.mp hmem
      exact ⟨passes, .refl⟩
  beyond i hi := by
    rw [of_concat_server]
    apply h.beyond
    simp only [List.length_append, List.length_singleton] at hi
    exact Nat.le_of_succ_le hi

/-- A call of the server's thread. -/
theorem Roster.step_server {server server' : Daemon (Option Unit)} {threads : List Thread}
    {s s' : Option Client} {e : ServerEvent} (h : Roster servers acts ⟨server, threads⟩ s)
    (hstep : Reception.Step servers s e s') (passes : ℕ)
    (hserver : Receives servers server' s' fun _ s' => s' = none) :
    Roster servers (acts ++ [.server e]) ⟨server', threads ++ e.started.map (Thread.start passes)⟩
      s' := by
  have hskip : e.visitor servers = none → (acts ++ [Act.server e]).filterMap
      (Act.visitor servers) = acts.filterMap (Act.visitor servers) := by
    intro hvisitor
    simp [Act.visitor, hvisitor]
  have hclients := h.clients
  cases hstep with
  | aside hvisitor hstarted =>
      rw [hstarted, List.map_nil, List.append_nil]
      exact h.idle hserver (by rwa [hskip hvisitor])
  | @accept client _ hvisitor hstarted =>
      rw [hstarted, List.map_nil, List.append_nil]
      refine h.idle hserver ?_
      have hone : [Act.server e].filterMap (Act.visitor servers) = [client] := by
        simp [Act.visitor, hvisitor]
      rw [List.filterMap_append, hone]
      simp only [Option.toList_none, List.append_nil] at hclients
      exact hclients.append (List.Sublist.refl _)
  | start => exact h.started passes hserver
  | turnAway hvisitor hstarted =>
      rw [hstarted, List.map_nil, List.append_nil]
      refine h.idle hserver ?_
      rw [hskip hvisitor]
      exact ((List.Sublist.refl _).append (List.nil_sublist _)).trans hclients

/-- A call of the thread of a connection. -/
theorem Roster.step_thread {server : Daemon (Option Unit)} {before after : List Thread}
    {client : Client} {done : List Event} {c : Syscall} {k : Reply c → Sys (Option Unit)}
    {s : Option Client} (reply : Reply c)
    (h : Roster servers acts ⟨server, before ++ ⟨client, done, .call c k⟩ :: after⟩ s) :
    Roster servers (acts ++ [.thread before.length ⟨c, reply⟩])
      ⟨server, before ++ ⟨client, done ++ [⟨c, reply⟩], k reply⟩ :: after⟩ s := by
  have hmine := h.done before.length ⟨client, done, .call c k⟩ (by simp)
  have hothers : ∀ i, i ≠ before.length →
      (acts ++ [Act.thread before.length ⟨c, reply⟩]).filterMap (Act.of i) =
        acts.filterMap (Act.of i) := by
    intro i hi
    simp [Act.of, hi.symm]
  refine ⟨h.server, ?_, ?_, ?_, ?_⟩
  · have hclients := h.clients
    simp only [List.map_append, List.map_cons, List.filterMap_append] at hclients ⊢
    rw [show [Act.thread before.length ⟨c, reply⟩].filterMap (Act.visitor servers) = [] from rfl,
      List.append_nil]
    exact hclients
  · intro i thread hi
    rcases eq_or_ne i before.length with rfl | hne
    · rw [List.getElem?_append_right (Nat.le_refl _), Nat.sub_self] at hi
      obtain rfl := Option.some.inj hi
      rw [List.filterMap_append, hmine]
      simp [Act.of]
    · rw [hothers i hne]
      apply h.done i thread
      rw [← hi]
      rcases Nat.lt_or_ge i before.length with hlt | hge
      · rw [List.getElem?_append_left hlt, List.getElem?_append_left hlt]
      · rw [List.getElem?_append_right hge, List.getElem?_append_right hge]
        obtain ⟨n, hn⟩ : ∃ n, i - before.length = n + 1 := ⟨i - before.length - 1, by omega⟩
        rw [hn, List.getElem?_cons_succ, List.getElem?_cons_succ]
  · have halone := h.alone
    rw [List.forall_mem_append, List.forall_mem_cons] at halone ⊢
    obtain ⟨hbefore, ⟨passes, hpath⟩, hafter⟩ := halone
    exact ⟨hbefore, ⟨passes, hpath.step (.call reply)⟩, hafter⟩
  · intro i hi
    have hi' : before.length < i := by
      simp only [List.length_append, List.length_cons] at hi
      omega
    rw [hothers i (Nat.ne_of_gt hi')]
    apply h.beyond
    simpa using hi

/-- **Every state of the process** has its roster. -/
theorem roster_of_path {passes : ℕ} (hrun : Path Step (start servers passes) acts w)
    (hsocks : (servers.map Server.sock).Nodup) : ∃ s, Roster servers acts w s := by
  induction hrun with
  | refl =>
      refine ⟨none, loop_receives hsocks passes, List.Sublist.refl _, ?_, ?_, fun _ _ => rfl⟩
      · exact fun i thread hi => absurd hi (by simp [start])
      · exact fun _ hmem => absurd hmem List.not_mem_nil
  | @step acts w w' act hrun hstep ih =>
      obtain ⟨s, h⟩ := ih
      cases hstep with
      | server reply passes =>
          obtain ⟨s', hstep, hserver⟩ := h.server reply trivial
          exact ⟨s', h.step_server hstep passes hserver⟩
      | thread reply => exact ⟨s, h.step_thread reply⟩

/-- What is known of a thread that has done this: it is a run of the thread of its client alone, and
what it puts on the socket for its server comes from its own connection. -/
structure RunsAlone (client : Client) (result : Option (Option Unit)) (t : List Event) : Prop where
  trace : ∃ passes, Program.Trace (client.threadMain passes) t result
  fresh : Fresh [client.cSock] t
  stream : ∀ r, serverSocket t = some r →
    ∃ idnt, client.Idnt idnt ∧ client.ServerStream r idnt t

/-- **Every thread by itself**: whatever the calls reply and in whatever order the threads run, the
threads are those of clients that were accepted, in that order and at most one for each of them,
each with the config and the bouncer of the server it came to; and what a thread has done is a run
of its own. -/
theorem threads_alone {passes : ℕ} (hrun : Path Step (start servers passes) acts w)
    (hsocks : (servers.map Server.sock).Nodup) (hfds : fds.Nodup)
    (hfresh : processDescriptors.Fresh fds acts) :
    (w.threads.map Thread.client).Sublist (acts.filterMap (Act.visitor servers)) ∧
      ∀ i thread, w.threads[i]? = some thread →
        RunsAlone thread.client thread.rest.value (acts.filterMap (Act.of i)) := by
  obtain ⟨s, hroster⟩ := roster_of_path hrun hsocks
  obtain ⟨s', haccounts⟩ := accounts_of_path hrun hfds hfresh
  refine ⟨((List.sublist_append_left _ _)).trans hroster.clients, ?_⟩
  intro i thread hi
  have hmem : thread ∈ w.threads := List.mem_of_getElem? hi
  obtain ⟨passes, hpath⟩ := hroster.alone thread hmem
  obtain ⟨custody, hcustody, -⟩ := haccounts.threads thread hmem
  have htrace := Program.Trace.of_path hpath
  have hown := Custody.fresh_of_path hcustody
  rw [hroster.done i thread hi]
  refine ⟨⟨passes, htrace⟩, hown, ?_⟩
  intro r hr
  obtain ⟨session, hsession⟩ := thread.client.exists_session htrace hown
  have hserver : session.phase.server = some r := (Session.server_of_path hsession).trans hr
  exact (Client.serverSide_of_path hsession).stream hserver

/-! ## Descriptors of different threads -/

/-- A descriptor that is not ended stays open. -/
theorem mem_openAfter_append {fds : List ℤ} {t t' : List Event} {fd : ℤ}
    (h : fd ∈ openAfter fds t) (hopen : ∀ e ∈ t', e.ended ≠ some fd) :
    fd ∈ openAfter fds (t ++ t') := by
  induction t' using List.reverseRecOn with
  | nil => simpa using h
  | append_singleton t' e ih =>
      have hlast := hopen e (by simp)
      rw [← List.append_assoc, openAfter_concat]
      apply List.mem_append_right
      rw [List.mem_filter]
      exact ⟨ih fun e' he' => hopen e' (List.mem_append_left _ he'), decide_eq_true hlast⟩

/-- Different threads hold different descriptors, and none of the process' own. -/
theorem Accounts.disjoint {s : Intake} (h : Accounts fds acts w s)
    (hnodup : (processDescriptors.heldAfter fds acts).Nodup) :
    w.threads.Pairwise (fun thread thread' => thread.held.Disjoint thread'.held) ∧
      ∀ thread ∈ w.threads, thread.held.Disjoint fds := by
  have hall := h.held.nodup_iff.mp hnodup
  have hflat := List.nodup_append.mp hall
  refine ⟨?_, ?_⟩
  · exact (List.nodup_flatMap.mp hflat.2.1).2
  · intro thread hmem fd hfd hown
    exact hflat.2.2 fd (List.mem_append_left _ hown) fd
      (List.mem_flatMap.mpr ⟨thread, hmem, hfd⟩) rfl

/-- A call of a thread is made on what the thread holds, and it holds what it makes. -/
theorem held_of_step {acts : List Act} {s : Intake} {i : ℕ} {e : Event} {w' : World}
    (h : Accounts fds acts w s) (hfresh : ∀ fd ∈ e.made, fd ∉ processDescriptors.heldAfter fds acts)
    (hstep : Step w (.thread i e) w') :
    ∃ thread thread', w.threads[i]? = some thread ∧ w'.threads[i]? = some thread' ∧
      (∀ fd ∈ e.1.uses, fd ∈ thread.held) ∧ thread'.held = opened thread.held e := by
  cases hstep with
  | @thread server before after client done c k reply =>
    refine ⟨⟨client, done, .call c k⟩, ⟨client, done ++ [⟨c, reply⟩], k reply⟩, by simp, by simp,
      ?_, ?_⟩
    · obtain ⟨custody, hpath, hkeeps⟩ := h.threads ⟨client, done, .call c k⟩ (by simp)
      have hheld : openAfter [client.cSock] done = custody.held client.cSock :=
        (Custody.invariant_of_path hpath).held
      have hlaw : Custody.Law client.cSock custody ⟨c, reply⟩ := by
        intro fd hfd hmem
        apply hfresh fd hfd
        apply h.held.mem_iff.mpr
        apply List.mem_append_right
        rw [List.mem_flatMap]
        refine ⟨⟨client, done, .call c k⟩, by simp, ?_⟩
        rw [Thread.held]
        exact hheld ▸ hmem
      obtain ⟨custody', hstep, -⟩ := hkeeps reply hlaw
      intro fd hfd
      rw [Thread.held, hheld]
      exact hstep.uses_held fd hfd
    · exact openAfter_concat _ _ _

/-- A thread keeps its place and its client. -/
theorem getElem?_of_path {w' : World} {i : ℕ} {thread : Thread} (hrun : Path Step w acts w')
    (hi : w.threads[i]? = some thread) :
    ∃ thread', w'.threads[i]? = some thread' ∧ thread'.client = thread.client := by
  induction hrun with
  | refl => exact ⟨thread, hi, rfl⟩
  | step _ hstep ih =>
      obtain ⟨thread', hi', hclient⟩ := ih
      cases hstep with
      | server reply passes =>
          obtain ⟨hlt, -⟩ := List.getElem?_eq_some_iff.mp hi'
          exact ⟨thread', by rw [List.getElem?_append_left hlt, hi'], hclient⟩
      | @thread server before after client done c k reply =>
          rcases Nat.lt_trichotomy i before.length with hlt | rfl | hgt
          · rw [List.getElem?_append_left hlt] at hi' ⊢
            exact ⟨thread', hi', hclient⟩
          · rw [List.getElem?_append_right (Nat.le_refl _), Nat.sub_self] at hi' ⊢
            obtain rfl := Option.some.inj hi'
            exact ⟨_, rfl, hclient⟩
          · obtain ⟨n, rfl⟩ : ∃ n, i = before.length + (n + 1) := ⟨i - before.length - 1, by omega⟩
            rw [List.getElem?_append_right (by omega)] at hi' ⊢
            rw [show before.length + (n + 1) - before.length = n + 1 by omega,
              List.getElem?_cons_succ] at hi' ⊢
            exact ⟨thread', hi', hclient⟩

/-- The calls of the server's thread are made on the descriptors of the process and end none. -/
def Modest (fds : List ℤ) (c : ServerCall) : Prop :=
  (∀ fd ∈ c.uses, fd ∈ fds) ∧ ∀ reply, ServerEvent.ended ⟨c, reply⟩ = none

/-- A call that is made on no descriptor. -/
theorem modest_of_uses {c : ServerCall} (huses : c.uses = [])
    (hended : ∀ reply, ServerEvent.ended ⟨c, reply⟩ = none) : Modest fds c :=
  ⟨fun _ hfd => absurd (huses ▸ hfd) List.not_mem_nil, hended⟩

theorem acceptReady_modest (hmem : ∀ server ∈ servers, server.sock ∈ fds) (ready : List ℤ) :
    Program.Only (Modest fds) (Server.acceptReady ready servers) := by
  induction servers with
  | nil => trivial
  | cons server servers ih =>
    rw [List.forall_mem_cons] at hmem
    rw [Server.acceptReady]
    split
    · refine .call ⟨?_, fun _ => rfl⟩ fun reply => ?_
      · simpa [ServerCall.uses] using hmem.1
      · cases reply with
        | error errno => trivial
        | ok connection =>
          refine Program.Only.bind (.call (modest_of_uses rfl fun _ => rfl) fun memory => ?_)
            fun _ => ih hmem.2
          cases memory with
          | false => trivial
          | true => exact .call (modest_of_uses rfl fun _ => rfl) fun _ => trivial
    · exact ih hmem.2

theorem loop_modest (hmem : ∀ server ∈ servers, server.sock ∈ fds) (passes : ℕ) :
    Program.Only (Modest fds) (Server.loop servers passes) := by
  have haccept : Program.Only (Modest fds) (Server.accept servers) := by
    refine .call ⟨?_, fun _ => rfl⟩ fun reply => ?_
    · simpa [ServerCall.uses] using hmem
    · cases reply with
      | error errno => exact .perform (modest_of_uses rfl fun _ => rfl)
      | ok ready => exact acceptReady_modest hmem ready.1
  have hbody : Program.Only (Modest fds) (do Server.accept servers; pure true) :=
    haccept.bind fun _ => trivial
  unfold Server.loop
  induction passes with
  | zero => trivial
  | succ passes ih =>
    refine hbody.bind fun more => ?_
    cases more with
    | true => exact ih
    | false => trivial

/-- What is left for the server's thread keeps to that. -/
theorem modest_of_path {passes : ℕ} (hrun : Path Step (start servers passes) acts w)
    (hmem : ∀ server ∈ servers, server.sock ∈ fds) :
    Program.Only (Modest fds) w.server ∧
      ∀ e, Act.server e ∈ acts → (∀ fd ∈ e.1.uses, fd ∈ fds) ∧ e.ended = none := by
  induction hrun with
  | refl => exact ⟨loop_modest hmem passes, fun _ he => absurd he List.not_mem_nil⟩
  | step _ hstep ih =>
      obtain ⟨honly, hall⟩ := ih
      cases hstep with
      | @server c k threads reply passes =>
          refine ⟨honly.2 reply, ?_⟩
          intro e he
          rcases List.mem_append.mp he with he | he
          · exact hall e he
          · obtain rfl : e = ⟨c, reply⟩ := by simpa using he
            exact ⟨honly.1.1, honly.1.2 reply⟩
      | thread reply =>
          refine ⟨honly, fun e he => hall e ?_⟩
          simpa using he

/-- How the descriptors are divided between the threads, over a whole run. -/
structure Apart (fds : List ℤ) (acts : List Act) : Prop where
  /-- The server's thread uses the descriptors the process had before, and closes none of them. -/
  server : ∀ e, Act.server e ∈ acts → (∀ fd ∈ e.1.uses, fd ∈ fds) ∧ e.ended = none
  /-- The threads of the connections use none of these. -/
  process : ∀ i e, Act.thread i e ∈ acts → ∀ fd ∈ e.1.uses, fd ∉ fds
  /-- When two of them use one descriptor, it was closed in between. -/
  threads : ∀ acts₁ i e acts₂ j e' acts₃ fd,
    acts = acts₁ ++ .thread i e :: (acts₂ ++ .thread j e' :: acts₃) → i ≠ j →
      fd ∈ e.1.uses ∨ fd ∈ e.made → fd ∈ e'.1.uses →
        ∃ a ∈ Act.thread i e :: acts₂, a.ended = some fd

/-- Before and after a call of a thread in the course of a run. -/
theorem call_of_path {passes : ℕ} {acts₁ acts₂ : List Act} {w₁ : World} {i : ℕ} {e : Event}
    (hrun₁ : Path Step (start servers passes) acts₁ w₁)
    (hrest : Path Step w₁ (.thread i e :: acts₂) w) (hfds : fds.Nodup)
    (hfresh : processDescriptors.Fresh fds (acts₁ ++ .thread i e :: acts₂)) :
    ∃ w₂ thread thread', Path Step (start servers passes) (acts₁ ++ [.thread i e]) w₂ ∧
      Path Step w₂ acts₂ w ∧ w₁.threads[i]? = some thread ∧ w₂.threads[i]? = some thread' ∧
      (∀ fd ∈ e.1.uses, fd ∈ thread.held) ∧ thread'.held = opened thread.held e := by
  obtain ⟨w₂, hone, hrun₂⟩ := hrest.exists_prefix (show _ = [Act.thread i e] ++ acts₂ from rfl)
  obtain ⟨s, haccounts⟩ := accounts_of_path hrun₁ hfds hfresh.of_append
  obtain ⟨thread, thread', hi, hi', huses, hheld⟩ :=
    held_of_step haccounts (hfresh acts₁ _ acts₂ rfl) hone.of_single
  exact ⟨w₂, thread, thread', hrun₁.trans hone, hrun₂, hi, hi', huses, hheld⟩

/-- What a thread holds it goes on holding, until it is ended. -/
theorem held_of_path {passes : ℕ} {acts₁ acts₂ : List Act} {w₁ : World} {i : ℕ} {thread : Thread}
    {fd : ℤ} (hsocks : (servers.map Server.sock).Nodup)
    (hrun₁ : Path Step (start servers passes) acts₁ w₁) (hrun₂ : Path Step w₁ acts₂ w)
    (hi : w₁.threads[i]? = some thread) (hfd : fd ∈ thread.held)
    (hopen : ∀ a ∈ acts₂, a.ended ≠ some fd) :
    ∃ thread', w.threads[i]? = some thread' ∧ fd ∈ thread'.held := by
  obtain ⟨thread', hi', hclient⟩ := getElem?_of_path hrun₂ hi
  obtain ⟨_, hroster₁⟩ := roster_of_path hrun₁ hsocks
  obtain ⟨_, hroster₂⟩ := roster_of_path (hrun₁.trans hrun₂) hsocks
  refine ⟨thread', hi', ?_⟩
  rw [Thread.held, ← hroster₂.done i thread' hi', List.filterMap_append, hroster₁.done i thread hi,
    hclient]
  apply mem_openAfter_append hfd
  intro e he
  obtain ⟨a, ha, hae⟩ := List.mem_filterMap.mp he
  have hended := hopen a ha
  cases a with
  | server e' => cases hae
  | thread j e' =>
    rw [Act.of] at hae
    split_ifs at hae
    obtain rfl := Option.some.inj hae
    exact hended

/-- Threads at different places hold different descriptors. -/
theorem Accounts.disjoint_of_ne {s : Intake} {i j : ℕ} {thread thread' : Thread}
    (h : Accounts fds acts w s) (hnodup : (processDescriptors.heldAfter fds acts).Nodup)
    (hi : w.threads[i]? = some thread) (hj : w.threads[j]? = some thread') (hij : i ≠ j) :
    thread.held.Disjoint thread'.held := by
  have hpairwise := List.pairwise_iff_getElem.mp (h.disjoint hnodup).1
  obtain ⟨hlti, rfl⟩ := List.getElem?_eq_some_iff.mp hi
  obtain ⟨hltj, rfl⟩ := List.getElem?_eq_some_iff.mp hj
  rcases Nat.lt_or_gt_of_ne hij with hlt | hgt
  · exact hpairwise i j hlti hltj hlt
  · exact (hpairwise j i hltj hlti hgt).symm

/-- **Descriptors of different threads**: whatever the calls reply and in whatever order the threads
run, as long as the descriptors that are made are not open, the server's thread keeps to the
descriptors the process had before, the threads of the connections to others, and none of them uses
one of another thread before that has closed it. -/
theorem descriptors_apart {passes : ℕ} (hrun : Path Step (start servers passes) acts w)
    (hsocks : (servers.map Server.sock).Nodup) (hmem : ∀ server ∈ servers, server.sock ∈ fds)
    (hfds : fds.Nodup) (hfresh : processDescriptors.Fresh fds acts) : Apart fds acts := by
  refine ⟨(modest_of_path hrun hmem).2, ?_, ?_⟩
  · intro i e he fd hfd hown
    obtain ⟨acts₁, acts₂, rfl⟩ := List.append_of_mem he
    obtain ⟨w₁, hrun₁, hrest⟩ := hrun.exists_prefix rfl
    obtain ⟨_, thread, _, _, _, hi, _, huses, _⟩ := call_of_path hrun₁ hrest hfds hfresh
    obtain ⟨s, haccounts⟩ := accounts_of_path hrun₁ hfds hfresh.of_append
    have hdisjoint := haccounts.disjoint (Ledger.nodup_heldAfter hfds hfresh.of_append)
    exact hdisjoint.2 thread (List.mem_of_getElem? hi) (huses fd hfd) hown
  · rintro acts₁ i e acts₂ j e' acts₃ fd rfl hij hfd hfd'
    by_contra hnone
    push Not at hnone
    -- after its call the first thread holds the descriptor
    obtain ⟨w₁, hrun₁, hrest⟩ := hrun.exists_prefix rfl
    obtain ⟨w₂, thread, thread', hrun₂, hrest₂, hi, hi', huses, hheld⟩ :=
      call_of_path hrun₁ hrest hfds hfresh
    have hmine : fd ∈ thread'.held := by
      rw [hheld, opened, List.mem_append, List.mem_filter]
      rcases hfd with hfd | hfd
      · exact Or.inr ⟨huses fd hfd, decide_eq_true (hnone _ List.mem_cons_self)⟩
      · exact Or.inl (Option.mem_toList.mpr hfd)
    -- it still does when the second makes its own
    obtain ⟨w₃, hmid, hrest₃⟩ := hrest₂.exists_prefix rfl
    have hfresh₃ : processDescriptors.Fresh fds
        ((acts₁ ++ [Act.thread i e]) ++ acts₂ ++ .thread j e' :: acts₃) := by
      simpa using hfresh
    obtain ⟨mine, hmine₃, hfdmine⟩ := held_of_path hsocks hrun₂ hmid hi' hmine fun a ha =>
      hnone a (List.mem_cons_of_mem _ ha)
    obtain ⟨_, other, _, _, _, hj, _, huses', _⟩ :=
      call_of_path (hrun₂.trans hmid) hrest₃ hfds hfresh₃
    obtain ⟨s, haccounts⟩ := accounts_of_path (hrun₂.trans hmid) hfds hfresh₃.of_append
    exact haccounts.disjoint_of_ne (Ledger.nodup_heldAfter hfds hfresh₃.of_append) hmine₃ hj hij
      hfdmine (huses' fd hfd')

/-- A second visitor, who gets the descriptor of the first. -/
def successor : Client := { Client.visitor with cAddr := loopback 1026 }

/-- The visitor's server is not found, and the connection is closed; then somebody else comes. -/
def inTurn : List Act :=
  welcomed ++
    [.thread 0 ⟨.setsockopt 4 (.sndTimeo 30), ()⟩,
      .thread 0 ⟨.getaddrinfo (some (ascii "localhost")) (ascii "21"), .error (.other [])⟩,
      .thread 0 ⟨.calloc 21, false⟩,
      .thread 0 ⟨.close 4, ()⟩] ++ welcomed.take 1 ++
    [.server ⟨.accept 3, .ok (4, successor.cAddr)⟩,
      .server ⟨.sys (.calloc sizeofClient), true⟩,
      .server ⟨.pthreadCreate successor, true⟩,
      .thread 1 ⟨.setsockopt 4 (.sndTimeo 30), ()⟩]

/-- The first thread has returned, the second is about to look for its server. -/
theorem path_inTurn : ∃ w, Path Step (start [door] 2) inTurn w ∧ w.threads.length = 2 := by
  have hthread : ∀ (server : Daemon (Option Unit)) (before : List Thread) (client : Client)
      (done : List Event) (c : Syscall) (k : Reply c → Sys (Option Unit)) (reply : Reply c),
      Step ⟨server, before ++ [⟨client, done, .call c k⟩]⟩ (.thread before.length ⟨c, reply⟩)
        ⟨server, before ++ [⟨client, done ++ [⟨c, reply⟩], k reply⟩]⟩ :=
    fun _ _ _ _ _ _ reply => .thread reply
  refine ⟨_, .cons (.server _ 1) (.cons (.server _ 1) (.cons (.server _ 1) (.cons (.server _ 1)
    (.cons (hthread _ [] _ _ _ _ _) (.cons (hthread _ [] _ _ _ _ _) (.cons (hthread _ [] _ _ _ _ _)
    (.cons (hthread _ [] _ _ _ _ _) (.cons (.server _ 1) (.cons (.server _ 1) (.cons (.server _ 1)
    (.cons (.server _ 1) (.single (hthread _ [_] _ _ _ _ _))))))))))))), rfl⟩

/-- The descriptor they both use was closed in between. -/
theorem descriptors_apart_inTurn : Apart [0, 1, 2, 3] inTurn := by
  obtain ⟨w, hrun, -⟩ := path_inTurn
  exact descriptors_apart hrun (by decide) (by decide) (by decide) (by decide)

/-- Each of them has a thread of its own. -/
theorem threads_alone_inTurn : ∃ w : World,
    (w.threads.map Thread.client).Sublist (inTurn.filterMap (Act.visitor [door])) ∧
      ∀ i thread, w.threads[i]? = some thread →
        RunsAlone thread.client thread.rest.value (inTurn.filterMap (Act.of i)) := by
  obtain ⟨w, hrun, -⟩ := path_inTurn
  exact ⟨w, @threads_alone _ [0, 1, 2, 3] _ _ _ hrun (by decide) (by decide) (by decide)⟩

end World

end Ebbnc
