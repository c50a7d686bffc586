import Ebbnc.Server

/-!
# Accepting connections

What one call of `Server_accept` does when `select` reports some servers ready, as a function of
how `accept` goes on each of them.

* `Server.Outcomes` — how `accept` goes on each socket; `Server.reached` — the ready servers up to
  the first one on which it fails.
* `Server.acceptReady_runs` — the calls of `accept` and the clients launched, in every run.
* `Server.Undisturbed` — every ready server is served, as if the others were not there.
* **`Server.accept_undisturbed_iff`** — when that is so, and what it depends on whether a server is
  served.
-/

namespace Ebbnc

open Lib

/-- The socket `accept` is called on. -/
def ServerEvent.accepts : ServerEvent → Option ℤ
  | ⟨.accept fd, _⟩ => some fd
  | _ => none

namespace Server

/-- How `accept` goes on each socket. -/
abbrev Outcomes := ℤ → Except Errno (ℕ × SockaddrAny)

/-- In this run `accept` goes like this. -/
def Outcomes.Of (o : Outcomes) (t : List ServerEvent) : Prop :=
  ∀ fd reply, (⟨.accept fd, reply⟩ : ServerEvent) ∈ t → reply = o fd

/-- The client for a connection that is accepted on a server. -/
def client (o : Outcomes) (server : Server) : Option Client :=
  match o server.sock with
  | .error _ => none
  | .ok (sock, addr) => some (Client.ofServer server sock addr)

/-- The servers up to the first one on which `accept` fails. -/
def reached (o : Outcomes) : List Server → List Server
  | [] => []
  | server :: servers => server :: if (o server.sock).isOk then reached o servers else []

/-- Every ready server is served: `accept` is called once on each and on no other, and for each
connection that is accepted the thread of one client is started, with the bouncer and the config of
the server. -/
structure Undisturbed (o : Outcomes) (ready : List Server) (t : List ServerEvent) : Prop where
  accepts : t.filterMap ServerEvent.accepts = ready.map sock
  launches : t.flatMap ServerEvent.started = ready.filterMap (client o)

/-- The servers `select` reports ready. -/
def readyServers (ready : List ℤ) (servers : List Server) : List Server :=
  servers.filter fun server => server.sock ∈ ready

section reached

variable {o : Outcomes} {servers before after : List Server} {server : Server}

theorem prefix_reached : reached o servers <+: servers := by
  induction servers with
  | nil => exact List.prefix_rfl
  | cons server servers ih =>
      rw [reached]
      split_ifs with hok
      · exact (List.prefix_cons_inj server).mpr ih
      · exact ⟨servers, rfl⟩

/-- All servers are reached when `accept` fails on the last one at most. -/
theorem reached_eq_self_iff :
    reached o servers = servers ↔ ∀ server ∈ servers.dropLast, (o server.sock).isOk := by
  induction servers with
  | nil => simp [reached]
  | cons server servers ih =>
      cases servers with
      | nil => simp [reached]
      | cons next servers =>
          rw [reached, List.dropLast_cons_cons, List.forall_mem_cons, ← ih]
          by_cases hok : (o server.sock).isOk
          · simp [hok]
          · simp [hok]

/-- A server is reached when `accept` goes well on all servers before it. -/
theorem mem_reached_iff (hnodup : (before ++ server :: after).Nodup) :
    server ∈ reached o (before ++ server :: after) ↔ ∀ s ∈ before, (o s.sock).isOk := by
  induction before with
  | nil => simp [reached]
  | cons first before ih =>
      obtain ⟨hfirst, hnodup⟩ := List.nodup_cons.mp hnodup
      have hne : server ≠ first := fun heq => hfirst (heq ▸ by simp)
      rw [List.cons_append, reached, List.forall_mem_cons, ← ih hnodup, List.mem_cons]
      by_cases hok : (o first.sock).isOk
      · simp [hok, hne]
      · simp [hok, hne]

end reached

/-! ## Runs -/

section runs

variable {servers : List Server} {t : List ServerEvent}

/-- `Client_launch` calls nothing when there is no memory, and else asks for a thread. -/
theorem launch_runs {server : Server} {sock : ℤ} {addr : SockaddrAny}
    (ht : Program.Trace (Client.launch server sock addr) t (some ())) :
    t = [⟨.sys (.calloc sizeofClient), false⟩] ∨ ∃ okay, t = [⟨.sys (.calloc sizeofClient), true⟩,
      ⟨.pthreadCreate (Client.ofServer server sock addr), okay⟩] := by
  obtain ⟨memory, t₁, rfl, ht₁⟩ := Program.trace_call.mp ht
  cases memory with
  | false =>
      obtain ⟨rfl, -⟩ := Program.trace_pure.mp ht₁
      exact Or.inl rfl
  | true =>
      obtain ⟨okay, t₂, rfl, ht₂⟩ := Program.trace_call.mp ht₁
      obtain ⟨rfl, -⟩ := Program.trace_pure.mp ht₂
      exact Or.inr ⟨okay, rfl⟩

/-- What the second loop of `Server_accept` does: `accept` is called on the servers that are
reached, and every connection has the thread of its client unless `Client_new` gets no memory or
`pthread_create` fails. -/
structure Serves (o : Outcomes) (ready : List Server) (t : List ServerEvent) : Prop where
  accepts : t.filterMap ServerEvent.accepts = (reached o ready).map sock
  launches : t.countP ServerEvent.fails = 0 →
    t.flatMap ServerEvent.started = (reached o ready).filterMap (client o)
  length : (t.flatMap ServerEvent.started).length + t.countP ServerEvent.fails =
    ((reached o ready).filterMap (client o)).length

section serves

variable {o : Outcomes} {server : Server} {ready : List Server} {errno : Errno} {sock : ℕ}
  {addr : SockaddrAny} {es : List ServerEvent}

/-- `accept` fails, and the loop ends. -/
theorem Serves.refused (ho : o server.sock = .error errno) :
    Serves o (server :: ready) [⟨.accept server.sock, .error errno⟩] := by
  have hreached : reached o (server :: ready) = [server] := by
    rw [reached, ho]
    rfl
  have hclient : client o server = none := by
    rw [client, ho]
  refine ⟨?_, fun _ => ?_, ?_⟩
  · rw [hreached]
    rfl
  · rw [hreached, List.filterMap_cons_none hclient]
    rfl
  · rw [hreached, List.filterMap_cons_none hclient]
    rfl

/-- A launch starts the thread of the client, or one call of it fails. -/
theorem launch_started (ht : Program.Trace (Client.launch server sock addr) es (some ())) :
    es.filterMap ServerEvent.accepts = [] ∧
      (es.flatMap ServerEvent.started = [Client.ofServer server sock addr] ∧
          es.countP ServerEvent.fails = 0 ∨
        es.flatMap ServerEvent.started = [] ∧ es.countP ServerEvent.fails = 1) := by
  rcases launch_runs ht with rfl | ⟨okay, rfl⟩
  · exact ⟨rfl, Or.inr ⟨rfl, rfl⟩⟩
  · cases okay with
    | true => exact ⟨rfl, Or.inl ⟨rfl, rfl⟩⟩
    | false => exact ⟨rfl, Or.inr ⟨rfl, rfl⟩⟩

/-- `accept` goes well, and the loop goes on after the launch. -/
theorem Serves.accepted (ho : o server.sock = .ok (sock, addr))
    (hlaunch : Program.Trace (Client.launch server sock addr) es (some ()))
    (h : Serves o ready t) :
    Serves o (server :: ready) (⟨.accept server.sock, .ok (sock, addr)⟩ :: (es ++ t)) := by
  have hreached : reached o (server :: ready) = server :: reached o ready := by
    rw [reached, ho]
    rfl
  have hclient : client o server = some (Client.ofServer server sock addr) := by
    rw [client, ho]
  obtain ⟨haccepts, hstarted⟩ := launch_started hlaunch
  have hcalls : (⟨.accept server.sock, .ok (sock, addr)⟩ :: (es ++ t)).filterMap
      ServerEvent.accepts = server.sock :: (es.filterMap ServerEvent.accepts ++
        t.filterMap ServerEvent.accepts) := congrArg (server.sock :: ·) List.filterMap_append
  have hall : (⟨.accept server.sock, .ok (sock, addr)⟩ :: (es ++ t)).flatMap ServerEvent.started =
      es.flatMap ServerEvent.started ++ t.flatMap ServerEvent.started := List.flatMap_append
  have hcount : (⟨.accept server.sock, .ok (sock, addr)⟩ :: (es ++ t)).countP ServerEvent.fails =
      es.countP ServerEvent.fails + t.countP ServerEvent.fails := List.countP_append
  refine ⟨?_, ?_, ?_⟩
  · rw [hcalls, haccepts, List.nil_append, hreached, List.map_cons, h.accepts]
  · intro hnone
    rw [hcount] at hnone
    rw [hall, hreached, List.filterMap_cons_some hclient]
    rcases hstarted with ⟨hclients, -⟩ | ⟨-, hfails⟩
    · rw [hclients, h.launches (by omega), List.singleton_append]
    · omega
  · rw [hall, hcount, hreached, List.filterMap_cons_some hclient, List.length_cons, ← h.length,
      List.length_append]
    rcases hstarted with ⟨hclients, hfails⟩ | ⟨hclients, hfails⟩
    · rw [hclients, hfails, List.length_singleton]
      omega
    · rw [hclients, hfails, List.length_nil]
      omega

end serves

/-- The loop over the servers, in every run. -/
theorem acceptReady_runs {ready : List ℤ} {o : Outcomes} (ho : o.Of t)
    (ht : Program.Trace (acceptReady ready servers) t (some ())) :
    Serves o (readyServers ready servers) t := by
  induction servers generalizing t with
  | nil =>
      obtain ⟨rfl, -⟩ := Program.trace_pure.mp ht
      exact ⟨rfl, fun _ => rfl, rfl⟩
  | cons server servers ih =>
      rw [acceptReady] at ht
      by_cases hready : server.sock ∈ ready
      · have hservers : readyServers ready (server :: servers) =
            server :: readyServers ready servers := List.filter_cons_of_pos (by simpa using hready)
        rw [if_pos hready] at ht
        obtain ⟨reply, t₁, rfl, ht₁⟩ := Program.trace_call.mp ht
        have hreply := ho _ reply List.mem_cons_self
        cases reply with
        | error errno =>
            obtain ⟨rfl, -⟩ := Program.trace_pure.mp ht₁
            rw [hservers]
            exact .refused hreply.symm
        | ok connection =>
            obtain ⟨sock, addr⟩ := connection
            obtain ⟨_, t₂, t₃, rfl, hlaunch, ht₃⟩ := Program.trace_bind.mp ht₁
            have hrest := ih (fun fd reply h => ho fd reply (by simp [h])) ht₃
            rw [hservers]
            exact .accepted hreply.symm hlaunch hrest
      · have hservers : readyServers ready (server :: servers) = readyServers ready servers :=
          List.filter_cons_of_neg (by simpa using hready)
        rw [if_neg hready] at ht
        rw [hservers]
        exact ih ho ht

end runs

/-! ## Bouncers and their neighbours -/

section undisturbed

variable {servers : List Server} {t : List ServerEvent} {o : Outcomes}

/-- Every server is served when all are reached and no launch fails. -/
theorem Serves.undisturbed_iff {ready : List Server} (h : Serves o ready t) :
    Undisturbed o ready t ↔
      reached o ready = ready ∧ t.countP ServerEvent.fails = 0 := by
  constructor
  · intro hserved
    have hall : reached o ready = ready := by
      apply prefix_reached.eq_of_length
      have hsocks := congrArg List.length (h.accepts.symm.trans hserved.accepts)
      rwa [List.length_map, List.length_map] at hsocks
    refine ⟨hall, ?_⟩
    have hlength := h.length
    rw [hall, hserved.launches] at hlength
    omega
  · rintro ⟨hall, hfails⟩
    refine ⟨?_, ?_⟩
    · rw [h.accepts, hall]
    · rw [h.launches hfails, hall]

/-- What it depends on whether `accept` is called on a server: how it goes on the ready servers
before it. -/
theorem Serves.mem_accepts_iff {ready before after : List Server} {server : Server}
    (h : Serves o ready t) (hready : ready = before ++ server :: after)
    (hsocks : (ready.map sock).Nodup) :
    server.sock ∈ t.filterMap ServerEvent.accepts ↔ ∀ s ∈ before, (o s.sock).isOk := by
  subst hready
  rw [h.accepts, ← mem_reached_iff (List.Nodup.of_map sock hsocks)]
  constructor
  · intro hmem
    obtain ⟨server', hserver', heq⟩ := List.mem_map.mp hmem
    have hinj := List.inj_on_of_nodup_map hsocks (prefix_reached.subset hserver')
      (List.mem_append_right _ List.mem_cons_self) heq
    rwa [hinj] at hserver'
  · exact List.mem_map_of_mem

/-- **Bouncers and their neighbours**: one call of `Server_accept` serves every ready server just
when `accept` fails on the last of them at most, every `Client_new` gets its memory and every
`pthread_create` succeeds; and `accept` is called on a ready server just when it goes well on all
ready servers before it in the list. -/
theorem accept_undisturbed_iff {ready : { ready : List ℤ // ready ⊆ servers.map sock }}
    (ht : Program.Trace (accept servers)
      (⟨.select (maxSock servers + 1) (servers.map sock), .ok ready⟩ :: t) (some ()))
    (ho : o.Of t) (hsocks : (servers.map sock).Nodup) :
    (Undisturbed o (readyServers ready.1 servers) t ↔
      (∀ server ∈ (readyServers ready.1 servers).dropLast, (o server.sock).isOk) ∧
        ∀ e ∈ t, e.fails = false) ∧
    ∀ before server after, readyServers ready.1 servers = before ++ server :: after →
      (server.sock ∈ t.filterMap ServerEvent.accepts ↔ ∀ s ∈ before, (o s.sock).isOk) := by
  obtain ⟨reply, t', heq, hrest⟩ := Program.trace_call.mp ht
  obtain ⟨hevent, rfl⟩ := List.cons.inj heq
  obtain ⟨-, hreply⟩ := Sigma.mk.inj hevent
  obtain rfl := eq_of_heq hreply
  have hserves : Serves o (readyServers ready.1 servers) t := acceptReady_runs ho hrest
  refine ⟨?_, ?_⟩
  · rw [hserves.undisturbed_iff, reached_eq_self_iff, List.countP_eq_zero]
    simp
  · intro before server after hready
    exact hserves.mem_accepts_iff hready
      (hsocks.sublist (List.Sublist.map sock List.filter_sublist))

end undisturbed

/-- A visitor's address. -/
def visitorAddr : SockaddrAny := loopback 40000

/-- The bouncer to the second host, on a port of its own. -/
def neighbour : Bouncer :=
  { Client.visitor.bouncer with listenPort := 2122, remoteHost := some (ascii "10.0.0.2") }

/-- Two listening servers. -/
def neighbours : List Server :=
  [⟨3, loopback 2000, Client.visitor.config, Client.visitor.bouncer⟩,
    ⟨4, loopback 2122, Client.visitor.config, neighbour⟩]

/-- Connections are accepted on both. -/
def quiet : Outcomes := fun fd => if fd = 3 then .ok (7, visitorAddr) else .ok (8, visitorAddr)

/-- There are too many open files when the first one is accepted. -/
def crowded : Outcomes := fun fd => if fd = 3 then .error 24 else .ok (8, visitorAddr)

/-- The second loop of `Server_accept` when both are ready and all goes well. -/
def quietRun : List ServerEvent :=
  [⟨.accept 3, .ok (7, visitorAddr)⟩, ⟨.sys (.calloc sizeofClient), true⟩,
    ⟨.pthreadCreate ⟨7, visitorAddr, -1, Client.visitor.config, Client.visitor.bouncer⟩, true⟩,
    ⟨.accept 4, .ok (8, visitorAddr)⟩, ⟨.sys (.calloc sizeofClient), true⟩,
    ⟨.pthreadCreate ⟨8, visitorAddr, -1, Client.visitor.config, neighbour⟩, true⟩]

/-- Both are ready. -/
def bothReady : { ready : List ℤ // ready ⊆ neighbours.map sock } := ⟨[3, 4], by decide⟩

theorem trace_quietRun :
    Program.Trace (accept neighbours) (⟨.select 5 [3, 4], .ok bothReady⟩ :: quietRun)
      (some ()) := by
  unfold quietRun
  repeat refine .call _ ?_
  exact .ret _

/-- Both are served. -/
theorem accept_undisturbed_quiet :
    Undisturbed quiet (readyServers [3, 4] neighbours) quietRun := by
  have ho : quiet.Of quietRun := by
    intro fd reply h
    simp only [quietRun, List.mem_cons, List.not_mem_nil, or_false] at h
    rcases h with h | h | h | h | h | h <;> cases h <;> rfl
  have hall : ∀ e ∈ quietRun, e.fails = false := by decide
  exact (accept_undisturbed_iff trace_quietRun ho (by decide)).1.mpr ⟨by decide, hall⟩

/-- **The bouncer behind one that fails**: both servers are ready, `accept` fails on the first one,
and it is not called on the second one at all. -/
theorem not_undisturbed_crowded :
    Program.Trace (accept neighbours)
        [⟨.select 5 [3, 4], .ok bothReady⟩, ⟨.accept 3, .error 24⟩] (some ()) ∧
      crowded.Of [⟨.accept 3, .error 24⟩] ∧
      ¬ Undisturbed crowded (readyServers [3, 4] neighbours) [⟨.accept 3, .error 24⟩] := by
  refine ⟨?_, ?_, ?_⟩
  · repeat refine .call _ ?_
    exact .ret _
  · intro fd reply h
    cases List.mem_singleton.mp h
    rfl
  · intro h
    exact absurd h.accepts (by decide)

end Server

end Ebbnc
