import Ebbnc.Isolation

/-!
# Where the process connects to

A connection of the process goes to the server of the bouncer whose client it is for, or to the
ident server of that client's host; nobody else can make the process connect elsewhere.

* `Client.ToServer`, `Client.ToIdent` — what has to come before a connection of a thread.
* `Client.Told` — the calls with an address that a thread may make after others.
* `connect_heeds`, `identLookup_heeds`, `Client.threadMain_heeds` — the thread makes no others.
* `World.told_of_path` — nor does a thread of the process.
* **`World.connections_told`** — every connection of the process, in any interleaving.
-/

namespace Ebbnc

open Lib

/-- The port of a bouncer's server, as the resolver is asked for it.
Source: `misc.c` `hostPortToSockaddr`, the `snprintf` -/
def Bouncer.service (bouncer : Bouncer) : Bytes := (printInt (toInt bouncer.remotePort)).take 5

namespace Client

variable (client : Client)

/-- The connection to the server: the resolver gave this address for the bouncer, and the socket is
bound to the bouncer's local ip. -/
def ToServer (t : List Event) (fd : ℤ) (addr : SockaddrAny) : Prop :=
  t.filterMap Event.made = [fd] ∧
    (⟨.getaddrinfo client.bouncer.remoteHost client.bouncer.service, .ok addr⟩ : Event) ∈ t ∧
    ∀ ip ∈ client.bouncer.localIP, ∃ lAddr, ipPortToSockaddr ip 0 = some lAddr ∧
      (⟨.bind fd lAddr, .ok ()⟩ : Event) ∈ t

/-- The connection to the ident server: the address is that of the client's host. -/
def ToIdent (t : List Event) (fd : ℤ) (addr : SockaddrAny) : Prop :=
  (∃ r, t.filterMap Event.made = [r, fd]) ∧ ∃ peer,
    (⟨.getpeername client.cSock, .ok peer⟩ : Event) ∈ t ∧ peer.withPort identPort = some addr

/-- The calls with an address or a name that may be made. -/
def Told (t : List Event) : Event → Prop
  | ⟨.getaddrinfo host service, _⟩ =>
      host = client.bouncer.remoteHost ∧ service = client.bouncer.service
  | ⟨.bind fd addr, _⟩ =>
      t.filterMap Event.made = [fd] ∧
        ∃ ip ∈ client.bouncer.localIP, ipPortToSockaddr ip 0 = some addr
  | ⟨.connect fd addr, _⟩ => client.ToServer t fd addr ∨ client.ToIdent t fd addr
  | _ => True

end Client

/-- A call that makes no socket and has neither an address nor a name. -/
def Syscall.Local : Syscall → Prop
  | .getaddrinfo _ _ => False
  | .socket _ => False
  | .bind _ _ => False
  | .connect _ _ => False
  | _ => True

/-- The program connects only where it is told to. -/
abbrev Heeds {α : Type} (client : Client) (p : Sys α) (t : List Event)
    (Q : α → List Event → Prop) : Prop :=
  p.Sim (Program.Recorder client.Told) (fun _ _ => True) t Q

section heeds

variable {client : Client} {t : List Event} {α : Type}

/-- A local call makes no socket. -/
theorem Syscall.Local.made {c : Syscall} (hc : c.Local) (reply : Reply c) :
    Event.made ⟨c, reply⟩ = none := by
  cases c <;> first | rfl | exact hc.elim

/-- The sockets made up to a call. -/
theorem made_concat (t : List Event) (e : Event) :
    (t ++ [e]).filterMap Event.made = t.filterMap Event.made ++ e.made.toList := by
  cases h : e.made <;> simp [h]

/-- A local call may always be made. -/
theorem Syscall.Local.told {c : Syscall} (hc : c.Local) (reply : Reply c) :
    client.Told t ⟨c, reply⟩ := by
  cases c <;> trivial

/-- A program of local calls. -/
theorem Heeds.of_local {p : Sys α} (h : Program.Only Syscall.Local p) :
    Heeds client p t fun _ t' => t <+: t' ∧ t'.filterMap Event.made = t.filterMap Event.made := by
  induction p generalizing t with
  | ret a => exact ⟨List.prefix_refl t, rfl⟩
  | call c k ih =>
      intro reply _
      refine ⟨t ++ [⟨c, reply⟩], ⟨h.1.told reply, rfl⟩, (ih reply (h.2 reply)).mono ?_⟩
      rintro a t' ⟨hbefore, hmade⟩
      refine ⟨(List.prefix_append t _).trans hbefore, ?_⟩
      rw [hmade, made_concat, h.1.made reply]
      exact List.append_nil _

/-- The same where nothing follows. -/
theorem Heeds.of_local_last {p : Sys α} (h : Program.Only Syscall.Local p) :
    Heeds client p t fun _ _ => True := (Heeds.of_local h).mono fun _ _ _ => trivial

/-- A call that may be made, and what follows it. -/
theorem Heeds.call {c : Syscall} {f : Reply c → Sys α} {Q : α → List Event → Prop}
    (hc : ∀ reply, client.Told t ⟨c, reply⟩)
    (hf : ∀ reply, Heeds client (f reply) (t ++ [⟨c, reply⟩]) Q) :
    Heeds client (Ebbnc.call c >>= f) t Q :=
  Program.Sim.call fun reply _ => ⟨_, ⟨hc reply, rfl⟩, hf reply⟩

/-! ## Calls without an address -/

/-- The report of a failure, and the rest of what has no address. -/
theorem strPrintf_local (text : Bytes) : Program.Only Syscall.Local (strPrintf text) := by
  refine .call trivial fun okay => ?_
  cases okay <;> trivial

theorem errorReply_local (msg : Bytes) : Program.Only Syscall.Local (client.errorReply msg) := by
  refine (strPrintf_local _).bind fun buf => ?_
  cases buf with
  | none => trivial
  | some buf => exact .call trivial fun _ => trivial

theorem errnoReply_local (funclient : Bytes) (errno : Errno) :
    Program.Only Syscall.Local (client.errnoReply funclient errno) := by
  refine .call trivial fun errnoMsg => ?_
  refine (strPrintf_local _).bind fun msg => ?_
  cases msg with
  | none => trivial
  | some msg => exact errorReply_local msg

theorem writeErrorReply_local (timeoutMsg : Bytes) (errno : Errno) :
    Program.Only Syscall.Local (client.writeErrorReply timeoutMsg errno) := by
  unfold Client.writeErrorReply
  split
  · exact errorReply_local _
  · exact errnoReply_local _ _

theorem limitWrites_local (sock : ℤ) : Program.Only Syscall.Local (client.limitWrites sock) := by
  unfold Client.limitWrites
  split <;> first | exact .perform trivial | trivial

theorem writeAll_local (fd : ℤ) (buf : Bytes) :
    Program.Only Syscall.Local (Client.writeAll fd buf) := by
  refine .call trivial fun reply => ?_
  cases reply <;> trivial

theorem ipText_local : Program.Only Syscall.Local client.ipText := by
  unfold Client.ipText
  split
  · trivial
  · exact .call trivial fun _ => trivial

theorem hostname_local (ip : Bytes) : Program.Only Syscall.Local (client.hostname ip) := by
  unfold Client.hostname
  split
  · exact .call trivial fun _ => trivial
  · trivial

theorem welcome_local : Program.Only Syscall.Local client.welcome := by
  unfold Client.welcome
  split
  · trivial
  · refine (strPrintf_local _).bind fun buf => ?_
    cases buf with
    | none => trivial
    | some buf => exact writeAll_local _ _

theorem relayClient_local (ready : Bool) :
    Program.Only Syscall.Local (client.relayClient ready) := by
  cases ready with
  | false => trivial
  | true =>
  refine .call trivial fun reply => ?_
  cases reply with
  | error _ => trivial
  | ok chunk =>
  dsimp only
  split
  · trivial
  · refine .call trivial fun reply => ?_
    cases reply with
    | error errno => exact (writeErrorReply_local _ _).bind fun _ => trivial
    | ok len =>
      dsimp only
      split
      · exact (errorReply_local _).bind fun _ => trivial
      · trivial

theorem relayServer_local (ready : Bool) :
    Program.Only Syscall.Local (client.relayServer ready) := by
  cases ready with
  | false => trivial
  | true =>
  refine .call trivial fun reply => ?_
  cases reply with
  | error errno => exact (errnoReply_local _ _).bind fun _ => trivial
  | ok chunk =>
  dsimp only
  split
  · exact (errorReply_local _).bind fun _ => trivial
  · refine .call trivial fun reply => ?_
    cases reply with
    | error errno => exact (writeErrorReply_local _ _).bind fun _ => trivial
    | ok _ => trivial

theorem relayPass_local : Program.Only Syscall.Local client.relayPass := by
  refine .call trivial fun reply => ?_
  cases reply with
  | error errno => exact (errnoReply_local _ _).bind fun _ => trivial
  | ok revents =>
  dsimp only
  split
  · exact (errorReply_local _).bind fun _ => trivial
  · refine (relayClient_local _).bind fun more => ?_
    cases more with
    | true => exact relayServer_local _
    | false => trivial

end heeds

/-! ## The thread -/

section thread

variable {client : Client} {t : List Event}

/-- The end of a thread. -/
theorem free_local : Program.Only Syscall.Local client.free := by
  have hclose : ∀ sock : ℤ, Program.Only Syscall.Local (Client.closeSocket sock) := by
    intro sock
    unfold Client.closeSocket
    split <;> first | exact .perform trivial | trivial
  exact (hclose _).bind fun _ => hclose _

/-- The relay has the sockets it needs. -/
theorem relay_local (passes : ℕ) : Program.Only Syscall.Local (client.relay passes) := by
  unfold Client.relay
  induction passes with
  | zero => trivial
  | succ passes ih =>
    refine relayPass_local.bind fun more => ?_
    cases more with
    | true => exact ih
    | false => trivial

/-- The socket is bound to the local ip, where there is one. -/
theorem bindLocal_heeds (hmade : t.filterMap Event.made = [client.rSock]) :
    Heeds client client.bindLocal t fun okay t' =>
      t <+: t' ∧ t'.filterMap Event.made = [client.rSock] ∧
        (okay = true → ∀ ip ∈ client.bouncer.localIP, ∃ lAddr, ipPortToSockaddr ip 0 = some lAddr ∧
          (⟨.bind client.rSock lAddr, .ok ()⟩ : Event) ∈ t') := by
  unfold Client.bindLocal
  cases hip : client.bouncer.localIP with
  | none => exact ⟨List.prefix_refl t, hmade, fun _ => nofun⟩
  | some localIP =>
  dsimp only
  cases haddr : ipPortToSockaddr localIP 0 with
  | none =>
    apply (Heeds.of_local (errorReply_local _)).bind
    rintro _ t' ⟨hbefore, hsame⟩
    exact ⟨hbefore, hsame.trans hmade, nofun⟩
  | some lAddr =>
  refine Heeds.call (fun _ => ⟨hmade, localIP, hip, haddr⟩) fun reply => ?_
  have hmade' := (made_concat t ⟨.bind client.rSock lAddr, reply⟩).trans (congrArg (· ++ []) hmade)
  cases reply with
  | error errno =>
    apply (Heeds.of_local (errnoReply_local _ _)).bind
    rintro _ t' ⟨hbefore, hsame⟩
    exact ⟨(List.prefix_append t _).trans hbefore, hsame.trans hmade', nofun⟩
  | ok _ =>
    refine ⟨List.prefix_append t _, hmade', ?_⟩
    rintro _ ip ⟨⟩
    exact ⟨lAddr, haddr, List.mem_append_right _ List.mem_cons_self⟩

/-- From the socket options on. -/
theorem connectSocket_heeds {rAddr : SockaddrAny}
    (hmade : t.filterMap Event.made = [client.rSock])
    (hresolved : (⟨.getaddrinfo client.bouncer.remoteHost client.bouncer.service, .ok rAddr⟩ :
      Event) ∈ t) :
    Heeds client (client.connectSocket rAddr) t fun _ t' =>
      t'.filterMap Event.made = [client.rSock] := by
  apply (Heeds.of_local (limitWrites_local _)).bind
  rintro _ t₁ ⟨hbefore₁, hmade₁⟩
  have hoption : Program.Only Syscall.Local (call (.setsockopt client.rSock .nodelay)) :=
    .perform trivial
  apply (Heeds.of_local hoption).bind
  rintro _ t₂ ⟨hbefore₂, hmade₂⟩
  apply (bindLocal_heeds (hmade₂.trans (hmade₁.trans hmade))).bind
  rintro okay t₃ ⟨hbefore₃, hmade₃, hbound⟩
  cases okay with
  | false => exact hmade₃
  | true =>
  have hresolved₃ := (hbefore₁.trans (hbefore₂.trans hbefore₃)).subset hresolved
  have hserver : client.ToServer t₃ client.rSock rAddr := ⟨hmade₃, hresolved₃, hbound rfl⟩
  refine Heeds.call (fun _ => Or.inl hserver) fun reply => ?_
  have hmade₄ := (made_concat t₃ ⟨.connect client.rSock rAddr, reply⟩).trans
    (congrArg (· ++ []) hmade₃)
  cases reply with
  | error errno =>
    apply (Heeds.of_local (errnoReply_local _ _)).bind
    rintro _ t₅ ⟨-, hmade₅⟩
    exact hmade₅.trans hmade₄
  | ok _ => exact hmade₄

/-- What a connection tells of itself does not depend on its socket for the server. -/
theorem Client.told_rSock (r : ℤ) : ({ client with rSock := r } : Client).Told = client.Told := rfl

/-- **The connection to the server** goes where the resolver says that the bouncer's is. -/
theorem connect_heeds (hmade : t.filterMap Event.made = []) :
    Heeds client client.connect t fun result t' =>
      (∃ r, result.2 = { client with rSock := r }) ∧
        (result.1 = true → t'.filterMap Event.made = [result.2.rSock]) := by
  refine Heeds.call (fun _ => ⟨rfl, rfl⟩) fun reply => ?_
  cases reply with
  | error err =>
    cases err with
    | system errno =>
      apply (Heeds.of_local (errnoReply_local _ _)).bind
      exact fun _ _ _ => ⟨⟨client.rSock, rfl⟩, nofun⟩
    | other errmsg =>
      apply (Heeds.of_local (strPrintf_local _)).bind
      intro msg _ _
      cases msg with
      | none => exact ⟨⟨client.rSock, rfl⟩, nofun⟩
      | some msg =>
        apply (Heeds.of_local (errorReply_local _)).bind
        exact fun _ _ _ => ⟨⟨client.rSock, rfl⟩, nofun⟩
  | ok rAddr =>
  refine Heeds.call (fun _ => trivial) fun reply => ?_
  cases reply with
  | error errno =>
    apply (Heeds.of_local (errnoReply_local _ _)).bind
    exact fun _ _ _ => ⟨⟨client.rSock, rfl⟩, nofun⟩
  | ok rSock =>
  generalize hresolved :
    (⟨.getaddrinfo client.bouncer.remoteHost client.bouncer.service, .ok rAddr⟩ : Event) = resolved
  have hmade' (e : Event) (he : e.made = some (rSock : ℤ)) :
      (t ++ [resolved] ++ [e]).filterMap Event.made = [(rSock : ℤ)] := by
    rw [made_concat, made_concat, hmade, ← hresolved, he]
    rfl
  have hmem (e : Event) : resolved ∈ t ++ [resolved] ++ [e] := by simp
  have hsocket := @connectSocket_heeds { client with rSock } _ rAddr
    (hmade' ⟨.socket rAddr.family, .ok rSock⟩ rfl) (hresolved ▸ hmem _)
  subst hresolved
  refine Program.Sim.bind hsocket fun okay t' hmade'' => ?_
  exact ⟨⟨rSock, rfl⟩, fun _ => hmade''⟩

/-- **The ident lookup** goes to the host of the client. -/
theorem identLookup_heeds (timeout : ℤ) {r : ℤ} (hmade : t.filterMap Event.made = [r]) :
    Heeds client (identLookup client.cSock timeout) t fun _ _ => True := by
  refine Heeds.call (fun _ => trivial) fun reply => ?_
  cases reply with
  | error _ => trivial
  | ok peerAddr =>
  refine Heeds.call (fun _ => trivial) fun reply => ?_
  cases reply with
  | error _ => trivial
  | ok localAddr =>
  dsimp only
  cases haddr : peerAddr.withPort identPort with
  | none => trivial
  | some addr =>
  refine Heeds.call (fun _ => trivial) fun reply => ?_
  cases reply with
  | error _ => trivial
  | ok identSock =>
  refine Heeds.call (fun _ => trivial) fun _ => Heeds.call (fun _ => trivial) fun _ => ?_
  have hident : ∀ events : List Event, events.filterMap Event.made = [(identSock : ℤ)] →
      client.ToIdent (t ++ [(⟨.getpeername client.cSock, .ok peerAddr⟩ : Event)] ++ events)
        identSock addr := by
    intro events hevents
    refine ⟨⟨r, ?_⟩, peerAddr, ?_, haddr⟩
    · rw [List.filterMap_append, List.filterMap_append, hmade, hevents]
      rfl
    · exact List.mem_append_left _ (List.mem_append_right _ List.mem_cons_self)
  refine Heeds.call (fun _ => Or.inr ?_) fun reply => ?_
  · simp only [List.append_assoc]
    simpa only [List.append_assoc] using hident _ rfl
  refine Heeds.of_local_last ?_
  cases reply with
  | error _ => exact .call trivial fun _ => trivial
  | ok _ =>
  refine .call trivial fun stream => ?_
  cases stream with
  | false => exact .call trivial fun _ => trivial
  | true =>
  refine .call trivial fun asked => ?_
  cases asked with
  | false => exact .call trivial fun _ => trivial
  | true =>
  refine .call trivial fun reply => .call trivial fun _ => ?_
  cases scanReply reply with
  | none => trivial
  | some parts =>
    dsimp only
    split <;> trivial

/-- The greeting for the server, where one is sent. -/
theorem sendIdnt_heeds {r : ℤ} (hmade : t.filterMap Event.made = [r]) :
    Heeds client client.sendIdnt t fun _ _ => True := by
  unfold Client.sendIdnt
  split
  · refine Heeds.call (fun _ => trivial) fun reply => ?_
    have hmade' := (made_concat t ⟨.getsockname client.cSock, reply⟩).trans
      (congrArg (· ++ []) hmade)
    cases reply with
    | error _ => trivial
    | ok _ =>
    refine (identLookup_heeds client.config.identTimeout hmade').bind fun user t' _ => ?_
    refine Heeds.of_local_last ?_
    refine ipText_local.bind fun ip => (hostname_local ip).bind fun hostname => ?_
    refine (strPrintf_local _).bind fun buf => ?_
    cases buf with
    | none => trivial
    | some buf => exact writeAll_local _ _
  · trivial

/-- **The thread** connects only where it is told to. -/
theorem Client.threadMain_heeds (passes : ℕ) :
    Heeds client (client.threadMain passes) [] fun _ _ => True := by
  apply (Heeds.of_local (limitWrites_local _)).bind
  rintro _ t ⟨-, hmade⟩
  apply (connect_heeds hmade).bind
  rintro ⟨okay, client'⟩ t' ⟨⟨r, hclient⟩, hmade'⟩
  obtain rfl : client' = { client with rSock := r } := hclient
  have hsession : Heeds client (Client.session { client with rSock := r } okay passes) t'
      fun _ _ => True := by
    unfold Client.session
    cases okay with
    | false => trivial
    | true =>
    have hidnt := @sendIdnt_heeds { client with rSock := r } _ r (hmade' rfl)
    refine Program.Sim.bind hidnt fun greeted t'' _ => ?_
    refine Heeds.of_local_last ?_
    cases greeted with
    | false => trivial
    | true =>
    refine welcome_local.bind fun welcomed => ?_
    cases welcomed with
    | false => trivial
    | true => exact relay_local passes
  refine hsession.bind fun result t'' _ => Heeds.of_local_last ?_
  cases result with
  | none => trivial
  | some _ => exact free_local.bind fun _ => trivial

end thread

/-! ## The process -/

namespace World

variable {servers : List Server} {acts : List Act} {w : World}

/-- The visitors are the clients of the connections that are accepted. -/
theorem visitor_eq_some {a : Act} {client : Client} (h : a.visitor servers = some client) :
    ∃ server ∈ servers, ∃ sock addr, a = .server ⟨.accept server.sock, .ok (sock, addr)⟩ ∧
      client = Client.ofServer server sock addr := by
  cases a with
  | thread i e => cases h
  | server e =>
    obtain ⟨c, reply⟩ := e
    cases c with
    | accept fd =>
      cases reply with
      | error errno => cases h
      | ok connection =>
        obtain ⟨sock, addr⟩ := connection
        obtain ⟨server, hfind, rfl⟩ := Option.map_eq_some_iff.mp h
        have hsock : server.sock = fd := by simpa using List.find?_some hfind
        subst hsock
        exact ⟨server, List.mem_of_find?_eq_some hfind, sock, addr, rfl, rfl⟩
    | _ => cases h

/-- A thread that makes a call is that of a connection that was accepted, and the call is one it may
make after its others. -/
theorem told_of_path {passes : ℕ} (hsocks : (servers.map Server.sock).Nodup)
    {acts₁ acts₂ : List Act} {i : ℕ} {e : Event}
    (hrun : Path Step (start servers passes) (acts₁ ++ .thread i e :: acts₂) w) :
    ∃ server ∈ servers, ∃ sock addr, Act.server ⟨.accept server.sock, .ok (sock, addr)⟩ ∈ acts₁ ∧
      (Client.ofServer server sock addr).Told (acts₁.filterMap (Act.of i)) e := by
  obtain ⟨w₁, hrun₁, hrest⟩ := hrun.exists_prefix rfl
  obtain ⟨w₂, hone, -⟩ := hrest.exists_prefix (show _ = [Act.thread i e] ++ acts₂ from rfl)
  obtain ⟨s₁, hroster₁⟩ := roster_of_path hrun₁ hsocks
  obtain ⟨s₂, hroster₂⟩ := roster_of_path (hrun₁.trans hone) hsocks
  obtain ⟨thread, thread', hi, hi', hclient⟩ : ∃ thread thread', w₁.threads[i]? = some thread ∧
      w₂.threads[i]? = some thread' ∧ thread'.client = thread.client := by
    cases hone.of_single with
    | @thread server before after client done c k reply =>
      exact ⟨⟨client, done, .call c k⟩, ⟨client, done ++ [⟨c, reply⟩], k reply⟩, by simp, by simp,
        rfl⟩
  have hmem : thread.client ∈ acts₁.filterMap (Act.visitor servers) :=
    hroster₁.clients.subset (List.mem_append_left _
      (List.mem_map_of_mem (List.mem_of_getElem? hi)))
  obtain ⟨a, ha, hvisitor⟩ := List.mem_filterMap.mp hmem
  obtain ⟨server, hserver, sock, addr, rfl, hof⟩ := visitor_eq_some hvisitor
  refine ⟨server, hserver, sock, addr, ha, ?_⟩
  obtain ⟨passes', hpath⟩ := hroster₂.alone thread' (List.mem_of_getElem? hi')
  have halong := (Client.threadMain_heeds passes').along (Program.Trace.of_path hpath)
  rw [hclient, hof, ← hroster₂.done i thread' hi', List.filterMap_append] at halong
  have hone : [Act.thread i e].filterMap (Act.of i) = [e] := by simp [Act.of]
  rw [hone] at halong
  exact (along_concat.mp halong).2

/-- **Every connection of the process**, in whatever order the threads run and whatever the calls
reply: it is made for a connection that one of the servers accepted before, and goes to an address
the resolver gave for that server's bouncer, from its local ip where it has one, or to the ident
port of the host of the client. -/
theorem connections_told {passes : ℕ} (hrun : Path Step (start servers passes) acts w)
    (hsocks : (servers.map Server.sock).Nodup) {acts₁ acts₂ : List Act} {i : ℕ} {fd : ℤ}
    {addr : SockaddrAny} {reply : Reply (.connect fd addr)}
    (hacts : acts = acts₁ ++ .thread i ⟨.connect fd addr, reply⟩ :: acts₂) :
    ∃ server ∈ servers, ∃ sock cAddr,
      Act.server ⟨.accept server.sock, .ok (sock, cAddr)⟩ ∈ acts₁ ∧
      ((Client.ofServer server sock cAddr).ToServer (acts₁.filterMap (Act.of i)) fd addr ∨
        (Client.ofServer server sock cAddr).ToIdent (acts₁.filterMap (Act.of i)) fd addr) := by
  subst hacts
  exact told_of_path hsocks hrun

/-- The visitor's thread, before it connects. -/
def resolving : List Act :=
  welcomed ++
    [.thread 0 ⟨.setsockopt 4 (.sndTimeo 30), ()⟩,
      .thread 0 ⟨.getaddrinfo (some (ascii "localhost")) (ascii "21"), .ok (loopback 21)⟩,
      .thread 0 ⟨.socket 2, .ok 5⟩,
      .thread 0 ⟨.setsockopt 5 (.sndTimeo 30), ()⟩,
      .thread 0 ⟨.setsockopt 5 .nodelay, ()⟩,
      .thread 0 ⟨.bind 5 (loopback 0), .ok ()⟩]

/-- It connects to the server. -/
theorem path_resolving : ∃ w, Path Step (start [door] 1)
    (resolving ++ [.thread 0 ⟨.connect 5 (loopback 21), .ok ()⟩]) w := by
  have hthread : ∀ (server : Daemon (Option Unit)) (client : Client) (done : List Event)
      (c : Syscall) (k : Reply c → Sys (Option Unit)) (reply : Reply c),
      Step ⟨server, [⟨client, done, .call c k⟩]⟩ (.thread 0 ⟨c, reply⟩)
        ⟨server, [⟨client, done ++ [⟨c, reply⟩], k reply⟩]⟩ :=
    fun _ _ _ _ _ reply => @Step.thread _ [] [] _ _ _ _ reply
  refine ⟨_, path_welcomed.trans (.cons (hthread _ _ _ _ _ _) (.cons (hthread _ _ _ _ _ _)
    (.cons (hthread _ _ _ _ _ _) (.cons (hthread _ _ _ _ _ _) (.cons (hthread _ _ _ _ _ _)
    (.cons (hthread _ _ _ _ _ _) (.single (hthread _ _ _ _ _ _))))))))⟩

/-- The connection is the one the visitor's bouncer is for. -/
theorem connections_told_resolving : ∃ server ∈ [door], ∃ sock cAddr,
    Act.server ⟨.accept server.sock, .ok (sock, cAddr)⟩ ∈ resolving ∧
    ((Client.ofServer server sock cAddr).ToServer (resolving.filterMap (Act.of 0)) 5 (loopback 21) ∨
      (Client.ofServer server sock cAddr).ToIdent (resolving.filterMap (Act.of 0)) 5
        (loopback 21)) := by
  obtain ⟨w, hrun⟩ := path_resolving
  exact connections_told hrun (by decide) rfl

end World

end Ebbnc
