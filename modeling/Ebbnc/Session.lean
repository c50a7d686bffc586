import Ebbnc.Client

/-!
# What a session does

The client thread as a state machine: what it has done so far, as far as the two connections are
concerned, and what it may do next. Calls that concern neither are possible at any time.

* `Phase` — how far a session has come; **`Phase.Step`** — everything that can happen next.
* `Session`, `Session.Step` — the same with the descriptors that are open.
* `errorReply_follows`, …, `relayPass_follows` — each part of the thread follows the machine.
* **`Client.exists_session`** — so does every run of the thread, whatever the calls reply.
-/

namespace Ebbnc

open Lib

/-- How far a session has come: with a socket the phases carry it, and past the identity line the
bytes that were sent as such. -/
inductive Phase
  /-- There is no socket for the server. -/
  | opening
  /-- There is a socket, which is not connected. -/
  | opened (r : ℤ)
  /-- The identity line has to be sent. -/
  | connected (r : ℤ)
  /-- The welcome message has to be sent. -/
  | greeting (r : ℤ) (idnt : Bytes)
  /-- At the top of the relay, or about to look at the server. -/
  | relaying (r : ℤ) (idnt : Bytes)
  /-- These bytes were read from the client. -/
  | forwarding (r : ℤ) (idnt chunk : Bytes)
  /-- These bytes were read from the server. -/
  | returning (r : ℤ) (idnt chunk : Bytes)
  /-- A write to the client failed, and a reply may be sent before the relay goes on. -/
  | excusing (r : ℤ) (idnt : Bytes)
  /-- The session is over, and a reply may be sent. -/
  | ending (server : Option ℤ)
  /-- The session is over, and the sockets are closed. -/
  | closing (server : Option ℤ)
  deriving DecidableEq

namespace Phase

/-- The socket for the server. -/
def server : Phase → Option ℤ
  | opening => none
  | opened r => some r
  | connected r => some r
  | greeting r _ => some r
  | relaying r _ => some r
  | forwarding r _ _ => some r
  | returning r _ _ => some r
  | excusing r _ => some r
  | ending server => server
  | closing server => server

/-- Nothing was read that has to be written at once. -/
def Calm : Phase → Prop
  | forwarding _ _ _ => False
  | returning _ _ _ => False
  | _ => True

/-- A reply may be sent. -/
def Replying : Phase → Prop
  | excusing _ _ => True
  | ending _ => True
  | _ => False

/-- The session is over. -/
def Over : Phase → Prop
  | ending _ => True
  | closing _ => True
  | _ => False

/-- Where the session goes when it does not do what its phase is for. -/
def leave : Phase → Phase
  | opening => ending none
  | opened r => ending (some r)
  | connected r => closing (some r)
  | greeting r _ => closing (some r)
  | relaying r _ => ending (some r)
  | excusing r idnt => relaying r idnt
  | ending server => closing server
  | p => p

end Phase

namespace Phase

section step

variable (cSock : ℤ) (config : Config)

/-- The phase past the identity line. -/
def afterIdnt (r : ℤ) (idnt : Bytes) : Phase :=
  if config.welcomeMsg = none then relaying r idnt else greeting r idnt

/-- The phase past the connection to the server. -/
def afterConnect (r : ℤ) : Phase := if config.idnt then connected r else afterIdnt config r []

/-- A call that concerns neither connection: it makes no descriptor before there is a socket for
the server, and the one it touches, if any, is neither that nor the client's. -/
structure Aside (p : Phase) (e : Event) : Prop where
  calm : p.Calm
  touched : ∀ fd ∈ e.touched, ∃ r, p.server = some r ∧ fd ≠ cSock ∧ fd ≠ r
  made : p.server = none → e.made = none

/-- What can happen next. -/
inductive Step : Phase → Event → Phase → Prop
  | aside {p : Phase} {e : Event} (h : p.Aside cSock e) : Step p e p
  | leave {p : Phase} {e : Event} (h : p.Aside cSock e) : Step p e p.leave
  | socket {family fd : ℕ} (h : (fd : ℤ) ≠ cSock) :
      Step opening ⟨.socket family, .ok fd⟩ (opened fd)
  | connect {r : ℤ} {addr : SockaddrAny} :
      Step (opened r) ⟨.connect r addr, .ok ()⟩ (afterConnect config r)
  | idnt {r : ℤ} {user ip hostname : Bytes} {reply}
      (h : Event.Complete ⟨.write r (Client.idntLine user ip hostname), reply⟩) :
      Step (connected r) ⟨.write r (Client.idntLine user ip hostname), reply⟩
        (afterIdnt config r (Client.idntLine user ip hostname))
  | idntFailed {r : ℤ} {user ip hostname : Bytes} {reply}
      (h : ¬ Event.Complete ⟨.write r (Client.idntLine user ip hostname), reply⟩) :
      Step (connected r) ⟨.write r (Client.idntLine user ip hostname), reply⟩ (closing (some r))
  | welcome {r : ℤ} {idnt msg : Bytes} {reply} (hmsg : config.welcomeMsg = some msg)
      (h : Event.Complete ⟨.write cSock (Client.welcomeLine msg), reply⟩) :
      Step (greeting r idnt) ⟨.write cSock (Client.welcomeLine msg), reply⟩ (relaying r idnt)
  | welcomeFailed {r : ℤ} {idnt msg : Bytes} {reply} (hmsg : config.welcomeMsg = some msg)
      (h : ¬ Event.Complete ⟨.write cSock (Client.welcomeLine msg), reply⟩) :
      Step (greeting r idnt) ⟨.write cSock (Client.welcomeLine msg), reply⟩ (closing (some r))
  | readClient {r : ℤ} {idnt : Bytes} {size : ℕ} {chunk} (h : chunk.1 ≠ []) :
      Step (relaying r idnt) ⟨.read cSock size, .ok chunk⟩ (forwarding r idnt chunk.1)
  | endClient {r : ℤ} {idnt : Bytes} {size : ℕ} {reply}
      (h : Event.got cSock ⟨.read cSock size, reply⟩ = []) :
      Step (relaying r idnt) ⟨.read cSock size, reply⟩ (ending (some r))
  | forward {r : ℤ} {idnt chunk : Bytes} {reply} (h : Event.Complete ⟨.write r chunk, reply⟩) :
      Step (forwarding r idnt chunk) ⟨.write r chunk, reply⟩ (relaying r idnt)
  | forwardFailed {r : ℤ} {idnt chunk : Bytes} {reply}
      (h : ¬ Event.Complete ⟨.write r chunk, reply⟩) :
      Step (forwarding r idnt chunk) ⟨.write r chunk, reply⟩ (ending (some r))
  | readServer {r : ℤ} {idnt : Bytes} {size : ℕ} {chunk} (h : chunk.1 ≠ []) :
      Step (relaying r idnt) ⟨.read r size, .ok chunk⟩ (returning r idnt chunk.1)
  | endServer {r : ℤ} {idnt : Bytes} {size : ℕ} {reply}
      (h : Event.got r ⟨.read r size, reply⟩ = []) :
      Step (relaying r idnt) ⟨.read r size, reply⟩ (ending (some r))
  | giveBack {r : ℤ} {idnt chunk : Bytes} {n} :
      Step (returning r idnt chunk) ⟨.write cSock chunk, .ok n⟩ (relaying r idnt)
  | giveBackFailed {r : ℤ} {idnt chunk : Bytes} {errno : Errno} :
      Step (returning r idnt chunk) ⟨.write cSock chunk, .error errno⟩ (excusing r idnt)
  | reply {p : Phase} {msg : Bytes} {reply} (h : p.Replying) :
      Step p ⟨.write cSock (Client.errorLine msg), reply⟩ p.leave
  | close {p : Phase} {fd : ℤ} (h : p.Over) : Step p ⟨.close fd, ()⟩ (closing p.server)

end step

end Phase

/-- A phase, and the descriptors that are open. -/
structure Session where
  phase : Phase
  fds : List ℤ

namespace Session

/-- What can happen next, with the descriptors. -/
def Step (client : Client) (s : Session) (e : Event) (s' : Session) : Prop :=
  Phase.Step client.cSock client.config s.phase e s'.phase ∧ s'.fds = opened s.fds e

/-- A descriptor that is made is not open. -/
def Law (s : Session) (e : Event) : Prop := ∀ fd ∈ e.made, fd ∉ s.fds

/-- The session as the thread finds it. -/
def start (client : Client) : Session := ⟨.opening, [client.cSock]⟩

end Session

/-- The program does what the session can do. -/
abbrev Follows {α : Type} (client : Client) (p : Sys α) (s : Session) (Q : α → Session → Prop) :
    Prop :=
  p.Sim (Session.Step client) Session.Law s Q

section follows

variable {client : Client} {p : Phase} {fds : List ℤ} {α : Type} {Q : α → Session → Prop}

/-! ## Calls that concern neither connection -/

/-- The calls that neither touch a descriptor nor make or end one. -/
def Syscall.Quiet : Syscall → Prop
  | .calloc _ => True
  | .strerror _ => True
  | .unwritten => True
  | .getaddrinfo _ _ => True
  | .getnameinfo _ => True
  | .setsockopt _ _ => True
  | .bind _ _ => True
  | .getsockname _ => True
  | .getpeername _ => True
  | .poll _ _ _ => True
  | .fdopen _ => True
  | _ => False

/-- A quiet call is possible at any calm time. -/
theorem Syscall.Quiet.aside {c : Syscall} (hc : c.Quiet) (hp : p.Calm) (reply : Reply c) :
    p.Aside client.cSock ⟨c, reply⟩ where
  calm := hp
  touched := by
    have htouched : Event.touched ⟨c, reply⟩ = none := by cases c <;> first | rfl | exact hc.elim
    simp [htouched]
  made := by cases c <;> first | exact fun _ => rfl | exact hc.elim

/-- A quiet call leaves the open descriptors alone. -/
theorem Syscall.Quiet.opened {c : Syscall} (hc : c.Quiet) (fds : List ℤ) (reply : Reply c) :
    opened fds ⟨c, reply⟩ = fds := by
  apply opened_of_none
  · cases c <;> first | rfl | exact hc.elim
  · cases c <;> first | rfl | exact hc.elim

/-- A call that is a step of the session, which the program goes on to follow. -/
theorem Follows.step {c : Syscall} {f : Reply c → Sys α}
    (h : ∀ reply, Session.Law ⟨p, fds⟩ ⟨c, reply⟩ →
      ∃ p', Phase.Step client.cSock client.config p ⟨c, reply⟩ p' ∧
        Follows client (f reply) ⟨p', opened fds ⟨c, reply⟩⟩ Q) :
    Follows client (call c >>= f) ⟨p, fds⟩ Q := by
  apply Program.Sim.call
  intro reply hlaw
  obtain ⟨p', hstep, hf⟩ := h reply hlaw
  exact ⟨⟨p', opened fds ⟨c, reply⟩⟩, ⟨hstep, rfl⟩, hf⟩

/-- A call that neither makes nor ends a descriptor, whatever it replies. -/
theorem Follows.use {c : Syscall} {f : Reply c → Sys α}
    (hmade : ∀ reply, Event.made ⟨c, reply⟩ = none)
    (hended : ∀ reply, Event.ended ⟨c, reply⟩ = none)
    (h : ∀ reply, ∃ p', Phase.Step client.cSock client.config p ⟨c, reply⟩ p' ∧
      Follows client (f reply) ⟨p', fds⟩ Q) :
    Follows client (call c >>= f) ⟨p, fds⟩ Q := by
  apply Follows.step
  intro reply _
  rw [opened_of_none fds (hmade reply) (hended reply)]
  exact h reply

/-- A quiet call, after which the session is in the same phase or leaves it. -/
theorem Follows.quiet {c : Syscall} {f : Reply c → Sys α} (hc : c.Quiet) (hp : p.Calm)
    (h : ∀ reply, Follows client (f reply) ⟨p, fds⟩ Q ∨ Follows client (f reply) ⟨p.leave, fds⟩ Q) :
    Follows client (call c >>= f) ⟨p, fds⟩ Q := by
  apply Follows.step
  intro reply _
  rw [hc.opened fds reply]
  rcases h reply with hf | hf
  · exact ⟨p, .aside (hc.aside hp reply), hf⟩
  · exact ⟨p.leave, .leave (hc.aside hp reply), hf⟩

/-- A quiet call leaves the session as it is. -/
theorem Session.quiet_step {c : Syscall} (hc : c.Quiet) (hp : p.Calm) (reply : Reply c) :
    Session.Step client ⟨p, fds⟩ ⟨c, reply⟩ ⟨p, fds⟩ :=
  ⟨.aside (hc.aside hp reply), (hc.opened fds reply).symm⟩

/-- A quiet call whose reply is ignored. -/
theorem quiet_follows {c : Syscall} (hc : c.Quiet) (hp : p.Calm) :
    Follows client (call c) ⟨p, fds⟩ fun _ s' => s' = ⟨p, fds⟩ :=
  Program.Sim.perform fun reply _ => ⟨⟨p, fds⟩, Session.quiet_step hc hp reply, rfl⟩

theorem limitWrites_follows (hp : p.Calm) (sock : ℤ) :
    Follows client (client.limitWrites sock) ⟨p, fds⟩ fun _ s' => s' = ⟨p, fds⟩ := by
  unfold Client.limitWrites
  split
  · exact quiet_follows trivial hp
  · rfl

/-! ## Replies -/

/-- A text is formatted, or the session leaves its phase. -/
theorem strPrintf_follows (hp : p.Calm) (text : Bytes) :
    Follows client (strPrintf text) ⟨p, fds⟩ fun buf s' =>
      buf = some text ∧ s' = ⟨p, fds⟩ ∨ buf = none ∧ s' = ⟨p.leave, fds⟩ := by
  refine Follows.quiet trivial hp ?_
  intro okay
  cases okay with
  | true => exact Or.inl (Or.inl ⟨rfl, rfl⟩)
  | false => exact Or.inr (Or.inr ⟨rfl, rfl⟩)

theorem Phase.Replying.calm (hp : p.Replying) : p.Calm := by
  cases p <;> trivial

/-- After a reply, as far as there is memory for it, the session leaves its phase. -/
theorem errorReply_follows (hp : p.Replying) (msg : Bytes) :
    Follows client (client.errorReply msg) ⟨p, fds⟩ fun _ s' => s' = ⟨p.leave, fds⟩ := by
  apply (strPrintf_follows hp.calm _).bind
  rintro buf s' (⟨rfl, rfl⟩ | ⟨rfl, rfl⟩)
  · refine Follows.use (fun _ => rfl) (fun _ => rfl) ?_
    intro reply
    exact ⟨p.leave, .reply hp, rfl⟩
  · rfl

theorem errnoReply_follows (hp : p.Replying) (funclient : Bytes) (errno : Errno) :
    Follows client (client.errnoReply funclient errno) ⟨p, fds⟩ fun _ s' =>
      s' = ⟨p.leave, fds⟩ := by
  refine Follows.quiet trivial hp.calm ?_
  intro errnoMsg
  left
  apply (strPrintf_follows hp.calm _).bind
  rintro msg s' (⟨rfl, rfl⟩ | ⟨rfl, rfl⟩)
  · exact errorReply_follows hp _
  · rfl

theorem writeErrorReply_follows (hp : p.Replying) (timeoutMsg : Bytes) (errno : Errno) :
    Follows client (client.writeErrorReply timeoutMsg errno) ⟨p, fds⟩ fun _ s' =>
      s' = ⟨p.leave, fds⟩ := by
  unfold Client.writeErrorReply
  split
  · exact errorReply_follows hp _
  · exact errnoReply_follows hp _ _

/-- The reply that ends a session. -/
theorem errorReply_over {server : Option ℤ} (hp : p.Calm) (hleave : p.leave = .ending server)
    (msg : Bytes) : Follows client (client.errorReply msg) ⟨p, fds⟩ fun _ s' => s'.phase.Over := by
  refine Follows.quiet trivial hp ?_
  intro okay
  right
  rw [hleave]
  cases okay with
  | true =>
    refine Follows.use (fun _ => rfl) (fun _ => rfl) ?_
    intro reply
    exact ⟨.closing server, .reply trivial, trivial⟩
  | false => trivial

theorem errnoReply_over {server : Option ℤ} (hp : p.Calm) (hleave : p.leave = .ending server)
    (funclient : Bytes) (errno : Errno) :
    Follows client (client.errnoReply funclient errno) ⟨p, fds⟩ fun _ s' => s'.phase.Over := by
  refine Follows.quiet trivial hp ?_
  intro errnoMsg
  left
  apply (strPrintf_follows hp _).bind
  rintro msg s' (⟨rfl, rfl⟩ | ⟨rfl, rfl⟩)
  · exact errorReply_over hp hleave _
  · rw [hleave]
    trivial

/-! ## The connection to the server -/

/-- Binding to the local address succeeds, or the session is over. -/
theorem bindLocal_follows (r : ℤ) :
    Follows client client.bindLocal ⟨.opened r, fds⟩ fun okay s' =>
      if okay then s' = ⟨.opened r, fds⟩ else s'.phase.Over := by
  unfold Client.bindLocal
  split
  · exact rfl
  · split
    · exact (errorReply_over (by trivial) (by rfl) _).bind fun _ _ hover => hover
    · refine Follows.quiet trivial trivial ?_
      intro reply
      left
      cases reply with
      | error errno => exact (errnoReply_over (by trivial) (by rfl) _ _).bind fun _ _ hover => hover
      | ok _ => exact rfl

/-- The socket is connected, or the session is over. -/
theorem connectSocket_follows (rAddr : SockaddrAny) :
    Follows client (client.connectSocket rAddr) ⟨.opened client.rSock, fds⟩ fun okay s' =>
      if okay then s' = ⟨.afterConnect client.config client.rSock, fds⟩ else s'.phase.Over := by
  apply (limitWrites_follows (by trivial) _).bind
  rintro _ _ rfl
  refine Follows.quiet trivial trivial ?_
  intro _
  left
  apply (bindLocal_follows client.rSock).bind
  intro okay s' hs'
  cases okay with
  | false => exact hs'
  | true =>
    obtain rfl : s' = _ := hs'
    refine Follows.use (fun _ => rfl) (fun _ => rfl) ?_
    intro reply
    cases reply with
    | error errno =>
      refine ⟨.opened client.rSock, .aside ⟨trivial, by simp [Event.touched], fun _ => rfl⟩, ?_⟩
      exact (errnoReply_over (by trivial) (by rfl) _ _).bind fun _ _ hover => hover
    | ok _ => exact ⟨.afterConnect client.config client.rSock, .connect, rfl⟩

/-- There is a connection to the server, over a socket of its own, or the session is over. -/
theorem connect_follows :
    Follows client client.connect (Session.start client) fun result s' =>
      (result.1 = true ∧ ∃ r, result.2 = { client with rSock := r } ∧
        s' = ⟨.afterConnect client.config r, [r, client.cSock]⟩) ∨
      (result.1 = false ∧ s'.phase.Over) := by
  refine Follows.quiet trivial trivial ?_
  intro reply
  left
  cases reply with
  | error e =>
    cases e with
    | system errno =>
      apply (errnoReply_over (by trivial) (by rfl) _ _).bind
      intro _ s' hover
      exact .inr ⟨rfl, hover⟩
    | other errmsg =>
      apply (strPrintf_follows (by trivial) _).bind
      rintro msg s' (⟨rfl, rfl⟩ | ⟨rfl, rfl⟩)
      · exact (errorReply_over (by trivial) (by rfl) _).bind fun _ _ hover => .inr ⟨rfl, hover⟩
      · exact .inr ⟨rfl, trivial⟩
  | ok rAddr =>
    apply Follows.step
    intro reply hlaw
    cases reply with
    | error errno =>
      refine ⟨.opening, .aside ⟨trivial, by simp [Event.touched], fun _ => rfl⟩, ?_⟩
      exact (errnoReply_over (by trivial) (by rfl) _ _).bind fun _ _ hover => .inr ⟨rfl, hover⟩
    | ok r =>
      have hne : (r : ℤ) ≠ client.cSock := fun heq => hlaw r rfl (by simp [heq])
      refine ⟨.opened r, .socket hne, ?_⟩
      have hfds : opened [client.cSock] ⟨.socket rAddr.family, .ok r⟩ = [↑r, client.cSock] := by
        simp [opened, Event.made, Event.ended]
      rw [hfds]
      have hconnect := @connectSocket_follows { client with rSock := r } [↑r, client.cSock] rAddr
      apply Program.Sim.bind hconnect
      intro okay s' hs'
      cases okay with
      | true => exact .inl ⟨rfl, r, rfl, hs'⟩
      | false => exact .inr ⟨rfl, hs'⟩

/-! ## The ident lookup -/

/-- The calls that use a descriptor without ending it. -/
inductive Syscall.Uses (fd : ℤ) : Syscall → Prop
  | connect (addr : SockaddrAny) : Uses fd (.connect fd addr)
  | fprintf (text : Bytes) : Uses fd (.fprintf fd text)
  | fscanf : Uses fd (.fscanf fd)

/-- A descriptor that is neither of the two connections, next to those that were open before. -/
structure Session.Own (client : Client) (p : Phase) (fds : List ℤ) (own : ℤ) : Prop where
  calm : p.Calm
  apart : ∃ r, p.server = some r ∧ own ≠ client.cSock ∧ own ≠ r
  fresh : own ∉ fds

variable {own : ℤ}

/-- Its own descriptor is the one that is used. -/
theorem Session.uses_step {c : Syscall} (hown : Session.Own client p fds own) (hc : c.Uses own)
    (reply : Reply c) : Session.Step client ⟨p, own :: fds⟩ ⟨c, reply⟩ ⟨p, own :: fds⟩ := by
  have htouched : ∀ fd ∈ Event.touched ⟨c, reply⟩, fd = own := by
    intro fd hfd
    cases hc with
    | connect addr => cases reply <;> simp_all [Event.touched]
    | fprintf text => exact (Option.some.inj hfd).symm
    | fscanf => exact (Option.some.inj hfd).symm
  refine ⟨.aside ⟨hown.calm, ?_, fun _ => by cases hc <;> rfl⟩, ?_⟩
  · intro fd hfd
    rw [htouched fd hfd]
    exact hown.apart
  · exact (opened_of_none _ (by cases hc <;> rfl) (by cases hc <;> rfl)).symm

/-- It is given back. -/
theorem Session.ends_step {c : Syscall} (hown : Session.Own client p fds own) (hc : c.Ends own)
    (reply : Reply c) : Session.Step client ⟨p, own :: fds⟩ ⟨c, reply⟩ ⟨p, fds⟩ := by
  have hkept : ∀ fd ∈ fds, ¬ own = fd := fun fd hfd heq => hown.fresh (heq ▸ hfd)
  have hfds : opened (own :: fds) ⟨c, reply⟩ = fds := by
    cases hc <;> simpa [opened, Event.made, Event.ended, List.filter_eq_self] using hkept
  refine ⟨.aside ⟨hown.calm, ?_, fun _ => by cases hc <;> rfl⟩, hfds.symm⟩
  intro fd hfd
  have hfd : fd = own := by cases hc <;> exact (Option.some.inj hfd).symm
  rw [hfd]
  exact hown.apart

/-- The session knows nothing of a lookup but its descriptor. -/
theorem Session.lookupRules {r : ℤ} (hp : p.Calm) (hr : p.server = some r)
    (hcfds : client.cSock ∈ fds) (hrfds : r ∈ fds) :
    LookupRules (Session.Step client) Session.Law client.cSock (fun _ _ s => s = ⟨p, fds⟩)
      (fun _ _ _ i s => s = ⟨p, ↑i :: fds⟩ ∧ Session.Own client p fds i)
      (fun _ s => s = ⟨p, fds⟩) where
  getpeername s hs reply _ := ⟨s, hs ▸ Session.quiet_step (by trivial) hp reply, hs⟩
  getsockname s _ hs reply _ := ⟨s, hs ▸ Session.quiet_step (by trivial) hp reply, hs⟩
  noSocket s _ _ family errno hs := by
    subst hs
    refine ⟨⟨p, fds⟩, ⟨.aside ⟨hp, by simp [Event.touched], by simp [hr]⟩, ?_⟩, rfl⟩
    simp [opened, Event.made, Event.ended]
  socket s _ _ family i hs hlaw := by
    subst hs
    have hfresh : (i : ℤ) ∉ fds := hlaw i rfl
    refine ⟨⟨p, ↑i :: fds⟩, ⟨.aside ⟨hp, by simp [Event.touched], by simp [hr]⟩, ?_⟩, rfl,
      hp, ⟨r, hr, fun heq => hfresh (heq ▸ hcfds), fun heq => hfresh (heq ▸ hrfds)⟩, hfresh⟩
    simp [opened, Event.made, Event.ended]
  ask s _ _ i c hs hc reply := by
    obtain ⟨rfl, hown⟩ := hs
    refine ⟨_, ?_, rfl, hown⟩
    cases hc with
    | setsockopt opt => exact Session.quiet_step (by trivial) hp reply
    | connect addr => exact Session.uses_step hown (.connect addr) reply
    | fdopen => exact Session.quiet_step (by trivial) hp reply
    | fprintf text => exact Session.uses_step hown (.fprintf text) reply
  fscanf s _ _ i hs reply := by
    obtain ⟨rfl, hown⟩ := hs
    exact ⟨_, Session.uses_step hown .fscanf reply, rfl, hown⟩
  close s _ _ _ i c hs hc reply := by
    obtain ⟨rfl, hown⟩ := hs
    exact ⟨_, Session.ends_step hown hc reply, rfl⟩
  stop s _ _ hs := hs

/-- The lookup uses a descriptor of its own, and gives it back. -/
theorem identLookup_follows {r : ℤ} (hp : p.Calm) (hr : p.server = some r)
    (hcfds : client.cSock ∈ fds) (hrfds : r ∈ fds) (timeout : ℤ) :
    Follows client (identLookup client.cSock timeout) ⟨p, fds⟩ fun _ s' => s' = ⟨p, fds⟩ := by
  refine ((Session.lookupRules hp hr hcfds hrfds).sim rfl timeout).mono ?_
  rintro user s' ⟨got, -, hs'⟩
  exact hs'

/-! ## The identity line and the welcome message -/

theorem ipText_follows (hp : p.Calm) :
    Follows client client.ipText ⟨p, fds⟩ fun _ s' => s' = ⟨p, fds⟩ := by
  unfold Client.ipText
  split
  · exact rfl
  · exact Follows.quiet trivial hp fun _ => Or.inl rfl

theorem hostname_follows (hp : p.Calm) (ip : Bytes) :
    Follows client (client.hostname ip) ⟨p, fds⟩ fun _ s' => s' = ⟨p, fds⟩ := by
  unfold Client.hostname
  split
  · exact Follows.quiet trivial hp fun _ => Or.inl rfl
  · exact rfl

/-- A write whose length is compared with that of the text. -/
theorem writeAll_follows {fd : ℤ} {buf : Bytes} {p₁ p₂ : Phase}
    (h₁ : ∀ reply, Event.Complete ⟨.write fd buf, reply⟩ →
      Phase.Step client.cSock client.config p ⟨.write fd buf, reply⟩ p₁)
    (h₂ : ∀ reply, ¬ Event.Complete ⟨.write fd buf, reply⟩ →
      Phase.Step client.cSock client.config p ⟨.write fd buf, reply⟩ p₂) :
    Follows client (Client.writeAll fd buf) ⟨p, fds⟩ fun okay s' =>
      s' = ⟨if okay then p₁ else p₂, fds⟩ := by
  refine Follows.use (fun _ => rfl) (fun _ => rfl) ?_
  intro reply
  by_cases hreply : Event.Complete ⟨.write fd buf, reply⟩
  · refine ⟨p₁, h₁ reply hreply, ?_⟩
    cases reply with
    | error _ => exact hreply.elim
    | ok len =>
      have hlen : len.val = buf.length := hreply
      simp [hlen]
  · refine ⟨p₂, h₂ reply hreply, ?_⟩
    cases reply with
    | error _ => exact rfl
    | ok len =>
      have hlen : len.val ≠ buf.length := hreply
      simp [hlen]

/-- The identity line is sent completely, or the session is over. -/
theorem sendIdnt_follows (hcfds : client.cSock ∈ fds) (hrfds : client.rSock ∈ fds) :
    Follows client client.sendIdnt ⟨.afterConnect client.config client.rSock, fds⟩ fun okay s' =>
      if okay then ∃ idnt, s' = ⟨.afterIdnt client.config client.rSock idnt, fds⟩
      else s'.phase.Over := by
  unfold Client.sendIdnt Phase.afterConnect
  split
  case isFalse => exact ⟨[], rfl⟩
  case isTrue =>
  refine Follows.quiet trivial trivial ?_
  intro reply
  cases reply with
  | error _ => exact Or.inr trivial
  | ok _ =>
  apply Or.inl
  apply (identLookup_follows (by trivial) (by rfl) hcfds hrfds _).bind
  rintro user _ rfl
  apply (ipText_follows (by trivial)).bind
  rintro ip _ rfl
  apply (hostname_follows (by trivial) _).bind
  rintro hostname _ rfl
  apply (strPrintf_follows (by trivial) _).bind
  rintro buf _ (⟨rfl, rfl⟩ | ⟨rfl, rfl⟩)
  case inr => trivial
  case inl =>
  refine (writeAll_follows (fun _ => .idnt) (fun _ => .idntFailed)).mono ?_
  rintro okay _ rfl
  cases okay with
  | true => exact ⟨_, rfl⟩
  | false => trivial

/-- The welcome message is sent completely, or the session is over. -/
theorem welcome_follows (idnt : Bytes) :
    Follows client client.welcome ⟨.afterIdnt client.config client.rSock idnt, fds⟩ fun okay s' =>
      if okay then s' = ⟨.relaying client.rSock idnt, fds⟩ else s'.phase.Over := by
  unfold Client.welcome Phase.afterIdnt
  split
  case h_1 hmsg => simp [hmsg]
  case h_2 msg hmsg =>
  simp only [hmsg, reduceCtorEq, if_false]
  apply (strPrintf_follows (by trivial) _).bind
  rintro buf _ (⟨rfl, rfl⟩ | ⟨rfl, rfl⟩)
  case inr => trivial
  case inl =>
  refine (writeAll_follows (fun _ => .welcome hmsg) (fun _ => .welcomeFailed hmsg)).mono ?_
  rintro okay _ rfl
  cases okay with
  | true => exact rfl
  | false => trivial

/-! ## The relay -/

/-- A pass ends where it began, or the session is over. -/
theorem relayClient_follows (ready : Bool) (idnt : Bytes) :
    Follows client (client.relayClient ready) ⟨.relaying client.rSock idnt, fds⟩ fun more s' =>
      if more then s' = ⟨.relaying client.rSock idnt, fds⟩ else s'.phase.Over := by
  unfold Client.relayClient
  split
  case isFalse => exact rfl
  case isTrue =>
  refine Follows.use (fun _ => rfl) (fun _ => rfl) ?_
  intro reply
  cases reply with
  | error _ => exact ⟨_, .endClient rfl, trivial⟩
  | ok chunk =>
  dsimp only
  split
  case isTrue hchunk => exact ⟨_, .endClient (by simp [Event.got, hchunk]), trivial⟩
  case isFalse hchunk =>
  refine ⟨_, .readClient hchunk, ?_⟩
  refine Follows.use (fun _ => rfl) (fun _ => rfl) ?_
  intro reply
  cases reply with
  | error errno =>
    refine ⟨_, .forwardFailed id, ?_⟩
    apply (writeErrorReply_follows (by trivial) _ _).bind
    rintro _ _ rfl
    trivial
  | ok len =>
    dsimp only
    split
    case isTrue hlen =>
      refine ⟨_, .forwardFailed hlen, ?_⟩
      apply (errorReply_follows (by trivial) _).bind
      rintro _ _ rfl
      trivial
    case isFalse hlen => exact ⟨_, .forward (not_not.mp hlen), rfl⟩

theorem relayServer_follows (ready : Bool) (idnt : Bytes) :
    Follows client (client.relayServer ready) ⟨.relaying client.rSock idnt, fds⟩ fun more s' =>
      if more then s' = ⟨.relaying client.rSock idnt, fds⟩ else s'.phase.Over := by
  unfold Client.relayServer
  split
  case isFalse => exact rfl
  case isTrue =>
  refine Follows.use (fun _ => rfl) (fun _ => rfl) ?_
  intro reply
  cases reply with
  | error _ =>
    refine ⟨_, .endServer rfl, ?_⟩
    apply (errnoReply_follows (by trivial) _ _).bind
    rintro _ _ rfl
    trivial
  | ok chunk =>
  dsimp only
  split
  case isTrue hchunk =>
    refine ⟨_, .endServer (by simp [Event.got, hchunk]), ?_⟩
    apply (errorReply_follows (by trivial) _).bind
    rintro _ _ rfl
    trivial
  case isFalse hchunk =>
  refine ⟨_, .readServer hchunk, ?_⟩
  refine Follows.use (fun _ => rfl) (fun _ => rfl) ?_
  intro reply
  cases reply with
  | error errno =>
    refine ⟨_, .giveBackFailed, ?_⟩
    apply (writeErrorReply_follows (by trivial) _ _).bind
    rintro _ _ rfl
    exact rfl
  | ok len => exact ⟨_, .giveBack, rfl⟩

theorem relayPass_follows (idnt : Bytes) :
    Follows client client.relayPass ⟨.relaying client.rSock idnt, fds⟩ fun more s' =>
      if more then s' = ⟨.relaying client.rSock idnt, fds⟩ else s'.phase.Over := by
  refine Follows.quiet trivial trivial ?_
  intro reply
  left
  cases reply with
  | error errno =>
    exact (errnoReply_over (by trivial) (by rfl) _ _).bind fun _ _ hover => hover
  | ok revents =>
  dsimp only
  split
  case isTrue =>
    exact (errorReply_over (by trivial) (by rfl) _).bind fun _ _ hover => hover
  case isFalse =>
  apply (relayClient_follows _ idnt).bind
  intro more s' hs'
  cases more with
  | true =>
    obtain rfl : s' = _ := hs'
    exact relayServer_follows _ idnt
  | false => exact hs'

/-- The relay goes on, or the session is over. -/
theorem relay_follows (idnt : Bytes) (passes : ℕ) :
    Follows client (client.relay passes) ⟨.relaying client.rSock idnt, fds⟩ fun o s' =>
      if o.isSome then s'.phase.Over else s' = ⟨.relaying client.rSock idnt, fds⟩ := by
  refine Program.Sim.loop ?_ passes rfl
  rintro _ rfl
  exact relayPass_follows idnt

/-! ## The thread -/

theorem session_follows (hcfds : client.cSock ∈ fds) (hrfds : client.rSock ∈ fds) (passes : ℕ) :
    Follows client (client.session true passes)
      ⟨.afterConnect client.config client.rSock, fds⟩ fun o s' => o.isSome → s'.phase.Over := by
  apply (sendIdnt_follows hcfds hrfds).bind
  intro okay s' hs'
  cases okay with
  | false => exact fun _ => hs'
  | true =>
  obtain ⟨idnt, rfl⟩ := hs'
  apply (welcome_follows idnt).bind
  intro okay s' hs'
  cases okay with
  | false => exact fun _ => hs'
  | true =>
  obtain rfl : s' = _ := hs'
  apply (relay_follows idnt passes).mono
  intro o s' hs' ho
  rwa [if_pos ho] at hs'

/-- Closing a socket of a session that is over. -/
theorem closeSocket_follows {s : Session} (hs : s.phase.Over) (sock : ℤ) :
    Follows client (Client.closeSocket sock) s fun _ s' => s'.phase.Over := by
  unfold Client.closeSocket
  split
  · apply Program.Sim.perform
    intro reply _
    exact ⟨⟨.closing s.phase.server, _⟩, ⟨.close hs, rfl⟩, trivial⟩
  · exact hs

theorem free_follows {s : Session} (hs : s.phase.Over) (sockets : Client) :
    Follows client sockets.free s fun _ s' => s'.phase.Over :=
  (closeSocket_follows hs _).bind fun _ _ hs' => closeSocket_follows hs' _

/-- The thread does what a session can do. -/
theorem threadMain_follows (passes : ℕ) :
    Follows client (client.threadMain passes) (Session.start client) fun _ _ => True := by
  apply (limitWrites_follows (by trivial) _).bind
  rintro _ _ rfl
  apply connect_follows.bind
  rintro ⟨okay, client'⟩ s' (⟨rfl, r, rfl, rfl⟩ | ⟨rfl, hover⟩)
  · have hsession := @session_follows { client with rSock := r } [r, client.cSock]
      (by simp) (by simp) passes
    apply Program.Sim.bind hsession
    intro o s' hs'
    cases o with
    | none => trivial
    | some _ => exact (free_follows (hs' rfl) _).bind fun _ _ _ => trivial
  · exact (free_follows hover _).bind fun _ _ _ => trivial

end follows

/-! ## Runs -/

/-- The descriptors of a session are those that are open after the run. -/
theorem Session.fds_of_path {client : Client} {s s' : Session} {t : List Event}
    (h : Path (Session.Step client) s t s') : s'.fds = openAfter s.fds t := by
  induction h with
  | refl => rfl
  | step _ hstep ih => rw [hstep.2, ih, openAfter_concat]

/-- **Every run of the thread is a run of the session.** -/
theorem Client.exists_session (client : Client) {passes : ℕ} {t : List Event}
    {o : Option (Option Unit)} (ht : Program.Trace (client.threadMain passes) t o)
    (hfresh : Fresh [client.cSock] t) :
    ∃ s', Path (Session.Step client) (Session.start client) t s' := by
  have hlaw : Along (fun t₁ e => ∀ s', Path (Session.Step client) (Session.start client) t₁ s' →
      Session.Law s' e) t := by
    intro t₁ e t₂ heq s' hpath fd hfd
    rw [Session.fds_of_path hpath]
    exact hfresh t₁ e t₂ heq fd hfd
  obtain ⟨s', hpath, -⟩ := (threadMain_follows passes).path ht hlaw
  exact ⟨s', hpath⟩

end Ebbnc
