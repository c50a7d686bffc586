import Ebbnc.Session

/-!
# The two streams of a session

What the two ends of a session get from each other, in runs of any length in which any call may
fail, and any write may be short.

* `Client.ServerStream`, **`Client.exists_serverStream`** — the server gets the identity line, if
  one is configured, and then the bytes of the client in order.
* `Client.ClientStream`, `Client.Delivered`, **`Client.clientStream_of_delivered`** — the client
  gets the welcome message, then the bytes of the server in order and then at most one reply, as
  long as no write of the relay to it fails or is short.
-/

namespace Ebbnc

open Lib

/-! ## Writes -/

namespace Event

variable {fd : ℤ} {e : Event} {buf : Bytes}

theorem put_of_puts_eq_none (h : e.puts fd = none) : e.put fd = [] := by
  rcases e with ⟨c, reply⟩
  cases c with
  | write fd' text =>
    have hne : ¬ fd' = fd := by simpa [puts] using h
    cases reply <;> simp [put, hne]
  | fprintf fd' text =>
    have hne : ¬ fd' = fd := by simpa [puts] using h
    cases reply <;> simp [put, hne]
  | _ => rfl

/-- A descriptor takes the first bytes of what it is offered. -/
theorem put_prefix_of_puts (h : e.puts fd = some buf) : e.put fd <+: buf := by
  rcases e with ⟨c, reply⟩
  cases c with
  | write fd' text =>
    obtain ⟨rfl, rfl⟩ : fd' = fd ∧ text = buf := by simpa [puts] using h
    cases reply <;> simp [put, List.take_prefix]
  | fprintf fd' text =>
    obtain ⟨rfl, rfl⟩ : fd' = fd ∧ text = buf := by simpa [puts] using h
    cases reply <;> simp [put]
  | _ => cases h

/-- A write that is complete puts all of its text. -/
theorem put_eq_of_complete (h : e.puts fd = some buf) (he : e.Complete) : e.put fd = buf := by
  rcases e with ⟨c, reply⟩
  cases c with
  | write fd' text =>
    obtain ⟨rfl, rfl⟩ : fd' = fd ∧ text = buf := by simpa [puts] using h
    cases reply with
    | error _ => exact he.elim
    | ok n =>
      have hn : n.val = text.length := he
      simp [put, hn]
  | fprintf fd' text =>
    obtain ⟨rfl, rfl⟩ : fd' = fd ∧ text = buf := by simpa [puts] using h
    obtain rfl : reply = true := he
    simp [put]
  | _ => cases h

/-- A call that does not touch a descriptor is no connection of it. -/
theorem ne_connect_of_untouched (h : e.touched ≠ some fd) (addr : SockaddrAny) :
    e ≠ ⟨.connect fd addr, .ok ()⟩ := by
  rintro rfl
  exact h rfl

end Event

/-! ## The server's socket -/

namespace Phase

variable {cSock : ℤ} {config : Config} {p p' : Phase} {e : Event}

@[simp] theorem server_leave (p : Phase) : p.leave.server = p.server := by
  cases p <;> rfl

@[simp] theorem server_afterIdnt (r : ℤ) (idnt : Bytes) :
    (afterIdnt config r idnt).server = some r := by
  unfold afterIdnt
  split <;> rfl

@[simp] theorem server_afterConnect (r : ℤ) : (afterConnect config r).server = some r := by
  unfold afterConnect
  split
  · rfl
  · exact server_afterIdnt r []

/-- A call that concerns neither connection makes no socket for the server. -/
theorem Aside.server_eq (h : p.Aside cSock e) : p.server = p.server.or e.made := by
  cases hp : p.server with
  | none => simp [h.made hp]
  | some r => rfl

/-- A step makes the socket for the server, or keeps it. -/
theorem Step.server_eq (h : Step cSock config p e p') : p'.server = p.server.or e.made := by
  cases h with
  | aside h => exact h.server_eq
  | leave h => rw [server_leave, ← h.server_eq]
  | socket _ => rfl
  | connect => exact server_afterConnect _
  | idnt _ => exact server_afterIdnt _ _
  | reply _ => simp [Event.made]
  | close _ => simp [Event.made, server]
  | _ => rfl

/-- The socket for the server is not the one of the client. -/
theorem Step.made_ne (h : Step cSock config p e p') (hp : p.server = none) :
    ∀ fd ∈ e.made, fd ≠ cSock := by
  cases h with
  | aside h => simp [h.made hp]
  | leave h => simp [h.made hp]
  | socket hne =>
    rintro fd ⟨⟩
    exact hne
  | _ => simp [Event.made]

/-- A call that concerns neither connection leaves the client's socket alone. -/
theorem Aside.untouched_client (h : p.Aside cSock e) : e.touched ≠ some cSock := by
  intro htouched
  obtain ⟨_, _, hne, -⟩ := h.touched cSock htouched
  exact hne rfl

/-- It leaves the server's socket alone, and everything while there is none. -/
theorem Aside.untouched_server (h : p.Aside cSock e) {r : ℤ} (hr : p = opening ∨ r ∈ p.server) :
    e.touched ≠ some r := by
  intro htouched
  obtain ⟨r', hr', -, hne⟩ := h.touched r htouched
  rcases hr with rfl | hr
  · cases hr'
  · exact hne (Option.some.inj (hr.symm.trans hr'))

end Phase

section socket

variable {client : Client} {s : Session} {t : List Event}

/-- The session knows the socket for the server. -/
theorem Session.server_of_path (h : Path (Session.Step client) (Session.start client) t s) :
    s.phase.server = serverSocket t := by
  induction h with
  | refl => rfl
  | step _ hstep ih => rw [hstep.1.server_eq, ih, serverSocket_concat]

theorem Session.server_ne_of_path (h : Path (Session.Step client) (Session.start client) t s) :
    ∀ r ∈ s.phase.server, r ≠ client.cSock := by
  induction h with
  | refl => nofun
  | @step t s s' e _ hstep ih =>
    rw [hstep.1.server_eq]
    cases hs : s.phase.server with
    | none => exact hstep.1.made_ne hs
    | some r => exact fun r' hr' => ih r' (hs ▸ hr')

end socket

/-! ## From the client to the server -/

namespace Client

section server

variable (client : Client)

/-- The identity line, exactly when the configuration asks for one. -/
def Idnt (idnt : Bytes) : Prop :=
  if client.config.idnt then ∃ user ip hostname, idnt = idntLine user ip hostname else idnt = []

/-- The welcome message, if there is one, was written completely. -/
def Welcomed (t : List Event) : Prop :=
  ∀ msg ∈ client.config.welcomeMsg,
    ∃ e ∈ t, e.puts client.cSock = some (welcomeLine msg) ∧ e.Complete

/-- The identity line is offered, and nothing was before. -/
def Introduces (r : ℤ) (idnt : Bytes) (t : List Event) (buf : Bytes) : Prop :=
  client.config.idnt ∧ buf = idnt ∧ offered r t = []

/-- Bytes of the client are offered: the identity line and the welcome message are complete, and
these are the bytes that come next. -/
def Forwards (r : ℤ) (idnt : Bytes) (t : List Event) (buf : Bytes) : Prop :=
  idnt <+: sent r t ∧ client.Welcomed t ∧ sent r t ++ buf = idnt ++ received client.cSock t

/-- What the server gets: the identity line, and then the bytes of the client. -/
structure ServerStream (r : ℤ) (idnt : Bytes) (t : List Event) : Prop where
  /-- The bytes are those, in order. -/
  sent : sent r t <+: idnt ++ received client.cSock t
  /-- Each write is one of the two kinds. -/
  offered : Along (fun t e => ∀ buf ∈ e.puts r,
    client.Introduces r idnt t buf ∨ client.Forwards r idnt t buf) t
  /-- There is none after one that failed or was short. -/
  intact : Along (fun t e => (e.puts r).isSome → ∀ e' ∈ t, (e'.puts r).isSome → e'.Complete) t

end server

variable {client : Client} {r : ℤ} {idnt held : Bytes} {t : List Event} {e : Event}

/-- A call that does not write to the server. -/
theorem ServerStream.skip (h : client.ServerStream r idnt t) (he : e.puts r = none) :
    client.ServerStream r idnt (t ++ [e]) where
  sent := by
    rw [sent_concat, Event.put_of_puts_eq_none he, List.append_nil, received_concat,
      ← List.append_assoc]
    exact h.sent.trans (List.prefix_append _ _)
  offered := along_concat.mpr ⟨h.offered, by simp [he]⟩
  intact := along_concat.mpr ⟨h.intact, by simp [he]⟩

/-- A run to this point: no write to the server failed or was short, and what it got is all there
is but for the bytes that are held. -/
structure Intact (client : Client) (r : ℤ) (idnt held : Bytes) (t : List Event) : Prop where
  configured : client.Idnt idnt
  stream : client.ServerStream r idnt t
  complete : ∀ e ∈ t, (e.puts r).isSome → e.Complete
  balance : sent r t ++ held = idnt ++ received client.cSock t

/-- A call that does not write to the server may get bytes from the client. -/
theorem Intact.skip (h : client.Intact r idnt held t) (he : e.puts r = none) :
    client.Intact r idnt (held ++ e.got client.cSock) (t ++ [e]) where
  configured := h.configured
  stream := h.stream.skip he
  complete := by
    intro e' he' hputs
    rcases List.mem_append.mp he' with hmem | hmem
    · exact h.complete e' hmem hputs
    · obtain rfl := List.mem_singleton.mp hmem
      simp [he] at hputs
  balance := by
    rw [sent_concat, Event.put_of_puts_eq_none he, List.append_nil, received_concat,
      ← List.append_assoc, h.balance, List.append_assoc]

/-- The bytes that are held are offered. -/
theorem Intact.offer (h : client.Intact r idnt held t) (hputs : e.puts r = some held)
    (hkind : client.Introduces r idnt t held ∨ client.Forwards r idnt t held) :
    client.ServerStream r idnt (t ++ [e]) where
  sent := by
    rw [sent_concat, received_concat, ← List.append_assoc, ← h.balance]
    exact ((List.prefix_append_right_inj _).mpr (Event.put_prefix_of_puts hputs)).trans
      (List.prefix_append _ _)
  offered := by
    refine along_concat.mpr ⟨h.stream.offered, ?_⟩
    intro buf hbuf
    obtain rfl := Option.some.inj (hputs.symm.trans hbuf)
    exact hkind
  intact := along_concat.mpr ⟨h.stream.intact, fun _ => h.complete⟩

/-- They are taken. -/
theorem Intact.put (h : client.Intact r idnt held t) (hputs : e.puts r = some held)
    (hkind : client.Introduces r idnt t held ∨ client.Forwards r idnt t held) (he : e.Complete)
    (hgot : e.got client.cSock = []) : client.Intact r idnt [] (t ++ [e]) where
  configured := h.configured
  stream := h.offer hputs hkind
  complete := by
    intro e' he' hputs'
    rcases List.mem_append.mp he' with hmem | hmem
    · exact h.complete e' hmem hputs'
    · obtain rfl := List.mem_singleton.mp hmem
      exact he
  balance := by
    rw [sent_concat, Event.put_eq_of_complete hputs he, List.append_nil, received_concat, hgot,
      List.append_nil, h.balance]

/-- Nothing was written to the server, and nothing was read from the client. -/
structure Unsent (client : Client) (r : ℤ) (t : List Event) : Prop where
  offered : offered r t = []
  received : received client.cSock t = []

/-- Before anything is written, all of the identity line is held. -/
theorem Unsent.intact (h : client.Unsent r t) (hidnt : client.Idnt idnt) :
    client.Intact r idnt idnt t := by
  have hputs : ∀ e ∈ t, e.puts r = none := List.filterMap_eq_nil_iff.mp h.offered
  have hsent : sent r t = [] :=
    List.flatMap_eq_nil_iff.mpr fun e he => Event.put_of_puts_eq_none (hputs e he)
  refine ⟨hidnt, ⟨by simp [hsent], ?_, ?_⟩, ?_, by simp [hsent, h.received]⟩
  · intro t₁ e t₂ ht buf hbuf
    simp [hputs e (by simp [ht])] at hbuf
  · intro t₁ e t₂ ht hbuf
    simp [hputs e (by simp [ht])] at hbuf
  · intro e he hbuf
    simp [hputs e he] at hbuf

theorem Unsent.skip (h : client.Unsent r t) (he : e.puts r = none)
    (hgot : e.got client.cSock = []) : client.Unsent r (t ++ [e]) where
  offered := by simp [h.offered, he]
  received := by simp [h.received, hgot]

/-- What a run has done with the server when it is in a phase. -/
def ServerSide (client : Client) (t : List Event) : Phase → Prop
  | .opening => ∀ r, client.Unsent r t
  | .opened r => client.Unsent r t
  | .connected r => client.config.idnt ∧ client.Unsent r t
  | .greeting r idnt => client.Intact r idnt [] t
  | .relaying r idnt => client.Intact r idnt [] t ∧ client.Welcomed t
  | .forwarding r idnt chunk => client.Intact r idnt chunk t ∧ idnt <+: sent r t ∧ client.Welcomed t
  | .returning r idnt _ => client.Intact r idnt [] t ∧ client.Welcomed t
  | .excusing r idnt => client.Intact r idnt [] t ∧ client.Welcomed t
  | .ending server => ∀ r ∈ server, ∃ idnt, client.Idnt idnt ∧ client.ServerStream r idnt t
  | .closing server => ∀ r ∈ server, ∃ idnt, client.Idnt idnt ∧ client.ServerStream r idnt t

theorem Welcomed.skip (h : client.Welcomed t) (e : Event) : client.Welcomed (t ++ [e]) := by
  intro msg hmsg
  obtain ⟨e', he', hputs, hcomplete⟩ := h msg hmsg
  exact ⟨e', List.mem_append_left _ he', hputs, hcomplete⟩

/-- A phase is kept by calls that neither write to the server nor read from the client. -/
theorem ServerSide.skip {p : Phase} (h : client.ServerSide t p)
    (hputs : ∀ r, p = .opening ∨ r ∈ p.server → e.puts r = none) (hgot : e.got client.cSock = []) :
    client.ServerSide (t ++ [e]) p := by
  have hintact : ∀ {r idnt held}, r ∈ p.server → client.Intact r idnt held t →
      client.Intact r idnt held (t ++ [e]) := by
    intro r idnt held hr hi
    have hskip := hi.skip (hputs r (Or.inr hr))
    rwa [hgot, List.append_nil] at hskip
  have hstream : ∀ r ∈ p.server, (∃ idnt, client.Idnt idnt ∧ client.ServerStream r idnt t) →
      ∃ idnt, client.Idnt idnt ∧ client.ServerStream r idnt (t ++ [e]) := by
    rintro r hr ⟨idnt, hidnt, hi⟩
    exact ⟨idnt, hidnt, hi.skip (hputs r (Or.inr hr))⟩
  cases p with
  | opening => exact fun r => (h r).skip (hputs r (Or.inl rfl)) hgot
  | opened r => exact Unsent.skip h (hputs r (Or.inr rfl)) hgot
  | connected r => exact ⟨h.1, h.2.skip (hputs r (Or.inr rfl)) hgot⟩
  | greeting r idnt => exact hintact rfl h
  | relaying r idnt => exact ⟨hintact rfl h.1, h.2.skip e⟩
  | forwarding r idnt chunk =>
    refine ⟨hintact rfl h.1, ?_, h.2.2.skip e⟩
    rw [sent_concat]
    exact h.2.1.trans (List.prefix_append _ _)
  | returning r idnt chunk => exact ⟨hintact rfl h.1, h.2.skip e⟩
  | excusing r idnt => exact ⟨hintact rfl h.1, h.2.skip e⟩
  | ending server => exact fun r hr => hstream r hr (h r hr)
  | closing server => exact fun r hr => hstream r hr (h r hr)

theorem ServerSide.aside {p : Phase} (h : client.ServerSide t p) (he : p.Aside client.cSock e) :
    client.ServerSide (t ++ [e]) p := by
  apply h.skip
  · intro r hr
    exact Event.puts_of_untouched (he.untouched_server hr)
  · exact Event.got_of_untouched he.untouched_client

/-- Some identity line is possible. -/
theorem exists_idnt (client : Client) : ∃ idnt, client.Idnt idnt := by
  by_cases hidnt : client.config.idnt
  · exact ⟨idntLine [] [] [], by simp only [Idnt, hidnt, if_true]; exact ⟨[], [], [], rfl⟩⟩
  · exact ⟨[], by simp [Idnt, hidnt]⟩

/-- In each phase the server has got what it should. -/
theorem ServerSide.stream {p : Phase} (h : client.ServerSide t p) (hr : r ∈ p.server) :
    ∃ idnt, client.Idnt idnt ∧ client.ServerStream r idnt t := by
  have hunsent : ∀ r, client.Unsent r t → ∃ idnt, client.Idnt idnt ∧
      client.ServerStream r idnt t := by
    intro r hr
    obtain ⟨idnt, hidnt⟩ := client.exists_idnt
    exact ⟨idnt, hidnt, (hr.intact hidnt).stream⟩
  have hintact : ∀ {r idnt held}, client.Intact r idnt held t → ∃ idnt, client.Idnt idnt ∧
      client.ServerStream r idnt t :=
    fun hi => ⟨_, hi.configured, hi.stream⟩
  cases p with
  | opening => cases hr
  | ending server => exact h r hr
  | closing server => exact h r hr
  | opened r' =>
    obtain rfl := Option.some.inj hr
    exact hunsent r' h
  | connected r' =>
    obtain rfl := Option.some.inj hr
    exact hunsent r' h.2
  | greeting r' idnt =>
    obtain rfl := Option.some.inj hr
    exact hintact h
  | _ =>
    obtain rfl := Option.some.inj hr
    exact hintact h.1

theorem ServerSide.leave {p : Phase} (h : client.ServerSide t p) :
    client.ServerSide t p.leave := by
  cases p with
  | opening => exact nofun
  | opened r => exact fun _ hr => h.stream hr
  | connected r => exact fun _ hr => h.stream hr
  | greeting r idnt => exact fun _ hr => h.stream hr
  | relaying r idnt => exact fun _ hr => h.stream hr
  | _ => exact h

/-- Past the identity line the welcome message comes, if there is one. -/
theorem Intact.afterIdnt (h : client.Intact r idnt [] t) :
    client.ServerSide t (.afterIdnt client.config r idnt) := by
  unfold Phase.afterIdnt
  split
  · next hmsg => exact ⟨h, by simp [Welcomed, hmsg]⟩
  · exact h

/-- Past the connection the identity line comes, if there is one. -/
theorem Unsent.afterConnect (h : client.Unsent r t) :
    client.ServerSide t (.afterConnect client.config r) := by
  unfold Phase.afterConnect
  split
  · next hidnt => exact ⟨hidnt, h⟩
  · next hidnt => exact (h.intact (by simp [Idnt, hidnt])).afterIdnt

/-- A line is an identity line when one is configured. -/
theorem idnt_idntLine (h : client.config.idnt) (user ip hostname : Bytes) :
    client.Idnt (idntLine user ip hostname) := by
  unfold Idnt
  rw [if_pos h]
  exact ⟨user, ip, hostname, rfl⟩

/-- The step lemma for the server's side. -/
theorem ServerSide.step {p p' : Phase} (h : client.ServerSide t p)
    (hne : ∀ r ∈ p.server, r ≠ client.cSock)
    (hstep : Phase.Step client.cSock client.config p e p') : client.ServerSide (t ++ [e]) p' := by
  have hclient : ∀ r ∈ p.server, e.touched = some client.cSock → e.puts r = none := by
    intro r hr he
    apply Event.puts_of_untouched
    exact Event.untouched_of_touched he (hne r hr).symm
  have hserver : ∀ r ∈ p.server, e.touched = some r → e.got client.cSock = [] := by
    intro r hr he
    apply Event.got_of_untouched
    exact Event.untouched_of_touched he (hne r hr)
  cases hstep with
  | aside haside => exact h.aside haside
  | leave haside => exact (h.aside haside).leave
  | socket _ => exact (h _).skip rfl rfl
  | connect => exact (Unsent.skip h rfl rfl).afterConnect
  | @idnt r user ip hostname reply he =>
    have hi := h.2.intact (idnt_idntLine h.1 user ip hostname)
    exact (hi.put (Event.puts_write r _ reply) (Or.inl ⟨h.1, rfl, h.2.offered⟩) he rfl).afterIdnt
  | @idntFailed r user ip hostname reply he =>
    have hi := h.2.intact (idnt_idntLine h.1 user ip hostname)
    rintro _ ⟨⟩
    refine ⟨_, hi.configured, hi.offer (Event.puts_write r _ reply) ?_⟩
    exact Or.inl ⟨h.1, rfl, h.2.offered⟩
  | @welcome r idnt msg reply hmsg he =>
    refine ⟨Intact.skip h (hclient r rfl rfl), ?_⟩
    intro msg' hmsg'
    obtain rfl := Option.some.inj (hmsg.symm.trans hmsg')
    exact ⟨_, List.mem_append_right _ (List.mem_singleton.mpr rfl), Event.puts_write _ _ _, he⟩
  | @welcomeFailed r idnt msg reply hmsg he =>
    have hskip := Intact.skip h (hclient r rfl rfl)
    rintro _ ⟨⟩
    exact ⟨idnt, hskip.configured, hskip.stream⟩
  | @readClient r idnt size chunk hchunk =>
    have hskip := h.1.skip (hclient r rfl rfl)
    have hbalance := h.1.balance
    rw [List.append_nil] at hbalance
    refine ⟨?_, ?_, h.2.skip _⟩
    · rwa [Event.got_read, List.nil_append] at hskip
    · rw [sent_concat, hbalance, List.append_assoc]
      exact List.prefix_append _ _
  | @endClient r idnt size reply hgot =>
    rintro _ ⟨⟩
    exact ⟨idnt, h.1.configured, h.1.stream.skip (hclient r rfl rfl)⟩
  | @forward r idnt chunk reply he =>
    refine ⟨h.1.put (Event.puts_write r chunk reply) ?_ he rfl, h.2.2.skip _⟩
    exact Or.inr ⟨h.2.1, h.2.2, h.1.balance⟩
  | @forwardFailed r idnt chunk reply he =>
    rintro _ ⟨⟩
    refine ⟨idnt, h.1.configured, h.1.offer (Event.puts_write r chunk reply) ?_⟩
    exact Or.inr ⟨h.2.1, h.2.2, h.1.balance⟩
  | @readServer r idnt size chunk hchunk =>
    have hskip := h.skip (fun _ _ => rfl) (hserver r rfl rfl)
    exact hskip
  | @endServer r idnt size reply hgot =>
    have hskip := h.skip (fun _ _ => rfl) (hserver r rfl rfl)
    exact hskip.leave
  | @giveBack r idnt chunk n => exact ⟨h.1.skip (hclient r rfl rfl), h.2.skip _⟩
  | @giveBackFailed r idnt chunk errno => exact ⟨h.1.skip (hclient r rfl rfl), h.2.skip _⟩
  | @reply _ msg reply hp =>
    refine (h.skip ?_ rfl).leave
    rintro r (rfl | hr)
    · exact hp.elim
    · exact hclient r hr rfl
  | @close _ fd hp =>
    have hskip := h.skip (e := ⟨.close fd, ()⟩) (fun _ _ => rfl) rfl
    cases p with
    | ending server => exact hskip
    | closing server => exact hskip
    | _ => exact hp.elim

theorem serverSide_of_path {s : Session}
    (h : Path (Session.Step client) (Session.start client) t s) : client.ServerSide t s.phase := by
  induction h with
  | refl => exact fun r => ⟨rfl, rfl⟩
  | step h hstep ih => exact ih.step (Session.server_ne_of_path h) hstep.1

/-- **What the server gets**: in every run of the thread the identity line, exactly when one is
configured, and then the bytes of the client in order; nothing of the client before the line and
the welcome message are complete, and nothing at all after a write that failed or was short. -/
theorem exists_serverStream {passes : ℕ} {o : Option (Option Unit)}
    (ht : Program.Trace (client.threadMain passes) t o) (hfresh : Fresh [client.cSock] t)
    (hr : serverSocket t = some r) :
    ∃ idnt, client.Idnt idnt ∧ client.ServerStream r idnt t := by
  obtain ⟨s, hpath⟩ := client.exists_session ht hfresh
  have hserver : s.phase.server = some r := (Session.server_of_path hpath).trans hr
  exact (serverSide_of_path hpath).stream hserver

/-- A connection to a bouncer whose config has a welcome message and looks up no names. -/
def visitor : Client where
  cSock := 4
  cAddr := .inet #v[127, 0, 0, 1] 1025
  rSock := -1
  config := { Config.new with dnsLookup := false, welcomeMsg := some (ascii "hi") }
  bouncer :=
    ⟨some (ascii "127.0.0.1"), 2000, some (ascii "localhost"), 21, some (ascii "127.0.0.1")⟩

/-- A run up to the relay. -/
def greeted : List Event :=
  [⟨.setsockopt 4 (.sndTimeo 30), ()⟩,
    ⟨.getaddrinfo (some (ascii "localhost")) (ascii "21"), .ok (.inet #v[127, 0, 0, 1] 21)⟩,
    ⟨.socket 2, .ok 5⟩,
    ⟨.setsockopt 5 (.sndTimeo 30), ()⟩,
    ⟨.setsockopt 5 .nodelay, ()⟩,
    ⟨.bind 5 (.inet #v[127, 0, 0, 1] 0), .ok ()⟩,
    ⟨.connect 5 (.inet #v[127, 0, 0, 1] 21), .ok ()⟩,
    ⟨.getsockname 4, .ok (.inet #v[127, 0, 0, 1] 2000)⟩,
    ⟨.getpeername 4, .error 107⟩,
    ⟨.calloc 28, true⟩,
    ⟨.write 5 (ascii "IDNT *@127.0.0.1:127.0.0.1\n"), .ok 27⟩,
    ⟨.calloc 9, true⟩,
    ⟨.write 4 (ascii "220-hi\r\n"), .ok 8⟩]

/-- The client says something, the server answers and closes the connection. -/
def conversation : List Event :=
  greeted ++
    [⟨.poll 4 5 (-1), .ok (⟨true, false, false, false⟩, ⟨true, false, false, false⟩)⟩,
      ⟨.read 4 bufsiz, .ok ⟨ascii "NOOP\r\n", by decide⟩⟩,
      ⟨.write 5 (ascii "NOOP\r\n"), .ok 6⟩,
      ⟨.read 5 bufsiz, .ok ⟨ascii "200 Ok\r\n", by decide⟩⟩,
      ⟨.write 4 (ascii "200 Ok\r\n"), .ok 8⟩,
      ⟨.poll 4 5 (-1), .ok (.zero, ⟨true, false, false, false⟩)⟩,
      ⟨.read 5 bufsiz, .ok ⟨[], by decide⟩⟩,
      ⟨.calloc 24, true⟩,
      ⟨.write 4 (ascii "421 Connection closed\r\n"), .ok 23⟩,
      ⟨.close 4, ()⟩,
      ⟨.close 5, ()⟩]

theorem trace_conversation :
    Program.Trace (visitor.threadMain 2) conversation (some (some ())) := by
  unfold conversation
  repeat refine .call _ ?_
  exact .ret _

/-- A conversation with an answer of the ident server. The client is silent, and the end is as in
the other one: the server closes the connection. -/
def introduction : List Event :=
  greeted.take 8 ++
    [⟨.getpeername 4, .ok (.inet #v[127, 0, 0, 1] 1025)⟩,
      ⟨.getsockname 4, .ok (.inet #v[127, 0, 0, 1] 2000)⟩,
      ⟨.socket 2, .ok 6⟩,
      ⟨.setsockopt 6 (.rcvTimeo 10), ()⟩,
      ⟨.setsockopt 6 (.sndTimeo 10), ()⟩,
      ⟨.connect 6 (.inet #v[127, 0, 0, 1] 113), .ok ()⟩,
      ⟨.fdopen 6, true⟩,
      ⟨.fprintf 6 (ascii "1025,2000\r\n"), true⟩,
      ⟨.fscanf 6, ascii "1025, 2000 : USERID : UNIX : joe\r\n"⟩,
      ⟨.fclose 6, ()⟩,
      ⟨.calloc 30, true⟩,
      ⟨.write 5 (ascii "IDNT joe@127.0.0.1:127.0.0.1\n"), .ok 29⟩,
      ⟨.calloc 9, true⟩,
      ⟨.write 4 (ascii "220-hi\r\n"), .ok 8⟩] ++ conversation.drop 18

theorem trace_introduction :
    Program.Trace (visitor.threadMain 1) introduction (some (some ())) := by
  unfold introduction
  repeat refine .call _ ?_
  exact .ret _

/-- What the server gets in the conversation. -/
theorem exists_serverStream_conversation :
    ∃ idnt, visitor.Idnt idnt ∧ visitor.ServerStream 5 idnt conversation :=
  exists_serverStream trace_conversation (by decide) (by decide)

/-! ## From the server to the client -/

/-- The connection to the server was made. -/
def Established (r : ℤ) (t : List Event) : Prop :=
  ∃ addr, (⟨.connect r addr, .ok ()⟩ : Event) ∈ t

theorem Established.of_concat (h : Established r (t ++ [e]))
    (he : ∀ addr, e ≠ ⟨.connect r addr, .ok ()⟩) : Established r t := by
  obtain ⟨addr, hmem⟩ := h
  rcases List.mem_append.mp hmem with hmem | hmem
  · exact ⟨addr, hmem⟩
  · exact absurd (List.mem_singleton.mp hmem).symm (he addr)

section client

variable (client : Client)

/-- The welcome message, if there is one. -/
def welcomeText : Bytes := (client.config.welcomeMsg.map welcomeLine).getD []

/-- What the client gets: the welcome message, the first bytes of the server and at most one reply,
after which nothing more is written. -/
def ClientStream (r : ℤ) (t : List Event) : Prop :=
  ∃ relayed, relayed <+: received r t ∧
    (sent client.cSock t <+: client.welcomeText ++ relayed ∨
      ∃ t₁ t₂ msg, t = t₁ ++ t₂ ∧ sent client.cSock t₁ = client.welcomeText ++ relayed ∧
        offered client.cSock t₂ = [errorLine msg])

/-- Every write to the client right after bytes were read from the server is complete. -/
def Delivered (r : ℤ) (t : List Event) : Prop :=
  Along (fun t e => ∀ e₀ ∈ t.getLast?, e₀.got r ≠ [] → (e.puts client.cSock).isSome → e.Complete) t

instance (r : ℤ) (t : List Event) : Decidable (client.Delivered r t) :=
  inferInstanceAs (Decidable (Along _ t))

end client

theorem ClientStream.skip (h : client.ClientStream r t) (he : e.puts client.cSock = none) :
    client.ClientStream r (t ++ [e]) := by
  obtain ⟨relayed, hrelayed, h⟩ := h
  refine ⟨relayed, ?_, ?_⟩
  · rw [received_concat]
    exact hrelayed.trans (List.prefix_append _ _)
  · rcases h with h | ⟨t₁, t₂, msg, rfl, hsent, hoffered⟩
    · exact Or.inl (by rwa [sent_concat, Event.put_of_puts_eq_none he, List.append_nil])
    · exact Or.inr ⟨t₁, t₂ ++ [e], msg, by simp, hsent, by simp [hoffered, he]⟩

/-- Nothing was sent to the client, and nothing was received from the server. -/
structure Unheard (client : Client) (r : ℤ) (t : List Event) : Prop where
  sent : sent client.cSock t = []
  received : received r t = []

theorem Unheard.skip (h : client.Unheard r t) (he : e.puts client.cSock = none)
    (hgot : e.got r = []) : client.Unheard r (t ++ [e]) where
  sent := by simp [h.sent, Event.put_of_puts_eq_none he]
  received := by simp [h.received, hgot]

/-- The client has got all there is but for the bytes that are held, and nothing else. -/
def Passed (client : Client) (r : ℤ) (held : Bytes) (t : List Event) : Prop :=
  sent client.cSock t ++ held = client.welcomeText ++ received r t

theorem Passed.skip (h : client.Passed r held t) (he : e.puts client.cSock = none) :
    client.Passed r (held ++ e.got r) (t ++ [e]) := by
  unfold Passed at h ⊢
  rw [sent_concat, Event.put_of_puts_eq_none he, List.append_nil, received_concat,
    ← List.append_assoc, h, List.append_assoc]

/-- Before anything is sent, all of the welcome message is held. -/
theorem Unheard.passed (h : client.Unheard r t) : client.Passed r client.welcomeText t := by
  rw [Passed, h.sent, h.received, List.append_nil, List.nil_append]

theorem welcomeText_of_some {msg : Bytes} (hmsg : client.config.welcomeMsg = some msg) :
    client.welcomeText = welcomeLine msg := by
  simp [welcomeText, hmsg]

/-- The bytes that are held are taken. -/
theorem Passed.put (h : client.Passed r held t) (hputs : e.puts client.cSock = some held)
    (he : e.Complete) (hgot : e.got r = []) : client.Passed r [] (t ++ [e]) := by
  unfold Passed at h ⊢
  rw [sent_concat, Event.put_eq_of_complete hputs he, List.append_nil, received_concat, hgot,
    List.append_nil, h]

theorem Passed.clientStream (h : client.Passed r held t) : client.ClientStream r t :=
  ⟨received r t, List.prefix_rfl, Or.inl ⟨held, h⟩⟩

/-- The bytes that are held are offered. -/
theorem Passed.offer (h : client.Passed r held t) (hputs : e.puts client.cSock = some held) :
    client.ClientStream r (t ++ [e]) := by
  refine ⟨received r t, ?_, Or.inl ?_⟩
  · rw [received_concat]
    exact List.prefix_append _ _
  · rw [sent_concat, ← h]
    exact (List.prefix_append_right_inj _).mpr (Event.put_prefix_of_puts hputs)

/-- When nothing is held, a reply may be the end. -/
theorem Passed.reply (h : client.Passed r [] t) {msg : Bytes}
    (hputs : e.puts client.cSock = some (errorLine msg)) : client.ClientStream r (t ++ [e]) := by
  refine ⟨received r t, ?_, Or.inr ⟨t, [e], msg, rfl, ?_, ?_⟩⟩
  · rw [received_concat]
    exact List.prefix_append _ _
  · rw [← h, List.append_nil]
  · simp [offered, hputs]

/-- The bytes that are held are those that were just read, so they are taken. -/
theorem Delivered.complete {e₀ : Event} (h : client.Delivered r (t ++ [e]))
    (he₀ : e₀ ∈ t.getLast?) (hgot : e₀.got r = held) (hheld : held ≠ [])
    (hputs : e.puts client.cSock = some held) : e.Complete := by
  rw [← hgot] at hheld
  exact (along_concat.mp h).2 e₀ he₀ hheld (by rw [hputs]; rfl)

/-- What a run has done with the client when it is in a phase. -/
def ClientSide (client : Client) (t : List Event) : Phase → Prop
  | .opening => ∀ r, ¬ Established r t ∧ client.Unheard r t
  | .opened r => ¬ Established r t ∧ client.Unheard r t
  | .connected r => client.Unheard r t
  | .greeting r _ => client.Unheard r t
  | .relaying r _ => client.Passed r [] t
  | .forwarding r _ _ => client.Passed r [] t
  | .returning r _ chunk => client.Passed r chunk t ∧ ∃ e ∈ t.getLast?, e.got r = chunk ∧ chunk ≠ []
  | .excusing _ _ => False
  | .ending server => ∀ r ∈ server, Established r t → client.Passed r [] t
  | .closing server => ∀ r ∈ server, Established r t → client.ClientStream r t

/-- A call that neither writes to the client nor reads from the server keeps the phase. -/
theorem ClientSide.skip {p : Phase} (h : client.ClientSide t p) (hp : p.Calm) (e : Event)
    (hputs : e.puts client.cSock = none)
    (hgot : ∀ r, p = .opening ∨ r ∈ p.server →
      e.got r = [] ∧ ∀ addr, e ≠ ⟨.connect r addr, .ok ()⟩) :
    client.ClientSide (t ++ [e]) p := by
  have hestablished : ∀ r, p = .opening ∨ r ∈ p.server → Established r (t ++ [e]) →
      Established r t := fun r hr hest => hest.of_concat (hgot r hr).2
  have hpassed : ∀ {r}, r ∈ p.server → client.Passed r [] t → client.Passed r [] (t ++ [e]) := by
    intro r hr h
    have hskip := h.skip hputs
    rwa [(hgot r (Or.inr hr)).1] at hskip
  cases p with
  | opening =>
    exact fun r => ⟨fun hest => (h r).1 (hestablished r (Or.inl rfl) hest),
      (h r).2.skip hputs (hgot r (Or.inl rfl)).1⟩
  | opened r =>
    exact ⟨fun hest => h.1 (hestablished r (Or.inr rfl) hest),
      h.2.skip hputs (hgot r (Or.inr rfl)).1⟩
  | connected r => exact Unheard.skip h hputs (hgot r (Or.inr rfl)).1
  | greeting r idnt => exact Unheard.skip h hputs (hgot r (Or.inr rfl)).1
  | relaying r idnt => exact hpassed rfl h
  | forwarding r idnt chunk => exact hpassed rfl h
  | returning r idnt chunk => exact hp.elim
  | excusing r idnt => exact h
  | ending server => exact fun r hr hest => hpassed hr (h r hr (hestablished r (Or.inr hr) hest))
  | closing server => exact fun r hr hest => (h r hr (hestablished r (Or.inr hr) hest)).skip hputs

theorem ClientSide.aside {p : Phase} (h : client.ClientSide t p) (he : p.Aside client.cSock e) :
    client.ClientSide (t ++ [e]) p := by
  apply h.skip he.calm
  · exact Event.puts_of_untouched he.untouched_client
  · intro r hr
    have huntouched := he.untouched_server hr
    exact ⟨Event.got_of_untouched huntouched, Event.ne_connect_of_untouched huntouched⟩

/-- In each phase the client has got what it should. -/
theorem ClientSide.stream {p : Phase} (h : client.ClientSide t p) (hr : r ∈ p.server)
    (hest : Established r t) : client.ClientStream r t := by
  cases p with
  | opening => cases hr
  | opened r' =>
    obtain rfl := Option.some.inj hr
    exact absurd hest h.1
  | connected r' =>
    obtain rfl := Option.some.inj hr
    exact (Unheard.passed h).clientStream
  | greeting r' idnt =>
    obtain rfl := Option.some.inj hr
    exact (Unheard.passed h).clientStream
  | relaying r' idnt =>
    obtain rfl := Option.some.inj hr
    exact Passed.clientStream h
  | forwarding r' idnt chunk =>
    obtain rfl := Option.some.inj hr
    exact Passed.clientStream h
  | returning r' idnt chunk =>
    obtain rfl := Option.some.inj hr
    exact h.1.clientStream
  | excusing r' idnt => exact h.elim
  | ending server => exact (h r hr hest).clientStream
  | closing server => exact h r hr hest

theorem ClientSide.leave {p : Phase} (h : client.ClientSide t p) : client.ClientSide t p.leave := by
  cases p with
  | opening => exact nofun
  | opened r =>
    rintro _ ⟨⟩ hest
    exact absurd hest h.1
  | connected r => exact fun _ hr hest => h.stream hr hest
  | greeting r idnt => exact fun _ hr hest => h.stream hr hest
  | relaying r idnt =>
    rintro _ ⟨⟩ -
    exact h
  | excusing r idnt => exact h.elim
  | ending server => exact fun _ hr hest => h.stream hr hest
  | _ => exact h

/-- Past the identity line the welcome message comes, if there is one. -/
theorem Unheard.afterIdnt (h : client.Unheard r t) (idnt : Bytes) :
    client.ClientSide t (.afterIdnt client.config r idnt) := by
  unfold Phase.afterIdnt
  split
  · next hmsg =>
    have hwelcome : client.welcomeText = [] := by simp [welcomeText, hmsg]
    have hpassed := h.passed
    rwa [hwelcome] at hpassed
  · exact h

theorem Unheard.afterConnect (h : client.Unheard r t) :
    client.ClientSide t (.afterConnect client.config r) := by
  unfold Phase.afterConnect
  split
  · exact h
  · exact h.afterIdnt []

/-- The step lemma for the client's side. -/
theorem ClientSide.step {p p' : Phase} (h : client.ClientSide t p)
    (hne : ∀ r ∈ p.server, r ≠ client.cSock)
    (hdelivered : ∀ r ∈ p.server, client.Delivered r (t ++ [e]))
    (hstep : Phase.Step client.cSock client.config p e p') : client.ClientSide (t ++ [e]) p' := by
  have hclient : ∀ r ∈ p.server, e.touched = some client.cSock → e.got r = [] := by
    intro r hr he
    apply Event.got_of_untouched
    exact Event.untouched_of_touched he (hne r hr).symm
  have hserver : ∀ r ∈ p.server, e.touched = some r → e.puts client.cSock = none := by
    intro r hr he
    apply Event.puts_of_untouched
    exact Event.untouched_of_touched he (hne r hr)
  cases hstep with
  | aside haside => exact h.aside haside
  | leave haside => exact (h.aside haside).leave
  | @socket family fd hfd =>
    have hskip := h.skip trivial ⟨.socket family, .ok fd⟩ rfl fun r _ => ⟨rfl, fun _ => by simp⟩
    exact hskip fd
  | connect => exact (h.2.skip rfl rfl).afterConnect
  | @idnt r user ip hostname reply he => exact (Unheard.skip h (hserver r rfl rfl) rfl).afterIdnt _
  | @idntFailed r user ip hostname reply he =>
    rintro _ ⟨⟩ -
    exact (Unheard.skip h (hserver r rfl rfl) rfl).passed.clientStream
  | @welcome r idnt msg reply hmsg he =>
    have hpassed := Unheard.passed h
    rw [welcomeText_of_some hmsg] at hpassed
    exact hpassed.put (Event.puts_write _ _ reply) he rfl
  | @welcomeFailed r idnt msg reply hmsg he =>
    have hpassed := Unheard.passed h
    rw [welcomeText_of_some hmsg] at hpassed
    rintro _ ⟨⟩ -
    exact hpassed.offer (Event.puts_write _ _ reply)
  | @readClient r idnt size chunk hchunk =>
    have hskip := h.skip trivial _ rfl fun r hr =>
      ⟨hclient r (hr.resolve_left nofun) rfl, fun _ => by simp⟩
    exact hskip
  | @endClient r idnt size reply hgot =>
    have hskip := h.skip trivial _ rfl fun r hr =>
      ⟨hclient r (hr.resolve_left nofun) rfl, fun _ => by simp⟩
    exact hskip.leave
  | @forward r idnt chunk reply he =>
    have hskip := Passed.skip h (hserver r rfl rfl)
    exact hskip
  | @forwardFailed r idnt chunk reply he =>
    have hskip := Passed.skip h (hserver r rfl rfl)
    rintro _ ⟨⟩ -
    exact hskip
  | @readServer r idnt size chunk hchunk =>
    have hskip := Passed.skip h (hserver r rfl rfl)
    rw [Event.got_read] at hskip
    exact ⟨hskip, _, List.getLast?_concat, Event.got_read r size chunk, hchunk⟩
  | @endServer r idnt size reply hgot =>
    have hskip := Passed.skip h (hserver r rfl rfl)
    rw [hgot] at hskip
    rintro _ ⟨⟩ -
    exact hskip
  | @giveBack r idnt chunk n =>
    obtain ⟨hpassed, e₀, he₀, hgot, hchunk⟩ := h
    have hputs := Event.puts_write client.cSock chunk (.ok n)
    have hcomplete := (hdelivered r rfl).complete he₀ hgot hchunk hputs
    exact hpassed.put hputs hcomplete rfl
  | @giveBackFailed r idnt chunk errno =>
    obtain ⟨hpassed, e₀, he₀, hgot, hchunk⟩ := h
    have hputs := Event.puts_write client.cSock chunk (.error errno)
    exact (hdelivered r rfl).complete he₀ hgot hchunk hputs
  | @reply _ msg reply hp =>
    cases p with
    | excusing r idnt => exact h.elim
    | ending server =>
      intro r hr hest
      have hpassed := h r hr (hest.of_concat fun _ => by simp)
      exact hpassed.reply (Event.puts_write _ _ reply)
    | _ => exact hp.elim
  | @close _ fd hp =>
    cases p with
    | ending server =>
      have hskip := h.skip trivial ⟨.close fd, ()⟩ rfl fun r _ => ⟨rfl, fun _ => by simp⟩
      exact hskip.leave
    | closing server =>
      have hskip := h.skip trivial ⟨.close fd, ()⟩ rfl fun r _ => ⟨rfl, fun _ => by simp⟩
      exact hskip
    | _ => exact hp.elim

theorem clientSide_of_path {s : Session}
    (h : Path (Session.Step client) (Session.start client) t s)
    (hdelivered : ∀ r ∈ serverSocket t, client.Delivered r t) : client.ClientSide t s.phase := by
  induction h with
  | refl =>
    intro r
    exact ⟨by simp [Established], rfl, rfl⟩
  | @step t s s' e h hstep ih =>
    have hserver : ∀ r ∈ s.phase.server, client.Delivered r (t ++ [e]) := by
      intro r hr
      apply hdelivered
      rw [Session.server_of_path h] at hr
      simp [serverSocket_concat, Option.mem_def.mp hr]
    refine (ih ?_).step (Session.server_ne_of_path h) hserver hstep.1
    intro r hr
    rw [← Session.server_of_path h] at hr
    exact (hserver r hr).of_append

/-- **What the client gets**: in every run of a connected thread whose writes of the server's bytes
are complete, the welcome message, the first bytes of the server in order and at most one reply,
after which nothing more is written. -/
theorem clientStream_of_delivered {passes : ℕ} {o : Option (Option Unit)}
    (ht : Program.Trace (client.threadMain passes) t o) (hfresh : Fresh [client.cSock] t)
    (hr : serverSocket t = some r) (hestablished : Established r t)
    (hdelivered : client.Delivered r t) : client.ClientStream r t := by
  obtain ⟨s, hpath⟩ := client.exists_session ht hfresh
  have hserver : s.phase.server = some r := (Session.server_of_path hpath).trans hr
  have hside := clientSide_of_path hpath fun r' hr' => by
    obtain rfl := Option.some.inj (hr.symm.trans hr')
    exact hdelivered
  exact hside.stream hserver hestablished

theorem Established.append (h : Established r t) (t' : List Event) : Established r (t ++ t') := by
  obtain ⟨addr, hmem⟩ := h
  exact ⟨addr, List.mem_append_left _ hmem⟩

theorem established_greeted : Established 5 greeted :=
  ⟨.inet #v[127, 0, 0, 1] 21, by simp [greeted]⟩

/-- What the client gets in the conversation. -/
theorem clientStream_of_delivered_conversation : visitor.ClientStream 5 conversation :=
  clientStream_of_delivered trace_conversation (by decide) (by decide)
    (established_greeted.append _) (by decide)

/-- The client does not take some bytes in time. It is told, and gets those that come next. -/
def lost : List Event :=
  greeted ++
    [⟨.poll 4 5 (-1), .ok (.zero, ⟨true, false, false, false⟩)⟩,
      ⟨.read 5 bufsiz, .ok ⟨ascii "200 Ok\r\n", by decide⟩⟩,
      ⟨.write 4 (ascii "200 Ok\r\n"), .error eagain⟩,
      ⟨.calloc 27, true⟩,
      ⟨.write 4 (ascii "421 Client write timeout\r\n"), .ok 26⟩,
      ⟨.poll 4 5 (-1), .ok (.zero, ⟨true, false, false, false⟩)⟩,
      ⟨.read 5 bufsiz, .ok ⟨ascii "226 Done\r\n", by decide⟩⟩,
      ⟨.write 4 (ascii "226 Done\r\n"), .ok 10⟩]

/-- A run of a connected thread whose client gets something else. -/
theorem not_clientStream :
    Program.Trace (visitor.threadMain 2) lost none ∧ Fresh [visitor.cSock] lost ∧
      serverSocket lost = some 5 ∧ Established 5 lost ∧ ¬ visitor.ClientStream 5 lost := by
  refine ⟨?_, by decide, by decide, ?_, ?_⟩
  · unfold lost
    repeat refine .call _ ?_
    exact .stop _
  · exact established_greeted.append _
  · rintro ⟨relayed, hrelayed, hsent | ⟨t₁, t₂, msg, ht, -, hoffered⟩⟩
    · -- the reply stands where bytes of the server should
      have hprefix : sent 4 lost <+: ascii "220-hi\r\n" ++ received 5 lost :=
        hsent.trans ((List.prefix_append_right_inj _).mpr hrelayed)
      revert hprefix
      decide
    · -- the last write is no reply
      have hoffered : offered 4 t₂ = [errorLine msg] := hoffered
      have hlast : (offered 4 lost).getLast? = some (errorLine msg) := by
        rw [ht, offered_append, hoffered, List.getLast?_concat]
      have hdone : (offered 4 lost).getLast? = some (ascii "226 Done\r\n") := by decide
      have hhead : (ascii "226 Done\r\n").head? = (errorLine msg).head? :=
        congrArg List.head? (Option.some.inj (hdone.symm.trans hlast))
      have hreply : (errorLine msg).head? = some 52 := rfl
      rw [hreply] at hhead
      revert hhead
      decide

end Client

end Ebbnc
