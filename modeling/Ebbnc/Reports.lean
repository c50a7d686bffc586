import Ebbnc.Lib.Duty
import Ebbnc.Descriptors

/-!
# What the client is told

The 421 replies of a session, seen from the calls: which call has to be reported to the client, and
in which words.

* `Client.report` — the report a call makes due, none for most of them.
* `Client.Unprompted` — what is written to the client without a report: the welcome message, and
  what was read from the server.
* `identLookup_reports`, `relayPass_reports`, … — the parts of the thread.
* **`Client.failures_reported`** — in every run each failure is followed by its report at once, and
  there are no reports but these.
-/

namespace Ebbnc

open Lib

namespace Client

/-- The call before was a read. -/
def afterRead (t : List Event) : Bool :=
  match t.getLast? with
  | some ⟨.read _ _, _⟩ => true
  | _ => false

variable (client : Client)

/-- The report of an error of the resolver. -/
def resolverReport (errmsg : Bytes) : Sys Unit := do
  match ← strPrintf (ascii "hostPortToSockaddr: " ++ errmsg) with
  | none => pure ()
  | some msg => client.errorReply msg

/-- The report as it stands in `Client_connect`, with the value that is returned after it. -/
theorem resolverReport_bind {α : Type} (errmsg : Bytes) (a : α) :
    (do
      match ← strPrintf (ascii "hostPortToSockaddr: " ++ errmsg) with
      | none => pure a
      | some msg => do
        client.errorReply msg
        pure a) = client.resolverReport errmsg >>= fun _ => pure a := by
  refine congrArg (Program.call _) (funext fun okay => ?_)
  cases okay <;> rfl

/-- The local ip of the bouncer is none. -/
def badLocalIP : Bool :=
  match client.bouncer.localIP with
  | none => false
  | some localIP => (ipPortToSockaddr localIP 0).isNone

/-- The report that is due after a call. Failures of the ident lookup are not reported, nor are
those of the identity line and of the welcome message. -/
def report (t : List Event) : Event → Sys Unit
  | ⟨.getaddrinfo _ _, .error (.system errno)⟩ =>
      client.errnoReply (ascii "hostPortToSockaddr") errno
  | ⟨.getaddrinfo _ _, .error (.other errmsg)⟩ => client.resolverReport errmsg
  | ⟨.socket _, .error errno⟩ =>
      if t.filterMap Event.made = [] then client.errnoReply (ascii "socket") errno else pure ()
  | ⟨.setsockopt _ .nodelay, _⟩ =>
      if client.badLocalIP then client.errorReply (ascii "invalid localip") else pure ()
  | ⟨.bind _ _, .error errno⟩ => client.errnoReply (ascii "bind") errno
  | ⟨.connect fd _, .error errno⟩ =>
      if t.filterMap Event.made = [fd] then client.errnoReply (ascii "connect") errno else pure ()
  | ⟨.poll _ _ _, .error errno⟩ => client.errnoReply (ascii "poll") errno
  | ⟨.poll _ _ _, .ok (c, r)⟩ =>
      if c = .zero ∧ r = .zero then client.errorReply (ascii "Idle timeout") else pure ()
  | ⟨.read fd _, .error errno⟩ =>
      if fd = client.cSock then pure () else client.errnoReply (ascii "read") errno
  | ⟨.read fd _, .ok chunk⟩ =>
      if fd = client.cSock then pure ()
      else if chunk.1 = [] then client.errorReply (ascii "Connection closed")
      else pure ()
  | ⟨.write fd _, .error errno⟩ =>
      if afterRead t then
        client.writeErrorReply
          (if fd = client.cSock then ascii "Client write timeout" else ascii "Server write timeout")
          errno
      else pure ()
  | ⟨.write fd buf, .ok len⟩ =>
      if afterRead t ∧ fd ≠ client.cSock ∧ len.val ≠ buf.length then
        client.errorReply (ascii "Short write")
      else pure ()
  | _ => pure ()

/-- What is written to the client without a report. -/
def Unprompted (t : List Event) : Event → Prop
  | ⟨.write fd buf, _⟩ =>
      fd = client.cSock → (∃ msg ∈ client.config.welcomeMsg, buf = welcomeLine msg) ∨
        ∃ r size chunk, r ≠ client.cSock ∧ t.getLast? = some ⟨.read r size, .ok chunk⟩ ∧
          buf = chunk.1
  | _ => True

end Client

/-- A descriptor that is made is not open. -/
def Client.Unused (client : Client) (s : Program.Owing Reply) (e : Event) : Prop :=
  ∀ fd ∈ e.made, fd ∉ openAfter [client.cSock] s.run

/-- With a report to finish first, the program reports what has to be reported, and nothing else. -/
abbrev ReportingFrom {α : Type} (client : Client) (p : Sys α) (t : List Event) (owed : Sys Unit)
    (Q : α → List Event → Prop) : Prop :=
  p.Sim (Program.Owing.Step client.Unprompted client.report) client.Unused ⟨t, owed⟩
    fun a s => s.owed = pure () ∧ Q a s.run

/-- The same with nothing to finish. -/
abbrev Reporting {α : Type} (client : Client) (p : Sys α) (t : List Event)
    (Q : α → List Event → Prop) : Prop :=
  ReportingFrom client p t (pure ()) Q

section reporting

variable {client : Client} {t : List Event} {α β : Type}

/-- One program after the other. -/
theorem ReportingFrom.bind {p : Sys α} {f : α → Sys β} {owed : Sys Unit}
    {Q : α → List Event → Prop} {Q' : β → List Event → Prop} (h : ReportingFrom client p t owed Q)
    (hf : ∀ a t', Q a t' → Reporting client (f a) t' Q') :
    ReportingFrom client (p >>= f) t owed Q' := by
  apply Program.Sim.bind h
  rintro a ⟨t', owed⟩ ⟨rfl, hQ⟩
  exact hf a t' hQ

/-- A call, after which its report is due. -/
theorem Reporting.call {c : Syscall} {f : Reply c → Sys α} {Q : α → List Event → Prop}
    (hc : ∀ reply, client.Unprompted t ⟨c, reply⟩)
    (hf : ∀ reply, client.Unused ⟨t, pure ()⟩ ⟨c, reply⟩ →
      ReportingFrom client (f reply) (t ++ [⟨c, reply⟩]) (client.report t ⟨c, reply⟩) Q) :
    Reporting client (Ebbnc.call c >>= f) t Q :=
  Program.Owing.call hc hf

/-- A report, and what follows it. -/
theorem ReportingFrom.report {p : Sys Unit} {f : Unit → Sys α} {Q : α → List Event → Prop}
    (hf : ∀ t', Reporting client (f ()) (t ++ t') Q) : ReportingFrom client (p >>= f) t p Q :=
  Program.Owing.followUp hf

/-- The report of an error of the resolver, after which a value is returned. -/
theorem ReportingFrom.resolver {errmsg : Bytes} {a : α} {Q : α → List Event → Prop}
    (hQ : ∀ t', Q a (t ++ t')) :
    ReportingFrom client (do
      match ← strPrintf (ascii "hostPortToSockaddr: " ++ errmsg) with
      | none => pure a
      | some msg => do
        client.errorReply msg
        pure a) t (client.resolverReport errmsg) Q := by
  rw [client.resolverReport_bind errmsg a]
  exact ReportingFrom.report fun t' => ⟨rfl, hQ t'⟩

/-! ## Before the relay -/

/-- The test of `writeTimeout` makes no descriptor and ends none. -/
theorem limitWrites_reports (sock : ℤ) :
    Reporting client (client.limitWrites sock) t fun _ t' =>
      t'.filterMap Event.made = t.filterMap Event.made ∧
        openAfter [client.cSock] t' = openAfter [client.cSock] t := by
  unfold Client.limitWrites
  split
  · refine Program.Sim.perform fun reply _ => ⟨_, .free trivial, rfl, ?_, ?_⟩
    · rw [List.filterMap_append]
      exact List.append_nil _
    · rw [openAfter_concat]
      exact opened_of_none _ rfl rfl
  · exact ⟨rfl, rfl, rfl⟩

/-- Binding to the local ip, right after the socket options. -/
theorem bindLocal_reports :
    ReportingFrom client client.bindLocal t
      (if client.badLocalIP then client.errorReply (ascii "invalid localip") else pure ())
      fun okay t' => okay = true → t'.filterMap Event.made = t.filterMap Event.made := by
  unfold Client.bindLocal Client.badLocalIP
  cases client.bouncer.localIP with
  | none => exact ⟨rfl, fun _ => rfl⟩
  | some localIP =>
    cases haddr : ipPortToSockaddr localIP 0 with
    | none =>
      simp only [haddr, Option.isNone_none, if_true]
      exact ReportingFrom.report fun t' => ⟨rfl, nofun⟩
    | some lAddr =>
      simp only [haddr, Option.isNone_some, Bool.false_eq_true, if_false]
      refine Reporting.call (fun _ => trivial) fun reply _ => ?_
      cases reply with
      | error errno => exact ReportingFrom.report fun t' => ⟨rfl, nofun⟩
      | ok _ =>
        refine ⟨rfl, fun _ => ?_⟩
        rw [List.filterMap_append]
        exact List.append_nil _

/-- The connection to the server, from the socket options on. -/
theorem connectSocket_reports (hmade : t.filterMap Event.made = [client.rSock])
    (rAddr : SockaddrAny) :
    Reporting client (client.connectSocket rAddr) t fun okay t' =>
      okay = true → t'.filterMap Event.made = [client.rSock] := by
  apply (limitWrites_reports client.rSock).bind
  rintro _ t₁ ⟨hmade₁, -⟩
  refine Reporting.call (fun _ => trivial) fun reply _ => ?_
  apply bindLocal_reports.bind
  intro okay t₂ hokay
  cases okay with
  | false => exact ⟨rfl, nofun⟩
  | true =>
    have hmade₂ : t₂.filterMap Event.made = [client.rSock] := by
      rw [hokay rfl, List.filterMap_append, hmade₁, hmade]
      rfl
    refine Reporting.call (fun _ => trivial) fun reply _ => ?_
    cases reply with
    | error errno =>
      rw [Client.report, if_pos hmade₂]
      dsimp only
      exact ReportingFrom.report fun t' => ⟨rfl, nofun⟩
    | ok _ =>
      refine ⟨rfl, fun _ => ?_⟩
      rw [List.filterMap_append, hmade₂]
      rfl

/-- The connection to the server. -/
theorem connect_reports (hmade : t.filterMap Event.made = [])
    (hopen : openAfter [client.cSock] t = [client.cSock]) :
    Reporting client client.connect t fun result t' =>
      result = (false, client) ∨ ∃ r : ℕ, (r : ℤ) ≠ client.cSock ∧
        result.2 = { client with rSock := r } ∧
        (result.1 = true → t'.filterMap Event.made = [(r : ℤ)]) := by
  refine Reporting.call (fun _ => trivial) fun reply _ => ?_
  cases reply with
  | error e =>
    cases e with
    | system errno =>
      dsimp only
      exact ReportingFrom.report fun t' => ⟨rfl, Or.inl rfl⟩
    | other errmsg =>
      exact ReportingFrom.resolver (a := (false, client)) fun t' => Or.inl rfl
  | ok rAddr =>
    have hquiet : (t ++ [⟨.getaddrinfo client.bouncer.remoteHost
        ((printInt (toInt (client.bouncer.remotePort))).take 5), .ok rAddr⟩] : List Event).filterMap
          Event.made = [] := by
      rw [List.filterMap_append, hmade]
      rfl
    refine Reporting.call (fun _ => trivial) fun reply hunused => ?_
    cases reply with
    | error errno =>
      rw [Client.report, if_pos hquiet]
      dsimp only
      exact ReportingFrom.report fun t' => ⟨rfl, Or.inl rfl⟩
    | ok r =>
      have hne : (r : ℤ) ≠ client.cSock := by
        intro heq
        apply hunused r rfl
        rw [openAfter_concat, hopen, opened_of_none _ rfl rfl]
        exact List.mem_singleton.mpr heq
      have hmade' : (t ++ [⟨.getaddrinfo client.bouncer.remoteHost
          ((printInt (toInt (client.bouncer.remotePort))).take 5), .ok rAddr⟩] ++
            [⟨.socket rAddr.family, .ok r⟩] : List Event).filterMap Event.made = [(r : ℤ)] := by
        rw [List.filterMap_append, hquiet]
        rfl
      have hsocket : Reporting client (Client.connectSocket { client with rSock := r } rAddr) _
          fun okay t' => okay = true → t'.filterMap Event.made = [(r : ℤ)] :=
        @connectSocket_reports { client with rSock := r } _ hmade' rAddr
      apply hsocket.bind
      intro okay t' hokay
      exact ⟨rfl, Or.inr ⟨r, hne, rfl, hokay⟩⟩

/-! ## The identity line and the welcome message -/

/-- Calls of which none is reported and which do not write to the client. -/
theorem Reporting.silent {c : Syscall} {f : Reply c → Sys α} {Q : α → List Event → Prop}
    (hc : ∀ reply, client.Unprompted t ⟨c, reply⟩)
    (hreport : ∀ reply, client.report t ⟨c, reply⟩ = pure ())
    (hf : ∀ reply, Reporting client (f reply) (t ++ [⟨c, reply⟩]) Q) :
    Reporting client (Ebbnc.call c >>= f) t Q := by
  refine Reporting.call hc fun reply _ => ?_
  rw [hreport reply]
  exact hf reply

/-- The lookup fails without a report. -/
theorem identLookup_reports {r : ℤ} (hmade : t.filterMap Event.made = [r]) (sock timeout : ℤ) :
    Reporting client (identLookup sock timeout) t fun _ _ => True := by
  have hdone : ∀ (t : List Event) (user : Option Bytes),
      Reporting client (pure user) t fun _ _ => True := fun _ _ => ⟨rfl, trivial⟩
  refine Reporting.silent (fun _ => trivial) (fun _ => rfl) fun peerAddr => ?_
  cases peerAddr with
  | error _ => exact hdone _ _
  | ok peerAddr =>
  refine Reporting.silent (fun _ => trivial) (fun _ => rfl) fun localAddr => ?_
  cases localAddr with
  | error _ => exact hdone _ _
  | ok localAddr =>
  dsimp only
  cases peerAddr.withPort identPort with
  | none => exact hdone _ _
  | some addr =>
  have hmade' : (t ++ [⟨.getpeername sock, .ok peerAddr⟩] ++
      [⟨.getsockname sock, .ok localAddr⟩] : List Event).filterMap Event.made = [r] := by
    rw [List.filterMap_append, List.filterMap_append, hmade]
    rfl
  refine Reporting.silent (fun _ => trivial) (fun reply => ?_) fun identSock => ?_
  · cases reply with
    | error errno => rw [Client.report, hmade', if_neg (List.cons_ne_nil r [])]
    | ok _ => rfl
  cases identSock with
  | error _ => exact hdone _ _
  | ok i =>
  refine Reporting.silent (fun _ => trivial) (fun _ => rfl) fun _ => ?_
  refine Reporting.silent (fun _ => trivial) (fun _ => rfl) fun _ => ?_
  refine Reporting.silent (fun _ => trivial) (fun reply => ?_) fun reply => ?_
  · -- there are two sockets now
    cases reply with
    | error errno =>
      rw [Client.report, if_neg]
      rw [List.filterMap_append, List.filterMap_append, List.filterMap_append, hmade']
      exact nofun
    | ok _ => rfl
  cases reply with
  | error _ => exact Reporting.silent (fun _ => trivial) (fun _ => rfl) fun _ => hdone _ _
  | ok _ =>
  refine Reporting.silent (fun _ => trivial) (fun _ => rfl) fun stream => ?_
  cases stream with
  | false => exact Reporting.silent (fun _ => trivial) (fun _ => rfl) fun _ => hdone _ _
  | true =>
  refine Reporting.silent (fun _ => trivial) (fun _ => rfl) fun asked => ?_
  cases asked with
  | false => exact Reporting.silent (fun _ => trivial) (fun _ => rfl) fun _ => hdone _ _
  | true =>
  refine Reporting.silent (fun _ => trivial) (fun _ => rfl) fun answer => ?_
  refine Reporting.silent (fun _ => trivial) (fun _ => rfl) fun _ => ?_
  rw [Exchange.pure_user ⟨peerAddr, localAddr, answer⟩]
  exact hdone _ _

/-- A text is formatted; the next call does not come right after a read. -/
theorem strPrintf_reports (text : Bytes) :
    Reporting client (strPrintf text) t fun buf t' =>
      (buf = some text ∨ buf = none) ∧ Client.afterRead t' = false := by
  refine Reporting.silent (fun _ => trivial) (fun _ => rfl) fun okay => ?_
  have hlast : ∀ reply, Client.afterRead
      (t ++ [(⟨.calloc (text.length + 1), reply⟩ : Event)]) = false := by
    intro reply
    rw [Client.afterRead, List.getLast?_concat]
  cases okay with
  | false => exact ⟨rfl, Or.inr rfl, hlast false⟩
  | true => exact ⟨rfl, Or.inl rfl, hlast true⟩

/-- A write that does not come right after a read is not reported. -/
theorem writeAll_reports {fd : ℤ} {buf : Bytes} (hlast : Client.afterRead t = false)
    (hfree : ∀ reply, client.Unprompted t ⟨.write fd buf, reply⟩) :
    Reporting client (Client.writeAll fd buf) t fun _ _ => True := by
  refine Reporting.silent hfree (fun reply => ?_) fun reply => ?_
  · cases reply with
    | error errno => simp [Client.report, hlast]
    | ok len => simp [Client.report, hlast]
  · cases reply <;> exact ⟨rfl, trivial⟩

theorem sendIdnt_reports (hmade : t.filterMap Event.made = [client.rSock])
    (hne : client.rSock ≠ client.cSock) :
    Reporting client client.sendIdnt t fun _ _ => True := by
  unfold Client.sendIdnt
  split
  case isFalse => exact ⟨rfl, trivial⟩
  case isTrue =>
  refine Reporting.silent (fun _ => trivial) (fun _ => rfl) fun reply => ?_
  cases reply with
  | error _ => exact ⟨rfl, trivial⟩
  | ok localAddr =>
  have hmade' : (t ++ [⟨.getsockname client.cSock, .ok localAddr⟩] : List Event).filterMap
      Event.made = [client.rSock] := by
    rw [List.filterMap_append, hmade]
    rfl
  apply (identLookup_reports hmade' _ _).bind
  intro user t₁ _
  have hip : Reporting client client.ipText t₁ fun _ _ => True := by
    unfold Client.ipText
    split
    · exact ⟨rfl, trivial⟩
    · exact Reporting.silent (fun _ => trivial) (fun _ => rfl) fun _ => ⟨rfl, trivial⟩
  apply hip.bind
  intro ip t₂ _
  have hname : Reporting client (client.hostname ip) t₂ fun _ _ => True := by
    unfold Client.hostname
    split
    · exact Reporting.silent (fun _ => trivial) (fun _ => rfl) fun _ => ⟨rfl, trivial⟩
    · exact ⟨rfl, trivial⟩
  apply hname.bind
  intro hostname t₃ _
  apply (strPrintf_reports _).bind
  rintro _ t₄ ⟨rfl | rfl, hlast⟩
  · exact writeAll_reports hlast fun _ heq => absurd heq hne
  · exact ⟨rfl, trivial⟩

theorem welcome_reports : Reporting client client.welcome t fun _ _ => True := by
  unfold Client.welcome
  split
  · exact ⟨rfl, trivial⟩
  · next welcomeMsg hmsg =>
    apply (strPrintf_reports _).bind
    rintro _ t' ⟨rfl | rfl, hlast⟩
    · exact writeAll_reports hlast fun _ _ => Or.inl ⟨welcomeMsg, hmsg, rfl⟩
    · exact ⟨rfl, trivial⟩

/-! ## The relay -/

/-- After a read, the next call comes right after a read. -/
theorem afterRead_concat (fd : ℤ) (size : ℕ) (reply : Reply (.read fd size)) :
    Client.afterRead (t ++ [⟨.read fd size, reply⟩]) = true := by
  rw [Client.afterRead, List.getLast?_concat]

theorem relayClient_reports (hne : client.rSock ≠ client.cSock) (ready : Bool) :
    Reporting client (client.relayClient ready) t fun _ _ => True := by
  cases ready with
  | false => exact ⟨rfl, trivial⟩
  | true =>
  refine Reporting.silent (fun _ => trivial) (fun reply => ?_) fun reply => ?_
  · cases reply <;> simp [Client.report]
  cases reply with
  | error _ => exact ⟨rfl, trivial⟩
  | ok chunk =>
  dsimp only
  split
  · exact ⟨rfl, trivial⟩
  · refine Reporting.call (fun _ heq => absurd heq hne) fun reply _ => ?_
    cases reply with
    | error errno =>
      rw [Client.report, if_pos (afterRead_concat _ _ _), if_neg hne]
      exact ReportingFrom.report fun t' => ⟨rfl, trivial⟩
    | ok len =>
      rw [Client.report, afterRead_concat]
      dsimp only
      split
      · next hshort =>
        rw [if_pos ⟨rfl, hne, hshort⟩]
        exact ReportingFrom.report fun t' => ⟨rfl, trivial⟩
      · next hfull =>
        rw [if_neg fun h => hfull h.2.2]
        exact ⟨rfl, trivial⟩

theorem relayServer_reports (hne : client.rSock ≠ client.cSock) (ready : Bool) :
    Reporting client (client.relayServer ready) t fun _ _ => True := by
  cases ready with
  | false => exact ⟨rfl, trivial⟩
  | true =>
  refine Reporting.call (fun _ => trivial) fun reply _ => ?_
  cases reply with
  | error errno =>
    rw [Client.report, if_neg hne]
    exact ReportingFrom.report fun t' => ⟨rfl, trivial⟩
  | ok chunk =>
  rw [Client.report, if_neg hne]
  dsimp only
  split
  · exact ReportingFrom.report fun t' => ⟨rfl, trivial⟩
  · refine Reporting.call (fun _ _ => Or.inr ⟨client.rSock, _, chunk, hne, ?_, rfl⟩)
      fun reply _ => ?_
    · exact List.getLast?_concat
    cases reply with
    | error errno =>
      rw [Client.report, if_pos (afterRead_concat _ _ _), if_pos rfl]
      exact ReportingFrom.report fun t' => ⟨rfl, trivial⟩
    | ok len =>
      rw [Client.report, if_neg fun h => h.2.1 rfl]
      exact ⟨rfl, trivial⟩

theorem relayPass_reports (hne : client.rSock ≠ client.cSock) :
    Reporting client client.relayPass t fun _ _ => True := by
  refine Reporting.call (fun _ => trivial) fun reply _ => ?_
  cases reply with
  | error errno => exact ReportingFrom.report fun t' => ⟨rfl, trivial⟩
  | ok revents =>
  obtain ⟨c, r⟩ := revents
  rw [Client.report]
  dsimp only
  split
  · exact ReportingFrom.report fun t' => ⟨rfl, trivial⟩
  · apply (relayClient_reports hne c.pollin).bind
    intro more t' _
    cases more with
    | true => exact relayServer_reports hne r.pollin
    | false => exact ⟨rfl, trivial⟩

theorem relay_reports (hne : client.rSock ≠ client.cSock) (passes : ℕ) :
    Reporting client (client.relay passes) t fun _ _ => True := by
  have hbody : ∀ s : Program.Owing Reply, s.owed = pure () →
      client.relayPass.Sim (Program.Owing.Step client.Unprompted client.report) client.Unused s
        fun more s' => if more then s'.owed = pure () else s'.owed = pure () := by
    rintro ⟨t, _⟩ rfl
    apply (relayPass_reports hne).mono
    rintro more s' ⟨howed, -⟩
    cases more <;> exact howed
  refine (Program.Sim.loop hbody passes rfl).mono fun o s' h => ?_
  cases o <;> exact ⟨h, trivial⟩

/-! ## The thread -/

theorem session_reports (hne : client.rSock ≠ client.cSock) {okay : Bool}
    (hmade : okay = true → t.filterMap Event.made = [client.rSock]) (passes : ℕ) :
    Reporting client (client.session okay passes) t fun _ _ => True := by
  cases okay with
  | false => exact ⟨rfl, trivial⟩
  | true =>
    apply (sendIdnt_reports (hmade rfl) hne).bind
    intro okay t' _
    cases okay with
    | false => exact ⟨rfl, trivial⟩
    | true =>
      apply welcome_reports.bind
      intro okay t'' _
      cases okay with
      | false => exact ⟨rfl, trivial⟩
      | true => exact relay_reports hne passes

/-- Closing a socket is not reported. -/
theorem closeSocket_reports (sock : ℤ) :
    Reporting client (Client.closeSocket sock) t fun _ _ => True := by
  unfold Client.closeSocket
  split
  · exact Program.Sim.perform fun _ _ => ⟨_, .free trivial, rfl, trivial⟩
  · exact ⟨rfl, trivial⟩

theorem free_reports (sockets : Client) :
    Reporting client sockets.free t fun _ _ => True :=
  (closeSocket_reports _).bind fun _ _ _ => closeSocket_reports _

theorem threadMain_reports (passes : ℕ) :
    Reporting client (client.threadMain passes) [] fun _ _ => True := by
  apply (limitWrites_reports client.cSock).bind
  rintro _ t₁ ⟨hmade, hopen⟩
  apply (connect_reports hmade hopen).bind
  rintro ⟨okay, client'⟩ t₂ (heq | ⟨r, hne, hclient', hmade⟩)
  · obtain ⟨rfl, rfl⟩ := Prod.mk.inj heq
    exact (free_reports _).bind fun _ _ _ => ⟨rfl, trivial⟩
  · obtain rfl : client' = { client with rSock := r } := hclient'
    have hsession : Reporting client (Client.session { client with rSock := r } okay passes) t₂
        fun _ _ => True := @session_reports { client with rSock := r } t₂ hne okay hmade passes
    apply hsession.bind
    intro o t₃ _
    cases o with
    | none => exact ⟨rfl, trivial⟩
    | some _ => exact (free_reports _).bind fun _ _ _ => ⟨rfl, trivial⟩

end reporting

namespace Client

variable {client : Client} {t : List Event}

/-- **Failures are reported**: in every run of the thread, whatever the calls reply, each call that
fails in the way of a session is followed at once by its report, as far as there is memory for it;
and outside these reports the client is sent nothing but the welcome message and what was read from
the server. When the thread returns, no report is left out. -/
theorem failures_reported {passes : ℕ} {o : Option (Option Unit)}
    (ht : Program.Trace (client.threadMain passes) t o) (hfresh : Fresh [client.cSock] t) :
    Program.DutifulSoFar client.Unprompted client.report t ∧
      (o.isSome → Program.Dutiful client.Unprompted client.report t) := by
  refine Program.Owing.dutiful (threadMain_reports passes) (fun _ _ h => h.1) ht ?_
  intro t₁ e t₂ heq s hs
  rw [Client.Unused, hs]
  exact hfresh t₁ e t₂ heq

/-- The server closes the connection of the visitor, who is told so. -/
theorem failures_reported_conversation :
    Program.Dutiful visitor.Unprompted visitor.report conversation :=
  (failures_reported trace_conversation (by decide)).2 rfl

end Client

end Ebbnc
