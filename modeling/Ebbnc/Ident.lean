import Ebbnc.Config
import Ebbnc.System

/-!
# The ident lookup

`ident.c`: the daemon asks the ident server on the client's host who the client is.

* `scanReply` — the reply, as `fscanf` takes it apart.
* `identLookup` — the lookup.
* `Exchange` — what a lookup got, and the user it names.
* `LookupRules` — what a state machine has to do about each call of the lookup;
  **`LookupRules.sim`** — the lookup follows such a machine, and finds the user of what it got.
-/

namespace Ebbnc

open Lib

/-- Source: `ident.c` `IDENT_PORT` -/
def identPort : UInt16 := 113

/-- `strlen` of the longest user name that is read, `IDENT_LEN - 1`.
Source: `ident.h` `IDENT_LEN` -/
def maximumUser : ℕ := 255

/-- Source: `misc.c` `setReadTimeout`, `setTimeout` -/
def setReadTimeout (sock timeout : ℤ) : Sys Unit := call (.setsockopt sock (.rcvTimeo timeout))

/-- Source: `misc.c` `setWriteTimeout`, `setTimeout` -/
def setWriteTimeout (sock timeout : ℤ) : Sys Unit := call (.setsockopt sock (.sndTimeo timeout))

/-- The same address with another port; none for the families that have no port here.
Source: `ident.c` `identLookup`, the switch over the families -/
def SockaddrAny.withPort (port : UInt16) : SockaddrAny → Option SockaddrAny
  | .inet addr _ => some (.inet addr port)
  | .inet6 addr _ => some (.inet6 addr port)
  | .other _ => none

/-! ## The reply -/

/-- White space of a format: any amount of white space of the text. -/
def skipSpace (s : Bytes) : Bytes := s.dropWhile isspace

/-- Other characters of a format: themselves. -/
def scanLiteral (literal s : Bytes) : Option Bytes :=
  if literal.isPrefixOf s then some (s.drop literal.length) else none

/-- The three conversions of `"%i, %i : USERID :%*[^:]:%255s\\r\\n"`; none when fewer are made.
Source: `ident.c` `identLookup` -/
def scanReply (s : Bytes) : Option (ℤ × ℤ × Bytes) := do
  let (replyRemotePort, s) ← scanInteger s
  let s ← scanLiteral (ascii ",") s
  let (replyLocalPort, s) ← scanInteger (skipSpace s)
  let s ← scanLiteral (ascii ":") (skipSpace s)
  let s ← scanLiteral (ascii "USERID") (skipSpace s)
  let s ← scanLiteral (ascii ":") (skipSpace s)
  let opsys := s.takeWhile (· != colon)
  let s ← if opsys = [] then none else some (s.drop opsys.length)
  let s ← scanLiteral (ascii ":") s
  let user := ((skipSpace s).takeWhile fun c => !isspace c).take maximumUser
  if user = [] then none else some (toInt replyRemotePort, toInt replyLocalPort, user)

/-! ## The lookup -/

/-- The user, when the lookup is successful.
Source: `ident.c` `identLookup` -/
def identLookup (sock timeout : ℤ) : Sys (Option Bytes) := do
  match ← call (.getpeername sock) with
  | .error _ => pure none
  | .ok peerAddr =>
    match ← call (.getsockname sock) with
    | .error _ => pure none
    | .ok localAddr =>
      match peerAddr.withPort identPort with
      | none => pure none
      | some addr =>
        match ← call (.socket addr.family) with
        | .error _ => pure none
        | .ok identSock => do
          setReadTimeout identSock timeout
          setWriteTimeout identSock timeout
          match ← call (.connect identSock addr) with
          | .error _ => do
            call (.close identSock)
            pure none
          | .ok _ =>
            if ← call (.fdopen identSock) then
              let localPort := portFromSockaddr localAddr
              let remotePort := portFromSockaddr peerAddr
              if ← call (.fprintf identSock
                  (printInt remotePort ++ ascii "," ++ printInt localPort ++ ascii "\r\n")) then
                let reply ← call (.fscanf identSock)
                call (.fclose identSock)
                match scanReply reply with
                | none => pure none
                | some (replyRemotePort, replyLocalPort, user) =>
                  if replyLocalPort = localPort ∧ replyRemotePort = remotePort then
                    pure (some (cstr user))
                  else pure none
              else do
                call (.fclose identSock)
                pure none
            else do
              call (.close identSock)
              pure none

/-! ## What a lookup got -/

/-- What an ident lookup got: the addresses of the two ends of the connection, and the reply. -/
structure Exchange where
  peerAddr : SockaddrAny
  localAddr : SockaddrAny
  reply : Bytes
  deriving DecidableEq

/-- The user text of a reply to this lookup, up to a NUL; none when the port numbers, as an `int`
holds them, are not those of the connection. -/
def Exchange.user (x : Exchange) : Option Bytes := do
  let (replyRemotePort, replyLocalPort, user) ← scanReply x.reply
  if replyLocalPort = portFromSockaddr x.localAddr ∧ replyRemotePort = portFromSockaddr x.peerAddr
  then some (cstr user) else none

/-- The lookup ends with the comparison of the ports. -/
theorem Exchange.pure_user (x : Exchange) :
    (match scanReply x.reply with
      | none => pure none
      | some (replyRemotePort, replyLocalPort, user) =>
        if replyLocalPort = portFromSockaddr x.localAddr ∧
            replyRemotePort = portFromSockaddr x.peerAddr then
          pure (some (cstr user))
        else pure none : Sys (Option Bytes)) = pure x.user := by
  cases hscan : scanReply x.reply with
  | none => simp [user, hscan]
  | some parts =>
    obtain ⟨remote, locl, text⟩ := parts
    by_cases hports : locl = portFromSockaddr x.localAddr ∧ remote = portFromSockaddr x.peerAddr
    · simp [user, hscan, hports]
    · simp [user, hscan, hports]

/-! ## The calls of a lookup -/

/-- The calls on the socket of a lookup before the reply. -/
inductive Syscall.Asks (fd : ℤ) : Syscall → Prop
  | setsockopt (opt : SockOpt) : Asks fd (.setsockopt fd opt)
  | connect (addr : SockaddrAny) : Asks fd (.connect fd addr)
  | fdopen : Asks fd (.fdopen fd)
  | fprintf (text : Bytes) : Asks fd (.fprintf fd text)

/-- The calls that end a descriptor. -/
inductive Syscall.Ends (fd : ℤ) : Syscall → Prop
  | close : Ends fd (.close fd)
  | fclose : Ends fd (.fclose fd)

section rules

variable {σ : Type} (Step : σ → Event → σ → Prop) (Law : σ → Event → Prop) (sock : ℤ)

/-- What a machine has to do about each call of a lookup. Before the lookup has a socket, the
addresses are known as far as the connection was asked for them; as long as it has one, the reply is
known when it has come; after that, what the lookup got. -/
structure LookupRules (before : Option SockaddrAny → Option SockaddrAny → σ → Prop)
    (asking : SockaddrAny → SockaddrAny → Option Bytes → ℕ → σ → Prop)
    (after : Option Exchange → σ → Prop) : Prop where
  getpeername : ∀ s, before none none s → ∀ reply, Law s ⟨.getpeername sock, reply⟩ →
    ∃ s', Step s ⟨.getpeername sock, reply⟩ s' ∧ before reply.toOption none s'
  getsockname : ∀ s p, before (some p) none s → ∀ reply, Law s ⟨.getsockname sock, reply⟩ →
    ∃ s', Step s ⟨.getsockname sock, reply⟩ s' ∧ before (some p) reply.toOption s'
  noSocket : ∀ s p l family errno, before (some p) (some l) s →
    ∃ s', Step s ⟨.socket family, .error errno⟩ s' ∧ after none s'
  socket : ∀ s p l family i, before (some p) (some l) s → Law s ⟨.socket family, .ok i⟩ →
    ∃ s', Step s ⟨.socket family, .ok i⟩ s' ∧ asking p l none i s'
  ask : ∀ s p l i c, asking p l none i s → Syscall.Asks i c → ∀ reply,
    ∃ s', Step s ⟨c, reply⟩ s' ∧ asking p l none i s'
  fscanf : ∀ s p l i, asking p l none i s → ∀ reply,
    ∃ s', Step s ⟨.fscanf i, reply⟩ s' ∧ asking p l (some reply) i s'
  close : ∀ s p l answer i c, asking p l answer i s → Syscall.Ends i c → ∀ reply,
    ∃ s', Step s ⟨c, reply⟩ s' ∧ after (answer.map (Exchange.mk p l)) s'
  stop : ∀ s p l, before p l s → after none s

namespace LookupRules

variable {Step Law sock} {before : Option SockaddrAny → Option SockaddrAny → σ → Prop}
  {asking : SockaddrAny → SockaddrAny → Option Bytes → ℕ → σ → Prop}
  {after : Option Exchange → σ → Prop} {s : σ} {p l : SockaddrAny} {i : ℕ} {c : Syscall}
  {α : Type} {Q : α → σ → Prop} {f : Reply c → Sys α}

/-- A call on the socket of the lookup. -/
theorem ask_call (h : LookupRules Step Law sock before asking after) (hs : asking p l none i s)
    (hc : c.Asks i) (hf : ∀ reply s', asking p l none i s' → Program.Sim Step Law (f reply) s' Q) :
    Program.Sim Step Law (call c >>= f) s Q := by
  apply Program.Sim.call
  intro reply _
  obtain ⟨s', hstep, hs'⟩ := h.ask s p l i c hs hc reply
  exact ⟨s', hstep, hf reply s' hs'⟩

/-- The call that gives the socket back. -/
theorem close_call (h : LookupRules Step Law sock before asking after) {answer : Option Bytes}
    (hs : asking p l answer i s) (hc : c.Ends i)
    (hf : ∀ reply s', after (answer.map (Exchange.mk p l)) s' →
      Program.Sim Step Law (f reply) s' Q) :
    Program.Sim Step Law (call c >>= f) s Q := by
  apply Program.Sim.call
  intro reply _
  obtain ⟨s', hstep, hs'⟩ := h.close s p l answer i c hs hc reply
  exact ⟨s', hstep, hf reply s' hs'⟩

/-- **The lookup follows the machine**, and finds the user of what it got. -/
theorem sim (h : LookupRules Step Law sock before asking after) (hs : before none none s)
    (timeout : ℤ) :
    Program.Sim Step Law (identLookup sock timeout) s fun user s' =>
      ∃ got, user = got.bind Exchange.user ∧ after got s' := by
  apply Program.Sim.call
  intro peerAddr hlaw
  obtain ⟨s, hstep, hs⟩ := h.getpeername s hs peerAddr hlaw
  refine ⟨s, hstep, ?_⟩
  cases peerAddr with
  | error _ => exact ⟨none, rfl, h.stop s _ _ hs⟩
  | ok peerAddr =>
  apply Program.Sim.call
  intro localAddr hlaw
  obtain ⟨s, hstep, hs⟩ := h.getsockname s peerAddr hs localAddr hlaw
  refine ⟨s, hstep, ?_⟩
  cases localAddr with
  | error _ => exact ⟨none, rfl, h.stop s _ _ hs⟩
  | ok localAddr =>
  cases peerAddr.withPort identPort with
  | none => exact ⟨none, rfl, h.stop s _ _ hs⟩
  | some addr =>
  apply Program.Sim.call
  intro identSock hlaw
  cases identSock with
  | error errno =>
    obtain ⟨s, hstep, hs⟩ := h.noSocket s peerAddr localAddr addr.family errno hs
    exact ⟨s, hstep, none, rfl, hs⟩
  | ok identSock =>
  obtain ⟨s, hstep, hs⟩ := h.socket s peerAddr localAddr addr.family identSock hs hlaw
  refine ⟨s, hstep, ?_⟩
  -- from here on every way out closes the socket
  refine h.ask_call hs (.setsockopt _) fun _ s hs => h.ask_call hs (.setsockopt _) ?_
  intro _ s hs
  apply h.ask_call hs (.connect addr)
  intro reply s hs
  cases reply with
  | error _ => exact h.close_call hs .close fun _ _ hs => ⟨none, rfl, hs⟩
  | ok _ =>
  apply h.ask_call hs .fdopen
  intro stream s hs
  cases stream with
  | false => exact h.close_call hs .close fun _ _ hs => ⟨none, rfl, hs⟩
  | true =>
  apply h.ask_call hs (.fprintf _)
  intro asked s hs
  cases asked with
  | false => exact h.close_call hs .fclose fun _ _ hs => ⟨none, rfl, hs⟩
  | true =>
  apply Program.Sim.call
  intro reply _
  obtain ⟨s, hstep, hs⟩ := h.fscanf s peerAddr localAddr identSock hs reply
  refine ⟨s, hstep, h.close_call hs .fclose ?_⟩
  intro _ s hs
  rw [Exchange.pure_user ⟨peerAddr, localAddr, reply⟩]
  exact ⟨some ⟨peerAddr, localAddr, reply⟩, rfl, hs⟩

end LookupRules

end rules

end Ebbnc
