import Ebbnc.Client
import Ebbnc.Lib.Runs

/-!
# The identity line

What the server is told about a client. The user is named by the ident server on the client's host,
which may send anything.

* `replyPorts` — the port numbers of a reply; `exchange` — what the lookup of a run got.
* `Unforged` — what the server relies on when it takes the line apart at its first `@`.
* `Exchange.Harmless` — the lookups that cannot be used for a forgery.
* **`Client.writes_idntLine`** — what is written to the server, in any run.
* **`Client.unforged_iff`** — the line is unforged exactly when the lookup was harmless.
-/

namespace Ebbnc

open Lib

/-- What the server takes as the end of the user. -/
def atSign : UInt8 := 64

/-- What ends the line. -/
def lineFeed : UInt8 := 10

/-! ## The ports of a reply -/

/-- The two port numbers in a reply, as large as they are there. -/
def replyPorts (s : Bytes) : Option (ℤ × ℤ) := do
  let (replyRemotePort, s) ← scanInteger s
  let s ← scanLiteral (ascii ",") s
  let (replyLocalPort, _) ← scanInteger (skipSpace s)
  pure (replyRemotePort, replyLocalPort)

/-- What a reply is made of once the conversions are done: the numbers as an `int` holds them, and a
text without white space. -/
theorem scanReply_eq_some {s user : Bytes} {remote locl : ℤ}
    (h : scanReply s = some (remote, locl, user)) :
    (∃ ports, replyPorts s = some ports ∧ toInt ports.1 = remote ∧ toInt ports.2 = locl) ∧
      ∀ c ∈ user, isspace c = false := by
  simp only [scanReply, Option.bind_eq_bind, Option.bind_eq_some_iff] at h
  obtain ⟨⟨r, s₁⟩, hr, s₂, hcomma, ⟨l, s₃⟩, hl, s₄, -, s₅, -, s₆, -, h⟩ := h
  split_ifs at h with hopsys
  · cases h
  obtain ⟨s₇, -, s₈, -, h⟩ := by simpa only [Option.bind_eq_some_iff] using h
  split_ifs at h with hnil
  simp only [Option.some.injEq, Prod.mk.injEq] at h
  obtain ⟨hremote, hlocal, rfl⟩ := h
  refine ⟨⟨(r, l), ?_, hremote, hlocal⟩, fun c hc => ?_⟩
  · simp [replyPorts, hr, hcomma, hl]
  · simpa using List.mem_takeWhile_imp (List.mem_of_mem_take hc)

namespace Exchange

variable (x : Exchange)

/-- The reply holds the port numbers of the connection. -/
def Carries : Prop :=
  replyPorts x.reply = some (portFromSockaddr x.peerAddr, portFromSockaddr x.localAddr)

/-- The port numbers of the reply fit in an `int`. -/
def Fits : Prop :=
  ∀ ports ∈ replyPorts x.reply, toInt ports.1 = ports.1 ∧ toInt ports.2 = ports.2

instance : Decidable x.Carries := inferInstanceAs (Decidable (_ = _))

instance : Decidable x.Fits := inferInstanceAs (Decidable (∀ ports ∈ replyPorts x.reply, _))

variable {x} {text : Bytes}

/-- A reply with a user for this lookup has such port numbers. -/
theorem ports_of_user (h : x.user = some text) :
    ∃ ports, replyPorts x.reply = some ports ∧ toInt ports.1 = portFromSockaddr x.peerAddr ∧
      toInt ports.2 = portFromSockaddr x.localAddr := by
  obtain ⟨⟨remote, locl, user⟩, hscan, h⟩ := Option.bind_eq_some_iff.mp h
  obtain ⟨⟨ports, hports, hremote, hlocal⟩, -⟩ := scanReply_eq_some hscan
  dsimp only at h
  split_ifs at h with heq
  exact ⟨ports, hports, hremote.trans heq.2, hlocal.trans heq.1⟩

/-- **A reply that is taken carries the ports of the connection** just when nothing was lost of its
numbers. -/
theorem carries_iff_fits (h : x.user = some text) : x.Carries ↔ x.Fits := by
  obtain ⟨⟨remote, locl⟩, hports, hremote, hlocal⟩ := ports_of_user h
  have hcarries : x.Carries ↔
      remote = portFromSockaddr x.peerAddr ∧ locl = portFromSockaddr x.localAddr := by
    simp [Carries, hports]
  have hfits : x.Fits ↔ toInt remote = remote ∧ toInt locl = locl := by
    simp [Fits, hports]
  rw [hcarries, hfits, hremote, hlocal, eq_comm, @eq_comm ℤ locl]

/-- The user text holds no white space. -/
theorem isspace_of_user (h : x.user = some text) : ∀ c ∈ text, isspace c = false := by
  obtain ⟨⟨remote, locl, user⟩, hscan, h⟩ := Option.bind_eq_some_iff.mp h
  dsimp only at h
  split_ifs at h
  obtain rfl := Option.some.inj h
  exact fun c hc => (scanReply_eq_some hscan).2 c ((List.takeWhile_sublist _).subset hc)

end Exchange

/-! ## Reading it off a run -/

/-- The address of the other end of a socket. -/
def Event.peer (sock : ℤ) : Event → Option SockaddrAny
  | ⟨.getpeername fd, .ok addr⟩ => if fd = sock then some addr else none
  | _ => none

/-- The address of this end of a socket. -/
def Event.name (sock : ℤ) : Event → Option SockaddrAny
  | ⟨.getsockname fd, .ok addr⟩ => if fd = sock then some addr else none
  | _ => none

/-- The reply of an ident server. -/
def Event.scanned : Event → Option Bytes
  | ⟨.fscanf _, reply⟩ => some reply
  | _ => none

/-- The text a call of `write` offers to a descriptor. -/
def Event.written (fd : ℤ) : Event → Option Bytes
  | ⟨.write fd' buf, _⟩ => if fd' = fd then some buf else none
  | _ => none

/-- What the last call of its kind got. -/
def latest {β : Type} (f : Event → Option β) (t : List Event) : Option β :=
  (t.filterMap f).getLast?

/-- What the ident lookup of a run got, when it came to the reply. -/
def exchange (sock : ℤ) (t : List Event) : Option Exchange := do
  let reply ← latest Event.scanned t
  let peerAddr ← latest (Event.peer sock) t
  let localAddr ← latest (Event.name sock) t
  pure ⟨peerAddr, localAddr, reply⟩

section exchange

variable {sock : ℤ} {t : List Event} {e : Event}

@[simp] theorem latest_concat {β : Type} (f : Event → Option β) (t : List Event) (e : Event) :
    latest f (t ++ [e]) = (f e).or (latest f t) := by
  cases h : f e <;> simp [latest, h]

/-- Without a reply there is nothing. -/
theorem exchange_of_unanswered (h : latest Event.scanned t = none) : exchange sock t = none := by
  simp [exchange, h]

/-- Calls of other kinds do not change it. -/
theorem exchange_concat (hpeer : e.peer sock = none) (hname : e.name sock = none)
    (hscanned : e.scanned = none) : exchange sock (t ++ [e]) = exchange sock t := by
  simp [exchange, hpeer, hname, hscanned]

end exchange

/-! ## What the server relies on -/

/-- The server takes the line apart at its first `@`. In front of it is a user and behind it the
address of the client, there is no other line, and an ident server that does not know the ports of
the connection has no say in who the user is. -/
structure Unforged (ip : Bytes) (got : Option Exchange) (line : Bytes) : Prop where
  single : line.count lineFeed = 1
  ended : line.getLast? = some lineFeed
  split : ∃ user rest, line = ascii "IDNT " ++ (user ++ atSign :: rest) ∧ atSign ∉ user ∧
    user ≠ [] ∧ ip ++ [colon] <+: rest ∧ (user = ascii "*" ∨ ∃ x ∈ got, x.Carries)

/-- What stands in front of the first `@` once a user text is in the line: all of the text, or what
is in front of an `@` of its own that the address and a colon follow. -/
def ReadsAs (ip text user : Bytes) : Prop :=
  atSign ∉ user ∧ (text = user ∨ ∃ more, text = user ++ atSign :: more ∧ ip ++ [colon] <+: more)

/-- A lookup that cannot be used for a forgery: if there is a user text, it reads as a user that is
not empty, and unless that is `*` the port numbers of the reply fit in an `int`. -/
def Exchange.Harmless (ip : Bytes) (x : Exchange) : Prop :=
  ∀ text ∈ x.user, ∃ user, ReadsAs ip text user ∧ user ≠ [] ∧ (user = ascii "*" ∨ x.Fits)

section unforged

variable {ip text hostname user rest : Bytes} {got : Option Exchange}

/-- Where the line of a text is split. -/
theorem readsAs_iff (hip : atSign ∉ ip) : ReadsAs ip text user ↔ atSign ∉ user ∧
    ∃ more, text ++ atSign :: (ip ++ colon :: rest) = user ++ atSign :: more ∧
      ip ++ [colon] <+: more := by
  have hcolon : atSign ∉ ip ++ [colon] := by
    simpa [hip] using (by decide : atSign ≠ colon)
  refine and_congr_right fun huser => ?_
  constructor
  · rintro (rfl | ⟨more, rfl, hmore⟩)
    · exact ⟨ip ++ colon :: rest, rfl, ⟨rest, by simp⟩⟩
    · exact ⟨_, by rw [List.append_assoc, List.cons_append],
        (isPrefix_append_cons_iff hcolon).mpr hmore⟩
  · rintro ⟨more, hline, hmore⟩
    by_cases htext : atSign ∈ text
    · -- the text is split at an `@` of its own
      obtain ⟨start, own, rfl, hstart⟩ := List.eq_append_cons_of_mem htext
      rw [List.append_assoc, List.cons_append] at hline
      obtain ⟨rfl, rfl⟩ := (append_cons_inj hstart huser).mp hline
      exact Or.inr ⟨own, rfl, (isPrefix_append_cons_iff hcolon).mp hmore⟩
    · exact Or.inl ((append_cons_inj htext huser).mp hline).1

/-- **The line of a user text** is unforged just when it reads as a user that may be named. -/
theorem unforged_idntLine_iff (hip : ∀ c ∈ ip, isAddressChar c = true) (htext : lineFeed ∉ text)
    (hhost : lineFeed ∉ hostname) : Unforged ip got (Client.idntLine text ip hostname) ↔
      ∃ user, ReadsAs ip text user ∧ user ≠ [] ∧ (user = ascii "*" ∨ ∃ x ∈ got, x.Carries) := by
  have hline : Client.idntLine text ip hostname = ascii "IDNT " ++
      (text ++ atSign :: (ip ++ colon :: (hostname ++ [lineFeed]))) := by
    simp only [Client.idntLine, List.append_assoc]
    rfl
  have hat : atSign ∉ ip := fun h => absurd (hip atSign h) (by decide)
  have hfeed : lineFeed ∉ ip := fun h => absurd (hip lineFeed h) (by decide)
  constructor
  · rintro ⟨-, -, user, more, hsplit, huser, hne, hmore, hnamed⟩
    rw [hline, List.append_cancel_left_eq] at hsplit
    exact ⟨user, (readsAs_iff hat).mpr ⟨huser, more, hsplit, hmore⟩, hne, hnamed⟩
  · rintro ⟨user, hreads, hne, hnamed⟩
    obtain ⟨huser, more, hsplit, hmore⟩ := (readsAs_iff hat).mp hreads
    refine ⟨?_, ?_, user, more, by rw [hline, hsplit], huser, hne, hmore, hnamed⟩
    · have hstart : (ascii "IDNT ").count lineFeed = 0 := by decide
      have hother : (atSign == lineFeed) = false ∧ (colon == lineFeed) = false := by decide
      simp [hline, hstart, hother, List.count_cons, List.count_eq_zero_of_not_mem, htext, hfeed,
        hhost]
    · exact List.getLast?_concat

end unforged

/-! ## What is written -/

namespace Client

variable (client : Client)

/-- The user text the run has found, `*` when there is none. -/
def foundUser (t : List Event) : Bytes :=
  ((exchange client.cSock t).bind Exchange.user).getD (ascii "*")

/-- After a run, a call that writes to the server writes the identity line of the user that was
found, with the address or the name of the client's host. -/
def Says (ip : Bytes) (t : List Event) (e : Event) : Prop :=
  ∀ line ∈ e.written client.rSock, ∃ hostname,
    line = idntLine (client.foundUser t) ip hostname ∧
      (hostname = ip ∨ ⟨.getnameinfo client.cAddr, some hostname⟩ ∈ t)

variable {client} {α : Type} {ip : Bytes} {t : List Event} {Q : α → List Event → Prop}

/-- Calls of other kinds find no other user. -/
theorem foundUser_concat {e : Event} (hpeer : e.peer client.cSock = none)
    (hname : e.name client.cSock = none) (hscanned : e.scanned = none) :
    client.foundUser (t ++ [e]) = client.foundUser t := by
  rw [foundUser, exchange_concat hpeer hname hscanned, foundUser]

/-- The program writes nothing else to the server. -/
abbrev Tells (client : Client) (ip : Bytes) (p : Sys α) (t : List Event)
    (Q : α → List Event → Prop) : Prop :=
  p.Sim (Program.Recorder (client.Says ip)) (fun _ _ => True) t Q

/-- A call that does not write is remembered. -/
theorem records {e : Event} (he : e.written client.rSock = none) :
    Program.Recorder (client.Says ip) t e (t ++ [e]) := by
  refine ⟨?_, rfl⟩
  intro line hline
  rw [he] at hline
  cases hline

/-- A call that does not write. -/
theorem Tells.call {c : Syscall} {f : Reply c → Sys α}
    (hc : ∀ reply, Event.written client.rSock ⟨c, reply⟩ = none)
    (h : ∀ reply, client.Tells ip (f reply) (t ++ [⟨c, reply⟩]) Q) :
    client.Tells ip (call c >>= f) t Q := by
  apply Program.Sim.call
  intro reply _
  exact ⟨t ++ [⟨c, reply⟩], records (hc reply), h reply⟩

/-- The calls of a lookup write nothing to the server, and the run knows what they get. -/
theorem lookupRules (client : Client) (ip : Bytes) :
    LookupRules (Program.Recorder (client.Says ip)) (fun _ _ => True) client.cSock
      (fun p l t => latest Event.scanned t = none ∧
        (∀ addr ∈ p, latest (Event.peer client.cSock) t = some addr) ∧
        ∀ addr ∈ l, latest (Event.name client.cSock) t = some addr)
      (fun p l answer _ t => latest Event.scanned t = answer ∧
        latest (Event.peer client.cSock) t = some p ∧ latest (Event.name client.cSock) t = some l)
      (fun got t => exchange client.cSock t = got) where
  getpeername t hs reply _ := by
    refine ⟨_, records rfl, by simp [hs.1, Event.scanned], ?_, nofun⟩
    -- a call that fails says nothing of the address
    cases reply with
    | error _ => nofun
    | ok addr =>
      rintro _ ⟨⟩
      simp [Event.peer]
  getsockname t p hs reply _ := by
    refine ⟨_, records rfl, by simp [hs.1, Event.scanned], ?_, ?_⟩
    · rintro _ ⟨⟩
      simp [hs.2.1 p rfl, Event.peer]
    · cases reply with
      | error _ => nofun
      | ok addr =>
        rintro _ ⟨⟩
        simp [Event.name]
  noSocket t p l family errno hs := by
    refine ⟨_, records rfl, exchange_of_unanswered ?_⟩
    simp [hs.1, Event.scanned]
  socket t p l family i hs _ := by
    refine ⟨_, records rfl, ?_⟩
    simp [hs.1, hs.2.1 p rfl, hs.2.2 l rfl, Event.scanned, Event.peer, Event.name]
  ask t p l i c hs hc reply := by
    cases hc <;> exact ⟨_, records rfl, by simpa [Event.scanned, Event.peer, Event.name] using hs⟩
  fscanf t p l i hs reply := by
    refine ⟨_, records rfl, ?_⟩
    simp [hs.2, Event.scanned, Event.peer, Event.name]
  close t p l answer i c hs hc reply := by
    obtain ⟨hanswer, hp, hl⟩ := hs
    have hgot : exchange client.cSock t = answer.map (Exchange.mk p l) := by
      cases answer <;> simp [exchange, hanswer, hp, hl]
    cases hc <;> exact ⟨_, records rfl, (exchange_concat rfl rfl rfl).trans hgot⟩
  stop t p l hs := exchange_of_unanswered hs.1

/-- **The lookup** finds the user of what it got. -/
theorem identLookup_tells (ht : latest Event.scanned t = none) (timeout : ℤ) :
    client.Tells ip (identLookup client.cSock timeout) t fun user t' =>
      user = (exchange client.cSock t').bind Exchange.user := by
  refine ((client.lookupRules ip).sim ⟨ht, nofun, nofun⟩ timeout).mono ?_
  rintro user t' ⟨got, rfl, rfl⟩
  rfl

/-- The host is named after its address, or by a reply. -/
theorem hostname_tells : client.Tells ip (client.hostname ip) t fun hostname t' =>
    client.foundUser t' = client.foundUser t ∧
      (hostname = ip ∨ ⟨.getnameinfo client.cAddr, some hostname⟩ ∈ t') := by
  unfold hostname
  split
  · refine Tells.call (fun _ => rfl) ?_
    intro name
    refine ⟨foundUser_concat rfl rfl rfl, ?_⟩
    cases name with
    | none => exact Or.inl rfl
    | some hostname => exact Or.inr (by simp)
  · exact ⟨rfl, Or.inl rfl⟩

/-- A line that may be written is. -/
theorem writeAll_tells {buf : Bytes}
    (h : ∃ hostname, buf = idntLine (client.foundUser t) ip hostname ∧
      (hostname = ip ∨ ⟨.getnameinfo client.cAddr, some hostname⟩ ∈ t)) :
    client.Tells ip (writeAll client.rSock buf) t fun _ _ => True := by
  apply Program.Sim.call
  intro reply _
  refine ⟨t ++ [⟨.write client.rSock buf, reply⟩], ⟨?_, rfl⟩, ?_⟩
  · intro line hline
    have hbuf : buf = line := by simpa [Event.written] using hline
    exact hbuf ▸ h
  · cases reply <;> trivial

/-- **The identity line** is all that is written to the server. -/
theorem sendIdnt_tells (hip : ipFromSockaddr client.cAddr = some ip) :
    client.Tells ip client.sendIdnt [] fun _ _ => True := by
  have htext : client.ipText = pure ip := by rw [ipText, hip]
  unfold sendIdnt
  split
  · refine Tells.call (fun _ => rfl) ?_
    intro localAddr
    cases localAddr with
    | error _ => trivial
    | ok localAddr =>
      apply (identLookup_tells (by rfl) _).bind
      rintro user t rfl
      rw [htext]
      apply hostname_tells.bind
      rintro hostname t' ⟨huser, hhost⟩
      refine Tells.call (fun _ => rfl) ?_
      intro okay
      cases okay with
      | false => trivial
      | true =>
        refine writeAll_tells ⟨hostname, ?_, hhost.imp_right (List.mem_append_left _)⟩
        rw [foundUser_concat rfl rfl rfl, huser, foundUser]
  · trivial

/-- **What is written to the server** is the identity line of the user that was found, with the
client's address and the name of its host. -/
theorem writes_idntLine (hip : ipFromSockaddr client.cAddr = some ip) {before after : List Event}
    {line : Bytes} {reply : Reply (.write client.rSock line)} {o : Option Bool}
    (ht : Program.Trace client.sendIdnt
      (before ++ ⟨.write client.rSock line, reply⟩ :: after) o) :
    ∃ hostname, line = idntLine (client.foundUser before) ip hostname ∧
      (hostname = ip ∨ ⟨.getnameinfo client.cAddr, some hostname⟩ ∈ before) :=
  (sendIdnt_tells hip).along ht before _ after rfl line (if_pos rfl)

/-! ## When the line cannot be forged -/

/-- **When the line cannot be forged**: in every run, finished or not, what is written to the server
is unforged exactly when the lookup of the run, if it came to a reply, was harmless. -/
theorem unforged_iff (hip : ipFromSockaddr client.cAddr = some ip) {before after : List Event}
    {line : Bytes} {reply : Reply (.write client.rSock line)} {o : Option Bool}
    (ht : Program.Trace client.sendIdnt
      (before ++ ⟨.write client.rSock line, reply⟩ :: after) o)
    (hnames : ∀ name, ⟨.getnameinfo client.cAddr, some name⟩ ∈ before → lineFeed ∉ name) :
    Unforged ip (exchange client.cSock before) line ↔
      ∀ x ∈ exchange client.cSock before, x.Harmless ip := by
  obtain ⟨hostname, rfl, hhost⟩ := writes_idntLine hip ht
  have hchars := ipFromSockaddr_chars hip
  have hhostname : lineFeed ∉ hostname := by
    rcases hhost with rfl | hmem
    · exact fun h => absurd (hchars lineFeed h) (by decide)
    · exact hnames hostname hmem
  have hstar : ∀ got : Option Exchange, ∃ user, ReadsAs ip (ascii "*") user ∧ user ≠ [] ∧
      (user = ascii "*" ∨ ∃ x ∈ got, x.Carries) := fun _ =>
    ⟨ascii "*", ⟨by decide, Or.inl rfl⟩, by decide, Or.inl rfl⟩
  unfold foundUser
  cases exchange client.cSock before with
  | none =>
    rw [Option.bind_none, Option.getD_none,
      unforged_idntLine_iff hchars (by decide) hhostname]
    exact iff_of_true (hstar none) nofun
  | some x =>
    cases htext : x.user with
    | none =>
      rw [Option.bind_some, htext, Option.getD_none,
        unforged_idntLine_iff hchars (by decide) hhostname]
      simpa [Exchange.Harmless, htext] using hstar (some x)
    | some text =>
      have hfeed : lineFeed ∉ text := fun h =>
        absurd (Exchange.isspace_of_user htext lineFeed h) (by decide)
      rw [Option.bind_some, htext, Option.getD_some,
        unforged_idntLine_iff hchars hfeed hhostname]
      simp [Exchange.Harmless, htext, Exchange.carries_iff_fits htext]

/-- A client of a bouncer, connected to the server. -/
def guest : Client where
  cSock := 4
  cAddr := .inet #v[10, 0, 0, 1] 1025
  rSock := 5
  config := { Config.new with dnsLookup := false }
  bouncer := ⟨some (ascii "10.0.0.2"), 2000, some (ascii "10.0.0.3"), 21, none⟩

/-- A run up to the line, with a reply of the ident server. -/
def asked (reply line : Bytes) : List Event :=
  [⟨.getsockname 4, .ok (.inet #v[10, 0, 0, 2] 2000)⟩,
    ⟨.getpeername 4, .ok (.inet #v[10, 0, 0, 1] 1025)⟩,
    ⟨.getsockname 4, .ok (.inet #v[10, 0, 0, 2] 2000)⟩,
    ⟨.socket 2, .ok 6⟩,
    ⟨.setsockopt 6 (.rcvTimeo 10), ()⟩,
    ⟨.setsockopt 6 (.sndTimeo 10), ()⟩,
    ⟨.connect 6 (.inet #v[10, 0, 0, 1] 113), .ok ()⟩,
    ⟨.fdopen 6, true⟩,
    ⟨.fprintf 6 (ascii "1025,2000\r\n"), true⟩,
    ⟨.fscanf 6, reply⟩,
    ⟨.fclose 6, ()⟩,
    ⟨.calloc (line.length + 1), true⟩]

/-- The reply and the line of a user without an `@`. -/
def plainReply : Bytes := ascii "1025, 2000 : USERID : UNIX : joe\r\n"

def plainLine : Bytes := ascii "IDNT joe@10.0.0.1:10.0.0.1\n"

/-- What the lookup of such a run got. -/
theorem exchange_asked (reply line : Bytes) : exchange guest.cSock (asked reply line) =
    some ⟨.inet #v[10, 0, 0, 1] 1025, .inet #v[10, 0, 0, 2] 2000, reply⟩ := rfl

/-- A user without an `@` is harmless. -/
theorem unforged_plainLine : Unforged (ascii "10.0.0.1")
    (exchange guest.cSock (asked plainReply plainLine)) plainLine := by
  have ht : Program.Trace guest.sendIdnt
      (asked plainReply plainLine ++ [⟨.write guest.rSock plainLine, .ok 27⟩]) (some true) := by
    unfold asked
    repeat refine .call _ ?_
    exact .ret _
  refine (unforged_iff (by decide) ht (by simp [asked])).mpr ?_
  rw [exchange_asked]
  rintro x ⟨⟩ text htext
  obtain rfl : ascii "joe" = text := Option.some.inj ((by decide : _ = _).symm.trans htext)
  exact ⟨ascii "joe", ⟨by decide, Or.inl rfl⟩, by decide, Or.inr (by decide)⟩

/-- The reply of an ident server that names a user with another address, and the line. -/
def forgedReply : Bytes := ascii "1025, 2000 : USERID : UNIX : root@10.9.9.9:mars\r\n"

def forgedLine : Bytes := ascii "IDNT root@10.9.9.9:mars@10.0.0.1:10.0.0.1\n"

/-- **A forged line**: the address the server finds in it is the one the ident server put there. -/
theorem not_unforged_forgedLine :
    ipFromSockaddr guest.cAddr = some (ascii "10.0.0.1") ∧
      Program.Trace guest.sendIdnt
        (asked forgedReply forgedLine ++ [⟨.write guest.rSock forgedLine, .ok 42⟩]) (some true) ∧
      ¬ Unforged (ascii "10.0.0.1") (exchange guest.cSock (asked forgedReply forgedLine))
        forgedLine := by
  refine ⟨by decide, ?_, ?_⟩
  · unfold asked
    repeat refine .call _ ?_
    exact .ret _
  · rintro ⟨-, -, user, rest, hline, huser, -, haddress, -⟩
    have hsplit : forgedLine = ascii "IDNT " ++
        (ascii "root" ++ atSign :: ascii "10.9.9.9:mars@10.0.0.1:10.0.0.1\n") := rfl
    rw [hsplit, List.append_cancel_left_eq] at hline
    obtain ⟨-, rfl⟩ := (append_cons_inj (by decide) huser).mp hline
    revert haddress
    decide

end Client

end Ebbnc
