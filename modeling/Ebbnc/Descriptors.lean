import Ebbnc.Lib.Ledger
import Ebbnc.Streams

/-!
# The descriptors of a client thread

What a thread makes, uses and closes: its own connection, the socket for the server and the socket
for the ident server. The thread follows a machine whose states say which of them it holds.

* `descriptors` — descriptors as resources; `Syscall.uses` — the descriptors a call is made on.
* `Custody`, `Custody.Step` — what the thread holds, and what it may do with it.
* `identLookup_keeps`, `Client.connect_keeps`, …, `Client.free_keeps` — each part of the thread
  follows the machine.
* **`Client.threadMain_closes`** — what is closed when the thread returns, and when.
-/

namespace Ebbnc

open Lib

/-- The descriptors a call is made on. -/
def Syscall.uses : Syscall → List ℤ
  | .setsockopt fd _ => [fd]
  | .bind fd _ => [fd]
  | .connect fd _ => [fd]
  | .getsockname fd => [fd]
  | .getpeername fd => [fd]
  | .poll fd₀ fd₁ _ => [fd₀, fd₁]
  | .read fd _ => [fd]
  | .write fd _ => [fd]
  | .close fd => [fd]
  | .fdopen fd => [fd]
  | .fprintf fd _ => [fd]
  | .fscanf fd => [fd]
  | .fclose fd => [fd]
  | _ => []

/-- The descriptor a call writes to. -/
def Syscall.writes : Syscall → Option ℤ
  | .write fd _ => some fd
  | .fprintf fd _ => some fd
  | _ => none

/-- A call that neither makes nor ends a descriptor. -/
def Syscall.Plain : Syscall → Prop
  | .socket _ => False
  | .close _ => False
  | .fclose _ => False
  | _ => True

/-- Descriptors as resources. -/
def descriptors : Ledger Event ℤ where
  uses e := e.1.uses
  made := Event.made
  ended := Event.ended

/-- A call that offers something to a descriptor writes to it. -/
theorem Event.writes_of_puts {fd : ℤ} {e : Event} (h : e.puts fd ≠ none) :
    e.1.writes = some fd := by
  unfold Event.puts at h
  split at h
  · split_ifs at h with heq
    · exact congrArg some heq
    · exact absurd rfl h
  · split_ifs at h with heq
    · exact congrArg some heq
    · exact absurd rfl h
  · exact absurd rfl h

/-- A write is made on the one descriptor. -/
theorem Syscall.uses_of_writes {c : Syscall} {fd : ℤ} (h : c.writes = some fd) : c.uses = [fd] := by
  cases c <;> first | cases h; rfl | cases h

/-- It ends none. -/
theorem Event.ended_of_writes {e : Event} {fd : ℤ} (h : e.1.writes = some fd) : e.ended = none := by
  obtain ⟨c, reply⟩ := e
  cases c <;> first | rfl | cases h

/-- A plain call makes no descriptor. -/
theorem Syscall.Plain.made {c : Syscall} (h : c.Plain) (reply : Reply c) :
    Event.made ⟨c, reply⟩ = none := by
  cases c <;> first | rfl | exact h.elim

/-- It ends none, either. -/
theorem Syscall.Plain.ended {c : Syscall} (h : c.Plain) (reply : Reply c) :
    Event.ended ⟨c, reply⟩ = none := by
  cases c <;> first | rfl | exact h.elim

/-- What a call ends it is made on. -/
theorem descriptors_ended (e : Event) : ∀ fd ∈ descriptors.ended e, fd ∈ descriptors.uses e := by
  obtain ⟨c, reply⟩ := e
  intro fd hfd
  cases c with
  | close fd' => exact List.mem_singleton.mpr (Option.some.inj hfd).symm
  | fclose fd' => exact List.mem_singleton.mpr (Option.some.inj hfd).symm
  | _ => cases hfd

/-! ## Who holds what -/

/-- What a thread holds besides its own connection, and how far it has come with it. -/
inductive Custody
  /-- Nothing. -/
  | alone
  /-- The socket for the server, to which nothing was written. -/
  | paired (r : ℤ)
  /-- The sockets for the server and for the ident server. -/
  | asking (r i : ℤ)
  /-- The socket for the server; that for the ident server, if there was one, is closed. -/
  | settled (r : ℤ) (i : Option ℤ)
  /-- The socket for the server only. -/
  | parting (r : ℤ) (i : Option ℤ)
  /-- Everything is closed. -/
  | closed (r i : Option ℤ)

namespace Custody

variable (cSock : ℤ)

/-- The descriptors held. -/
def held : Custody → List ℤ
  | alone => [cSock]
  | paired r => [r, cSock]
  | asking r i => [i, r, cSock]
  | settled r _ => [r, cSock]
  | parting r _ => [r]
  | closed _ _ => []

/-- The descriptors made so far. -/
def made : Custody → List ℤ
  | alone => []
  | paired r => [r]
  | asking r i => [r, i]
  | settled r i => r :: i.toList
  | parting r i => r :: i.toList
  | closed r i => r.toList ++ i.toList

/-- The socket for the server is held and no other one is. -/
inductive Resting (r : ℤ) : Option ℤ → Custody → Prop
  | paired : Resting r none (paired r)
  | settled {i : Option ℤ} : Resting r i (settled r i)

/-- What can happen next. -/
inductive Step : Custody → Event → Custody → Prop
  | tame {s : Custody} {e : Event} (huses : ∀ fd ∈ e.1.uses, fd ∈ s.held cSock)
      (hwrites : ∀ fd ∈ e.1.writes, fd = cSock) (hplain : e.1.Plain) : Step s e s
  | socket {family fd : ℕ} (hc : (fd : ℤ) ≠ cSock) :
      Step alone ⟨.socket family, .ok fd⟩ (paired fd)
  | noSocket {s : Custody} {family : ℕ} {errno : Errno} :
      Step s ⟨.socket family, .error errno⟩ s
  | ident {r : ℤ} {family fd : ℕ} (hc : (fd : ℤ) ≠ cSock) (hr : (fd : ℤ) ≠ r) :
      Step (paired r) ⟨.socket family, .ok fd⟩ (asking r fd)
  | ask {r i : ℤ} {e : Event} (huses : e.1.uses = [i]) (hplain : e.1.Plain) :
      Step (asking r i) e (asking r i)
  | answered {r i : ℤ} {e : Event} (huses : e.1.uses = [i]) (hended : e.ended = some i)
      (hmade : e.made = none) : Step (asking r i) e (settled r (some i))
  | serve {s : Custody} {r : ℤ} {i : Option ℤ} {e : Event} (h : Resting r i s)
      (huses : e.1.uses = [r]) (hplain : e.1.Plain) : Step s e (settled r i)
  | closeAlone : Step alone ⟨.close cSock, ()⟩ (closed none none)
  | closeClient {s : Custody} {r : ℤ} {i : Option ℤ} (h : Resting r i s) :
      Step s ⟨.close cSock, ()⟩ (parting r i)
  | closeServer {r : ℤ} {i : Option ℤ} : Step (parting r i) ⟨.close r, ()⟩ (closed (some r) i)

/-- A descriptor that is made is not held. -/
def Law (s : Custody) (e : Event) : Prop := ∀ fd ∈ e.made, fd ∉ s.held cSock

/-! ## What a path says -/

/-- What is held, what was made and that these are different. -/
structure Invariant (t : List Event) (s : Custody) : Prop where
  held : openAfter [cSock] t = s.held cSock
  made : t.filterMap Event.made = s.made
  nodup : (cSock :: s.made).Nodup

variable {cSock} {s s' : Custody} {e : Event} {t : List Event} {r : ℤ} {i : Option ℤ}

theorem Resting.held (h : Resting r i s) : s.held cSock = [r, cSock] := by cases h <;> rfl

theorem Resting.made (h : Resting r i s) : s.made = r :: i.toList := by cases h <;> rfl

/-- Every call is made on what is held. -/
theorem Step.uses_held (h : Step cSock s e s') : ∀ fd ∈ e.1.uses, fd ∈ s.held cSock := by
  cases h with
  | tame huses _ _ => exact huses
  | socket _ => exact nofun
  | noSocket => exact nofun
  | ident _ _ => exact nofun
  | ask huses _ => simp [huses, Custody.held]
  | answered huses _ _ => simp [huses, Custody.held]
  | serve h huses _ => simp [huses, h.held]
  | closeAlone => simp [Syscall.uses, Custody.held]
  | closeClient h => simp [Syscall.uses, h.held]
  | closeServer => simp [Syscall.uses, Custody.held]

/-- What was made after a step. -/
theorem Step.made_eq (h : Step cSock s e s') : s'.made = s.made ++ e.made.toList := by
  cases h with
  | tame _ _ hplain => rw [hplain.made, Option.toList_none, List.append_nil]
  | socket _ => rfl
  | noSocket => exact (List.append_nil _).symm
  | ident _ _ => rfl
  | ask _ hplain => rw [hplain.made, Option.toList_none, List.append_nil]
  | answered _ _ hmade => rw [hmade, Option.toList_none, List.append_nil]; rfl
  | serve h _ hplain => rw [h.made, hplain.made, Option.toList_none, List.append_nil]; rfl
  | closeAlone => rfl
  | closeClient h => rw [h.made]; exact (List.append_nil _).symm
  | closeServer => exact (List.append_nil _).symm

/-- The descriptors stay different. -/
theorem Step.nodup (h : Step cSock s e s') (hs : (cSock :: s.made).Nodup) :
    (cSock :: s'.made).Nodup := by
  rw [h.made_eq, ← List.cons_append]
  cases h with
  | tame _ _ hplain => simpa [hplain.made] using hs
  | socket hc => simp [Event.made, Custody.made, hc.symm]
  | noSocket => simpa [Event.made] using hs
  | ident hc hr =>
      have hcr : cSock ≠ _ := fun heq => (List.nodup_cons.mp hs).1 (List.mem_singleton.mpr heq)
      simp [Event.made, Custody.made, hc.symm, hr.symm, hcr]
  | ask _ hplain => simpa [hplain.made] using hs
  | answered _ _ hmade => simpa [hmade] using hs
  | serve h _ hplain => simpa [hplain.made] using hs
  | closeAlone => simpa [Event.made] using hs
  | closeClient h => simpa [Event.made] using hs
  | closeServer => simpa [Event.made] using hs

/-- What is held after a step. -/
theorem Step.opened_eq (h : Step cSock s e s') (hs : (cSock :: s.made).Nodup) :
    opened (s.held cSock) e = s'.held cSock := by
  cases h with
  | tame _ _ hplain => exact opened_of_none _ (hplain.made _) (hplain.ended _)
  | socket hc => rfl
  | noSocket => exact opened_of_none _ rfl rfl
  | ident hc hr => rfl
  | ask _ hplain => exact opened_of_none _ (hplain.made _) (hplain.ended _)
  | @answered r i e _ hended hmade =>
      have hic : i ≠ cSock := fun heq => by simp [Custody.made, heq] at hs
      have hir : i ≠ r := fun heq => by simp [Custody.made, heq] at hs
      simp [opened, hmade, hended, Custody.held, hic, hir]
  | serve h _ hplain =>
      rw [opened_of_none _ (hplain.made _) (hplain.ended _), h.held]
      rfl
  | closeAlone => simp [opened, Event.made, Event.ended, Custody.held]
  | @closeClient s r i h =>
      have hcr : cSock ≠ r := fun heq => by simp [h.made, heq] at hs
      rw [h.held]
      simp [opened, Event.made, Event.ended, Custody.held, hcr]
  | closeServer => simp [opened, Event.made, Event.ended, Custody.held]

/-- **What a path says** of the descriptors. -/
theorem invariant_of_path (h : Path (Step cSock) alone t s) : Invariant cSock t s := by
  induction h with
  | refl => exact ⟨rfl, rfl, List.nodup_singleton _⟩
  | @step t s s' e h hstep ih =>
      refine ⟨?_, ?_, hstep.nodup ih.nodup⟩
      · rw [openAfter_concat, ih.held, hstep.opened_eq ih.nodup]
      · rw [List.filterMap_append, ih.made, hstep.made_eq]
        cases hmade : e.made <;> simp [hmade]

/-- Nothing is used that is not held. -/
theorem careful_of_path (h : Path (Step cSock) alone t s) : descriptors.Careful [cSock] t := by
  induction h with
  | refl => exact along_nil
  | @step t s s' e h hstep ih =>
      refine along_concat.mpr ⟨ih, ?_⟩
      have hheld : descriptors.heldAfter [cSock] t = s.held cSock := (invariant_of_path h).held
      rw [hheld]
      exact hstep.uses_held

/-! ## After the first write to the server -/

/-- Nothing will be made any more. -/
def Sealed : Custody → Prop
  | settled _ _ => True
  | parting _ _ => True
  | closed _ _ => True
  | _ => False

/-- A write to the server seals; no other socket is held then. -/
theorem Step.of_writes (h : Step cSock s e s') (hs : (cSock :: s.made).Nodup)
    (hserver : s.made.head? = some r) (hwrites : e.1.writes = some r) :
    s'.Sealed ∧ s.held cSock = [r, cSock] := by
  obtain ⟨rest, hmade⟩ := List.head?_eq_some_iff.mp hserver
  have hc : r ≠ cSock := by
    rintro rfl
    simp [hmade] at hs
  cases h with
  | tame _ htame _ => exact absurd (htame r hwrites) hc
  | socket _ => cases hwrites
  | noSocket => cases hwrites
  | ident _ _ => cases hwrites
  | ask huses _ =>
      rw [Syscall.uses_of_writes hwrites] at huses
      obtain rfl := (List.cons.inj huses).1
      obtain rfl := (List.cons.inj hmade).1
      simp [Custody.made] at hs
  | answered huses hended _ =>
      rw [Event.ended_of_writes hwrites] at hended
      cases hended
  | serve h huses _ =>
      rw [Syscall.uses_of_writes hwrites] at huses
      obtain rfl := (List.cons.inj huses).1
      exact ⟨trivial, h.held⟩
  | closeAlone => cases hwrites
  | closeClient _ => cases hwrites
  | closeServer => cases hwrites

/-- A step of a sealed thread. -/
theorem Step.of_sealed (h : Step cSock s e s') (hs : s.Sealed) : s'.Sealed ∧ s'.made = s.made := by
  cases h with
  | tame _ _ _ => exact ⟨hs, rfl⟩
  | socket _ => exact hs.elim
  | noSocket => exact ⟨hs, rfl⟩
  | ident _ _ => exact hs.elim
  | ask _ _ => exact hs.elim
  | answered _ _ _ => exact hs.elim
  | serve h _ _ => exact ⟨trivial, h.made.symm⟩
  | closeAlone => exact hs.elim
  | closeClient h => exact ⟨trivial, h.made.symm⟩
  | closeServer => exact ⟨trivial, rfl⟩

/-- Once sealed, a thread makes nothing. -/
theorem made_of_sealed (h : Path (Step cSock) s t s') (hs : s.Sealed) :
    s'.Sealed ∧ s'.made = s.made := by
  induction h with
  | refl => exact ⟨hs, rfl⟩
  | step _ hstep ih =>
      obtain ⟨hsealed, hmade⟩ := hstep.of_sealed ih.1
      exact ⟨hsealed, hmade.trans ih.2⟩

end Custody

/-! ## Calls that leave the custody as it is -/

/-- A call that uses only some descriptors, writes only to the client and neither makes nor ends a
descriptor. -/
structure Syscall.Tame (cSock : ℤ) (fds : List ℤ) (c : Syscall) : Prop where
  uses : ∀ fd ∈ c.uses, fd ∈ fds
  writes : ∀ fd ∈ c.writes, fd = cSock
  plain : c.Plain

section tame

variable {cSock : ℤ} {fds : List ℤ} {c : Syscall}

/-- A call that is made on no descriptor. -/
theorem Syscall.Tame.aside (huses : c.uses = []) (hwrites : c.writes = none) (hplain : c.Plain) :
    c.Tame cSock fds :=
  ⟨by simp [huses], by simp [hwrites], hplain⟩

/-- A call on one descriptor that writes nothing to it. -/
theorem Syscall.Tame.on {fd : ℤ} (hfd : fd ∈ fds) (huses : c.uses = [fd])
    (hwrites : c.writes = none) (hplain : c.Plain) : c.Tame cSock fds :=
  ⟨by simpa [huses] using hfd, by simp [hwrites], hplain⟩

/-- A write to the client. -/
theorem Syscall.tame_write {buf : Bytes} (hc : cSock ∈ fds) :
    (Syscall.write cSock buf).Tame cSock fds :=
  ⟨by simpa [Syscall.uses] using hc, by simp [Syscall.writes], trivial⟩

end tame

section quiet

variable {cSock : ℤ} {fds : List ℤ}

theorem strPrintf_tame (text : Bytes) : Program.Only (Syscall.Tame cSock fds) (strPrintf text) := by
  refine .call (.aside rfl rfl trivial) ?_
  intro okay
  cases okay <;> trivial

namespace Client

variable {client : Client} (hc : client.cSock ∈ fds)

include hc

theorem errorReply_tame (msg : Bytes) :
    Program.Only (Syscall.Tame client.cSock fds) (client.errorReply msg) := by
  apply (strPrintf_tame _).bind
  intro buf
  cases buf with
  | none => trivial
  | some buf => exact .call (Syscall.tame_write hc) fun _ => trivial

theorem errnoReply_tame (funclient : Bytes) (errno : Errno) :
    Program.Only (Syscall.Tame client.cSock fds) (client.errnoReply funclient errno) := by
  refine .call (.aside rfl rfl trivial) ?_
  intro errnoMsg
  apply (strPrintf_tame _).bind
  intro msg
  cases msg with
  | none => trivial
  | some msg => exact errorReply_tame hc msg

theorem writeErrorReply_tame (timeoutMsg : Bytes) (errno : Errno) :
    Program.Only (Syscall.Tame client.cSock fds) (client.writeErrorReply timeoutMsg errno) := by
  unfold writeErrorReply
  split
  · exact errorReply_tame hc _
  · exact errnoReply_tame hc _ _

omit hc in
theorem limitWrites_tame {sock : ℤ} (hsock : sock ∈ fds) :
    Program.Only (Syscall.Tame client.cSock fds) (client.limitWrites sock) := by
  unfold limitWrites
  split
  · exact .perform (.on hsock rfl rfl trivial)
  · trivial

theorem bindLocal_tame (hr : client.rSock ∈ fds) :
    Program.Only (Syscall.Tame client.cSock fds) client.bindLocal := by
  unfold bindLocal
  split
  · trivial
  · split
    · exact (errorReply_tame hc _).bind fun _ => trivial
    · refine .call (.on hr rfl rfl trivial) ?_
      intro reply
      cases reply with
      | error errno => exact (errnoReply_tame hc _ _).bind fun _ => trivial
      | ok _ => trivial

theorem connectSocket_tame (hr : client.rSock ∈ fds) (rAddr : SockaddrAny) :
    Program.Only (Syscall.Tame client.cSock fds) (client.connectSocket rAddr) := by
  refine (limitWrites_tame hr).bind fun _ => ?_
  refine .call (.on hr rfl rfl trivial) fun _ => ?_
  apply (bindLocal_tame hc hr).bind
  intro okay
  cases okay with
  | false => trivial
  | true =>
    refine .call (.on hr rfl rfl trivial) ?_
    intro reply
    cases reply with
    | error errno => exact (errnoReply_tame hc _ _).bind fun _ => trivial
    | ok _ => trivial

omit hc in
theorem ipText_tame : Program.Only (Syscall.Tame client.cSock fds) client.ipText := by
  unfold ipText
  split
  · trivial
  · exact .call (.aside rfl rfl trivial) fun _ => trivial

omit hc in
theorem hostname_tame (ip : Bytes) :
    Program.Only (Syscall.Tame client.cSock fds) (client.hostname ip) := by
  unfold hostname
  split
  · exact .call (.aside rfl rfl trivial) fun _ => trivial
  · trivial

theorem welcome_tame : Program.Only (Syscall.Tame client.cSock fds) client.welcome := by
  unfold welcome
  split
  · trivial
  · apply (strPrintf_tame _).bind
    intro buf
    cases buf with
    | none => trivial
    | some buf =>
      refine .call (Syscall.tame_write hc) ?_
      intro reply
      cases reply <;> trivial

/-- The branch from the server to the client reads from the one and writes to the other. -/
theorem relayServer_tame (hr : client.rSock ∈ fds) (ready : Bool) :
    Program.Only (Syscall.Tame client.cSock fds) (client.relayServer ready) := by
  unfold relayServer
  split
  · refine .call (.on hr rfl rfl trivial) ?_
    intro reply
    cases reply with
    | error errno => exact (errnoReply_tame hc _ _).bind fun _ => trivial
    | ok chunk =>
      dsimp only
      split
      · exact (errorReply_tame hc _).bind fun _ => trivial
      · refine .call (Syscall.tame_write hc) ?_
        intro reply
        cases reply with
        | error errno => exact (writeErrorReply_tame hc _ _).bind fun _ => trivial
        | ok _ => trivial
  · trivial

end Client

end quiet

/-! ## The parts of the thread -/

/-- A program keeps to the custody. -/
def Keeps {α : Type} (cSock : ℤ) (p : Sys α) (s : Custody) (Q : α → Custody → Prop) : Prop :=
  Program.Sim (Custody.Step cSock) (Custody.Law cSock) p s Q

/-- The socket for the server is held and no other one is. -/
def Custody.Served (r : ℤ) (s : Custody) : Prop := ∃ i, Custody.Resting r i s

section keeps

variable {α : Type} {cSock : ℤ} {s : Custody} {r : ℤ}

/-- Tame calls leave the custody as it is. -/
theorem Keeps.tame {p : Sys α} {fds : List ℤ} (h : Program.Only (Syscall.Tame cSock fds) p)
    (hfds : ∀ fd ∈ fds, fd ∈ s.held cSock) : Keeps cSock p s fun _ s' => s' = s :=
  Program.Sim.of_only h fun _ hc _ _ =>
    .tame (fun fd hfd => hfds fd (hc.uses fd hfd)) hc.writes hc.plain

/-- Tame calls leave a socket that is held alone. -/
theorem Keeps.served {p : Sys α} (h : Program.Only (Syscall.Tame cSock [r, cSock]) p)
    (hs : s.Served r) : Keeps cSock p s fun _ s' => s'.Served r := by
  obtain ⟨i, hi⟩ := hs
  refine (Keeps.tame h ?_).mono ?_
  · intro fd hfd
    rwa [hi.held]
  · rintro _ _ rfl
    exact ⟨i, hi⟩

/-- A plain call on the socket for the server. -/
theorem Keeps.serve {c : Syscall} {f : Reply c → Sys α} {Q : α → Custody → Prop}
    (huses : c.uses = [r]) (hplain : c.Plain) (hs : s.Served r)
    (hf : ∀ reply s', s'.Served r → Keeps cSock (f reply) s' Q) :
    Keeps cSock (call c >>= f) s Q := by
  obtain ⟨i, hi⟩ := hs
  exact Program.Sim.call fun reply _ => ⟨_, .serve hi huses hplain, hf reply _ ⟨i, .settled⟩⟩

/-- A tame call. -/
theorem Keeps.tameCall {c : Syscall} {f : Reply c → Sys α} {Q : α → Custody → Prop}
    (hc : c.Tame cSock (s.held cSock)) (hf : ∀ reply, Keeps cSock (f reply) s Q) :
    Keeps cSock (call c >>= f) s Q :=
  Program.Sim.call fun reply _ => ⟨s, .tame hc.uses hc.writes hc.plain, hf reply⟩

end keeps

/-- The custody knows whether the lookup has its socket. -/
theorem Custody.lookupRules (cSock r : ℤ) :
    LookupRules (Custody.Step cSock) (Custody.Law cSock) cSock (fun _ _ s => s = .paired r)
      (fun _ _ _ i s => s = .asking r i) (fun _ s => s.Served r) where
  getpeername s hs reply _ := by
    subst hs
    exact ⟨_, .tame (by simp [Syscall.uses, Custody.held]) nofun trivial, rfl⟩
  getsockname s _ hs reply _ := by
    subst hs
    exact ⟨_, .tame (by simp [Syscall.uses, Custody.held]) nofun trivial, rfl⟩
  noSocket s _ _ _ _ hs := ⟨s, .noSocket, none, hs ▸ .paired⟩
  socket s _ _ family i hs hlaw := by
    subst hs
    have hi : (i : ℤ) ∉ [r, cSock] := hlaw i rfl
    simp only [List.mem_cons, List.not_mem_nil, or_false, not_or] at hi
    exact ⟨_, .ident hi.2 hi.1, rfl⟩
  ask s _ _ i c hs hc reply := by
    subst hs
    cases hc <;> exact ⟨_, .ask rfl trivial, rfl⟩
  fscanf s _ _ i hs reply := by
    subst hs
    exact ⟨_, .ask rfl trivial, rfl⟩
  close s _ _ _ i c hs hc reply := by
    subst hs
    cases hc <;> exact ⟨_, .answered rfl rfl rfl, some ↑i, .settled⟩
  stop s _ _ hs := ⟨none, hs ▸ .paired⟩

/-- **The ident lookup** closes the socket it makes. -/
theorem identLookup_keeps {cSock timeout r : ℤ} :
    Keeps cSock (identLookup cSock timeout) (.paired r) fun _ s' => s'.Served r := by
  refine ((Custody.lookupRules cSock r).sim rfl timeout).mono ?_
  rintro user s' ⟨got, -, hs'⟩
  exact hs'

namespace Client

variable {client : Client} {s : Custody}

/-- The identity line is the first thing the server is sent. -/
theorem sendIdnt_keeps :
    Keeps client.cSock client.sendIdnt (.paired client.rSock)
      fun _ s' => s'.Served client.rSock := by
  have hpaired : (Custody.paired client.rSock).Served client.rSock := ⟨none, .paired⟩
  have hc : client.cSock ∈ (Custody.paired client.rSock).held client.cSock := by simp [Custody.held]
  unfold sendIdnt
  split
  · refine Keeps.tameCall (.on hc rfl rfl trivial) ?_
    intro sockname
    cases sockname with
    | error _ => exact hpaired
    | ok _ =>
      refine identLookup_keeps.bind fun user s' hs => ?_
      refine (Keeps.served ipText_tame hs).bind fun ip s' hs => ?_
      refine (Keeps.served (hostname_tame ip) hs).bind fun hostname s' hs => ?_
      refine (Keeps.served (strPrintf_tame _) hs).bind fun buf s' hs => ?_
      cases buf with
      | none => exact hs
      | some buf =>
        refine Keeps.serve rfl trivial hs ?_
        intro reply s' hs
        cases reply <;> exact hs
  · exact hpaired

theorem relayClient_keeps (ready : Bool) (hs : s.Served client.rSock) :
    Keeps client.cSock (client.relayClient ready) s fun _ s' => s'.Served client.rSock := by
  have hmem : client.cSock ∈ [client.rSock, client.cSock] := by simp
  have hread : Program.Only (Syscall.Tame client.cSock [client.rSock, client.cSock])
      (call (.read client.cSock bufsiz)) := .perform (.on hmem rfl rfl trivial)
  unfold relayClient
  split
  · refine (Keeps.served hread hs).bind fun reply s' hs => ?_
    cases reply with
    | error _ => exact hs
    | ok chunk =>
      dsimp only
      split
      · exact hs
      · refine Keeps.serve rfl trivial hs ?_
        intro reply s' hs
        cases reply with
        | error errno =>
          exact (Keeps.served (writeErrorReply_tame hmem _ _) hs).bind fun _ _ hs => hs
        | ok len =>
          dsimp only
          split
          · exact (Keeps.served (errorReply_tame hmem _) hs).bind fun _ _ hs => hs
          · exact hs
  · exact hs

theorem relayPass_keeps (hs : s.Served client.rSock) :
    Keeps client.cSock client.relayPass s fun _ s' => s'.Served client.rSock := by
  have hc : client.cSock ∈ [client.rSock, client.cSock] := by simp
  have hr : client.rSock ∈ [client.rSock, client.cSock] := by simp
  have hpoll : Program.Only (Syscall.Tame client.cSock [client.rSock, client.cSock])
      (call (.poll client.cSock client.rSock client.timeout)) :=
    .perform ⟨by simp [Syscall.uses], nofun, trivial⟩
  refine (Keeps.served hpoll hs).bind fun reply s' hs => ?_
  cases reply with
  | error errno => exact (Keeps.served (errnoReply_tame hc _ _) hs).bind fun _ _ hs => hs
  | ok revents =>
    dsimp only
    split
    · exact (Keeps.served (errorReply_tame hc _) hs).bind fun _ _ hs => hs
    · refine (relayClient_keeps _ hs).bind fun more s' hs => ?_
      cases more with
      | false => exact hs
      | true => exact Keeps.served (relayServer_tame hc hr _) hs

theorem relay_keeps (passes : ℕ) (hs : s.Served client.rSock) :
    Keeps client.cSock (client.relay passes) s fun _ s' => s'.Served client.rSock := by
  have hbody : ∀ s : Custody, s.Served client.rSock → Keeps client.cSock client.relayPass s
      fun more s' => if more then s'.Served client.rSock else s'.Served client.rSock :=
    fun s hs => (relayPass_keeps hs).mono fun more _ h => by cases more <;> exact h
  apply (Program.Sim.loop hbody passes hs).mono
  intro o s' h
  cases o <;> exact h

theorem session_keeps (okay : Bool) (passes : ℕ) :
    Keeps client.cSock (client.session okay passes) (.paired client.rSock) fun _ s' =>
      s'.Served client.rSock := by
  have hc : client.cSock ∈ [client.rSock, client.cSock] := by simp
  cases okay with
  | false => exact ⟨none, .paired⟩
  | true =>
    refine sendIdnt_keeps.bind fun okay s' hs => ?_
    cases okay with
    | false => exact hs
    | true =>
      refine (Keeps.served (welcome_tame hc) hs).bind fun okay s' hs => ?_
      cases okay with
      | false => exact hs
      | true => exact relay_keeps passes hs

/-- What `Client_connect` leaves: no socket, or one the connection knows of. -/
def Connected (client : Client) (result : Bool × Client) (s : Custody) : Prop :=
  (result = (false, client) ∧ s = .alone) ∨
    ∃ r : ℕ, result.2 = { client with rSock := r } ∧ s = .paired r

theorem connect_keeps :
    Keeps client.cSock client.connect .alone client.Connected := by
  have hc : client.cSock ∈ [client.cSock] := List.mem_singleton_self _
  have halone : ∀ fd ∈ [client.cSock], fd ∈ Custody.alone.held client.cSock := fun _ h => h
  refine Keeps.tameCall (.aside rfl rfl trivial) ?_
  intro reply
  cases reply with
  | error e =>
    cases e with
    | system errno =>
      apply (Keeps.tame (errnoReply_tame hc _ _) halone).bind
      rintro _ _ rfl
      exact Or.inl ⟨rfl, rfl⟩
    | other errmsg =>
      apply (Keeps.tame (strPrintf_tame _) halone).bind
      rintro msg _ rfl
      cases msg with
      | none => exact Or.inl ⟨rfl, rfl⟩
      | some msg =>
        apply (Keeps.tame (errorReply_tame hc _) halone).bind
        rintro _ _ rfl
        exact Or.inl ⟨rfl, rfl⟩
  | ok rAddr =>
    apply Program.Sim.call
    intro reply hlaw
    cases reply with
    | error errno =>
      refine ⟨_, .noSocket, ?_⟩
      apply (Keeps.tame (errnoReply_tame hc _ _) halone).bind
      rintro _ _ rfl
      exact Or.inl ⟨rfl, rfl⟩
    | ok r =>
      have hne : (r : ℤ) ≠ client.cSock := fun heq => hlaw r rfl (List.mem_singleton.mpr heq)
      refine ⟨_, .socket hne, ?_⟩
      have hpaired : ∀ fd ∈ [(r : ℤ), client.cSock], fd ∈ (Custody.paired r).held client.cSock :=
        fun _ h => h
      have hsocket : Program.Only (Syscall.Tame client.cSock [(r : ℤ), client.cSock])
          (connectSocket { client with rSock := r } rAddr) :=
        @connectSocket_tame [(r : ℤ), client.cSock] { client with rSock := r }
          (List.mem_cons_of_mem _ (List.mem_singleton_self _)) List.mem_cons_self rAddr
      apply (Keeps.tame hsocket hpaired).bind
      rintro okay _ rfl
      exact Or.inr ⟨r, rfl, rfl⟩

/-- `Client_free` closes what is held. -/
theorem free_keeps {r : ℕ} (hc : 0 ≤ client.cSock) (hr : client.rSock = r) (hs : s.Served r) :
    Keeps client.cSock client.free s fun _ s' => ∃ i, s' = .closed (some (r : ℤ)) i := by
  obtain ⟨i, hi⟩ := hs
  unfold free closeSocket
  rw [if_pos hc, hr, if_pos (Int.natCast_nonneg r)]
  refine Program.Sim.call fun _ _ => ⟨_, .closeClient hi, ?_⟩
  exact Program.Sim.perform fun _ _ => ⟨_, .closeServer, i, rfl⟩

theorem free_keeps_alone (hc : 0 ≤ client.cSock) (hr : client.rSock = -1) :
    Keeps client.cSock client.free .alone fun _ s' => s' = .closed none none := by
  unfold free closeSocket
  rw [if_pos hc, hr, if_neg (by decide)]
  exact Program.Sim.call fun _ _ => ⟨_, .closeAlone, rfl⟩

/-- **The thread keeps to the custody**, and holds nothing when it returns. -/
theorem threadMain_keeps (hc : 0 ≤ client.cSock) (hr : client.rSock = -1) (passes : ℕ) :
    Keeps client.cSock (client.threadMain passes) .alone fun o s' =>
      o = some () → s'.held client.cSock = [] := by
  have hmem : client.cSock ∈ [client.cSock] := List.mem_singleton_self _
  have halone : ∀ fd ∈ [client.cSock], fd ∈ Custody.alone.held client.cSock := fun _ h => h
  apply (Keeps.tame (limitWrites_tame hmem) halone).bind
  rintro _ _ rfl
  apply connect_keeps.bind
  rintro ⟨okay, client'⟩ s' (⟨heq, rfl⟩ | ⟨r, hclient', rfl⟩)
  · obtain ⟨rfl, rfl⟩ := Prod.mk.inj heq
    apply (free_keeps_alone hc hr).bind
    rintro _ _ rfl _
    rfl
  · obtain rfl : client' = { client with rSock := r } := hclient'
    have hsession := @session_keeps { client with rSock := r } okay passes
    apply Program.Sim.bind hsession
    intro o s' hs
    cases o with
    | none => exact nofun
    | some _ =>
      have hfree := @free_keeps { client with rSock := r } s' r hc rfl hs
      apply Program.Sim.bind hfree
      rintro _ _ ⟨i, rfl⟩ _
      rfl

end Client

/-! ## What the thread closes -/

namespace Custody

variable {cSock : ℤ} {s : Custody}

/-- What is held was made, or is the connection. -/
theorem mem_of_held {fd : ℤ} (h : fd ∈ s.held cSock) : fd = cSock ∨ fd ∈ s.made := by
  cases s <;> simp [Custody.held, Custody.made] at h ⊢ <;> tauto

/-- There are two sockets at most. -/
theorem length_made_le (s : Custody) : s.made.length ≤ 2 := by
  rcases s with _ | r | ⟨r, i⟩ | ⟨r, i⟩ | ⟨r, i⟩ | ⟨r, i⟩
  · exact Nat.zero_le 2
  · exact Nat.le_add_left 1 1
  · exact le_rfl
  · cases i <;> simp [Custody.made]
  · cases i <;> simp [Custody.made]
  · cases r <;> cases i <;> simp [Custody.made]

end Custody

/-- The first socket a run makes. -/
theorem head?_made (t : List Event) : (t.filterMap Event.made).head? = serverSocket t :=
  List.head?_filterMap

namespace Client

/-- What a run has closed when it is over. -/
structure Closes (client : Client) (t : List Event) : Prop where
  /-- The connection is closed once. -/
  connection : (t.filterMap Event.ended).count client.cSock = 1
  /-- So is every socket that was made. -/
  sockets : ∀ fd ∈ t.filterMap Event.made, (t.filterMap Event.ended).count fd = 1
  /-- There are two of them at most, the first one for the server. -/
  length_le : (t.filterMap Event.made).length ≤ 2
  /-- Nothing else is closed. -/
  others : ∀ fd ∈ t.filterMap Event.ended, fd = client.cSock ∨ fd ∈ t.filterMap Event.made
  /-- Before anything is written to the server, the other socket is closed. -/
  ident : ∀ r, serverSocket t = some r → ∀ t₁ e t₂, t = t₁ ++ e :: t₂ → e.puts r ≠ none →
    ∀ i ∈ t.filterMap Event.made, i ≠ r → i ∈ t₁.filterMap Event.ended
  /-- Nothing is used that is not open. -/
  careful : descriptors.Careful [client.cSock] t

variable {client : Client} {t : List Event}

/-- When something is written to the socket for the server, that socket is there, and it is the
first one. -/
theorem made_of_writes {s s' : Custody} {e : Event} {t₁ t₂ : List Event} {r : ℤ}
    (hinv : Custody.Invariant client.cSock t₁ s) (hstep : Custody.Step client.cSock s e s')
    (hwrites : e.1.writes = some r) (hr : serverSocket (t₁ ++ t₂) = some r)
    (hrc : r ≠ client.cSock) : s.made.head? = some r := by
  have hheld : r ∈ s.held client.cSock := by
    apply hstep.uses_held
    rw [Syscall.uses_of_writes hwrites]
    exact List.mem_singleton_self r
  have hmem := (Custody.mem_of_held hheld).resolve_left hrc
  rw [← head?_made, List.filterMap_append, hinv.made] at hr
  rwa [List.head?_append_of_ne_nil _ (List.ne_nil_of_mem hmem)] at hr

/-- Before a write to the server the other socket is closed. -/
theorem ended_of_puts {s : Custody} (hpath : Path (Custody.Step client.cSock) .alone t s)
    (hfresh : Fresh [client.cSock] t) {r : ℤ} (hr : serverSocket t = some r) {t₁ t₂ : List Event}
    {e : Event} (ht : t = t₁ ++ e :: t₂) (hputs : e.puts r ≠ none) {i : ℤ}
    (hi : i ∈ t.filterMap Event.made) (hne : i ≠ r) : i ∈ t₁.filterMap Event.ended := by
  have hwrites := Event.writes_of_puts hputs
  have hinv := Custody.invariant_of_path hpath
  obtain ⟨s₁, h₁, hrest⟩ := hpath.exists_prefix ht
  obtain ⟨s₂, hsingle, h₂⟩ := hrest.exists_prefix (show e :: t₂ = [e] ++ t₂ from rfl)
  have hstep := hsingle.of_single
  have hinv₁ := Custody.invariant_of_path h₁
  have hrc : r ≠ client.cSock := by
    rintro rfl
    have hmem := List.mem_of_mem_head? ((head?_made t).trans hr)
    rw [hinv.made] at hmem
    exact (List.nodup_cons.mp hinv.nodup).1 hmem
  have hserver := made_of_writes hinv₁ hstep hwrites (ht ▸ hr) hrc
  obtain ⟨hsealed, hheld⟩ := hstep.of_writes hinv₁.nodup hserver hwrites
  -- nothing is made after the write, so the socket was made before it
  have hmade : i ∈ s₁.made := by
    have hplain : e.made = none := by
      obtain ⟨c, reply⟩ := e
      cases c <;> first | rfl | cases hwrites
    rw [hinv.made, (Custody.made_of_sealed h₂ hsealed).2, hstep.made_eq, hplain,
      Option.toList_none, List.append_nil] at hi
    exact hi
  have hfresh₁ : descriptors.Fresh [client.cSock] t₁ := by
    rw [ht] at hfresh
    exact hfresh.of_append
  have hgone : i ∉ descriptors.heldAfter [client.cSock] t₁ := by
    rw [show descriptors.heldAfter [client.cSock] t₁ = [r, client.cSock] from
      hinv₁.held.trans hheld]
    intro h
    simp only [List.mem_cons, List.not_mem_nil, or_false] at h
    rcases h with h | rfl
    · exact hne h
    · exact (List.nodup_cons.mp hinv₁.nodup).1 hmade
  exact Ledger.mem_ended_of_not_held descriptors_ended (List.nodup_singleton _) hfresh₁
    (Custody.careful_of_path h₁) (hinv₁.made ▸ hmade) hgone

/-- **A thread closes what it owns**: whatever the calls reply, when it returns its connection and
each socket it made have been closed exactly once and nothing else has, the socket for the ident
server before anything was written to the server, and nothing was used after it was closed. -/
theorem threadMain_closes {passes : ℕ} (hc : 0 ≤ client.cSock) (hr : client.rSock = -1)
    (ht : Program.Trace (client.threadMain passes) t (some (some ())))
    (hfresh : Fresh [client.cSock] t) : client.Closes t := by
  obtain ⟨s, hpath, hheld⟩ := (threadMain_keeps hc hr passes).path ht fun t₁ e t₂ heq s hs => by
    rw [Custody.Law, ← (Custody.invariant_of_path hs).held]
    exact hfresh t₁ e t₂ heq
  have hinv := Custody.invariant_of_path hpath
  have hcareful := Custody.careful_of_path hpath
  have hnil : descriptors.heldAfter [client.cSock] t = [] :=
    hinv.held.trans (hheld _ rfl rfl)
  have hperm : (t.filterMap Event.ended).Perm (client.cSock :: t.filterMap Event.made) :=
    Ledger.ended_perm_of_heldAfter_nil descriptors_ended (List.nodup_singleton _) hfresh hcareful
      hnil
  have hnodup : (client.cSock :: t.filterMap Event.made).Nodup := by
    rw [hinv.made]
    exact hinv.nodup
  have hcount : ∀ fd ∈ client.cSock :: t.filterMap Event.made,
      (t.filterMap Event.ended).count fd = 1 := by
    intro fd hfd
    rw [hperm.count_eq]
    exact List.count_eq_one_of_mem hnodup hfd
  refine ⟨?_, ?_, ?_, ?_, ?_, hcareful⟩
  · exact hcount _ List.mem_cons_self
  · exact fun fd hfd => hcount fd (List.mem_cons_of_mem _ hfd)
  · rw [hinv.made]
    exact s.length_made_le
  · exact fun fd hfd => List.mem_cons.mp (hperm.mem_iff.mp hfd)
  · exact fun r hr t₁ e t₂ heq hputs i hi hne => ended_of_puts hpath hfresh hr heq hputs hi hne

/-- What is closed in the conversation with the answer of the ident server: the connection and two
sockets. -/
theorem threadMain_closes_introduction :
    introduction.filterMap Event.made = [5, 6] ∧ visitor.Closes introduction :=
  ⟨by decide, threadMain_closes (by decide) (by decide) trace_introduction (by decide)⟩

end Client

end Ebbnc
