import Ebbnc.Address
import Ebbnc.Lib.Program

/-!
# System calls

The interface between the daemon and everything outside of it: system calls, and the library
functions whose results the program cannot foresee. A reply is whatever the call may return; what
the calls of a run did to a descriptor is read off the run.

* `Syscall`, `Reply`, `Sys` — the calls, their replies, and programs over them.
* `Event.puts`, `Event.put`, `Event.got` — the bytes offered to a descriptor, those it took, and
  those that came from it; `sent`, `received` — the same over a run.
* `openAfter` — the descriptors that are open after a run; `Fresh` — the law of `socket`.
* `serverSocket` — the first socket a run makes.
-/

namespace Ebbnc

open Lib

/-- An error number. -/
abbrev Errno := ℕ

/-- `EAGAIN`, which is the same number as `EWOULDBLOCK`. -/
def eagain : Errno := 11

/-- The options that are set on sockets. -/
inductive SockOpt
  /-- `SO_RCVTIMEO`. -/
  | rcvTimeo (seconds : ℤ)
  /-- `SO_SNDTIMEO`. -/
  | sndTimeo (seconds : ℤ)
  /-- `TCP_NODELAY`. -/
  | nodelay
  deriving DecidableEq

/-- How `getaddrinfo` fails. -/
inductive GaiError
  /-- `EAI_SYSTEM`, with `errno`. -/
  | system (errno : Errno)
  /-- Any other error, with its `gai_strerror`. -/
  | other (message : Bytes)
  deriving DecidableEq

/-- The `revents` of a descriptor that is polled for `POLLIN`. -/
structure Revents where
  pollin : Bool
  pollerr : Bool
  pollhup : Bool
  pollnval : Bool
  deriving DecidableEq

/-- No event at all. -/
def Revents.zero : Revents := ⟨false, false, false, false⟩

/-- `san_family`. -/
def SockaddrAny.family : SockaddrAny → ℕ
  | .inet _ _ => 2
  | .inet6 _ _ => 10
  | .other family => family

/-- The calls. Streams are known by their descriptors. -/
inductive Syscall
  /-- `calloc`, of so many bytes. -/
  | calloc (size : ℕ)
  /-- `strerror_r`. -/
  | strerror (errno : Errno)
  /-- The string in an array of the stack that nothing was written to. -/
  | unwritten
  | getaddrinfo (host : Option Bytes) (service : Bytes)
  | getnameinfo (addr : SockaddrAny)
  | socket (family : ℕ)
  | setsockopt (fd : ℤ) (opt : SockOpt)
  | bind (fd : ℤ) (addr : SockaddrAny)
  | connect (fd : ℤ) (addr : SockaddrAny)
  | getsockname (fd : ℤ)
  | getpeername (fd : ℤ)
  /-- `poll` of two descriptors for `POLLIN`. -/
  | poll (fd₀ fd₁ : ℤ) (timeout : ℤ)
  | read (fd : ℤ) (size : ℕ)
  | write (fd : ℤ) (buf : Bytes)
  | close (fd : ℤ)
  | fdopen (fd : ℤ)
  | fprintf (fd : ℤ) (text : Bytes)
  /-- `fscanf`, of which the environment provides the text to read. -/
  | fscanf (fd : ℤ)
  | fclose (fd : ℤ)
  deriving DecidableEq

/-- The replies. A call that may fail replies with `errno` when it does; `poll` replies with the
`revents`, none of which is set when the time is up. Results the program ignores are left out. -/
abbrev Reply : Syscall → Type
  | .calloc _ => Bool
  | .strerror _ => Option Bytes
  | .unwritten => Bytes
  | .getaddrinfo _ _ => Except GaiError SockaddrAny
  | .getnameinfo _ => Option Bytes
  | .socket _ => Except Errno ℕ
  | .setsockopt _ _ => Unit
  | .bind _ _ => Except Errno Unit
  | .connect _ _ => Except Errno Unit
  | .getsockname _ => Except Errno SockaddrAny
  | .getpeername _ => Except Errno SockaddrAny
  | .poll _ _ _ => Except Errno (Revents × Revents)
  | .read _ size => Except Errno { s : Bytes // s.length ≤ size }
  | .write _ buf => Except Errno (Fin (buf.length + 1))
  | .close _ => Unit
  | .fdopen _ => Bool
  | .fprintf _ _ => Bool
  | .fscanf _ => Bytes
  | .fclose _ => Unit

/-- Programs over the system calls. -/
abbrev Sys := Program Reply

/-- A system call. -/
abbrev call (c : Syscall) : Sys (Reply c) := Program.perform c

/-- A call and its reply. -/
abbrev Event := Lib.Event Reply

/-! ## What a call does to a descriptor -/

/-- The bytes a call offers to a descriptor. -/
def Event.puts (fd : ℤ) : Event → Option Bytes
  | ⟨.write fd' buf, _⟩ => if fd' = fd then some buf else none
  | ⟨.fprintf fd' text, _⟩ => if fd' = fd then some text else none
  | _ => none

/-- The bytes a descriptor takes of these. -/
def Event.put (fd : ℤ) : Event → Bytes
  | ⟨.write fd' buf, .ok n⟩ => if fd' = fd then buf.take n else []
  | ⟨.fprintf fd' text, true⟩ => if fd' = fd then text else []
  | _ => []

/-- The bytes a call gets from a descriptor. -/
def Event.got (fd : ℤ) : Event → Bytes
  | ⟨.read fd' _, .ok s⟩ => if fd' = fd then s.1 else []
  | ⟨.fscanf fd', s⟩ => if fd' = fd then s else []
  | _ => []

/-- A write that neither fails nor is short. -/
def Event.Complete : Event → Prop
  | ⟨.write _ buf, .ok n⟩ => n.val = buf.length
  | ⟨.write _ _, .error _⟩ => False
  | ⟨.fprintf _ _, okay⟩ => okay = true
  | _ => True

instance : DecidablePred Event.Complete := by
  rintro ⟨c, reply⟩
  cases c with
  | write fd buf =>
    cases reply with
    | error _ => exact isFalse id
    | ok n => exact inferInstanceAs (Decidable (n.val = buf.length))
  | fprintf fd text => exact inferInstanceAs (Decidable (reply = true))
  | _ => exact isTrue trivial

/-- The descriptor whose bytes or whose state a call changes. -/
def Event.touched : Event → Option ℤ
  | ⟨.connect fd _, .ok _⟩ => some fd
  | ⟨.read fd _, _⟩ => some fd
  | ⟨.write fd _, _⟩ => some fd
  | ⟨.close fd, _⟩ => some fd
  | ⟨.fprintf fd _, _⟩ => some fd
  | ⟨.fscanf fd, _⟩ => some fd
  | ⟨.fclose fd, _⟩ => some fd
  | _ => none

/-- The descriptor a call makes. -/
def Event.made : Event → Option ℤ
  | ⟨.socket _, .ok fd⟩ => some (fd : ℕ)
  | _ => none

/-- The descriptor a call ends. -/
def Event.ended : Event → Option ℤ
  | ⟨.close fd, _⟩ => some fd
  | ⟨.fclose fd, _⟩ => some fd
  | _ => none

/-- The descriptors that are open after a call. -/
def opened (fds : List ℤ) (e : Event) : List ℤ :=
  e.made.toList ++ fds.filter fun fd => e.ended ≠ some fd

/-- A call that neither makes nor ends a descriptor leaves those alone that are open. -/
theorem opened_of_none (fds : List ℤ) {e : Event} (hmade : e.made = none)
    (hended : e.ended = none) : opened fds e = fds := by
  simp [opened, hmade, hended]

/-! ## What a run does to a descriptor -/

/-- The bytes put on a descriptor. -/
def sent (fd : ℤ) (t : List Event) : Bytes := t.flatMap (Event.put fd)

/-- The bytes read from a descriptor. -/
def received (fd : ℤ) (t : List Event) : Bytes := t.flatMap (Event.got fd)

/-- What was offered to a descriptor, one text for each call. -/
def offered (fd : ℤ) (t : List Event) : List Bytes := t.filterMap (Event.puts fd)

/-- The descriptors that are open after a run. -/
def openAfter (fds : List ℤ) (t : List Event) : List ℤ := t.foldl opened fds

/-- The first descriptor a run makes. -/
def serverSocket (t : List Event) : Option ℤ := t.findSome? Event.made

/-- No descriptor that is made is open already. -/
def Fresh (fds : List ℤ) (t : List Event) : Prop :=
  Along (fun t e => ∀ fd ∈ e.made, fd ∉ openAfter fds t) t

instance (fds : List ℤ) (t : List Event) : Decidable (Fresh fds t) :=
  inferInstanceAs (Decidable (Along _ t))

section snoc

variable (fd : ℤ) (t : List Event) (e : Event)

@[simp] theorem sent_concat : sent fd (t ++ [e]) = sent fd t ++ e.put fd := by simp [sent]

@[simp] theorem received_concat : received fd (t ++ [e]) = received fd t ++ e.got fd := by
  simp [received]

@[simp] theorem offered_concat : offered fd (t ++ [e]) = offered fd t ++ (e.puts fd).toList := by
  cases h : e.puts fd <;> simp [offered, h]

@[simp] theorem openAfter_concat (fds : List ℤ) :
    openAfter fds (t ++ [e]) = opened (openAfter fds t) e := by
  simp [openAfter]

theorem offered_append (t' : List Event) : offered fd (t ++ t') = offered fd t ++ offered fd t' :=
  List.filterMap_append

theorem serverSocket_concat : serverSocket (t ++ [e]) = (serverSocket t).or e.made := by
  simp [serverSocket, List.findSome?_append]

end snoc

@[simp] theorem Event.puts_write (fd : ℤ) (buf : Bytes) (reply : Reply (.write fd buf)) :
    Event.puts fd ⟨.write fd buf, reply⟩ = some buf := if_pos rfl

@[simp] theorem Event.got_read (fd : ℤ) (size : ℕ) (chunk : { s : Bytes // s.length ≤ size }) :
    Event.got fd ⟨.read fd size, .ok chunk⟩ = chunk.1 := if_pos rfl

section untouched

variable {fd : ℤ} {e : Event}

/-- A call that does not touch a descriptor offers it nothing. -/
theorem Event.puts_of_untouched (h : e.touched ≠ some fd) : e.puts fd = none := by
  unfold Event.puts
  split
  · exact if_neg fun heq => h (by rw [← heq]; rfl)
  · exact if_neg fun heq => h (by rw [← heq]; rfl)
  · rfl

/-- It gets nothing from it, either. -/
theorem Event.got_of_untouched (h : e.touched ≠ some fd) : e.got fd = [] := by
  unfold Event.got
  split
  · exact if_neg fun heq => h (by rw [← heq]; rfl)
  · exact if_neg fun heq => h (by rw [← heq]; rfl)
  · rfl

/-- A call touches one descriptor at most. -/
theorem Event.untouched_of_touched {fd' : ℤ} (h : e.touched = some fd') (hne : fd' ≠ fd) :
    e.touched ≠ some fd := by
  rw [h]
  exact fun heq => hne (Option.some.inj heq)

end untouched

end Ebbnc
