import Ebbnc.Descriptors

/-!
# Waiting

How long the calls of a client thread may wait. The kernel keeps two time limits for every socket,
and after a `poll` it is known which descriptors can be read from at once.

* `Kernel` — the limits and what can be read; `Kernel.after` — what a call makes of them.
* `Kernel.Bounded` — the calls that do not wait for ever; the resolver's calls and those that never
  wait are among them.
* `sendIdnt_patient`, `relay_patient`, … — the parts of the thread, from a state with limits to one.
* **`Client.waits_bounded_iff`** — every wait of every run is bounded just when the config has a
  limit for each of them.
-/

namespace Ebbnc

open Lib

/-- What the kernel keeps: the descriptors that are open, the time limits of each in seconds, where
zero is none, and whether there is something to read. -/
structure Kernel where
  fds : List ℤ
  sndTimeo : ℤ → ℤ
  rcvTimeo : ℤ → ℤ
  readable : ℤ → Bool

namespace Kernel

/-- A connection as it was accepted. -/
def start (cSock : ℤ) : Kernel := ⟨[cSock], fun _ => 0, fun _ => 0, fun _ => false⟩

/-- The limits for writing after a call. -/
def sndTimeoAfter (limit : ℤ → ℤ) : Event → ℤ → ℤ
  | ⟨.socket _, .ok fd⟩ => Function.update limit fd 0
  | ⟨.setsockopt fd (.sndTimeo seconds), _⟩ => Function.update limit fd seconds
  | _ => limit

/-- The limits for reading after a call. -/
def rcvTimeoAfter (limit : ℤ → ℤ) : Event → ℤ → ℤ
  | ⟨.socket _, .ok fd⟩ => Function.update limit fd 0
  | ⟨.setsockopt fd (.rcvTimeo seconds), _⟩ => Function.update limit fd seconds
  | _ => limit

/-- What can be read after a call: `poll` says so, until something is read. -/
def readableAfter (readable : ℤ → Bool) : Event → ℤ → Bool
  | ⟨.socket _, .ok fd⟩ => Function.update readable fd false
  | ⟨.poll fd₀ fd₁ _, .ok (c, r)⟩ => fun fd => (fd = fd₀ && c.pollin) || (fd = fd₁ && r.pollin)
  | ⟨.read fd _, _⟩ => Function.update readable fd false
  | _ => readable

/-- What a call makes of it. -/
def after (s : Kernel) (e : Event) : Kernel where
  fds := opened s.fds e
  sndTimeo := sndTimeoAfter s.sndTimeo e
  rcvTimeo := rcvTimeoAfter s.rcvTimeo e
  readable := readableAfter s.readable e

/-- The kernel after a run of the thread of a connection. -/
def afterRun (cSock : ℤ) (t : List Event) : Kernel := t.foldl after (start cSock)

/-- The calls that do not wait for ever. What is printed to a stream is written by `fscanf` or by
`fclose`. -/
def Bounded (s : Kernel) : Syscall → Prop
  | .connect fd _ => 0 < s.sndTimeo fd
  | .write fd _ => 0 < s.sndTimeo fd
  | .fprintf fd _ => 0 < s.sndTimeo fd
  | .fscanf fd => 0 < s.sndTimeo fd ∧ 0 < s.rcvTimeo fd
  | .fclose fd => 0 < s.sndTimeo fd
  | .read fd _ => 0 < s.rcvTimeo fd ∨ s.readable fd = true
  | .poll _ _ timeout => 0 ≤ timeout
  | _ => True

/-- A call that is bounded, and what it makes of the kernel. -/
def Step (s : Kernel) (e : Event) (s' : Kernel) : Prop := s.Bounded e.1 ∧ s' = s.after e

/-- A descriptor that is made is not open. -/
def Law (s : Kernel) (e : Event) : Prop := ∀ fd ∈ e.made, fd ∉ s.fds

/-- A call that is bounded and leaves the kernel as it is. -/
def Still (s : Kernel) (c : Syscall) : Prop := s.Bounded c ∧ ∀ reply, s.after ⟨c, reply⟩ = s

variable {cSock : ℤ} {t : List Event} {s s' : Kernel}

@[simp] theorem afterRun_concat (e : Event) :
    afterRun cSock (t ++ [e]) = (afterRun cSock t).after e := by
  simp [afterRun]

/-- A path ends with the kernel after the run, and each of its calls was bounded. -/
theorem of_path (h : Path Step (start cSock) t s) :
    s = afterRun cSock t ∧ Along (fun t e => (afterRun cSock t).Bounded e.1) t := by
  induction h with
  | refl => exact ⟨rfl, along_nil⟩
  | step _ hstep ih =>
      obtain ⟨rfl, halong⟩ := ih
      obtain ⟨hbounded, rfl⟩ := hstep
      exact ⟨(afterRun_concat _).symm, along_concat.mpr ⟨halong, hbounded⟩⟩

/-- The descriptors of the kernel are those that are open. -/
theorem fds_afterRun : (afterRun cSock t).fds = openAfter [cSock] t := by
  induction t using List.reverseRecOn with
  | nil => rfl
  | append_singleton t e ih => rw [afterRun_concat, openAfter_concat, ← ih]; rfl

end Kernel

/-- The program makes bounded calls only. -/
abbrev Patient {α : Type} (p : Sys α) (s : Kernel) (Q : α → Kernel → Prop) : Prop :=
  p.Sim Kernel.Step Kernel.Law s Q

section patient

variable {α : Type} {s : Kernel}

/-- A bounded call that changes neither descriptors nor limits nor what can be read. -/
theorem Kernel.Still.of {c : Syscall} (hbounded : s.Bounded c) (hplain : c.Plain)
    (hsame : ∀ reply, Kernel.sndTimeoAfter s.sndTimeo ⟨c, reply⟩ = s.sndTimeo ∧
      Kernel.rcvTimeoAfter s.rcvTimeo ⟨c, reply⟩ = s.rcvTimeo ∧
      Kernel.readableAfter s.readable ⟨c, reply⟩ = s.readable) : s.Still c := by
  refine ⟨hbounded, fun reply => ?_⟩
  obtain ⟨hsnd, hrcv, hreadable⟩ := hsame reply
  rw [Kernel.after, opened_of_none s.fds (hplain.made reply) (hplain.ended reply), hsnd, hrcv,
    hreadable]

/-- A program of calls that leave the kernel as it is. -/
theorem Patient.of_still {p : Sys α} (h : Program.Only s.Still p) :
    Patient p s fun _ s' => s' = s :=
  Program.Sim.of_only h fun _ hc r _ => ⟨hc.1, (hc.2 r).symm⟩

/-- A bounded call, and what follows it. -/
theorem Patient.call {c : Syscall} {f : Reply c → Sys α} {Q : α → Kernel → Prop}
    (hc : s.Bounded c)
    (hf : ∀ reply, Kernel.Law s ⟨c, reply⟩ → Patient (f reply) (s.after ⟨c, reply⟩) Q) :
    Patient (Ebbnc.call c >>= f) s Q :=
  Program.Sim.call fun reply hlaw => ⟨_, ⟨hc, rfl⟩, hf reply hlaw⟩

/-- A call that leaves the kernel as it is, and what follows it. -/
theorem Patient.still {c : Syscall} {f : Reply c → Sys α} {Q : α → Kernel → Prop}
    (hc : s.Still c) (hf : ∀ reply, Patient (f reply) s Q) : Patient (Ebbnc.call c >>= f) s Q := by
  refine Patient.call hc.1 fun reply _ => ?_
  rw [hc.2 reply]
  exact hf reply

/-- A program of calls that leave the kernel as it is, and what follows it. -/
theorem Patient.still_bind {β : Type} {p : Sys α} {f : α → Sys β} {Q : β → Kernel → Prop}
    (h : Program.Only s.Still p) (hf : ∀ a, Patient (f a) s Q) : Patient (p >>= f) s Q := by
  apply (Patient.of_still h).bind
  rintro a _ rfl
  exact hf a

end patient

/-! ## Replies -/

section replies

variable {s : Kernel}

theorem strPrintf_still (text : Bytes) : Program.Only s.Still (strPrintf text) := by
  refine .call (.of trivial trivial fun _ => ⟨rfl, rfl, rfl⟩) fun okay => ?_
  cases okay <;> trivial

/-- A write to a socket that has a limit. -/
theorem Kernel.still_write {fd : ℤ} (hfd : 0 < s.sndTimeo fd) (buf : Bytes) :
    s.Still (.write fd buf) :=
  .of hfd trivial fun _ => ⟨rfl, rfl, rfl⟩

namespace Client

variable {client : Client}

theorem errorReply_still (hc : 0 < s.sndTimeo client.cSock) (msg : Bytes) :
    Program.Only s.Still (client.errorReply msg) := by
  refine (strPrintf_still _).bind fun buf => ?_
  cases buf with
  | none => trivial
  | some buf => exact .call (Kernel.still_write hc buf) fun _ => trivial

theorem errnoReply_still (hc : 0 < s.sndTimeo client.cSock) (funclient : Bytes) (errno : Errno) :
    Program.Only s.Still (client.errnoReply funclient errno) := by
  refine .call (.of trivial trivial fun _ => ⟨rfl, rfl, rfl⟩) fun errnoMsg => ?_
  refine (strPrintf_still _).bind fun msg => ?_
  cases msg with
  | none => trivial
  | some msg => exact errorReply_still hc msg

theorem writeErrorReply_still (hc : 0 < s.sndTimeo client.cSock) (timeoutMsg : Bytes)
    (errno : Errno) : Program.Only s.Still (client.writeErrorReply timeoutMsg errno) := by
  unfold writeErrorReply
  split
  · exact errorReply_still hc _
  · exact errnoReply_still hc _ _

theorem writeAll_still {fd : ℤ} (hfd : 0 < s.sndTimeo fd) (buf : Bytes) :
    Program.Only s.Still (writeAll fd buf) := by
  refine .call (Kernel.still_write hfd buf) fun reply => ?_
  cases reply <;> trivial

/-! ## Before the relay -/

theorem bindLocal_still (hc : 0 < s.sndTimeo client.cSock) :
    Program.Only s.Still client.bindLocal := by
  unfold bindLocal
  split
  · trivial
  · split
    · exact (errorReply_still hc _).bind fun _ => trivial
    · refine .call (.of trivial trivial fun _ => ⟨rfl, rfl, rfl⟩) fun reply => ?_
      cases reply with
      | error errno => exact (errnoReply_still hc _ _).bind fun _ => trivial
      | ok _ => trivial

theorem ipText_still : Program.Only s.Still client.ipText := by
  unfold ipText
  split
  · trivial
  · exact .call (.of trivial trivial fun _ => ⟨rfl, rfl, rfl⟩) fun _ => trivial

theorem hostname_still (ip : Bytes) : Program.Only s.Still (client.hostname ip) := by
  unfold hostname
  split
  · exact .call (.of trivial trivial fun _ => ⟨rfl, rfl, rfl⟩) fun _ => trivial
  · trivial

theorem welcome_still (hc : 0 < s.sndTimeo client.cSock) : Program.Only s.Still client.welcome := by
  unfold welcome
  split
  · trivial
  · refine (strPrintf_still _).bind fun buf => ?_
    cases buf with
    | none => trivial
    | some buf => exact writeAll_still hc buf

end Client

end replies

/-! ## The two sockets of a session -/

/-- The sockets of a session are open and have a limit for writing. -/
structure Client.Limited (client : Client) (s : Kernel) : Prop where
  fds : s.fds = [client.rSock, client.cSock]
  ne : client.rSock ≠ client.cSock
  toClient : 0 < s.sndTimeo client.cSock
  toServer : 0 < s.sndTimeo client.rSock

section session

variable {client : Client} {s : Kernel}

namespace Client

/-- The test of `writeTimeout`, when there is one: the socket has a limit afterwards. -/
theorem limitWrites_patient (hwrite : 0 < client.config.writeTimeout) (sock : ℤ) :
    Patient (client.limitWrites sock) s fun _ s' =>
      s' = { s with sndTimeo := Function.update s.sndTimeo sock client.config.writeTimeout } := by
  rw [limitWrites, if_pos hwrite]
  refine Program.Sim.perform fun reply _ => ⟨_, ⟨trivial, rfl⟩, ?_⟩
  rw [Kernel.after, opened_of_none s.fds rfl rfl]
  rfl

/-- The connection to the server, from the socket options on. -/
theorem connectSocket_patient (hwrite : 0 < client.config.writeTimeout)
    (hfds : s.fds = [client.rSock, client.cSock]) (hne : client.rSock ≠ client.cSock)
    (hc : 0 < s.sndTimeo client.cSock) (rAddr : SockaddrAny) :
    Patient (client.connectSocket rAddr) s fun _ s' => client.Limited s' := by
  apply (limitWrites_patient hwrite _).bind
  rintro _ _ rfl
  have hlimited : client.Limited
      { s with sndTimeo := Function.update s.sndTimeo client.rSock client.config.writeTimeout } :=
    ⟨hfds, hne, by simpa [Function.update_of_ne hne.symm] using hc, by simpa using hwrite⟩
  refine Patient.still (.of trivial trivial fun _ => ⟨rfl, rfl, rfl⟩) fun _ => ?_
  refine Patient.still_bind (bindLocal_still hlimited.toClient) fun okay => ?_
  cases okay with
  | false => exact hlimited
  | true =>
    refine Patient.still (.of hlimited.toServer trivial fun _ => ⟨rfl, rfl, rfl⟩) fun reply => ?_
    cases reply with
    | error errno =>
      exact Patient.still_bind (errnoReply_still hlimited.toClient _ _) fun _ => hlimited
    | ok _ => exact hlimited

/-- The connection to the server: there is a socket with a limit, or the session is not begun. -/
theorem connect_patient (hwrite : 0 < client.config.writeTimeout) (hfds : s.fds = [client.cSock])
    (hc : 0 < s.sndTimeo client.cSock) :
    Patient client.connect s fun result s' =>
      result = (false, client) ∨
        ∃ r : ℕ, result.2 = { client with rSock := r } ∧ result.2.Limited s' := by
  refine Patient.still (.of trivial trivial fun _ => ⟨rfl, rfl, rfl⟩) fun reply => ?_
  cases reply with
  | error e =>
    cases e with
    | system errno => exact Patient.still_bind (errnoReply_still hc _ _) fun _ => Or.inl rfl
    | other errmsg =>
      refine Patient.still_bind (strPrintf_still _) fun msg => ?_
      cases msg with
      | none => exact Or.inl rfl
      | some msg => exact Patient.still_bind (errorReply_still hc _) fun _ => Or.inl rfl
  | ok rAddr =>
    refine Patient.call trivial fun reply hlaw => ?_
    cases reply with
    | error errno =>
      have hsame : s.after ⟨.socket rAddr.family, .error errno⟩ = s := by
        rw [Kernel.after, opened_of_none s.fds rfl rfl]
        rfl
      rw [hsame]
      exact Patient.still_bind (errnoReply_still hc _ _) fun _ => Or.inl rfl
    | ok r =>
      have hne : (r : ℤ) ≠ client.cSock := fun heq => hlaw r rfl (by simp [hfds, heq])
      have hopen : (s.after ⟨.socket rAddr.family, .ok r⟩).fds = [(r : ℤ), client.cSock] := by
        simp [Kernel.after, opened, Event.made, Event.ended, hfds]
      have hlimit : 0 < (s.after ⟨.socket rAddr.family, .ok r⟩).sndTimeo client.cSock := by
        simpa [Kernel.after, Kernel.sndTimeoAfter, Function.update_of_ne hne.symm] using hc
      have hsocket := @connectSocket_patient { client with rSock := r } _ hwrite hopen hne hlimit
      apply (hsocket rAddr).bind
      intro okay s' hs'
      exact Or.inr ⟨r, rfl, hs'⟩

/-! ## The identity line -/

/-- The socket of the lookup is open, too, and has both limits. -/
structure Asking (client : Client) (i : ℤ) (s : Kernel) : Prop where
  fds : s.fds = [i, client.rSock, client.cSock]
  nodup : [i, client.rSock, client.cSock].Nodup
  toClient : 0 < s.sndTimeo client.cSock
  toServer : 0 < s.sndTimeo client.rSock
  toIdent : 0 < s.sndTimeo i
  fromIdent : 0 < s.rcvTimeo i

/-- The new socket of the lookup gets its limits. -/
theorem Limited.asking {i : ℕ} {family : ℕ} {timeout : ℤ} (h : client.Limited s)
    (hlaw : Kernel.Law s ⟨.socket family, .ok i⟩) (htimeout : 0 < timeout) :
    client.Asking i (((s.after ⟨.socket family, .ok i⟩).after
      ⟨.setsockopt i (.rcvTimeo timeout), ()⟩).after ⟨.setsockopt i (.sndTimeo timeout), ()⟩) := by
  have hnew : (i : ℤ) ∉ [client.rSock, client.cSock] := h.fds ▸ hlaw i rfl
  have hr : client.rSock ≠ i := fun heq => hnew (by simp [heq])
  have hc : client.cSock ≠ i := fun heq => hnew (by simp [heq])
  have hopen : opened [client.rSock, client.cSock] ⟨.socket family, .ok i⟩ =
      [(i : ℤ), client.rSock, client.cSock] := by simp [opened, Event.made, Event.ended]
  refine ⟨?_, ?_, ?_, ?_, ?_, ?_⟩
  · simp only [Kernel.after, h.fds, hopen]
    rw [opened_of_none _ rfl rfl, opened_of_none _ rfl rfl]
  · exact List.nodup_cons.mpr ⟨hnew, by simpa using h.ne⟩
  · simpa [Kernel.after, Kernel.sndTimeoAfter, Function.update_of_ne hc] using h.toClient
  · simpa [Kernel.after, Kernel.sndTimeoAfter, Function.update_of_ne hr] using h.toServer
  · simpa [Kernel.after, Kernel.sndTimeoAfter] using htimeout
  · simpa [Kernel.after, Kernel.rcvTimeoAfter] using htimeout

/-- The socket of the lookup is given back. -/
theorem Asking.ended {i : ℤ} {c : Syscall} {reply : Reply c} (h : client.Asking i s)
    (hc : c.Ends i) : client.Limited (s.after ⟨c, reply⟩) := by
  have hnodup := h.nodup
  simp only [List.nodup_cons, List.mem_cons, List.not_mem_nil, or_false, not_or] at hnodup
  obtain ⟨⟨hr, hcs⟩, hne, -⟩ := hnodup
  cases hc with
  | close =>
    refine ⟨?_, hne, h.toClient, h.toServer⟩
    simp [Kernel.after, opened, Event.made, Event.ended, h.fds, hr, hcs]
  | fclose =>
    refine ⟨?_, hne, h.toClient, h.toServer⟩
    simp [Kernel.after, opened, Event.made, Event.ended, h.fds, hr, hcs]

/-- **The lookup**: all its waits have a limit. -/
theorem identLookup_patient (h : client.Limited s) {timeout : ℤ} (htimeout : 0 < timeout) :
    Patient (identLookup client.cSock timeout) s fun _ s' => client.Limited s' := by
  refine Patient.still (.of trivial trivial fun _ => ⟨rfl, rfl, rfl⟩) fun peerAddr => ?_
  cases peerAddr with
  | error _ => exact h
  | ok peerAddr =>
  refine Patient.still (.of trivial trivial fun _ => ⟨rfl, rfl, rfl⟩) fun localAddr => ?_
  cases localAddr with
  | error _ => exact h
  | ok localAddr =>
  cases peerAddr.withPort identPort with
  | none => exact h
  | some addr =>
  refine Patient.call trivial fun reply hlaw => ?_
  cases reply with
  | error errno =>
    refine ⟨?_, h.ne, h.toClient, h.toServer⟩
    rw [← h.fds]
    exact opened_of_none s.fds rfl rfl
  | ok i =>
  refine Patient.call trivial fun _ _ => Patient.call trivial fun _ _ => ?_
  have hasking := h.asking hlaw htimeout
  refine Patient.still (.of hasking.toIdent trivial fun _ => ⟨rfl, rfl, rfl⟩) fun reply => ?_
  cases reply with
  | error _ => exact Patient.call trivial fun _ _ => hasking.ended .close
  | ok _ =>
  refine Patient.still (.of trivial trivial fun _ => ⟨rfl, rfl, rfl⟩) fun stream => ?_
  cases stream with
  | false => exact Patient.call trivial fun _ _ => hasking.ended .close
  | true =>
  refine Patient.still (.of hasking.toIdent trivial fun _ => ⟨rfl, rfl, rfl⟩) fun asked => ?_
  cases asked with
  | false => exact Patient.call hasking.toIdent fun _ _ => hasking.ended .fclose
  | true =>
  refine Patient.still (.of ⟨hasking.toIdent, hasking.fromIdent⟩ trivial fun _ => ⟨rfl, rfl, rfl⟩)
    fun reply => ?_
  refine Patient.call hasking.toIdent fun _ _ => ?_
  have hlimited := @Asking.ended client _ _ (.fclose i) () hasking .fclose
  cases scanReply reply with
  | none => exact hlimited
  | some parts =>
    obtain ⟨remote, locl, user⟩ := parts
    dsimp only
    split <;> exact hlimited

theorem sendIdnt_patient (h : client.Limited s)
    (hident : client.config.idnt = true → 0 < client.config.identTimeout) :
    Patient client.sendIdnt s fun _ s' => client.Limited s' := by
  unfold sendIdnt
  split
  case isFalse => exact h
  case isTrue hidnt =>
  refine Patient.still (.of trivial trivial fun _ => ⟨rfl, rfl, rfl⟩) fun reply => ?_
  cases reply with
  | error _ => exact h
  | ok _ =>
  apply (identLookup_patient h (hident hidnt)).bind
  intro user s h
  refine Patient.still_bind ipText_still fun ip => ?_
  refine Patient.still_bind (hostname_still ip) fun hostname => ?_
  refine Patient.still_bind (strPrintf_still _) fun buf => ?_
  cases buf with
  | none => exact h
  | some buf =>
    apply (Patient.of_still (writeAll_still h.toServer buf)).mono
    rintro _ _ rfl
    exact h

/-! ## The relay -/

/-- After a read only what can be read has changed. -/
theorem after_read (fd : ℤ) (size : ℕ) (reply : Reply (.read fd size)) :
    s.after ⟨.read fd size, reply⟩ =
      { s with readable := Function.update s.readable fd false } := by
  rw [Kernel.after, opened_of_none s.fds rfl rfl]
  rfl

/-- The branch from the client to the server. -/
theorem relayClient_patient (h : client.Limited s) (ready other : Bool)
    (hready : ready = true → s.readable client.cSock = true)
    (hother : other = true → s.readable client.rSock = true) :
    Patient (client.relayClient ready) s fun _ s' =>
      client.Limited s' ∧ (other = true → s'.readable client.rSock = true) := by
  cases ready with
  | false => exact ⟨h, hother⟩
  | true =>
  refine Patient.call (Or.inr (hready rfl)) fun reply _ => ?_
  rw [after_read]
  have hafter : client.Limited
        { s with readable := Function.update s.readable client.cSock false } ∧
      (other = true → Function.update s.readable client.cSock false client.rSock = true) :=
    ⟨⟨h.fds, h.ne, h.toClient, h.toServer⟩, fun ho => by
      simpa [Function.update_of_ne h.ne] using hother ho⟩
  cases reply with
  | error _ => exact hafter
  | ok chunk =>
  dsimp only
  split
  · exact hafter
  · refine Patient.still (Kernel.still_write hafter.1.toServer _) fun reply => ?_
    cases reply with
    | error errno =>
      exact Patient.still_bind (writeErrorReply_still hafter.1.toClient _ _) fun _ => hafter
    | ok len =>
      dsimp only
      split
      · exact Patient.still_bind (errorReply_still hafter.1.toClient _) fun _ => hafter
      · exact hafter

/-- The branch from the server to the client. -/
theorem relayServer_patient (h : client.Limited s) {ready : Bool}
    (hready : ready = true → s.readable client.rSock = true) :
    Patient (client.relayServer ready) s fun _ s' => client.Limited s' := by
  cases ready with
  | false => exact h
  | true =>
  refine Patient.call (Or.inr (hready rfl)) fun reply _ => ?_
  rw [after_read]
  have hafter : client.Limited
      { s with readable := Function.update s.readable client.rSock false } :=
    ⟨h.fds, h.ne, h.toClient, h.toServer⟩
  cases reply with
  | error errno => exact Patient.still_bind (errnoReply_still hafter.toClient _ _) fun _ => hafter
  | ok chunk =>
  dsimp only
  split
  · exact Patient.still_bind (errorReply_still hafter.toClient _) fun _ => hafter
  · refine Patient.still (Kernel.still_write hafter.toClient _) fun reply => ?_
    cases reply with
    | error errno =>
      exact Patient.still_bind (writeErrorReply_still hafter.toClient _ _) fun _ => hafter
    | ok _ => exact hafter

theorem relayPass_patient (h : client.Limited s) (htimeout : 0 ≤ client.timeout) :
    Patient client.relayPass s fun _ s' => client.Limited s' := by
  refine Patient.call htimeout fun reply _ => ?_
  cases reply with
  | error errno =>
    have hsame : s.after ⟨.poll client.cSock client.rSock client.timeout, .error errno⟩ = s := by
      rw [Kernel.after, opened_of_none s.fds rfl rfl]
      rfl
    rw [hsame]
    exact Patient.still_bind (errnoReply_still h.toClient _ _) fun _ => h
  | ok revents =>
  obtain ⟨c, r⟩ := revents
  have hafter : client.Limited
      (s.after ⟨.poll client.cSock client.rSock client.timeout, .ok (c, r)⟩) :=
    ⟨(opened_of_none s.fds rfl rfl).trans h.fds, h.ne, h.toClient, h.toServer⟩
  dsimp only
  split
  · exact Patient.still_bind (errorReply_still hafter.toClient _) fun _ => hafter
  · apply (relayClient_patient hafter c.pollin r.pollin ?_ ?_).bind
    · rintro more s ⟨h, hready⟩
      cases more with
      | false => exact h
      | true => exact relayServer_patient h hready
    · intro hpollin
      simp [Kernel.after, Kernel.readableAfter, hpollin]
    · intro hpollin
      simp [Kernel.after, Kernel.readableAfter, hpollin]

theorem relay_patient (h : client.Limited s) (htimeout : 0 ≤ client.timeout) (passes : ℕ) :
    Patient (client.relay passes) s fun _ s' => client.Limited s' := by
  have hbody : ∀ s, client.Limited s → Patient client.relayPass s
      fun more s' => if more then client.Limited s' else client.Limited s' :=
    fun s h => (relayPass_patient h htimeout).mono fun more _ h => by cases more <;> exact h
  apply (Program.Sim.loop hbody passes h).mono
  intro o s' h
  cases o <;> exact h

/-! ## The thread -/

/-- Closing does not wait. -/
theorem free_patient : Patient client.free s fun _ _ => True := by
  have hclose : ∀ (sock : ℤ) (s : Kernel), Patient (closeSocket sock) s fun _ _ => True := by
    intro sock s
    unfold closeSocket
    split
    · exact Program.Sim.perform fun _ _ => ⟨_, ⟨trivial, rfl⟩, trivial⟩
    · trivial
  exact (hclose _ _).bind fun _ s' _ => hclose _ s'

/-- The limits a config sets for the waits of a session. -/
structure SetsLimits (client : Client) : Prop where
  write : 0 < client.config.writeTimeout
  ident : client.config.idnt = true → 0 < client.config.identTimeout
  idle : 0 ≤ client.timeout

theorem session_patient (h : client.Limited s) (hlimits : client.SetsLimits) (okay : Bool)
    (passes : ℕ) : Patient (client.session okay passes) s fun _ _ => True := by
  cases okay with
  | false => trivial
  | true =>
    apply (sendIdnt_patient h hlimits.ident).bind
    intro okay s h
    cases okay with
    | false => trivial
    | true =>
      refine Patient.still_bind (welcome_still h.toClient) fun okay => ?_
      cases okay with
      | false => trivial
      | true => exact (relay_patient h hlimits.idle passes).mono fun _ _ _ => trivial

/-- **The thread makes bounded calls only**, when the config has a limit for each wait. -/
theorem threadMain_patient (hlimits : client.SetsLimits) (passes : ℕ) :
    Patient (client.threadMain passes) (.start client.cSock) fun _ _ => True := by
  apply (limitWrites_patient hlimits.write _).bind
  rintro _ _ rfl
  have hc : 0 < Function.update (Kernel.start client.cSock).sndTimeo client.cSock
      client.config.writeTimeout client.cSock := by simpa using hlimits.write
  apply (connect_patient hlimits.write rfl hc).bind
  rintro ⟨okay, client'⟩ s (heq | ⟨r, hclient', hlimited⟩)
  · obtain ⟨rfl, rfl⟩ := Prod.mk.inj heq
    exact free_patient.bind fun _ _ _ => trivial
  · obtain rfl : client' = { client with rSock := r } := hclient'
    apply (session_patient hlimited ⟨hlimits.write, hlimits.ident, hlimits.idle⟩ okay passes).bind
    intro o s _
    cases o with
    | none => trivial
    | some _ => exact free_patient.bind fun _ _ _ => trivial

end Client

end session

/-! ## Runs that get far -/

/-- Sockets that are all different from each other and from the connection are new. -/
theorem fresh_of_nodup {cSock : ℤ} {t : List Event}
    (h : (cSock :: t.filterMap Event.made).Nodup) : Fresh [cSock] t := by
  have hopen : ∀ t : List Event, ∀ fd ∈ openAfter [cSock] t,
      fd ∈ cSock :: t.filterMap Event.made := by
    intro t
    induction t using List.reverseRecOn with
    | nil => exact fun _ h => h
    | append_singleton t e ih =>
        intro fd hfd
        rw [openAfter_concat, opened, List.mem_append] at hfd
        rw [List.filterMap_append, ← List.cons_append, List.mem_append]
        rcases hfd with hfd | hfd
        · refine Or.inr (List.mem_filterMap.mpr ⟨e, List.mem_singleton_self _, ?_⟩)
          simpa using hfd
        · exact Or.inl (ih fd (List.mem_of_mem_filter hfd))
  induction t using List.reverseRecOn with
  | nil => exact along_nil
  | append_singleton t e ih =>
      rw [List.filterMap_append, ← List.cons_append] at h
      have hparts := List.nodup_append.mp h
      refine along_concat.mpr ⟨ih hparts.1, ?_⟩
      intro fd hfd hmem
      refine hparts.2.2 fd (hopen t fd hmem) fd ?_ rfl
      exact List.mem_filterMap.mpr ⟨e, List.mem_singleton_self _, hfd⟩

namespace Client

variable (client : Client)

/-- The test of `writeTimeout` makes no socket. -/
theorem exists_limitWrites (sock : ℤ) :
    ∃ t, Program.Trace (client.limitWrites sock) t (some ()) ∧ t.filterMap Event.made = [] := by
  unfold limitWrites
  split
  · refine ⟨[⟨.setsockopt sock (.sndTimeo client.config.writeTimeout), ()⟩], ?_, rfl⟩
    apply Program.Trace.single
  · exact ⟨[], .ret _, rfl⟩

/-- A local ip that is one can be bound to. -/
theorem exists_bindLocal (hlocal : ∀ ip ∈ client.bouncer.localIP, isValidIP ip = true) :
    ∃ t, Program.Trace client.bindLocal t (some true) ∧ t.filterMap Event.made = [] := by
  unfold bindLocal
  cases hip : client.bouncer.localIP with
  | none => exact ⟨[], .ret _, rfl⟩
  | some ip =>
    obtain ⟨addr, haddr⟩ := Option.isSome_iff_exists.mp (hlocal ip hip)
    simp only [haddr]
    refine ⟨[⟨.bind client.rSock addr, .ok ()⟩], ?_, rfl⟩
    apply Program.Trace.next
    exact .ret _

/-- The connection to the server may be made, with any new socket. -/
theorem exists_connect (hlocal : ∀ ip ∈ client.bouncer.localIP, isValidIP ip = true) (r : ℕ) :
    ∃ t, Program.Trace client.connect t (some (true, { client with rSock := r })) ∧
      t.filterMap Event.made = [(r : ℤ)] := by
  obtain ⟨tlimit, hlimit, hmade⟩ := exists_limitWrites { client with rSock := r } r
  obtain ⟨tbind, hbind, hmade'⟩ := exists_bindLocal { client with rSock := r } hlocal
  have hsocket : Program.Trace (connectSocket { client with rSock := r } (.other 0))
      (tlimit ++ ⟨.setsockopt r .nodelay, ()⟩ :: (tbind ++ [⟨.connect r (.other 0), .ok ()⟩]))
      (some true) := by
    apply hlimit.bind
    apply Program.Trace.next
    apply hbind.bind
    apply Program.Trace.next
    exact .ret _
  let service := (printInt (toInt client.bouncer.remotePort)).take 5
  refine ⟨[⟨.getaddrinfo client.bouncer.remoteHost service, .ok (.other 0)⟩, ⟨.socket 0, .ok r⟩] ++
    (tlimit ++ ⟨.setsockopt r .nodelay, ()⟩ :: (tbind ++ [⟨.connect r (.other 0), .ok ()⟩]) ++ []),
    ?_, ?_⟩
  · apply Program.Trace.next
    apply Program.Trace.next
    apply hsocket.bind
    exact .ret _
  · have hplain : ∀ t : List Event, List.filterMap Event.made
        (⟨.setsockopt r .nodelay, ()⟩ :: t) = List.filterMap Event.made t := fun _ => rfl
    have hsockets : List.filterMap Event.made
        (tlimit ++ ⟨.setsockopt r .nodelay, ()⟩ :: (tbind ++ [⟨.connect r (.other 0), .ok ()⟩]) ++
          []) = [] := by
      rw [List.append_nil, List.filterMap_append, hmade, hplain, List.filterMap_append, hmade']
      rfl
    exact congrArg ((r : ℤ) :: ·) hsockets

/-- The thread goes on from there. -/
theorem exists_connected (hlocal : ∀ ip ∈ client.bouncer.localIP, isValidIP ip = true) (r : ℕ)
    {passes : ℕ} {t : List Event}
    (h : Program.Trace (session { client with rSock := r } true passes) t none) :
    ∃ t₀, Program.Trace (client.threadMain passes) (t₀ ++ t) none ∧
      t₀.filterMap Event.made = [(r : ℤ)] := by
  obtain ⟨tlimit, hlimit, hmade⟩ := exists_limitWrites client client.cSock
  obtain ⟨tconnect, hconnect, hmade'⟩ := exists_connect client hlocal r
  refine ⟨tlimit ++ tconnect, ?_, by simp [hmade, hmade']⟩
  rw [List.append_assoc]
  apply hlimit.bind
  apply hconnect.bind
  exact h.bind_of_none

/-- The address of the client has a text. -/
theorem exists_ipText :
    ∃ ip t, Program.Trace client.ipText t (some ip) ∧ t.filterMap Event.made = [] := by
  unfold ipText
  cases ipFromSockaddr client.cAddr with
  | some ip => exact ⟨ip, [], .ret _, rfl⟩
  | none =>
    refine ⟨cstr [], [⟨.unwritten, []⟩], ?_, rfl⟩
    apply Program.Trace.next
    exact .ret _

/-- The client's host has a name. -/
theorem exists_hostname (ip : Bytes) :
    ∃ name t, Program.Trace (client.hostname ip) t (some name) ∧ t.filterMap Event.made = [] := by
  unfold hostname
  split
  · refine ⟨ip, [⟨.getnameinfo client.cAddr, none⟩], ?_, rfl⟩
    apply Program.Trace.next
    exact .ret _
  · exact ⟨ip, [], .ret _, rfl⟩

/-- A text may be formatted and written. -/
theorem exists_print (fd : ℤ) (text : Bytes) :
    ∃ t, Program.Trace (strPrintf text >>= fun
      | none => pure false
      | some buf => writeAll fd buf) t (some true) ∧ t.filterMap Event.made = [] := by
  have hprintf : Program.Trace (strPrintf text) [⟨.calloc (text.length + 1), true⟩]
      (some (some text)) := by
    apply Program.Trace.next
    exact .ret _
  have hwrite : Program.Trace (writeAll fd text) [⟨.write fd text, .ok (Fin.last _)⟩]
      (some true) := by
    have hlength : true = decide ((Fin.last text.length).val = text.length) := by simp
    apply Program.Trace.next
    rw [hlength]
    exact .ret _
  exact ⟨_, hprintf.bind hwrite, rfl⟩

/-- The identity line may be sent. -/
theorem exists_sendIdnt :
    ∃ t, Program.Trace client.sendIdnt t (some true) ∧ t.filterMap Event.made = [] := by
  obtain ⟨ip, tip, hip, hmade⟩ := client.exists_ipText
  obtain ⟨name, tname, hname, hmade'⟩ := client.exists_hostname ip
  obtain ⟨tprint, hprint, hmade''⟩ := exists_print client.rSock (idntLine (ascii "*") ip name)
  unfold sendIdnt
  split
  · refine ⟨[⟨.getsockname client.cSock, .ok (.other 0)⟩, ⟨.getpeername client.cSock, .error 0⟩] ++
      (tip ++ (tname ++ tprint)), ?_, ?_⟩
    · apply Program.Trace.next
      apply Program.Trace.next
      apply hip.bind
      apply hname.bind
      exact hprint
    · rw [List.filterMap_append, List.filterMap_append, List.filterMap_append, hmade, hmade',
        hmade'']
      rfl
  · exact ⟨[], .ret _, rfl⟩

/-- The welcome message may be sent. -/
theorem exists_welcome :
    ∃ t, Program.Trace client.welcome t (some true) ∧ t.filterMap Event.made = [] := by
  unfold welcome
  split
  · exact ⟨[], .ret _, rfl⟩
  · exact exists_print _ _

/-! ## Every wait -/

/-- Every call of every run is bounded. -/
def NeverHangs : Prop :=
  ∀ passes t o, Program.Trace (client.threadMain passes) t o → Fresh [client.cSock] t →
    Along (fun t e => (Kernel.afterRun client.cSock t).Bounded e.1) t

variable {client}

/-- With all limits set, no call waits for ever. -/
theorem SetsLimits.neverHangs (h : client.SetsLimits) : client.NeverHangs := by
  intro passes t o ht hfresh
  have hlaw : Along (fun t₁ e => ∀ s, Path Kernel.Step (.start client.cSock) t₁ s →
      Kernel.Law s e) t := by
    intro t₁ e t₂ heq s hpath fd hfd
    rw [(Kernel.of_path hpath).1, Kernel.fds_afterRun]
    exact hfresh t₁ e t₂ heq fd hfd
  obtain ⟨s, hpath, -⟩ := (threadMain_patient h passes).path ht hlaw
  exact (Kernel.of_path hpath).2

/-- Two numbers that a connection does not have. -/
theorem nodup_sockets (c : ℤ) :
    [c, ((c.natAbs + 1 : ℕ) : ℤ), ((c.natAbs + 2 : ℕ) : ℤ)].Nodup := by
  have h₁ : c ≠ ((c.natAbs + 1 : ℕ) : ℤ) := by omega
  have h₂ : c ≠ ((c.natAbs + 2 : ℕ) : ℤ) := by omega
  have h₃ : ((c.natAbs + 1 : ℕ) : ℤ) ≠ ((c.natAbs + 2 : ℕ) : ℤ) := by omega
  simp only [List.nodup_cons, List.mem_cons, List.not_mem_nil, or_false, not_or, not_false_eq_true]
  exact ⟨⟨h₁, h₂⟩, h₃, trivial, List.nodup_nil⟩

/-- Without a limit for writing, a reply may wait for ever. -/
theorem NeverHangs.write (h : client.NeverHangs) : 0 < client.config.writeTimeout := by
  by_contra hwrite
  let service := (printInt (toInt client.bouncer.remotePort)).take 5
  let text := ascii "hostPortToSockaddr: " ++ []
  let before : List Event :=
    [⟨.getaddrinfo client.bouncer.remoteHost service, .error (.other [])⟩,
      ⟨.calloc (text.length + 1), true⟩, ⟨.calloc ((errorLine text).length + 1), true⟩]
  have htrace : Program.Trace (client.threadMain 0)
      (before ++ [⟨.write client.cSock (errorLine text), .error 0⟩]) none := by
    unfold threadMain limitWrites
    rw [if_neg hwrite]
    repeat refine .call _ ?_
    exact .stop _
  have hnodup : (client.cSock :: List.filterMap Event.made
      (before ++ [⟨.write client.cSock (errorLine text), .error 0⟩])).Nodup :=
    List.nodup_singleton client.cSock
  have hbounded : 0 < (0 : ℤ) := h 0 _ none htrace (fresh_of_nodup hnodup) before _ [] rfl
  exact absurd hbounded (lt_irrefl 0)

/-- Without a limit for the lookup, it may wait for ever. -/
theorem NeverHangs.ident (h : client.NeverHangs)
    (hlocal : ∀ ip ∈ client.bouncer.localIP, isValidIP ip = true)
    (hidnt : client.config.idnt = true) : 0 < client.config.identTimeout := by
  by_contra hident
  let addr (port : UInt16) : SockaddrAny := .inet (Vector.replicate 4 0) port
  let i := client.cSock.natAbs + 2
  let before : List Event :=
    [⟨.getsockname client.cSock, .ok (addr 0)⟩, ⟨.getpeername client.cSock, .ok (addr 0)⟩,
      ⟨.getsockname client.cSock, .ok (addr 0)⟩, ⟨.socket 2, .ok i⟩,
      ⟨.setsockopt i (.rcvTimeo client.config.identTimeout), ()⟩,
      ⟨.setsockopt i (.sndTimeo client.config.identTimeout), ()⟩]
  have hlookup : Program.Trace
      (session { client with rSock := (client.cSock.natAbs + 1 : ℕ) } true 0)
      (before ++ [⟨.connect i (addr 113), .error 0⟩]) none := by
    unfold session sendIdnt
    simp only [if_true, hidnt]
    repeat refine .call _ ?_
    exact .stop _
  obtain ⟨t₀, htrace, hmade⟩ := client.exists_connected hlocal (client.cSock.natAbs + 1) hlookup
  have hnodup : (client.cSock :: List.filterMap Event.made
      (t₀ ++ (before ++ [⟨.connect i (addr 113), .error 0⟩]))).Nodup := by
    have hmade' : List.filterMap Event.made (before ++ [⟨.connect i (addr 113), .error 0⟩]) =
      [(i : ℤ)] := rfl
    rw [List.filterMap_append, hmade, hmade']
    exact nodup_sockets client.cSock
  have hbounded := h 0 _ none htrace (fresh_of_nodup hnodup) (t₀ ++ before) _ []
    (by rw [List.append_assoc])
  have hlimit : (Kernel.afterRun client.cSock (t₀ ++ before)).sndTimeo i =
      client.config.identTimeout := by
    simp [Kernel.afterRun, before, Kernel.after, Kernel.sndTimeoAfter]
  exact hident (hlimit ▸ hbounded)

/-- Without a limit for an idle session, it may wait for ever. -/
theorem NeverHangs.idle (h : client.NeverHangs)
    (hlocal : ∀ ip ∈ client.bouncer.localIP, isValidIP ip = true) : 0 ≤ client.timeout := by
  let connected : Client := { client with rSock := (client.cSock.natAbs + 1 : ℕ) }
  obtain ⟨tidnt, hidnt, hmade⟩ := connected.exists_sendIdnt
  obtain ⟨twelcome, hwelcome, hmade'⟩ := connected.exists_welcome
  let poll : Event := ⟨.poll client.cSock connected.rSock client.timeout, .error 0⟩
  have hrelay : Program.Trace (connected.relay 1) [poll] none := .call _ (.stop _)
  have hsession : Program.Trace (connected.session true 1) (tidnt ++ (twelcome ++ [poll]))
      none := by
    apply hidnt.bind
    exact hwelcome.bind hrelay
  obtain ⟨t₀, htrace, hmade₀⟩ := client.exists_connected hlocal (client.cSock.natAbs + 1) hsession
  have hnodup : (client.cSock :: List.filterMap Event.made
      (t₀ ++ (tidnt ++ (twelcome ++ [poll])))).Nodup := by
    have hpoll : List.filterMap Event.made [poll] = [] := rfl
    rw [List.filterMap_append, List.filterMap_append, List.filterMap_append, hmade₀, hmade, hmade',
      hpoll]
    exact (nodup_sockets client.cSock).sublist (by simp)
  exact h 1 _ none htrace (fresh_of_nodup hnodup) (t₀ ++ (tidnt ++ twelcome)) poll []
    (by simp only [List.append_assoc])

/-- **Every wait is bounded**: in every run of the thread, whatever the calls reply, each call has a
time limit or does not wait, just when the config sets a limit for writing, one for the ident lookup
if there is to be one, and one for an idle session. -/
theorem waits_bounded_iff (hlocal : ∀ ip ∈ client.bouncer.localIP, isValidIP ip = true) :
    client.NeverHangs ↔ client.SetsLimits :=
  ⟨fun h => ⟨h.write, h.ident hlocal, h.idle hlocal⟩, SetsLimits.neverHangs⟩

/-- The visitor's connection, with a limit for an idle session. -/
def hurried : Client := { visitor with config := { visitor.config with idleTimeout := 60 } }

theorem waits_bounded_hurried : hurried.NeverHangs ∧ ¬ visitor.NeverHangs := by
  refine ⟨(waits_bounded_iff (by decide)).mpr ⟨by decide, by decide, by decide⟩, ?_⟩
  rw [waits_bounded_iff (by decide)]
  exact fun h => absurd h.idle (by decide)

end Client

end Ebbnc
