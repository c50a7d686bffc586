import Ebbnc.Accept
import Ebbnc.ConfigFiles
import Ebbnc.Listen
import Ebbnc.PidFile

/-!
# The whole daemon

`main` of the daemon that reads its config from a file, from the arguments to the loop, put together
from the functions of the other modules, each with all of its calls.

* `MainCall`, `MainProgram` — the calls of the process; `Main.inLibc`, `Main.inServer`,
  `Main.inStartup` — programs over a part of them.
* `Server.read` — the list of servers a pointer leads to.
* `Main.main` — the program.
* `Main.Serving` — what is served is what is in the file; **`Main.main_outcome`** — how every run of
  `main` ends.
* `Main.Launches` — a launch, with the opening of the sockets as one call; **`Main.main_launches`**
  — the launch in a run of `main` is that of `Startup.main`.
-/

namespace Ebbnc

open Lib

/-- The calls of the process. -/
inductive MainCall
  /-- `sigaction`, which has `SIGPIPE` ignored. -/
  | sigaction
  | libc (c : LibcCall)
  | server (c : ServerCall)
  | start (c : StartCall)

/-- The replies. Whether `sigaction` succeeds is not looked at. -/
abbrev MainReply : MainCall → Type
  | .sigaction => Bool
  | .libc c => LibcReply c
  | .server c => ServerReply c
  | .start c => StartReply c

/-- Programs over these calls. -/
abbrev MainProgram := Program MainReply

/-- A call and its reply. -/
abbrev MainEvent := Lib.Event MainReply

namespace Server

/-- What is in a server in memory, when its pointers are not null. -/
def ofCell (cell : ServerCell) : Option Server :=
  match cell.config, cell.bouncer with
  | some config, some bouncer => some ⟨cell.sock, cell.addr, config, bouncer⟩
  | _, _ => none

/-- The list of servers a pointer leads to, as far as so many links. -/
def read (heap : Heap ServerCell) : ℕ → Option ℕ → List Server
  | 0, _ => []
  | _ + 1, none => []
  | links + 1, some p =>
    match heap.load p with
    | none => []
    | some cell => (ofCell cell).toList ++ read heap links cell.next

end Server

namespace Main

variable {α : Type}

/-- A program over the C library. -/
def inLibc (p : Libc α) : MainProgram α := p.interpret fun c => Program.perform (MainCall.libc c)

/-- A program of the server's thread. -/
def inServer (p : Daemon α) : MainProgram α :=
  p.interpret fun c => Program.perform (MainCall.server c)

/-- A program of a launch. -/
def inStartup (p : Startup α) : MainProgram α :=
  p.interpret fun c => Program.perform (MainCall.start c)

/-- Source: `main.c` `InitialiseSignals` -/
def initialiseSignals : MainProgram Bool := Program.perform MainCall.sigaction

/-- Giving back the servers and the config. -/
def cleanUp (config : ConfigBlock) (servers : ℕ) (heap : Heap ServerCell) : MainProgram Unit := do
  let _ ← inServer (Server.freeList heap (some servers))
  inLibc config.free

/-- The process after the fork: it failed, it is the parent, or it is the daemon. The exit status;
none when the loop is still going on after so many passes.
Source: `main.c` `main` -/
def forked (passes : ℕ) (config : ConfigBlock) (servers : ℕ) (heap : Heap ServerCell) (pid : ℤ) :
    MainProgram (Option ℤ) := do
  if pid < 0 then do
    cleanUp config servers heap
    pure (some 1)
  else if 0 < pid then do
    match config.pidFile with
    | none => pure (some 0)
    | some pidFile => do
      let _ ← inStartup (Startup.createPIDFile pidFile.text pid)
      pure (some 0)
  else do
    match ← inServer (Server.loop (Server.read heap heap.length (some servers)) passes) with
    | none => pure none
    | some _ => do
      cleanUp config servers heap
      pure (some 0)

/-- Source: `main.c` `main`, from `Server_listenAll` on -/
def listening (passes : ℕ) (config : ConfigBlock) : MainProgram (Option ℤ) := do
  match ← inServer (Server.listenAll [] config.erase) with
  | (none, _) => do
    inLibc config.free
    pure (some 1)
  | (some servers, heap) => do
    let pid ← inStartup Startup.daemonise
    forked passes config servers heap pid

/-- Source: `main.c` `main`, the check of the pid file -/
def loaded (passes : ℕ) (config : ConfigBlock) : MainProgram (Option ℤ) := do
  match config.pidFile with
  | none => listening passes config
  | some pidFile => do
    let ret ← inStartup (Startup.isAlreadyRunning pidFile.text)
    if ret < 0 then do
      inLibc config.free
      pure (some 1)
    else if ret ≠ 0 then do
      inLibc config.free
      pure (some 1)
    else listening passes config

/-- The exit status.
Source: `main.c` `main` -/
def main (isValidHost : Option Bytes → Bool) (passes : ℕ) (argv : List Bytes) :
    MainProgram (Option ℤ) :=
  match argv with
  | [_, path] => do
    let _ ← initialiseSignals
    match ← inLibc (loadFile isValidHost path) with
    | .error _ => pure (some 1)
    | .ok config => loaded passes config
  | _ => pure (some 1)

/-! ## The parts of a run -/

/-- The calls of the C library in a run. -/
def libcCalls (t : List MainEvent) : List LibcEvent :=
  t.filterMap fun
    | ⟨.libc c, r⟩ => some ⟨c, r⟩
    | _ => none

/-- The calls of the server's thread in a run. -/
def serverCalls (t : List MainEvent) : List ServerEvent :=
  t.filterMap fun
    | ⟨.server c, r⟩ => some ⟨c, r⟩
    | _ => none

/-- The calls of the launch in a run. -/
def startCalls (t : List MainEvent) : List StartEvent :=
  t.filterMap fun
    | ⟨.start c, r⟩ => some ⟨c, r⟩
    | _ => none

def ofLibc (e : LibcEvent) : MainEvent := ⟨.libc e.1, e.2⟩

def ofServer (e : ServerEvent) : MainEvent := ⟨.server e.1, e.2⟩

def ofStart (e : StartEvent) : MainEvent := ⟨.start e.1, e.2⟩

section parts

variable {t t' : List MainEvent} {a : α}

@[simp] theorem libcCalls_append : libcCalls (t ++ t') = libcCalls t ++ libcCalls t' :=
  List.filterMap_append

@[simp] theorem serverCalls_append : serverCalls (t ++ t') = serverCalls t ++ serverCalls t' :=
  List.filterMap_append

@[simp] theorem startCalls_append : startCalls (t ++ t') = startCalls t ++ startCalls t' :=
  List.filterMap_append

@[simp] theorem libcCalls_ofLibc (es : List LibcEvent) : libcCalls (es.map ofLibc) = es := by
  induction es with
  | nil => rfl
  | cons e es ih => exact congrArg (e :: ·) ih

@[simp] theorem serverCalls_ofServer (es : List ServerEvent) :
    serverCalls (es.map ofServer) = es := by
  induction es with
  | nil => rfl
  | cons e es ih => exact congrArg (e :: ·) ih

@[simp] theorem startCalls_ofStart (es : List StartEvent) : startCalls (es.map ofStart) = es := by
  induction es with
  | nil => rfl
  | cons e es ih => exact congrArg (e :: ·) ih

@[simp] theorem serverCalls_ofLibc (es : List LibcEvent) : serverCalls (es.map ofLibc) = [] := by
  induction es with
  | nil => rfl
  | cons e es ih => exact ih

@[simp] theorem serverCalls_ofStart (es : List StartEvent) : serverCalls (es.map ofStart) = [] := by
  induction es with
  | nil => rfl
  | cons e es ih => exact ih

@[simp] theorem startCalls_ofLibc (es : List LibcEvent) : startCalls (es.map ofLibc) = [] := by
  induction es with
  | nil => rfl
  | cons e es ih => exact ih

@[simp] theorem startCalls_ofServer (es : List ServerEvent) :
    startCalls (es.map ofServer) = [] := by
  induction es with
  | nil => rfl
  | cons e es ih => exact ih

@[simp] theorem serverCalls_sigaction {okay : Bool} :
    serverCalls (⟨.sigaction, okay⟩ :: t) = serverCalls t := rfl

@[simp] theorem startCalls_sigaction {okay : Bool} :
    startCalls (⟨.sigaction, okay⟩ :: t) = startCalls t := rfl

@[simp] theorem libcCalls_sigaction {okay : Bool} :
    libcCalls (⟨.sigaction, okay⟩ :: t) = libcCalls t := rfl

/-- A run of a program over the C library. -/
theorem trace_inLibc {p : Libc α} (h : Program.Trace (inLibc p) t (some a)) :
    ∃ es, t = es.map ofLibc ∧ Program.Trace p es (some a) := by
  refine Program.trace_interpret_single (fun c r t ht => ?_) h
  cases ht with
  | call r ht => cases ht; rfl

/-- A run of a program of the server's thread. -/
theorem trace_inServer {p : Daemon α} (h : Program.Trace (inServer p) t (some a)) :
    ∃ es, t = es.map ofServer ∧ Program.Trace p es (some a) := by
  refine Program.trace_interpret_single (fun c r t ht => ?_) h
  cases ht with
  | call r ht => cases ht; rfl

/-- A run of a program of a launch. -/
theorem trace_inStartup {p : Startup α} (h : Program.Trace (inStartup p) t (some a)) :
    ∃ es, t = es.map ofStart ∧ Program.Trace p es (some a) := by
  refine Program.trace_interpret_single (fun c r t ht => ?_) h
  cases ht with
  | call r ht => cases ht; rfl

/-- The other way round. -/
theorem inLibc_of_trace {p : Libc α} {es : List LibcEvent} (h : Program.Trace p es (some a)) :
    Program.Trace (inLibc p) (es.map ofLibc) (some a) :=
  h.interpret_single fun _ r => .single r

theorem inServer_of_trace {p : Daemon α} {es : List ServerEvent}
    (h : Program.Trace p es (some a)) : Program.Trace (inServer p) (es.map ofServer) (some a) :=
  h.interpret_single fun _ r => .single r

theorem inStartup_of_trace {p : Startup α} {es : List StartEvent}
    (h : Program.Trace p es (some a)) : Program.Trace (inStartup p) (es.map ofStart) (some a) :=
  h.interpret_single fun _ r => .single r

end parts

/-! ## The loop -/

section loop

variable {servers : List Server}

/-- What the loop does: it waits for connections on the sockets of the servers, starts threads for
connections that were accepted on one of them, with what this server is for, and closes nothing. No
pointer is followed that leads nowhere. -/
def Serves (servers : List Server) (t : List ServerEvent) : ServerEvent → Prop
  | ⟨.select _ fds, _⟩ => fds = servers.map Server.sock
  | ⟨.pthreadCreate client, _⟩ => ∃ server ∈ servers, ∃ sock addr,
      (⟨.accept server.sock, .ok (sock, addr)⟩ : ServerEvent) ∈ t ∧
        client = Client.ofServer server sock addr
  | ⟨.sys (.close _), _⟩ => False
  | ⟨.fault, _⟩ => False
  | _ => True

/-- A connection that was accepted on the socket of a server. -/
theorem launch_serves {server : Server} {sock : ℕ} {addr : SockaddrAny} {t : List ServerEvent}
    (hserver : server ∈ servers)
    (haccept : (⟨.accept server.sock, .ok (sock, addr)⟩ : ServerEvent) ∈ t) :
    Program.Sim (Program.Recorder (Serves servers)) (fun _ _ => True)
      (Client.launch server sock addr) t fun _ _ => True := by
  refine Program.Sim.call fun memory _ => ⟨_, ⟨trivial, rfl⟩, ?_⟩
  cases memory with
  | false => trivial
  | true =>
      refine Program.Sim.call fun okay _ => ⟨_, ⟨?_, rfl⟩, trivial⟩
      exact ⟨server, hserver, sock, addr, List.mem_append_left _ haccept, rfl⟩

theorem acceptReady_serves {ready : List ℤ} {rest : List Server} {t : List ServerEvent}
    (hrest : ∀ server ∈ rest, server ∈ servers) :
    Program.Sim (Program.Recorder (Serves servers)) (fun _ _ => True)
      (Server.acceptReady ready rest) t fun _ _ => True := by
  induction rest generalizing t with
  | nil => trivial
  | cons server rest ih =>
      have hothers : ∀ s ∈ rest, s ∈ servers := fun s hs => hrest s (List.mem_cons_of_mem _ hs)
      rw [Server.acceptReady]
      split
      · refine Program.Sim.call fun reply _ => ⟨_, ⟨trivial, rfl⟩, ?_⟩
        cases reply with
        | error errno => trivial
        | ok connection =>
            obtain ⟨sock, addr⟩ := connection
            exact (launch_serves (hrest server List.mem_cons_self) (by simp)).bind
              fun _ _ _ => ih hothers
      · exact ih hothers

/-- **The loop serves the servers it is given**, and does not return. -/
theorem loop_serves {passes : ℕ} {t : List ServerEvent} :
    Program.Sim (Program.Recorder (Serves servers)) (fun _ _ => True)
      (Server.loop servers passes) t fun o _ => o = none := by
  induction passes generalizing t with
  | zero => rfl
  | succ passes ih =>
      have haccept : Program.Sim (Program.Recorder (Serves servers)) (fun _ _ => True)
          (Server.accept servers) t fun _ _ => True := by
        refine Program.Sim.call fun reply _ => ⟨_, ⟨rfl, rfl⟩, ?_⟩
        cases reply with
        | error errno => exact Program.Sim.perform fun _ _ => ⟨_, ⟨trivial, rfl⟩, trivial⟩
        | ok ready => exact acceptReady_serves fun _ h => h
      have hpass : Program.Sim (Program.Recorder (Serves servers)) (fun _ _ => True)
          (do Server.accept servers; pure true) t fun more _ => more = true :=
        haccept.bind fun _ _ _ => rfl
      refine hpass.bind fun more t' hmore => ?_
      obtain rfl := hmore
      exact ih

/-- The runs of the loop. -/
theorem loop_runs {passes : ℕ} {t : List ServerEvent} {r : Option Unit}
    (ht : Program.Trace (Server.loop servers passes) t (some r)) :
    r = none ∧ Along (Serves servers) t := by
  obtain ⟨t', hpath, hend⟩ := (loop_serves (t := [])).path ht fun _ _ _ _ _ _ => trivial
  obtain ⟨rfl, halong⟩ := Program.Recorder.of_path hpath
  exact ⟨hend r rfl, halong⟩

end loop

/-! ## Opening the sockets -/

/-- The descriptor that `socket` makes. -/
def socketMade : ServerEvent → Option ℤ
  | ⟨.sys (.socket _), .ok fd⟩ => some (fd : ℕ)
  | _ => none

/-- No descriptor is made but by `socket`. -/
def Opens (e : ServerEvent) : Prop := e.made = socketMade e

/-- A call on the way to the first `select`: it may follow a null pointer, and is nothing the loop
would not do. -/
def Prepares (e : ServerEvent) : Prop :=
  Opens e ∧ (e.1 = .fault ∨ ∀ servers t, Serves servers t e)

/-- The kernel makes sockets of descriptors that are not held. Connections are closed by their
threads, so they may have the descriptor of an earlier one. -/
def FreshSockets (fds : List ℤ) (t : List ServerEvent) : Prop :=
  Along (fun t e => ∀ fd ∈ socketMade e, fd ∉ serverDescriptors.heldAfter fds t) t

instance (fds : List ℤ) (t : List ServerEvent) : Decidable (FreshSockets fds t) :=
  inferInstanceAs (Decidable (Along _ t))

section prepares

variable {config : Config} {bouncer : Bouncer} {acquired released : List ServerEvent}

theorem prepares_of_opening {ip : Option Bytes} {port sock : ℤ} {okay : Bool} {addr : SockaddrAny}
    (h : Server.Opening ip port acquired okay sock addr) : ∀ e ∈ acquired, Prepares e := by
  have hsocket : ∀ (family : ℕ) (reply : Except Errno ℕ),
      Prepares ⟨.sys (.socket family), reply⟩ := by
    intro family reply
    refine ⟨?_, Or.inr fun _ _ => trivial⟩
    cases reply <;> rfl
  have hreuse : ∀ (fd : ℤ), Prepares ⟨.reuseaddr fd, ()⟩ := fun fd =>
    ⟨rfl, Or.inr fun _ _ => trivial⟩
  have hbind : ∀ (fd : ℤ) (reply : Except Errno Unit), Prepares ⟨.sys (.bind fd addr), reply⟩ :=
    fun fd _ => ⟨rfl, Or.inr fun _ _ => trivial⟩
  have hlisten : ∀ (fd : ℤ) (reply : Except Errno Unit), Prepares ⟨.listen fd, reply⟩ :=
    fun fd _ => ⟨rfl, Or.inr fun _ _ => trivial⟩
  have hfault : Prepares ⟨.fault, ()⟩ := ⟨rfl, Or.inl rfl⟩
  cases h <;> simp [hsocket, hreuse, hbind, hlisten, hfault]

theorem prepares_of_attempt {o : Option Server}
    (h : Server.Attempt config bouncer acquired released o) : ∀ e ∈ acquired, Prepares e := by
  have hcalloc : ∀ okay : Bool, Prepares ⟨.sys (.calloc sizeofServer), okay⟩ :=
    fun _ => ⟨rfl, Or.inr fun _ _ => trivial⟩
  cases h with
  | noMemory => simpa using hcalloc false
  | failed h => exact List.forall_mem_cons.mpr ⟨hcalloc true, prepares_of_opening h⟩
  | listening h => exact List.forall_mem_cons.mpr ⟨hcalloc true, prepares_of_opening h⟩

theorem prepares_of_rest {bouncers : List Bouncer} {servers : List Server}
    {o : Option (List Server)} (h : Server.Rest config bouncers servers acquired released o) :
    ∀ e ∈ acquired, Prepares e := by
  induction h with
  | done => simp
  | failed h _ => exact prepares_of_attempt h
  | next h _ ih => exact List.forall_mem_append.mpr ⟨prepares_of_attempt h, ih⟩

end prepares

/-! ## How a run ends -/

/-- The servers are those of the text, they listen on sockets of their own, and what is done on
these is what `Serves` says. -/
structure Serving (text : Bytes) (config : Config) (servers : List Server) (t : List ServerEvent) :
    Prop where
  /-- One server for each definition of the text, in their order. -/
  lines : (definitions (textLines text)).map Bouncer.parse =
    servers.map fun server => some server.bouncer
  config : ∀ server ∈ servers, server.config = config
  listens : ∀ server ∈ servers, server.Listens t
  apart : (servers.map Server.sock).Nodup
  serves : Along (Serves servers) t

/-- The check of the pid file, if there is one, came before everything else, and found no other
daemon. -/
def Unclaimed (pidFile : Option Bytes) (t : List StartEvent) : Prop :=
  ∀ path, pidFile = some path →
    ∃ t₁ t₂, t = t₁ ++ t₂ ∧ Program.Trace (Startup.isAlreadyRunning path) t₁ (some 0)

theorem Unclaimed.append {pidFile : Option Bytes} {t : List StartEvent} (h : Unclaimed pidFile t)
    (t' : List StartEvent) : Unclaimed pidFile (t ++ t') := by
  intro path hpath
  obtain ⟨t₁, t₂, rfl, hcheck⟩ := h path hpath
  exact ⟨t₁, t₂ ++ t', List.append_assoc _ _ _, hcheck⟩

/-- How a run ends, by its exit status: there is no daemon and no socket is left; this is the parent
of the daemon; or it is the daemon, which is still in its loop. -/
inductive Outcome (isValidHost : Option Bytes → Bool) (text : Bytes) (fds : List ℤ)
    (start : List StartEvent) (server : List ServerEvent) : Option ℤ → Prop
  | failed (hheld : serverDescriptors.heldAfter fds server = fds)
      (hfork : ∀ pid, (⟨.fork, pid⟩ : StartEvent) ∈ start → pid < 0) :
      Outcome isValidHost text fds start server (some 1)
  | parent {config : Config} {servers : List Server} {pid : ℤ}
      (hload : Config.loadBuffer isValidHost text = .ok (.ok config))
      (hcheck : Unclaimed config.pidFile start) (hpid : 0 < pid)
      (hfork : (⟨.fork, pid⟩ : StartEvent) ∈ start) (h : Serving text config servers server) :
      Outcome isValidHost text fds start server (some 0)
  | daemon {config : Config} {servers : List Server}
      (hload : Config.loadBuffer isValidHost text = .ok (.ok config))
      (hcheck : Unclaimed config.pidFile start)
      (hfork : (⟨.fork, (0 : ℤ)⟩ : StartEvent) ∈ start) (h : Serving text config servers server) :
      Outcome isValidHost text fds start server none

end Main

namespace Server

/-! ## The list of servers, read -/

section read

variable {base heap : Heap ServerCell} {p : Option ℕ} {servers : List Server}

theorem read_of_chain {cells : List (ℕ × ServerCell)} {links : ℕ}
    (h : Chain ServerCell.next heap p cells)
    (hservers : List.Forall₂ (fun c server => c.2 = server.cell c.2.next) cells servers)
    (hlinks : cells.length ≤ links) : read heap links p = servers := by
  induction hservers generalizing p links with
  | nil =>
      obtain rfl := chain_nil.mp h
      cases links <;> rfl
  | @cons c server cells servers hc _ ih =>
      obtain ⟨q, cell⟩ := c
      obtain ⟨links, rfl⟩ : ∃ k, links = k + 1 :=
        Nat.exists_eq_succ_of_ne_zero (by simp only [List.length_cons] at hlinks; omega)
      obtain ⟨rfl, hload, hrest⟩ := chain_cons.mp h
      have hcell : cell = server.cell cell.next := hc
      have hof : ofCell cell = some server := by
        rw [hcell]
        rfl
      simp only [read, hload, hof, Option.toList_some, List.singleton_append]
      rw [ih hrest (by simpa using hlinks)]

/-- The pointer leads to the servers. -/
theorem Linked.read (h : Linked base heap p servers) : read heap heap.length p = servers := by
  obtain ⟨cells, hchain, hservers, -, -⟩ := h
  exact read_of_chain hchain hservers hchain.length_le

end read

end Server

namespace Main

section outcome

variable {isValidHost : Option Bytes → Bool} {text : Bytes} {fds : List ℤ} {t : List MainEvent}

/-- No descriptor is made twice before the loop. -/
theorem FreshSockets.fresh {es : List ServerEvent} (h : FreshSockets fds es)
    (hopens : ∀ e ∈ es, Opens e) : serverDescriptors.Fresh fds es := by
  rintro t₁ e t₂ rfl r hr
  have hsocket : r ∈ socketMade e := hopens e (by simp) ▸ hr
  exact h t₁ e t₂ rfl r hsocket

/-- Opening sockets and closing them again makes nothing else. -/
theorem opens_of_closing {acquired released : List ServerEvent}
    (hopens : ∀ e ∈ acquired, Opens e)
    (hclosing : ∀ e ∈ released, ∃ sock, e = Server.closing sock) :
    ∀ e ∈ acquired ++ released, Opens e := by
  refine List.forall_mem_append.mpr ⟨hopens, fun e he => ?_⟩
  obtain ⟨sock, rfl⟩ := hclosing e he
  rfl

/-- The bouncers of a text that was loaded. -/
theorem lines_of_loadBuffer {config : Config}
    (h : Config.loadBuffer isValidHost text = .ok (.ok config)) :
    (definitions (textLines text)).map Bouncer.parse = config.bouncers.reverse.map some ∧
      ∀ bouncer ∈ config.bouncers, bouncer.listenIP ≠ none := by
  obtain ⟨hload, -, hchecked⟩ := Config.loadBuffer_eq_ok.mp h
  obtain ⟨bs, hbs, hbouncers⟩ := Config.definitions_of_loadAll hload
  refine ⟨?_, fun bouncer hbouncer hnone => ?_⟩
  · rw [hbs, hbouncers]
    simp [Config.new]
  · obtain ⟨ip, hip, -⟩ := (hchecked bouncer hbouncer).listenIP
    rw [hip] at hnone
    cases hnone

theorem FileLoaded.loadBuffer {content : Bytes} {r : Except LoadError ConfigBlock} {n : ℕ}
    {short : Bool} {config : ConfigBlock} (h : FileLoaded isValidHost content r n short)
    (hr : r = .ok config) :
    Config.loadBuffer isValidHost (cstr content) = .ok (.ok config.erase) := by
  cases h with
  | read _ h =>
    cases h with
    | ok h => exact Except.ok.inj hr ▸ h
    | _ => cases hr
  | _ => cases hr

/-- What is loaded from a file is what is in it. -/
theorem loadBuffer_of_loadFile {content path : Bytes} {es : List LibcEvent} {config : ConfigBlock}
    (hcontent : content.length < 2 ^ 63)
    (ht : Program.Trace (loadFile isValidHost path) es (some (.ok config)))
    (hlaw : ∀ e ∈ es, LibcEvent.crash e = false ∧ FileIs content e) :
    Config.loadBuffer isValidHost (cstr content) = .ok (.ok config.erase) := by
  obtain ⟨s, -, hend⟩ := (loadFile_accounted hcontent path).path ht
    fun _ e _ heq _ _ => hlaw e (by simp [heq])
  obtain ⟨lost, hloaded, -⟩ := hend _ rfl
  exact FileLoaded.loadBuffer hloaded rfl

/-- The check of the pid file does not fork, and opens no sockets. -/
theorem isAlreadyRunning_runs {path : Bytes} {es : List StartEvent} {ret : ℤ}
    (ht : Program.Trace (Startup.isAlreadyRunning path) es (some ret)) :
    ∀ e ∈ es, e.1 ≠ .fork ∧ e.1 ≠ .listenAll := by
  obtain ⟨reply, es₁, rfl, ht₁⟩ := Program.trace_call.mp ht
  cases reply with
  | error errno =>
      obtain ⟨rfl, -⟩ := Program.trace_pure.mp ht₁
      simp
  | ok _ =>
      obtain ⟨number, es₂, rfl, ht₂⟩ := Program.trace_call.mp ht₁
      cases number with
      | none =>
          obtain ⟨_, es₃, rfl, ht₃⟩ := Program.trace_call.mp ht₂
          obtain ⟨rfl, -⟩ := Program.trace_pure.mp ht₃
          simp
      | some pid =>
          obtain ⟨_, es₃, rfl, ht₃⟩ := Program.trace_call.mp ht₂
          obtain ⟨killed, es₄, rfl, ht₄⟩ := Program.trace_call.mp ht₃
          obtain ⟨rfl, -⟩ := Program.trace_pure.mp ht₄
          simp

/-- The fork comes first, and its reply is what is returned. -/
theorem daemonise_runs {es : List StartEvent} {pid : ℤ}
    (ht : Program.Trace Startup.daemonise es (some pid)) :
    ∃ es₁, es = ⟨.fork, pid⟩ :: es₁ ∧ ∀ e ∈ es₁, e.1 ≠ .fork ∧ e.1 ≠ .listenAll := by
  obtain ⟨reply, es₁, rfl, ht₁⟩ := Program.trace_call.mp ht
  split_ifs at ht₁ with hreply
  · obtain ⟨rfl, rfl⟩ := Program.trace_pure.mp ht₁
    exact ⟨[], rfl, by simp⟩
  · obtain ⟨_, es₂, rfl, ht₂⟩ := Program.trace_call.mp ht₁
    obtain ⟨_, es₃, rfl, ht₃⟩ := Program.trace_call.mp ht₂
    obtain ⟨_, es₄, rfl, ht₄⟩ := Program.trace_call.mp ht₃
    obtain ⟨rfl, rfl⟩ := Program.trace_pure.mp ht₄
    obtain rfl : reply = 0 := not_not.mp hreply
    exact ⟨_, rfl, by simp⟩

/-! ### After the load -/

variable {config : ConfigBlock} {servers : List Server} {acquired rest : List ServerEvent}
  {start : List StartEvent} {heap : Heap ServerCell} {p passes : ℕ} {pid : ℤ} {o : Option ℤ}

theorem Serves.mono {e : ServerEvent} {t t' : List ServerEvent} (h : Serves servers t e)
    (ht : t ⊆ t') : Serves servers t' e := by
  obtain ⟨c, r⟩ := e
  cases c with
  | pthreadCreate client =>
      obtain ⟨server, hserver, sock, addr, haccept, hclient⟩ := h
      exact ⟨server, hserver, sock, addr, ht haccept, hclient⟩
  | sys c => cases c <;> exact h
  | _ => exact h

/-- No pointer is followed that leads nowhere while the sockets are opened. -/
theorem serves_of_rest (hload : Config.loadBuffer isValidHost text = .ok (.ok config.erase))
    {released : List ServerEvent} {all : Option (List Server)}
    (hrest : Server.Rest config.erase config.erase.bouncers [] acquired released all) :
    ∀ e ∈ acquired, e.1 ≠ .fault ∧ ∀ servers t, Serves servers t e := by
  intro e he
  have hfault : e.1 ≠ .fault := by
    intro hfault
    obtain ⟨bouncer, hbouncer, hip⟩ := hrest.fault e he hfault
    exact (lines_of_loadBuffer hload).2 bouncer hbouncer hip
  exact ⟨hfault, (prepares_of_rest hrest e he).2.resolve_left hfault⟩

/-- The servers of a config that was loaded, and what is done on their sockets. -/
theorem serving_of_rest (hload : Config.loadBuffer isValidHost text = .ok (.ok config.erase))
    (hrest : Server.Rest config.erase config.erase.bouncers [] acquired [] (some servers))
    (hfds : fds.Nodup) (hfresh : FreshSockets fds (acquired ++ rest))
    (hserves : Along (Serves servers) rest) :
    Serving text config.erase servers (acquired ++ rest) := by
  have hopens : ∀ e ∈ acquired, Opens e := fun e he => (prepares_of_rest hrest e he).1
  have hacquired : FreshSockets fds acquired := Along.of_append hfresh
  have hcomplete := hrest.complete hfds (by simpa using hacquired.fresh hopens)
  rw [List.append_nil] at hcomplete
  refine ⟨?_, hcomplete.config, fun server hserver => ?_, ?_, ?_⟩
  · rw [(lines_of_loadBuffer hload).1, ← hcomplete.bouncers, List.map_map]
    rfl
  · exact (hcomplete.listens server hserver).mono (List.sublist_append_left _ _)
  · exact (List.nodup_append.mp hcomplete.nodup).1
  · refine along_append.mpr ⟨?_, ?_⟩
    · rintro t₁ e t₂ rfl
      exact (serves_of_rest hload hrest e (by simp)).2 servers t₁
    · rintro t₁ e t₂ rfl
      exact (hserves t₁ e t₂ rfl).mono (List.subset_append_right _ _)

/-- The config is given back, and the exit status is one. -/
theorem freed_runs
    (ht : Program.Trace (do inLibc config.free; pure (some (1 : ℤ))) t (some o)) :
    o = some 1 ∧ startCalls t = [] ∧ serverCalls t = [] := by
  obtain ⟨_, t₁, t₂, rfl, hfree, ht₂⟩ := Program.trace_bind.mp ht
  obtain ⟨es, rfl, -⟩ := trace_inLibc hfree
  obtain ⟨rfl, rfl⟩ := Program.trace_pure.mp ht₂
  rw [startCalls_append, startCalls_ofLibc, serverCalls_append, serverCalls_ofLibc]
  exact ⟨rfl, rfl, rfl⟩

/-- A config is loaded, or nothing follows. -/
theorem main_runs {argv : List Bytes}
    (ht : Program.Trace (main isValidHost passes argv) t (some o)) :
    (o = some 1 ∧ startCalls t = [] ∧ serverCalls t = []) ∨
      ∃ name path es config t', argv = [name, path] ∧
        Program.Trace (loadFile isValidHost path) es (some (.ok config)) ∧
        Program.Trace (loaded passes config) t' (some o) ∧ libcCalls t = es ++ libcCalls t' ∧
        startCalls t = startCalls t' ∧ serverCalls t = serverCalls t' := by
  unfold main at ht
  split at ht
  · obtain ⟨ignored, t₁, rfl, ht₁⟩ := Program.trace_call.mp ht
    obtain ⟨r, t₂, t₃, rfl, hload, ht₃⟩ := Program.trace_bind.mp ht₁
    obtain ⟨es, rfl, hes⟩ := trace_inLibc hload
    simp only [libcCalls_sigaction, libcCalls_append, libcCalls_ofLibc, serverCalls_sigaction,
      startCalls_sigaction, serverCalls_append, serverCalls_ofLibc, startCalls_append,
      startCalls_ofLibc, List.nil_append]
    cases r with
    | error e =>
        obtain ⟨rfl, rfl⟩ := Program.trace_pure.mp ht₃
        exact Or.inl ⟨rfl, rfl, rfl⟩
    | ok config =>
        exact Or.inr ⟨_, _, es, config, t₃, rfl, hes, ht₃, rfl, rfl, rfl⟩
  · obtain ⟨rfl, rfl⟩ := Program.trace_pure.mp ht
    exact Or.inl ⟨rfl, rfl, rfl⟩

/-- The calls of giving back the servers and the config. -/
theorem cleanUp_calls {u : Unit} (ht : Program.Trace (cleanUp config p heap) t (some u)) :
    startCalls t = [] ∧ ∃ link heap',
      Program.Trace (Server.freeList heap (some p)) (serverCalls t) (some (link, heap')) := by
  obtain ⟨⟨link, heap'⟩, t₁, t₂, rfl, hfree, ht₂⟩ := Program.trace_bind.mp ht
  obtain ⟨es, rfl, hes⟩ := trace_inServer hfree
  obtain ⟨es₂, rfl, -⟩ := trace_inLibc ht₂
  rw [startCalls_append, startCalls_ofServer, startCalls_ofLibc, serverCalls_append,
    serverCalls_ofServer, serverCalls_ofLibc, List.append_nil, List.append_nil]
  exact ⟨rfl, link, heap', hes⟩

/-- All sockets are closed. -/
theorem cleanUp_runs {base : Heap ServerCell} (h : Server.Linked base heap (some p) servers)
    (hsock : ∀ server ∈ servers, 0 ≤ server.sock) {u : Unit}
    (ht : Program.Trace (cleanUp config p heap) t (some u)) :
    startCalls t = [] ∧ ∃ socks : List ℤ, serverCalls t = socks.map Server.closing ∧
      socks.Perm (servers.map Server.sock) := by
  obtain ⟨hstart, link, heap', hfree⟩ := cleanUp_calls ht
  exact ⟨hstart, (h.freeList hsock hfree).1⟩

/-- When all sockets are closed again, what is held is what was held. -/
theorem heldAfter_closed
    (hrest : Server.Rest config.erase config.erase.bouncers [] acquired [] (some servers))
    {socks : List ℤ} (hsocks : socks.Perm (servers.map Server.sock)) (hfds : fds.Nodup)
    (hfresh : FreshSockets fds (acquired ++ socks.map Server.closing)) :
    serverDescriptors.heldAfter fds (acquired ++ socks.map Server.closing) = fds := by
  obtain ⟨-, hmade, -, -⟩ := hrest.of_some
  have hperm : socks.Perm (acquired.filterMap ServerEvent.made) := by
    rw [hmade, List.map_nil, List.append_nil] at hsocks
    exact hsocks.trans (List.reverse_perm _)
  have hopens : ∀ e ∈ acquired ++ socks.map Server.closing, Opens e := by
    refine opens_of_closing (fun e he => (prepares_of_rest hrest e he).1) fun e he => ?_
    obtain ⟨sock, -, rfl⟩ := List.mem_map.mp he
    exact ⟨sock, rfl⟩
  refine (Ledger.heldAfter_restored hrest.ended Server.made_closing ?_ hfds
    (hfresh.fresh hopens)).1
  have hended : (socks.map Server.closing).filterMap serverDescriptors.ended = socks :=
    Server.ended_closing
  rw [hended]
  exact hperm

/-- After the fork. -/
theorem forked_outcome (hload : Config.loadBuffer isValidHost text = .ok (.ok config.erase))
    (hcheck : Unclaimed config.erase.pidFile start)
    (hfork : ∀ reply, (⟨.fork, reply⟩ : StartEvent) ∈ start ↔ reply = pid)
    (hrest : Server.Rest config.erase config.erase.bouncers [] acquired [] (some servers))
    (hlinked : Server.Linked [] heap (some p) servers) (hfds : fds.Nodup)
    (ht : Program.Trace (forked passes config p heap pid) t (some o))
    (hfresh : FreshSockets fds (acquired ++ serverCalls t)) :
    (∀ e ∈ acquired ++ serverCalls t, e.1 ≠ .fault) ∧
      Outcome isValidHost text fds (start ++ startCalls t) (acquired ++ serverCalls t) o := by
  have hacquired : ∀ e ∈ acquired, e.1 ≠ .fault := fun e he => (serves_of_rest hload hrest e he).1
  have hcheck' := hcheck.append (startCalls t)
  have hmem : (⟨.fork, pid⟩ : StartEvent) ∈ start ++ startCalls t :=
    List.mem_append_left _ ((hfork pid).mpr rfl)
  have hserving (hserves : Along (Serves servers) (serverCalls t)) :
      Serving text config.erase servers (acquired ++ serverCalls t) :=
    serving_of_rest hload hrest hfds hfresh hserves
  unfold forked at ht
  split_ifs at ht with hneg hpos
  · obtain ⟨_, t₁, t₂, rfl, hclean, ht₂⟩ := Program.trace_bind.mp ht
    obtain ⟨rfl, rfl⟩ := Program.trace_pure.mp ht₂
    have hsock : ∀ server ∈ servers, 0 ≤ server.sock := by
      intro server hserver
      obtain ⟨-, fd, -, -, hfd, -⟩ := ((hrest.of_some.2.2.2 server hserver).resolve_left
        List.not_mem_nil).2
      rw [hfd]
      exact Int.natCast_nonneg _
    obtain ⟨hstart, socks, hclose, hsocks⟩ := cleanUp_runs hlinked hsock hclean
    rw [List.append_nil] at hfresh hcheck' ⊢
    rw [hclose] at hfresh ⊢
    refine ⟨List.forall_mem_append.mpr ⟨hacquired, ?_⟩,
      .failed (heldAfter_closed hrest hsocks hfds hfresh) ?_⟩
    · intro e he
      obtain ⟨sock, -, rfl⟩ := List.mem_map.mp he
      exact nofun
    · intro reply hreply
      rw [hstart, List.append_nil] at hreply
      rwa [(hfork reply).mp hreply]
  · have hquiet : serverCalls t = [] ∧ o = some 0 := by
      split at ht
      · obtain ⟨rfl, rfl⟩ := Program.trace_pure.mp ht
        exact ⟨rfl, rfl⟩
      · obtain ⟨_, t₁, t₂, rfl, hcreate, ht₂⟩ := Program.trace_bind.mp ht
        obtain ⟨es, rfl, -⟩ := trace_inStartup hcreate
        obtain ⟨rfl, rfl⟩ := Program.trace_pure.mp ht₂
        exact ⟨by simp, rfl⟩
    obtain ⟨hnil, rfl⟩ := hquiet
    refine ⟨?_, .parent hload hcheck' hpos hmem (hserving ?_)⟩
    · rw [hnil, List.append_nil]
      exact hacquired
    · rw [hnil]
      exact along_nil
  · obtain rfl : pid = 0 := by omega
    rw [hlinked.read] at ht
    obtain ⟨r, t₁, t₂, rfl, hloop, ht₂⟩ := Program.trace_bind.mp ht
    obtain ⟨es, rfl, hes⟩ := trace_inServer hloop
    obtain ⟨rfl, halong⟩ := loop_runs hes
    obtain ⟨rfl, rfl⟩ := Program.trace_pure.mp ht₂
    rw [List.append_nil] at hfresh hcheck' hmem hserving ⊢
    rw [serverCalls_ofServer] at hfresh hserving ⊢
    refine ⟨List.forall_mem_append.mpr ⟨hacquired, fun e he hfault => ?_⟩,
      .daemon hload hcheck' hmem (hserving halong)⟩
    obtain ⟨es₁, es₂, rfl⟩ := List.append_of_mem he
    obtain ⟨c, r⟩ := e
    obtain rfl : c = .fault := hfault
    exact halong es₁ _ es₂ rfl

/-- From the opening of the sockets on. -/
theorem listening_outcome (hload : Config.loadBuffer isValidHost text = .ok (.ok config.erase))
    (hcheck : Unclaimed config.erase.pidFile start) (hstart : ∀ e ∈ start, e.1 ≠ .fork)
    (hfds : fds.Nodup) (ht : Program.Trace (listening passes config) t (some o))
    (hfresh : FreshSockets fds (serverCalls t)) :
    (∀ e ∈ serverCalls t, e.1 ≠ .fault) ∧
      Outcome isValidHost text fds (start ++ startCalls t) (serverCalls t) o := by
  obtain ⟨⟨servers, heap⟩, t₁, t₂, rfl, hlisten, ht₂⟩ := Program.trace_bind.mp ht
  obtain ⟨es, rfl, hes⟩ := trace_inServer hlisten
  obtain ⟨acquired, released, all, rfl, hrest, hresult⟩ :=
    Server.listenRest_runs Server.Linked.nil (fun _ h => absurd h List.not_mem_nil) hes
  cases all with
  | none =>
      obtain ⟨rfl, -⟩ := hresult
      obtain ⟨rfl, hstartCalls, hserverCalls⟩ := freed_runs ht₂
      simp only [serverCalls_append, startCalls_append, serverCalls_ofServer, startCalls_ofServer,
        hstartCalls, hserverCalls, List.append_nil] at hfresh ⊢
      obtain ⟨hclosing, -, -⟩ := hrest.released_none
      have hopens := opens_of_closing (fun e he => (prepares_of_rest hrest e he).1) hclosing
      have hundone := hrest.undone hfds (hfresh.fresh hopens) fun q => (rfl : heap.load q = _)
      refine ⟨List.forall_mem_append.mpr ⟨fun e he => (serves_of_rest hload hrest e he).1, ?_⟩,
        .failed hundone.held fun pid hpid => absurd rfl (hstart _ hpid)⟩
      intro e he
      obtain ⟨sock, rfl⟩ := hclosing e he
      exact nofun
  | some list =>
      obtain ⟨rfl, -, hbouncers, -⟩ := hrest.of_some
      cases servers with
      | none =>
          -- a config that was loaded has bouncers, so there are servers
          obtain ⟨cells, hchain, hservers, -, -⟩ := hresult
          cases hservers with
          | nil =>
              have hnil : config.erase.bouncers = [] := by simpa using hbouncers
              exact absurd hnil (Config.loadBuffer_eq_ok.mp hload).2.1
          | cons _ _ => cases hchain.1
      | some p =>
          obtain ⟨pid, t₃, t₄, rfl, hdaemonise, ht₄⟩ := Program.trace_bind.mp ht₂
          obtain ⟨es, rfl, hes⟩ := trace_inStartup hdaemonise
          obtain ⟨es₁, rfl, hes₁⟩ := daemonise_runs hes
          have hfork : ∀ reply, (⟨.fork, reply⟩ : StartEvent) ∈ start ++ ⟨.fork, pid⟩ :: es₁ ↔
              reply = pid := by
            intro reply
            rw [List.mem_append, List.mem_cons]
            constructor
            · rintro (h | h | h)
              · exact absurd rfl (hstart _ h)
              · cases h
                rfl
              · exact absurd rfl (hes₁ _ h).1
            · rintro rfl
              exact Or.inr (Or.inl rfl)
          simp only [serverCalls_append, startCalls_append, serverCalls_ofServer,
            startCalls_ofServer, serverCalls_ofStart, startCalls_ofStart, List.append_nil,
            List.nil_append] at hfresh ⊢
          rw [← List.append_assoc]
          exact forked_outcome hload (hcheck.append _) hfork hrest hresult hfds ht₄ hfresh

/-- From the check of the pid file on. -/
theorem loaded_outcome (hload : Config.loadBuffer isValidHost text = .ok (.ok config.erase))
    (hfds : fds.Nodup) (ht : Program.Trace (loaded passes config) t (some o))
    (hfresh : FreshSockets fds (serverCalls t)) :
    (∀ e ∈ serverCalls t, e.1 ≠ .fault) ∧
      Outcome isValidHost text fds (startCalls t) (serverCalls t) o := by
  have herase : config.erase.pidFile = config.pidFile.map Str.text := rfl
  unfold loaded at ht
  cases hpidFile : config.pidFile with
  | none =>
      simp only [hpidFile] at ht
      have hcheck : Unclaimed config.erase.pidFile [] := by
        intro path hpath
        rw [herase, hpidFile] at hpath
        cases hpath
      exact listening_outcome hload hcheck (fun _ he => absurd he List.not_mem_nil) hfds ht hfresh
  | some pidFile =>
      simp only [hpidFile] at ht
      obtain ⟨ret, t₁, t₂, rfl, hcheck, ht₂⟩ := Program.trace_bind.mp ht
      obtain ⟨es, rfl, hes⟩ := trace_inStartup hcheck
      have hquiet : ∀ e ∈ es, e.1 ≠ .fork := fun e he => (isAlreadyRunning_runs hes e he).1
      have hrefused
          (hfree : Program.Trace (do inLibc config.free; pure (some (1 : ℤ))) t₂ (some o)) :
          (∀ e ∈ serverCalls (es.map ofStart ++ t₂), e.1 ≠ .fault) ∧
            Outcome isValidHost text fds (startCalls (es.map ofStart ++ t₂))
              (serverCalls (es.map ofStart ++ t₂)) o := by
        obtain ⟨rfl, hstartCalls, hserverCalls⟩ := freed_runs hfree
        simp only [serverCalls_append, startCalls_append, serverCalls_ofStart, startCalls_ofStart,
          hstartCalls, hserverCalls, List.append_nil]
        exact ⟨fun _ he => absurd he List.not_mem_nil,
          .failed rfl fun pid hpid => absurd rfl (hquiet _ hpid)⟩
      split_ifs at ht₂ with hneg hrunning
      · exact hrefused ht₂
      · exact hrefused ht₂
      · obtain rfl : ret = 0 := not_not.mp hrunning
        have hcheck : Unclaimed config.erase.pidFile es := by
          intro path hpath
          rw [herase, hpidFile] at hpath
          obtain rfl := Option.some.inj hpath
          exact ⟨es, [], (List.append_nil es).symm, hes⟩
        simp only [serverCalls_append, startCalls_append, serverCalls_ofStart,
          startCalls_ofStart, List.nil_append] at hfresh ⊢
        exact listening_outcome hload hcheck hquiet hfds ht₂ hfresh

/-- **The whole daemon**, from its config file to its loop: in every run in which the file has this
content and no memory is accessed that is not there, whatever else fails, no server is used that is
not there, and either the exit status is one, with no socket left and no process forked, or the
servers are those of the definitions in the file: the parent exits, and the daemon, which does not
leave its loop, accepts connections on their sockets for what each of them stands for. -/
theorem main_outcome {content : Bytes} {argv : List Bytes} (hcontent : content.length < 2 ^ 63)
    (ht : Program.Trace (main isValidHost passes argv) t (some o))
    (hfile : ∀ e ∈ libcCalls t, FileIs content e)
    (hcrash : ∀ e ∈ libcCalls t, LibcEvent.crash e = false) (hfds : fds.Nodup)
    (hfresh : FreshSockets fds (serverCalls t)) :
    (∀ e ∈ serverCalls t, e.1 ≠ .fault) ∧
      Outcome isValidHost (cstr content) fds (startCalls t) (serverCalls t) o := by
  rcases main_runs ht with ⟨rfl, hstart, hserver⟩ | ⟨_, _, es, config, t', -, hes, hloaded, h⟩
  · rw [hstart, hserver]
    exact ⟨fun _ he => absurd he List.not_mem_nil,
      .failed rfl fun _ h => absurd h List.not_mem_nil⟩
  · obtain ⟨hlibc, hstart, hserver⟩ := h
    rw [hlibc] at hfile hcrash
    rw [hserver] at hfresh ⊢
    rw [hstart]
    have hlaw : ∀ e ∈ es, LibcEvent.crash e = false ∧ FileIs content e := fun e he =>
      ⟨hcrash e (List.mem_append_left _ he), hfile e (List.mem_append_left _ he)⟩
    exact loaded_outcome (loadBuffer_of_loadFile hcontent hes hlaw) hfds hloaded hfresh

end outcome

/-! ## The launch -/

/-- What is done on the way is a part of `p`, a launch, in which the sockets are opened by one call:
apart from it the calls are the same, the reply to it is whether `Server_listenAll` returned
servers, and what is left of `p` is the exit status or the loop. -/
def Launches (p : Startup ℤ) (config : Config) (start : List StartEvent)
    (server : List ServerEvent) (o : Option ℤ) : Prop :=
  ∃ es q, Path Program.Step p es q ∧ (es.filter fun e => e.1 ≠ .listenAll) = start ∧
    q.value = o ∧ (o = none → q.next = some .serverLoop) ∧
    ∀ okay, (⟨.listenAll, okay⟩ : StartEvent) ∈ es → ∃ t₁ t₂ servers heap, server = t₁ ++ t₂ ∧
      Program.Trace (Server.listenAll [] config) t₁ (some (servers, heap)) ∧ okay = servers.isSome

section launches

variable {isValidHost : Option Bytes → Bool} {config : ConfigBlock} {c : Config}
  {t : List MainEvent} {start : List StartEvent} {server : List ServerEvent}
  {heap : Heap ServerCell} {p passes : ℕ} {pid : ℤ} {o : Option ℤ}

/-- A launch that is over. -/
theorem launches_pure {status : ℤ} : Launches (pure status) c [] server (some status) :=
  ⟨[], _, .refl, rfl, rfl, nofun, by simp⟩

/-- Calls before the rest of a launch. -/
theorem Launches.bind {q : Startup α} {f : α → Startup ℤ} {es : List StartEvent} {a : α}
    (h : Launches (f a) c start server o) (hq : Program.Trace q es (some a))
    (hes : ∀ e ∈ es, e.1 ≠ .listenAll) : Launches (q >>= f) c (es ++ start) server o := by
  obtain ⟨es', q', hpath, hfilter, hvalue, hnext, hlisten⟩ := h
  refine ⟨es ++ es', q', hq.path_bind.trans hpath, ?_, hvalue, hnext, fun okay hokay => ?_⟩
  · rw [List.filter_append, hfilter, List.filter_eq_self.mpr fun e he => by simpa using hes e he]
  · rcases List.mem_append.mp hokay with hokay | hokay
    · exact absurd rfl (hes _ hokay)
    · exact hlisten okay hokay

/-- The pid file is created without opening sockets. -/
theorem createPIDFile_runs {path : Bytes} {es : List StartEvent} {okay : Bool}
    (ht : Program.Trace (Startup.createPIDFile path pid) es (some okay)) :
    ∀ e ∈ es, e.1 ≠ .listenAll := by
  obtain ⟨opened, es₁, rfl, ht₁⟩ := Program.trace_call.mp ht
  split_ifs at ht₁
  · obtain ⟨printed, es₂, rfl, ht₂⟩ := Program.trace_call.mp ht₁
    obtain ⟨_, es₃, rfl, ht₃⟩ := Program.trace_call.mp ht₂
    obtain ⟨rfl, -⟩ := Program.trace_pure.mp ht₃
    simp
  · obtain ⟨rfl, -⟩ := Program.trace_pure.mp ht₁
    simp

/-- After the fork. -/
theorem forked_launches (ht : Program.Trace (forked passes config p heap pid) t (some o)) :
    Launches ((Launch.forked config.erase.pidFile pid).interpret Startup.ofLaunch) c (startCalls t)
      server o := by
  have herase : config.erase.pidFile = config.pidFile.map Str.text := rfl
  unfold forked at ht
  unfold Launch.forked
  split_ifs at ht ⊢ with hneg hpos
  · obtain ⟨_, t₁, t₂, rfl, hclean, ht₂⟩ := Program.trace_bind.mp ht
    obtain ⟨rfl, rfl⟩ := Program.trace_pure.mp ht₂
    rw [List.append_nil, (cleanUp_calls hclean).1]
    exact launches_pure
  · rw [herase]
    cases hpidFile : config.pidFile with
    | none =>
        simp only [hpidFile] at ht
        obtain ⟨rfl, rfl⟩ := Program.trace_pure.mp ht
        exact launches_pure
    | some pidFile =>
        simp only [hpidFile] at ht
        obtain ⟨okay, t₁, t₂, rfl, hcreate, ht₂⟩ := Program.trace_bind.mp ht
        obtain ⟨es, rfl, hes⟩ := trace_inStartup hcreate
        obtain ⟨rfl, rfl⟩ := Program.trace_pure.mp ht₂
        rw [startCalls_append, startCalls_ofStart]
        exact launches_pure.bind (f := fun _ => pure 0) hes (createPIDFile_runs hes)
  · obtain ⟨r, t₁, t₂, rfl, hloop, ht₂⟩ := Program.trace_bind.mp ht
    obtain ⟨es, rfl, hes⟩ := trace_inServer hloop
    obtain ⟨rfl, -⟩ := loop_runs hes
    obtain ⟨rfl, rfl⟩ := Program.trace_pure.mp ht₂
    rw [startCalls_append, startCalls_ofServer]
    exact ⟨[], _, .refl, rfl, rfl, fun _ => rfl, by simp⟩

/-- What follows the opening of the sockets in a launch. -/
def afterListen (pidFile : Option Bytes) (okay : Bool) : Startup ℤ :=
  (if okay then do
    let pid ← launchCall .fork
    Launch.forked pidFile pid
  else pure 1 : Launch).interpret Startup.ofLaunch

theorem listen_step {pidFile : Option Bytes} (okay : Bool) :
    Path Program.Step ((Launch.listen pidFile).interpret Startup.ofLaunch) [⟨.listenAll, okay⟩]
      (afterListen pidFile okay) := by
  have heq : (Launch.listen pidFile).interpret Startup.ofLaunch =
      Program.call .listenAll (afterListen pidFile) := rfl
  rw [heq]
  exact Path.single (@Program.Step.call _ StartReply _ .listenAll (afterListen pidFile) okay)

/-- From the opening of the sockets on. -/
theorem listening_launches (ht : Program.Trace (listening passes config) t (some o)) :
    Launches ((Launch.listen config.erase.pidFile).interpret Startup.ofLaunch) config.erase
      (startCalls t) (serverCalls t) o := by
  obtain ⟨⟨servers, heap⟩, t₁, t₂, rfl, hlisten, ht₂⟩ := Program.trace_bind.mp ht
  obtain ⟨es, rfl, hes⟩ := trace_inServer hlisten
  cases servers with
  | none =>
      obtain ⟨rfl, hstartCalls, hserverCalls⟩ := freed_runs ht₂
      simp only [serverCalls_append, startCalls_append, serverCalls_ofServer, startCalls_ofServer,
        hstartCalls, hserverCalls, List.append_nil]
      refine ⟨_, _, listen_step false, by simp, rfl, nofun, fun okay hokay => ?_⟩
      cases List.mem_singleton.mp hokay
      exact ⟨es, [], none, heap, (List.append_nil es).symm, hes, rfl⟩
  | some p =>
      obtain ⟨pid, t₃, t₄, rfl, hdaemonise, ht₄⟩ := Program.trace_bind.mp ht₂
      obtain ⟨es₃, rfl, hes₃⟩ := trace_inStartup hdaemonise
      obtain ⟨es₄, rfl, hes₄⟩ := daemonise_runs hes₃
      have hdaemon : ∀ e ∈ ⟨.fork, pid⟩ :: es₄, e.1 ≠ .listenAll :=
        List.forall_mem_cons.mpr ⟨nofun, fun e he => (hes₄ e he).2⟩
      simp only [serverCalls_append, startCalls_append, serverCalls_ofServer, startCalls_ofServer,
        serverCalls_ofStart, startCalls_ofStart, List.nil_append]
      have hforked : Launches _ config.erase (startCalls t₄) (es ++ serverCalls t₄) o :=
        forked_launches ht₄
      obtain ⟨es', q, hpath, hfilter, hvalue, hnext, hlisten⟩ := hforked.bind
        (f := fun pid => (Launch.forked config.erase.pidFile pid).interpret Startup.ofLaunch)
        hes₃ hdaemon
      refine ⟨⟨.listenAll, true⟩ :: es', q, (listen_step true).trans hpath, ?_, hvalue, hnext, ?_⟩
      · rw [List.filter_cons_of_neg (by simp), hfilter]
      · intro okay hokay
        rcases List.mem_cons.mp hokay with hokay | hokay
        · cases hokay
          exact ⟨es, _, some p, heap, rfl, hes, rfl⟩
        · exact hlisten okay hokay

/-- From the check of the pid file on. -/
theorem loaded_launches (ht : Program.Trace (loaded passes config) t (some o)) :
    Launches (Startup.main config.erase.pidFile) config.erase (startCalls t) (serverCalls t) o := by
  have herase : config.erase.pidFile = config.pidFile.map Str.text := rfl
  have hlistening (t' : List MainEvent)
      (ht' : Program.Trace (listening passes config) t' (some o)) := listening_launches ht'
  unfold loaded at ht
  rw [herase] at hlistening ⊢
  cases hpidFile : config.pidFile with
  | none =>
      simp only [hpidFile] at ht hlistening
      exact hlistening t ht
  | some pidFile =>
      simp only [hpidFile] at ht hlistening
      obtain ⟨ret, t₁, t₂, rfl, hcheck, ht₂⟩ := Program.trace_bind.mp ht
      obtain ⟨es, rfl, hes⟩ := trace_inStartup hcheck
      rw [startCalls_append, startCalls_ofStart, serverCalls_append, serverCalls_ofStart]
      refine Launches.bind (f := Startup.Phase.afterCheck pidFile.text) ?_ hes
        fun e he => (isAlreadyRunning_runs hes e he).2
      unfold Startup.Phase.afterCheck Launch.checked
      have hrefused
          (hfree : Program.Trace (do inLibc config.free; pure (some (1 : ℤ))) t₂ (some o)) :
          Launches (pure 1) config.erase (startCalls t₂) ([] ++ serverCalls t₂) o := by
        obtain ⟨rfl, hstartCalls, -⟩ := freed_runs hfree
        rw [hstartCalls]
        exact launches_pure
      split_ifs at ht₂ ⊢
      · exact hrefused ht₂
      · exact hrefused ht₂
      · exact hlistening t₂ ht₂

/-- **The launch in the whole program**: in every run of `main` nothing is launched, because there
is no config, or the launch is that of `Startup.main` for the pid file of the config, with the same
exit status, or as far as the loop. -/
theorem main_launches {argv : List Bytes}
    (ht : Program.Trace (main isValidHost passes argv) t (some o)) :
    (o = some 1 ∧ startCalls t = [] ∧ serverCalls t = []) ∨
      ∃ name path es₁ es₂ config, argv = [name, path] ∧ libcCalls t = es₁ ++ es₂ ∧
        Program.Trace (loadFile isValidHost path) es₁ (some (.ok config)) ∧
        Launches (Startup.main config.erase.pidFile) config.erase (startCalls t) (serverCalls t)
          o := by
  rcases main_runs ht with hnothing | ⟨name, path, es, config, t', hargv, hes, hloaded, h⟩
  · exact Or.inl hnothing
  · obtain ⟨hlibc, hstart, hserver⟩ := h
    rw [hstart, hserver]
    exact Or.inr ⟨name, path, es, _, config, hargv, hlibc, hes, loaded_launches hloaded⟩

end launches

/-! ## A run -/

/-- The load of a file with one bouncer. -/
def servedFileRun : List LibcEvent :=
  [⟨.fopen (ascii "ebbnc.conf"), some 1⟩, ⟨.fseek (some 1) true, ()⟩,
    ⟨.ftell (some 1), (34 : ℤ)⟩, ⟨.fseek (some 1) false, ()⟩, ⟨.calloc 35, some 2⟩,
    ⟨.fread (some 2) 35 34 (some 1), ⟨servedText, by decide⟩⟩, ⟨.ferror (some 1), false⟩,
    ⟨.fclose (some 1), ()⟩] ++ (servedBufferRun ++ [⟨.free (some 2), ()⟩])

theorem trace_servedFileRun :
    Program.Trace (loadFile numericHost (ascii "ebbnc.conf")) servedFileRun
      (some (.ok servedConfig)) := by
  unfold servedFileRun
  iterate 8 refine .call _ ?_
  refine trace_servedBufferRun.bind ?_
  exact .call _ (.ret _)

/-- The server of the bouncer. -/
def servedServer : Server :=
  ⟨3, loopback 2121, servedConfig.erase,
    ⟨some (ascii "127.0.0.1"), 2121, some (ascii "10.0.0.1"), 21, some (ascii "127.0.0.1")⟩⟩

/-- The opening of its socket. -/
def servedListenRun : List ServerEvent :=
  [⟨.sys (.calloc sizeofServer), true⟩, ⟨.sys (.socket 2), .ok 3⟩, ⟨.reuseaddr 3, ()⟩,
    ⟨.sys (.bind 3 (loopback 2121)), .ok ()⟩, ⟨.listen 3, .ok ()⟩]

theorem trace_servedListenRun :
    Program.Trace (Server.listenAll [] servedConfig.erase) servedListenRun
      (some (some 0, [some (servedServer.cell none)])) := by
  unfold servedListenRun
  repeat refine .call _ ?_
  exact .ret _

theorem subset_servedSocks : ([3] : List ℤ) ⊆ [3] := List.Subset.refl _

/-- The socket is ready. -/
def servedReady : { ready : List ℤ // ready ⊆ [3] } := ⟨[3], subset_servedSocks⟩

/-- A connection to it. -/
def servedLoopRun : List ServerEvent :=
  [⟨.select 4 [3], .ok servedReady⟩, ⟨.accept 3, .ok (4, Server.visitorAddr)⟩,
    ⟨.sys (.calloc sizeofClient), true⟩,
    ⟨.pthreadCreate (Client.ofServer servedServer 4 Server.visitorAddr), true⟩]

theorem trace_servedLoopRun :
    Program.Trace (Server.loop [servedServer] 1) servedLoopRun (some none) := by
  unfold servedLoopRun
  repeat refine .call _ ?_
  exact .ret _

/-- The daemon, with one connection. -/
def servedRun : List MainEvent :=
  ⟨.sigaction, true⟩ :: (servedFileRun.map ofLibc ++ (servedListenRun.map ofServer ++
    ([⟨.fork, (0 : ℤ)⟩, ⟨.freopen, ()⟩, ⟨.freopen, ()⟩, ⟨.setsid, ()⟩].map ofStart ++
      (servedLoopRun.map ofServer ++ []))))

theorem trace_servedRun :
    Program.Trace (main numericHost 1 [ascii "ebbnc", ascii "ebbnc.conf"]) servedRun
      (some none) := by
  have hdaemonise : Program.Trace Startup.daemonise
      [⟨.fork, (0 : ℤ)⟩, ⟨.freopen, ()⟩, ⟨.freopen, ()⟩, ⟨.setsid, ()⟩] (some 0) := by
    repeat refine .call _ ?_
    exact .ret _
  exact .call _ ((inLibc_of_trace trace_servedFileRun).bind
    ((inServer_of_trace trace_servedListenRun).bind ((inStartup_of_trace hdaemonise).bind
      ((inServer_of_trace trace_servedLoopRun).bind (.ret _)))))

theorem libcCalls_servedRun : libcCalls servedRun = servedFileRun := by
  rw [servedRun, libcCalls_sigaction, libcCalls_append, libcCalls_ofLibc]
  exact List.append_nil _

theorem serverCalls_servedRun : serverCalls servedRun = servedListenRun ++ servedLoopRun := by
  simp only [servedRun, serverCalls_sigaction, serverCalls_append, serverCalls_ofLibc,
    serverCalls_ofServer, serverCalls_ofStart]
  rfl

/-- The connection is for the bouncer of the file. -/
theorem main_outcome_served :
    (∀ e ∈ serverCalls servedRun, e.1 ≠ .fault) ∧
      Outcome numericHost (cstr servedText) [0, 1, 2] (startCalls servedRun)
        (serverCalls servedRun) none := by
  have hlength : servedText.length = 34 := by decide
  refine main_outcome (by decide) trace_servedRun ?_ ?_ (by decide) ?_
  · rw [libcCalls_servedRun]
    simp [servedFileRun, servedBufferRun, FileIs, hlength]
  · rw [libcCalls_servedRun]
    simp [servedFileRun, servedBufferRun, LibcEvent.crash, LibcEvent.uses, hlength]
  · rw [serverCalls_servedRun]
    decide

/-- The launch has reached the loop. -/
theorem main_launches_served :
    ((none : Option ℤ) = some 1 ∧ startCalls servedRun = [] ∧ serverCalls servedRun = []) ∨
      ∃ name path es₁ es₂ config, [ascii "ebbnc", ascii "ebbnc.conf"] = [name, path] ∧
        libcCalls servedRun = es₁ ++ es₂ ∧
        Program.Trace (loadFile numericHost path) es₁ (some (.ok config)) ∧
        Launches (Startup.main config.erase.pidFile) config.erase (startCalls servedRun)
          (serverCalls servedRun) none :=
  main_launches trace_servedRun

end Main

end Ebbnc
