import Ebbnc.Descriptors
import Ebbnc.Lib.Heap

/-!
# The listening servers

`server.c` and `Client_launch`: the sockets the daemon listens on, one for each bouncer, and the
loop that accepts connections on them. What is printed on the terminal is left out.

* `ServerCall`, `ServerReply`, `Daemon` — the calls of the server's thread.
* `Server.new`, `Server.free`, `Server.freeList`, `Server.listen2`, `Server.listen`,
  `Server.listenAll` — the list of servers in memory.
* `Server.accept`, `Server.loop`, `Client.launch` — the loop, over the list of servers.
* `serverDescriptors` — descriptors as resources.
* `ServerEvent.started`, `ServerEvent.fails` — the clients launched, and the calls of a launch that
  fail.
-/

namespace Ebbnc

open Lib

/-- The calls of the server's thread. -/
inductive ServerCall
  | sys (c : Syscall)
  /-- `setsockopt` with `SO_REUSEADDR`. -/
  | reuseaddr (fd : ℤ)
  /-- `listen`, with a backlog of `SOMAXCONN`. -/
  | listen (fd : ℤ)
  /-- `select` of a set of descriptors for reading, without a timeout. -/
  | select (nfds : ℤ) (fds : List ℤ)
  | accept (fd : ℤ)
  | usleep (usec : ℕ)
  /-- `pthread_create`, of a detached thread that runs `Client_threadMain`. -/
  | pthreadCreate (client : Client)
  /-- An access through a pointer that is null or to memory that was given back. -/
  | fault
  deriving DecidableEq

/-- The replies; `select` leaves in the set the descriptors that are ready. What the program does
after a fault is not specified. -/
abbrev ServerReply : ServerCall → Type
  | .sys c => Reply c
  | .reuseaddr _ => Unit
  | .listen _ => Except Errno Unit
  | .select _ fds => Except Errno { ready : List ℤ // ready ⊆ fds }
  | .accept _ => Except Errno (ℕ × SockaddrAny)
  | .usleep _ => Unit
  | .pthreadCreate _ => Bool
  | .fault => Unit

/-- Programs of the server's thread. -/
abbrev Daemon := Program ServerReply

/-- A call of the server's thread and its reply. -/
abbrev ServerEvent := Lib.Event ServerReply

/-- A call of the server's thread. -/
abbrev serverCall (c : ServerCall) : Daemon (ServerReply c) := Program.perform c

/-- A listening socket and the bouncer it is for.
Source: `server.h` `Server`, without its `next` pointer -/
structure Server where
  sock : ℤ
  addr : SockaddrAny
  config : Config
  bouncer : Bouncer
  deriving DecidableEq

/-- A server in memory; pointers to other servers are positions in the heap.
Source: `server.h` `Server` -/
structure ServerCell where
  sock : ℤ
  addr : SockaddrAny
  config : Option Config
  bouncer : Option Bouncer
  next : Option ℕ
  deriving DecidableEq

/-- What `calloc` leaves in a server. -/
def ServerCell.zero : ServerCell := ⟨0, .other 0, none, none, none⟩

/-- `sizeof(Server)`. -/
def sizeofServer : ℕ := 160

/-- `sizeof(Client)`. -/
def sizeofClient : ℕ := 304

namespace Server

/-! ## Memory -/

/-- What a pointer points to. -/
def load (heap : Heap ServerCell) (p : ℕ) : Daemon ServerCell :=
  match heap.load p with
  | some cell => pure cell
  | none => do
    serverCall .fault
    pure .zero

/-- An assignment to a field of what a pointer points to. -/
def modify (heap : Heap ServerCell) (p : ℕ) (f : ServerCell → ServerCell) :
    Daemon (Heap ServerCell) :=
  match heap.load p with
  | some cell => pure (heap.store p (f cell))
  | none => do
    serverCall .fault
    pure heap

/-- `free` of a server. -/
def release (heap : Heap ServerCell) (p : ℕ) : Daemon (Heap ServerCell) :=
  match heap.load p with
  | some _ => pure (heap.release p)
  | none => do
    serverCall .fault
    pure heap

/-- Source: `server.c` `Server_new` -/
def new (heap : Heap ServerCell) : Daemon (Option ℕ × Heap ServerCell) := do
  if ← serverCall (.sys (.calloc sizeofServer)) then
    let server := heap.length
    let heap := heap.alloc .zero
    let heap ← modify heap server fun cell => { cell with sock := -1 }
    pure (some server, heap)
  else pure (none, heap)

/-- The pointer that `serverp` points to is part of the result: it is null afterwards.
Source: `server.c` `Server_free` -/
def free (heap : Heap ServerCell) (serverp : Option ℕ) : Daemon (Option ℕ × Heap ServerCell) := do
  match serverp with
  | none => pure (none, heap)
  | some server => do
    let cell ← load heap server
    if 0 ≤ cell.sock then serverCall (.sys (.close cell.sock)) else pure ()
    let heap ← release heap server
    pure (none, heap)

/-- The loop, for so many passes; a list that is longer than the memory goes round in a circle.
Source: `server.c` `Server_freeList` -/
def freeNext : ℕ → Heap ServerCell → ℕ → Daemon (Heap ServerCell)
  | 0, heap, _ => do
    serverCall .fault
    pure heap
  | passes + 1, heap, server => do
    match (← load heap server).next with
    | none => pure heap
    | some next => do
      let temp := (← load heap next).next
      -- `Server_free(&server->next)` sets the link it is given to null
      let (link, heap) ← free heap (some next)
      let heap ← modify heap server fun cell => { cell with next := link }
      let heap ← modify heap server fun cell => { cell with next := temp }
      freeNext passes heap server

/-- Source: `server.c` `Server_freeList` -/
def freeList (heap : Heap ServerCell) (serverp : Option ℕ) :
    Daemon (Option ℕ × Heap ServerCell) := do
  match serverp with
  | none => pure (none, heap)
  | some server => do
    let heap ← freeNext (heap.length + 1) heap server
    let (_, heap) ← free heap (some server)
    pure (none, heap)

/-! ## Listening -/

/-- Whether the server listens.
Source: `server.c` `Server_listen2` -/
def listen2 (heap : Heap ServerCell) (server : ℕ) (ip : Option Bytes) (port : ℤ) :
    Daemon (Bool × Heap ServerCell) := do
  match ip with
  | none => do
    serverCall .fault
    pure (false, heap)
  | some ip =>
    match ipPortToSockaddr ip port with
    | none => pure (false, heap)
    | some addr => do
      let heap ← modify heap server fun cell => { cell with addr := addr }
      match ← serverCall (.sys (.socket addr.family)) with
      | .error _ => do
        let heap ← modify heap server fun cell => { cell with sock := -1 }
        pure (false, heap)
      | .ok sock => do
        let heap ← modify heap server fun cell => { cell with sock := sock }
        serverCall (.reuseaddr sock)
        match ← serverCall (.sys (.bind sock addr)) with
        | .error _ => pure (false, heap)
        | .ok _ =>
          match ← serverCall (.listen sock) with
          | .error _ => pure (false, heap)
          | .ok _ => pure (true, heap)

/-- The server for a bouncer, null when it does not listen.
Source: `server.c` `Server_listen` -/
def listen (heap : Heap ServerCell) (config : Config) (bouncer : Bouncer) :
    Daemon (Option ℕ × Heap ServerCell) := do
  let (server, heap) ← new heap
  match server with
  | none => pure (none, heap)
  | some server => do
    let heap ← modify heap server fun cell => { cell with config := some config }
    let heap ← modify heap server fun cell => { cell with bouncer := some bouncer }
    let (okay, heap) ← listen2 heap server bouncer.listenIP (toInt bouncer.listenPort)
    if okay then pure (some server, heap)
    else do
      let (_, heap) ← free heap (some server)
      pure (none, heap)

/-- The loop over the bouncers.
Source: `server.c` `Server_listenAll` -/
def listenRest (config : Config) :
    List Bouncer → Option ℕ → Heap ServerCell → Daemon (Option ℕ × Heap ServerCell)
  | [], servers, heap => pure (servers, heap)
  | bouncer :: bouncers, servers, heap => do
    let (server, heap) ← listen heap config bouncer
    match server with
    | none => do
      let (_, heap) ← freeList heap servers
      pure (none, heap)
    | some server => do
      let heap ← modify heap server fun cell => { cell with next := servers }
      listenRest config bouncers (some server) heap

/-- The list of servers, null when one of them does not listen.
Source: `server.c` `Server_listenAll` -/
def listenAll (heap : Heap ServerCell) (config : Config) : Daemon (Option ℕ × Heap ServerCell) :=
  listenRest config config.bouncers none heap

end Server

/-! ## Accepting -/

/-- A connection before its thread is started.
Source: `client.c` `Client_new` and `Client_launch`, the assignments -/
def Client.ofServer (server : Server) (sock : ℤ) (addr : SockaddrAny) : Client where
  cSock := sock
  cAddr := addr
  rSock := -1
  config := server.config
  bouncer := server.bouncer

/-- Whether there is a thread is not looked at.
Source: `client.c` `Client_launch` -/
def Client.launch (server : Server) (sock : ℤ) (addr : SockaddrAny) : Daemon Unit := do
  if ← serverCall (.sys (.calloc sizeofClient)) then
    let _ ← serverCall (.pthreadCreate (Client.ofServer server sock addr))
    pure ()
  else pure ()

namespace Server

/-- The second loop, over the servers that are left.
Source: `server.c` `Server_accept` -/
def acceptReady (ready : List ℤ) : List Server → Daemon Unit
  | [] => pure ()
  | server :: servers => do
    if server.sock ∈ ready then
      match ← serverCall (.accept server.sock) with
      | .error _ => pure ()
      | .ok (sock, addr) => do
        Client.launch server sock addr
        acceptReady ready servers
    else acceptReady ready servers

/-- The greatest descriptor, zero at least.
Source: `server.c` `Server_accept`, the variable `max` -/
def maxSock (servers : List Server) : ℤ :=
  servers.foldl (fun max server => if server.sock > max then server.sock else max) 0

/-- Source: `server.c` `Server_accept` -/
def accept (servers : List Server) : Daemon Unit := do
  match ← serverCall (.select (maxSock servers + 1) (servers.map Server.sock)) with
  | .error _ => serverCall (.usleep 10000)
  | .ok ready => acceptReady ready.1 servers

/-- The loop, for so many passes.
Source: `server.c` `Server_loop` -/
def loop (servers : List Server) (passes : ℕ) : Daemon (Option Unit) :=
  Program.loop (do accept servers; pure true) passes

end Server

/-! ## Threads -/

/-- The client whose thread is started. -/
def ServerEvent.started : ServerEvent → List Client
  | ⟨.pthreadCreate client, true⟩ => [client]
  | _ => []

/-- A `calloc` or a `pthread_create` that fails. -/
def ServerEvent.fails : ServerEvent → Bool
  | ⟨.sys (.calloc _), false⟩ => true
  | ⟨.pthreadCreate _, false⟩ => true
  | _ => false

/-- An address on this host. -/
def loopback (port : ℤ) : SockaddrAny :=
  (ipPortToSockaddr (ascii "127.0.0.1") port).getD (.other 0)

/-! ## Descriptors -/

/-- The descriptors a call is made on. -/
def ServerCall.uses : ServerCall → List ℤ
  | .sys c => c.uses
  | .reuseaddr fd => [fd]
  | .listen fd => [fd]
  | .select _ fds => fds
  | .accept fd => [fd]
  | _ => []

/-- The descriptor a call makes. -/
def ServerEvent.made : ServerEvent → Option ℤ
  | ⟨.sys c, reply⟩ => Event.made ⟨c, reply⟩
  | ⟨.accept _, .ok (sock, _)⟩ => some (sock : ℕ)
  | _ => none

/-- The descriptor a call ends. -/
def ServerEvent.ended : ServerEvent → Option ℤ
  | ⟨.sys c, reply⟩ => Event.ended ⟨c, reply⟩
  | _ => none

/-- Descriptors as resources of the server's thread. -/
def serverDescriptors : Ledger ServerEvent ℤ where
  uses e := e.1.uses
  made := ServerEvent.made
  ended := ServerEvent.ended

end Ebbnc
