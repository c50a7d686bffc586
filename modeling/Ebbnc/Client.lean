import Ebbnc.Ident

/-!
# The client thread

`client.c`: what the thread of one connection does, from the connection to the server to the end of
the relay, as a program over the system calls. Texts are shorter than `INT_MAX`; what is printed on
the terminal is left out.

* `Client.errorReply`, `Client.errnoReply` — the 421 replies.
* `Client.connect`, `Client.sendIdnt`, `Client.welcome` — what comes before the relay.
* `Client.relayClient`, `Client.relayServer`, `Client.relayPass`, `Client.relay` — the relay.
* `Client.threadMain` — the thread.
-/

namespace Ebbnc

open Lib

/-- A connection; `rSock` is `-1` until there is a socket.
Source: `client.h` `Client` -/
structure Client where
  cSock : ℤ
  cAddr : SockaddrAny
  rSock : ℤ
  config : Config
  bouncer : Bouncer
  deriving DecidableEq

/-- The size of the buffer of the relay, `BUFSIZ`. -/
def bufsiz : ℕ := 8192

/-- A formatted text in memory of its own, null when there is none.
Source: `misc.c` `strPrintf` -/
def strPrintf (formatted : Bytes) : Sys (Option Bytes) := do
  if ← call (.calloc (formatted.length + 1)) then pure (some formatted) else pure none

/-- The address a host name and a port stand for; the service is cut off to its buffer.
Source: `misc.c` `hostPortToSockaddr` -/
def hostPortToSockaddr (host : Option Bytes) (port : ℤ) : Sys (Except GaiError SockaddrAny) :=
  call (.getaddrinfo host ((printInt (toInt port)).take 5))

namespace Client

/-! ## Replies -/

/-- `"421 %s\r\n"`. Source: `client.c` `Client_errorReply` -/
def errorLine (msg : Bytes) : Bytes := ascii "421 " ++ msg ++ ascii "\r\n"

/-- `"IDNT %s@%s:%s\n"`. Source: `client.c` `Client_sendIdnt` -/
def idntLine (user ip hostname : Bytes) : Bytes :=
  ascii "IDNT " ++ user ++ ascii "@" ++ ip ++ ascii ":" ++ hostname ++ ascii "\n"

/-- `"220-%s\r\n"`. Source: `client.c` `Client_welcome` -/
def welcomeLine (welcomeMsg : Bytes) : Bytes := ascii "220-" ++ welcomeMsg ++ ascii "\r\n"

variable (client : Client)

/-- Source: `client.c` `Client_errorReply` -/
def errorReply (msg : Bytes) : Sys Unit := do
  match ← strPrintf (errorLine msg) with
  | none => pure ()
  | some buf => do
    let _ ← call (.write client.cSock buf)
    pure ()

/-- Source: `client.c` `Client_errnoReply` -/
def errnoReply (funclient : Bytes) (errno : Errno) : Sys Unit := do
  let errnoMsg := (← call (.strerror errno)).getD (ascii "Unknown error")
  match ← strPrintf (funclient ++ ascii ": " ++ errnoMsg) with
  | none => pure ()
  | some msg => client.errorReply msg

/-- Source: `client.c` `Client_relay`, the replies after a write that failed -/
def writeErrorReply (timeoutMsg : Bytes) (errno : Errno) : Sys Unit :=
  if errno = eagain then client.errorReply timeoutMsg else client.errnoReply (ascii "write") errno

/-! ## Before the relay -/

/-- Source: `client.c` `Client_threadMain` and `Client_connect`, the test of `writeTimeout` -/
def limitWrites (sock : ℤ) : Sys Unit :=
  if 0 < client.config.writeTimeout then setWriteTimeout sock client.config.writeTimeout
  else pure ()

/-- Source: `client.c` `Client_connect`, the block that binds to the local ip -/
def bindLocal : Sys Bool := do
  match client.bouncer.localIP with
  | none => pure true
  | some localIP =>
    match ipPortToSockaddr localIP 0 with
    | none => do
      client.errorReply (ascii "invalid localip")
      pure false
    | some lAddr =>
      match ← call (.bind client.rSock lAddr) with
      | .error errno => do
        client.errnoReply (ascii "bind") errno
        pure false
      | .ok _ => pure true

/-- Source: `client.c` `Client_connect`, from the socket options on -/
def connectSocket (rAddr : SockaddrAny) : Sys Bool := do
  client.limitWrites client.rSock
  call (.setsockopt client.rSock .nodelay)
  if ← client.bindLocal then
    match ← call (.connect client.rSock rAddr) with
    | .error errno => do
      client.errnoReply (ascii "connect") errno
      pure false
    | .ok _ => pure true
  else pure false

/-- The result, and the connection with its socket.
Source: `client.c` `Client_connect` -/
def connect : Sys (Bool × Client) := do
  match ← hostPortToSockaddr client.bouncer.remoteHost client.bouncer.remotePort with
  | .error (.system errno) => do
    client.errnoReply (ascii "hostPortToSockaddr") errno
    pure (false, client)
  | .error (.other errmsg) =>
    match ← strPrintf (ascii "hostPortToSockaddr: " ++ errmsg) with
    | none => pure (false, client)
    | some msg => do
      client.errorReply msg
      pure (false, client)
  | .ok rAddr =>
    match ← call (.socket rAddr.family) with
    | .error errno => do
      client.errnoReply (ascii "socket") errno
      pure (false, client)
    | .ok rSock => do
      let client := { client with rSock := rSock }
      let okay ← client.connectSocket rAddr
      pure (okay, client)

/-- The address of the client as a text. Nothing is written to the buffer for families other than
the two of the internet, and the function goes on with what is in it.
Source: `client.c` `Client_sendIdnt`, the call of `ipFromSockaddr` -/
def ipText : Sys Bytes :=
  match ipFromSockaddr client.cAddr with
  | some ip => pure ip
  | none => do
    let buf ← call .unwritten
    pure (cstr buf)

/-- The name of the client's host, its address when there is none.
Source: `client.c` `Client_sendIdnt`, the call of `getnameinfo` -/
def hostname (ip : Bytes) : Sys Bytes := do
  if client.config.dnsLookup then
    let name ← call (.getnameinfo client.cAddr)
    pure (name.getD ip)
  else pure ip

/-- A write, and whether all of the text was written.
Source: `client.c` `Client_sendIdnt` and `Client_welcome`, the comparison with `len` -/
def writeAll (fd : ℤ) (buf : Bytes) : Sys Bool := do
  match ← call (.write fd buf) with
  | .error _ => pure false
  | .ok len => pure (len.val = buf.length)

/-- Source: `client.c` `Client_sendIdnt` -/
def sendIdnt : Sys Bool := do
  if client.config.idnt then
    match ← call (.getsockname client.cSock) with
    | .error _ => pure false
    | .ok _ => do
      let user := (← identLookup client.cSock client.config.identTimeout).getD (ascii "*")
      let ip ← client.ipText
      let hostname ← client.hostname ip
      match ← strPrintf (idntLine user ip hostname) with
      | none => pure false
      | some buf => writeAll client.rSock buf
  else pure true

/-- Source: `client.c` `Client_welcome` -/
def welcome : Sys Bool := do
  match client.config.welcomeMsg with
  | none => pure true
  | some welcomeMsg =>
    match ← strPrintf (welcomeLine welcomeMsg) with
    | none => pure false
    | some buf => writeAll client.cSock buf

/-! ## The relay -/

/-- The branch from the client to the server, when there is something to read; whether the loop
goes on.
Source: `client.c` `Client_relay` -/
def relayClient (ready : Bool) : Sys Bool := do
  if ready then
    match ← call (.read client.cSock bufsiz) with
    | .error _ => pure false
    | .ok chunk =>
      if chunk.1 = [] then pure false
      else
        match ← call (.write client.rSock chunk.1) with
        | .error errno => do
          client.writeErrorReply (ascii "Server write timeout") errno
          pure false
        | .ok len =>
          if len.val ≠ chunk.1.length then do
            client.errorReply (ascii "Short write")
            pure false
          else pure true
  else pure true

/-- The branch from the server to the client, when there is something to read; whether the loop
goes on. A write that fails does not end it, and a short write goes unnoticed.
Source: `client.c` `Client_relay` -/
def relayServer (ready : Bool) : Sys Bool := do
  if ready then
    match ← call (.read client.rSock bufsiz) with
    | .error errno => do
      client.errnoReply (ascii "read") errno
      pure false
    | .ok chunk =>
      if chunk.1 = [] then do
        client.errorReply (ascii "Connection closed")
        pure false
      else
        match ← call (.write client.cSock chunk.1) with
        | .error errno => do
          client.writeErrorReply (ascii "Client write timeout") errno
          pure true
        | .ok _ => pure true
  else pure true

/-- The time `poll` waits, in milliseconds. -/
def timeout : ℤ :=
  if client.config.idleTimeout = 0 then -1 else toInt (client.config.idleTimeout * 1000)

/-- One pass of the loop; whether it goes on.
Source: `client.c` `Client_relay` -/
def relayPass : Sys Bool := do
  match ← call (.poll client.cSock client.rSock client.timeout) with
  | .error errno => do
    client.errnoReply (ascii "poll") errno
    pure false
  | .ok (c, r) =>
    if c = .zero ∧ r = .zero then do
      client.errorReply (ascii "Idle timeout")
      pure false
    else if ← client.relayClient c.pollin then client.relayServer r.pollin
    else pure false

/-- The loop, for so many passes; none when it is still going on after them.
Source: `client.c` `Client_relay` -/
def relay (passes : ℕ) : Sys (Option Unit) := Program.loop client.relayPass passes

/-! ## The thread -/

/-- Source: `client.c` `Client_free`, for one of the sockets -/
def closeSocket (sock : ℤ) : Sys Unit := if 0 ≤ sock then call (.close sock) else pure ()

/-- Source: `client.c` `Client_free` -/
def free : Sys Unit := do
  closeSocket client.cSock
  closeSocket client.rSock

/-- What follows the connection to the server, when there is one.
Source: `client.c` `Client_threadMain`, the condition and its branch -/
def session (okay : Bool) (passes : ℕ) : Sys (Option Unit) := do
  if okay then
    if ← client.sendIdnt then
      if ← client.welcome then client.relay passes else pure (some ())
    else pure (some ())
  else pure (some ())

/-- The thread, up to so many passes of the relay; none when it is still going on after them.
Source: `client.c` `Client_threadMain` -/
def threadMain (passes : ℕ) : Sys (Option Unit) := do
  client.limitWrites client.cSock
  let (okay, client) ← client.connect
  match ← client.session okay passes with
  | none => pure none
  | some () => do
    client.free
    pure (some ())

end Client

end Ebbnc
