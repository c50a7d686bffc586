import Ebbnc.Launch

/-!
# The pid file, call by call

Launches once more, now with the calls that `isAlreadyRunning`, `createPIDFile` and `daemonise`
make one by one: other processes may take their steps in between, and the file is seen as it is
while it is written.

* `StartCall`, `Startup` — the calls, and programs over them; `Startup.isAlreadyRunning`,
  `Startup.createPIDFile`, `Startup.daemonise`, `Startup.main` — the functions.
* `Startup.Effect` — what a call does to the pid file; `Startup.Host`, `Startup.Host.Step` — the
  processes and the file, and one call of one process.
* `Startup.Phase` — what is left of a launch, after each of its calls.
* `Startup.Sound` — the processes and the file agree.
* **`Startup.Host.single_of_readsAlone`** — there is one daemon at most, as long as no launch reads
  the pid file while another one has read it and not yet truncated it.
* **`Startup.Host.locked`** — a pid file without a number keeps every launch from starting.
* `Startup.Host.path_of_step` — launches whose functions are done at once are among these.
-/

namespace Ebbnc

open Lib

/-! ## The calls -/

/-- The calls of a launch. A process has one stream at most, which is that of the pid file. -/
inductive StartCall
  /-- `fopen` for reading. -/
  | fopenRead (path : Bytes)
  /-- `fscanf` with `%i` into a `pid_t`. -/
  | fscanf
  /-- `fclose` of a stream that was read. -/
  | fcloseRead
  /-- `kill` with no signal. -/
  | kill (pid : ℤ)
  /-- `Server_listenAll`. -/
  | listenAll
  | fork
  /-- `freopen` of a standard stream on `/dev/null`. -/
  | freopen
  | setsid
  /-- `fopen` for writing. -/
  | fopenWrite (path : Bytes)
  /-- `fprintf` with `%i\n`. -/
  | fprintf (pid : ℤ)
  /-- `fclose` of a stream that was written. -/
  | fcloseWrite
  /-- `Server_loop`, which does not return. -/
  | serverLoop
  deriving DecidableEq

/-- The replies: the error of `fopen` for reading and of `kill`, the number that was read, whether
`fopen` for writing and `fprintf` succeed. -/
abbrev StartReply : StartCall → Type
  | .fopenRead _ => Except Errno Unit
  | .fscanf => Option ℤ
  | .fcloseRead => Unit
  | .kill _ => Except Errno Unit
  | .listenAll => Bool
  | .fork => ℤ
  | .freopen => Unit
  | .setsid => Unit
  | .fopenWrite _ => Bool
  | .fprintf _ => Bool
  | .fcloseWrite => Unit
  | .serverLoop => Empty

/-- Programs over these calls. -/
abbrev Startup := Program StartReply

/-- A call and its reply. -/
abbrev StartEvent := Lib.Event StartReply

/-- A call of a launch. -/
abbrev startCall (c : StartCall) : Startup (StartReply c) := Program.perform c

namespace Startup

/-- The result of `kill`.
Source: `misc.c` `isAlreadyRunning` -/
def killed : Except Errno Unit → ℤ
  | .error errno => if errno = esrch then 0 else -1
  | .ok _ => 1

/-- Source: `misc.c` `isAlreadyRunning`, after `fscanf` -/
def scanned : Option ℤ → Startup ℤ
  | none => do
    startCall .fcloseRead
    pure (-1)
  | some pid => do
    startCall .fcloseRead
    let reply ← startCall (.kill pid)
    pure (killed reply)

/-- Source: `misc.c` `isAlreadyRunning` -/
def isAlreadyRunning (pidFile : Bytes) : Startup ℤ := do
  match ← startCall (.fopenRead pidFile) with
  | .error errno => pure (if errno = enoent then 0 else -1)
  | .ok _ => do
    let pid ← startCall .fscanf
    scanned pid

/-- Source: `misc.c` `createPIDFile` -/
def createPIDFile (pidFile : Bytes) (pid : ℤ) : Startup Bool := do
  if ← startCall (.fopenWrite pidFile) then
    let okay ← startCall (.fprintf pid)
    startCall .fcloseWrite
    pure okay
  else pure false

/-- The child has no streams of its own any more, and no terminal.
Source: `misc.c` `daemonise` -/
def daemonise : Startup ℤ := do
  let pid ← startCall .fork
  if pid ≠ 0 then pure pid
  else do
    startCall .freopen
    startCall .freopen
    startCall .setsid
    pure 0

/-- What `main` calls, call by call. -/
def ofLaunch : (c : LaunchCall) → Startup (LaunchReply c)
  | .isAlreadyRunning pidFile => isAlreadyRunning pidFile
  | .listenAll => startCall .listenAll
  | .fork => daemonise
  | .createPIDFile pidFile pid => createPIDFile pidFile pid
  | .serverLoop => startCall .serverLoop

/-- Source: `main.c` `main`, from the check of the pid file on -/
def main (pidFile : Option Bytes) : Startup ℤ := (Launch.main pidFile).interpret ofLaunch

/-! ## The processes -/

/-- A process, the text in the buffer of its stream, and what is left for it to do. -/
structure Process where
  pid : ℤ
  buffer : Bytes
  rest : Startup ℤ

/-- The processes that run the program, and the text of the pid file. -/
structure Host where
  file : Option Bytes
  processes : List Process

/-- What an event does to the pid file and to the buffer of the process. Reading may fail, and so
may the writing of the buffer when the stream is closed; opening the file for writing, which
truncates it, does not fail. -/
inductive Effect (pidFile : Bytes) :
    Option Bytes × Bytes → StartEvent → Option Bytes × Bytes → Prop
  | missing {buffer : Bytes} :
      Effect pidFile (none, buffer) ⟨.fopenRead pidFile, .error enoent⟩ (none, buffer)
  | unreadable {file : Option Bytes} {buffer : Bytes} {errno : Errno} (h : errno ≠ enoent) :
      Effect pidFile (file, buffer) ⟨.fopenRead pidFile, .error errno⟩ (file, buffer)
  | opened {text buffer : Bytes} :
      Effect pidFile (some text, buffer) ⟨.fopenRead pidFile, .ok ()⟩ (some text, buffer)
  | scanned {text buffer : Bytes} :
      Effect pidFile (some text, buffer)
        ⟨.fscanf, (scanInteger text).map fun number => toInt number.1⟩ (some text, buffer)
  | unscanned {file : Option Bytes} {buffer : Bytes} :
      Effect pidFile (file, buffer) ⟨.fscanf, none⟩ (file, buffer)
  | closed {file : Option Bytes} {buffer : Bytes} :
      Effect pidFile (file, buffer) ⟨.fcloseRead, ()⟩ (file, buffer)
  | listened {file : Option Bytes} {buffer : Bytes} (okay : Bool) :
      Effect pidFile (file, buffer) ⟨.listenAll, okay⟩ (file, buffer)
  | reopened {file : Option Bytes} {buffer : Bytes} :
      Effect pidFile (file, buffer) ⟨.freopen, ()⟩ (file, buffer)
  | left {file : Option Bytes} {buffer : Bytes} :
      Effect pidFile (file, buffer) ⟨.setsid, ()⟩ (file, buffer)
  | truncated {file : Option Bytes} {buffer : Bytes} :
      Effect pidFile (file, buffer) ⟨.fopenWrite pidFile, true⟩ (some [], buffer)
  | printed {file : Option Bytes} {buffer : Bytes} {pid : ℤ} :
      Effect pidFile (file, buffer) ⟨.fprintf pid, true⟩ (file, buffer ++ Host.pidText pid)
  | written {text buffer : Bytes} :
      Effect pidFile (some text, buffer) ⟨.fcloseWrite, ()⟩
        (some (buffer ++ text.drop buffer.length), [])
  | lost {file : Option Bytes} {buffer : Bytes} :
      Effect pidFile (file, buffer) ⟨.fcloseWrite, ()⟩ (file, [])

namespace Host

/-- No process has this number. -/
def Free (host : Host) (pid : ℤ) : Prop :=
  0 < pid ∧ pid < 2 ^ 31 ∧ ∀ p ∈ host.processes, p.pid ≠ pid

/-- The steps, with the process that takes them. -/
inductive Act
  | start (pid : ℤ)
  | call (pid : ℤ) (e : StartEvent)
  | exit (pid : ℤ)
  /-- A process ends, whatever the reason. -/
  | die (pid : ℤ)

/-- One call of one process, or another step. All launches have the same pid file. A process may
end at any time, but not between the fork and the truncation of the pid file. -/
inductive Step (pidFile : Bytes) : Host → Act → Host → Prop
  | start {file : Option Bytes} {processes : List Process} {pid : ℤ}
      (hpid : Free ⟨file, processes⟩ pid) :
      Step pidFile ⟨file, processes⟩ (.start pid)
        ⟨file, processes ++ [⟨pid, [], main (some pidFile)⟩]⟩
  | call {file file' : Option Bytes} {before after : List Process} {pid : ℤ}
      {buffer buffer' : Bytes} {c : StartCall} {k : StartReply c → Startup ℤ} {r : StartReply c}
      (h : Effect pidFile (file, buffer) ⟨c, r⟩ (file', buffer')) :
      Step pidFile ⟨file, before ++ ⟨pid, buffer, .call c k⟩ :: after⟩ (.call pid ⟨c, r⟩)
        ⟨file', before ++ ⟨pid, buffer', k r⟩ :: after⟩
  | kill {file : Option Bytes} {before after : List Process} {pid target : ℤ} {buffer : Bytes}
      {k : Except Errno Unit → Startup ℤ} {r : Except Errno Unit}
      (h : r = .error esrch →
        ∀ p ∈ before ++ ⟨pid, buffer, .call (.kill target) k⟩ :: after, p.pid ≠ target) :
      Step pidFile ⟨file, before ++ ⟨pid, buffer, .call (.kill target) k⟩ :: after⟩
        (.call pid ⟨.kill target, r⟩) ⟨file, before ++ ⟨pid, buffer, k r⟩ :: after⟩
  | fork {file : Option Bytes} {before after : List Process} {pid child : ℤ} {buffer : Bytes}
      {k : ℤ → Startup ℤ}
      (hchild : Free ⟨file, before ++ ⟨pid, buffer, .call .fork k⟩ :: after⟩ child) :
      Step pidFile ⟨file, before ++ ⟨pid, buffer, .call .fork k⟩ :: after⟩
        (.call pid ⟨.fork, child⟩)
        ⟨file, (before ++ ⟨pid, buffer, k child⟩ :: after) ++ [⟨child, buffer, k 0⟩]⟩
  | noFork {file : Option Bytes} {before after : List Process} {pid : ℤ} {buffer : Bytes}
      {k : ℤ → Startup ℤ} :
      Step pidFile ⟨file, before ++ ⟨pid, buffer, .call .fork k⟩ :: after⟩
        (.call pid ⟨.fork, (-1 : ℤ)⟩) ⟨file, before ++ ⟨pid, buffer, k (-1)⟩ :: after⟩
  | exit {file : Option Bytes} {before after : List Process} {pid status : ℤ} {buffer : Bytes} :
      Step pidFile ⟨file, before ++ ⟨pid, buffer, .ret status⟩ :: after⟩ (.exit pid)
        ⟨file, before ++ after⟩
  | die {file : Option Bytes} {before after : List Process} {p : Process}
      (h : p.rest.next ≠ some (.fopenWrite pidFile)) :
      Step pidFile ⟨file, before ++ p :: after⟩ (.die p.pid) ⟨file, before ++ after⟩

end Host

/-- A daemon in `Server_loop`. -/
def Process.looping (p : Process) : Bool := p.rest.next == some .serverLoop

/-- A call between the reading of the pid file and its truncation. -/
def undecidedCall : StartCall → Bool
  | .fcloseRead => true
  | .kill _ => true
  | .listenAll => true
  | .fork => true
  | .fopenWrite _ => true
  | _ => false

/-- A launch that has read the pid file and not yet truncated it. -/
def Process.undecided (p : Process) : Bool := p.rest.next.any undecidedCall

/-- The pid file is missing, or there is a number in it. -/
def reads : StartEvent → Bool
  | ⟨.fopenRead _, .error errno⟩ => errno == enoent
  | ⟨.fscanf, some _⟩ => true
  | _ => false

namespace Host

/-- There are no two daemons. -/
def Single (host : Host) : Prop := host.processes.countP Process.looping ≤ 1

instance (host : Host) : Decidable host.Single := inferInstanceAs (Decidable (_ ≤ 1))

/-- When the pid file is read, no launch has read it and not yet truncated it. -/
def ReadsAlone (host : Host) : Act → Prop
  | .call _ e => reads e = true → ∀ p ∈ host.processes, p.undecided = false
  | _ => True

end Host

/-! ## What is left of a launch -/

/-- Where a process is: a launch, its child, or a process that is over. -/
inductive Phase
  | opening
  | scanning
  /-- `isAlreadyRunning` after `fscanf`. -/
  | closing (number : Option ℤ)
  | killing (number : ℤ)
  | listening
  | forking
  /-- The parent after the fork. -/
  | recording (child : ℤ)
  | printing (child : ℤ)
  | flushing (child : ℤ)
  /-- The child after the fork, before the first or the second `freopen`. -/
  | reopening (again : Bool)
  | leaving
  | looping
  | ended (status : ℤ)

namespace Phase

variable (pidFile : Bytes)

/-- What follows the check of the pid file. -/
def afterCheck (ret : ℤ) : Startup ℤ := (Launch.checked (some pidFile) ret).interpret ofLaunch

/-- What follows the fork. -/
def afterFork (pid : ℤ) : Startup ℤ := (Launch.forked (some pidFile) pid).interpret ofLaunch

/-- What is left to do. -/
def rest : Phase → Startup ℤ
  | .opening => main (some pidFile)
  | .scanning => (startCall .fscanf >>= scanned) >>= afterCheck pidFile
  | .closing number => scanned number >>= afterCheck pidFile
  | .killing number =>
    (startCall (.kill number) >>= fun reply => pure (killed reply)) >>= afterCheck pidFile
  | .listening => (Launch.listen (some pidFile)).interpret ofLaunch
  | .forking => daemonise >>= afterFork pidFile
  | .recording child => createPIDFile pidFile child >>= fun _ => pure 0
  | .printing child =>
    (do
      let okay ← startCall (.fprintf child)
      startCall .fcloseWrite
      pure okay) >>= fun _ => pure 0
  | .flushing _ => (startCall .fcloseWrite >>= fun _ => pure true) >>= fun _ => pure 0
  | .reopening again =>
    (do
      if again then startCall .freopen else pure ()
      startCall .freopen
      startCall .setsid
      pure (0 : ℤ)) >>= afterFork pidFile
  | .leaving => (startCall .setsid >>= fun _ => pure (0 : ℤ)) >>= afterFork pidFile
  | .looping => afterFork pidFile 0
  | .ended status => pure status

/-- What is in the buffer of the stream. -/
def buffer : Phase → Bytes
  | .flushing child => Host.pidText child
  | _ => []

end Phase

namespace Phase

/-- A launch that has read the pid file and goes on, up to the end of its writing. -/
def busy : Phase → Bool
  | .closing number => number.isSome
  | .killing _ => true
  | .listening => true
  | .forking => true
  | .recording _ => true
  | .printing _ => true
  | .flushing _ => true
  | _ => false

/-- A launch that has truncated the pid file and not yet written it. -/
def writing : Phase → Bool
  | .printing _ => true
  | .flushing _ => true
  | _ => false

/-- A parent that is about to truncate the pid file. -/
def beforeTruncation : Phase → Bool
  | .recording _ => true
  | _ => false

/-- A child after the fork. -/
def isChild : Phase → Bool
  | .reopening _ => true
  | .leaving => true
  | .looping => true
  | _ => false

/-- Whether there may be a child with this number: a launch that goes on has seen that there is
none but the one it found in the file, and a parent has one child. -/
def Allows : Phase → ℤ → Prop
  | .closing (some number), pid => pid = number
  | .killing number, pid => pid = number
  | .listening, _ => False
  | .forking, _ => False
  | .recording child, pid => pid = child
  | .printing child, pid => pid = child
  | .flushing child, pid => pid = child
  | _, _ => True

/-- A launch that does not go on, or has not read the pid file yet. -/
structure Idle (phase : Phase) : Prop where
  busy : phase.busy = false
  isChild : phase.isChild = false
  writing : phase.writing = false
  beforeTruncation : phase.beforeTruncation = false
  allows : ∀ pid, phase.Allows pid

end Phase

/-- A process by its phase. -/
structure Stage where
  pid : ℤ
  phase : Phase

/-- The process in this phase. -/
def Stage.process (pidFile : Bytes) (s : Stage) : Process :=
  ⟨s.pid, s.phase.buffer, s.phase.rest pidFile⟩

/-! ## Agreement -/

/-- The pid file and the processes agree: there is one launch at most that goes on and one child at
most, each launch allows that child, and it is recorded in the file, unless its parent is about to
truncate that file or the file is empty. -/
structure Sound (file : Option Bytes) (stages : List Stage) : Prop where
  pids : ∀ s ∈ stages, 0 < s.pid ∧ s.pid < 2 ^ 31
  busy : stages.countP (fun s => s.phase.busy) ≤ 1
  child : stages.countP (fun s => s.phase.isChild) ≤ 1
  allows : ∀ s ∈ stages, ∀ t ∈ stages, t.phase.isChild = true → s.phase.Allows t.pid
  truncated : ∀ s ∈ stages, s.phase.writing = true → file = some []
  recorded : (∀ s ∈ stages, s.phase.beforeTruncation = false) →
    ∀ t ∈ stages, t.phase.isChild = true → file = some [] ∨ file = some (Host.pidText t.pid)

section sound

variable {file : Option Bytes} {s s' : Stage} {stages stages' : List Stage}

/-- The order of the processes does not matter. -/
theorem Sound.perm (h : Sound file stages) (hperm : stages.Perm stages') : Sound file stages' where
  pids s hs := h.pids s (hperm.mem_iff.mpr hs)
  busy := (hperm.countP_eq _).symm.trans_le h.busy
  child := (hperm.countP_eq _).symm.trans_le h.child
  allows s hs t ht := h.allows s (hperm.mem_iff.mpr hs) t (hperm.mem_iff.mpr ht)
  truncated s hs := h.truncated s (hperm.mem_iff.mpr hs)
  recorded hnone t ht := h.recorded (fun s hs => hnone s (hperm.mem_iff.mp hs)) t
    (hperm.mem_iff.mpr ht)

/-- Process numbers are positive. -/
theorem Sound.pid (h : Sound file (s :: stages)) : 0 < s.pid ∧ s.pid < 2 ^ 31 :=
  h.pids s List.mem_cons_self

/-- One process less, unless it is about to truncate the pid file. -/
theorem Sound.tail (h : Sound file (s :: stages)) (hs : s.phase.beforeTruncation = false) :
    Sound file stages where
  pids t ht := h.pids t (List.mem_cons_of_mem _ ht)
  busy := (List.countP_cons ▸ Nat.le_add_right _ _).trans h.busy
  child := (List.countP_cons ▸ Nat.le_add_right _ _).trans h.child
  allows t ht u hu := h.allows t (List.mem_cons_of_mem _ ht) u (List.mem_cons_of_mem _ hu)
  truncated t ht := h.truncated t (List.mem_cons_of_mem _ ht)
  recorded hnone t ht := h.recorded (List.forall_mem_cons.mpr ⟨hs, hnone⟩) t
    (List.mem_cons_of_mem _ ht)

/-- One idle process more. -/
theorem Sound.cons_idle (h : Sound file stages) (hpid : 0 < s.pid ∧ s.pid < 2 ^ 31)
    (hs : s.phase.Idle) : Sound file (s :: stages) where
  pids := List.forall_mem_cons.mpr ⟨hpid, h.pids⟩
  busy := by
    rw [List.countP_cons_of_neg (by simp [hs.busy])]
    exact h.busy
  child := by
    rw [List.countP_cons_of_neg (by simp [hs.isChild])]
    exact h.child
  allows t ht u hu hchild := by
    rcases List.mem_cons.mp hu with rfl | hu
    · rw [hs.isChild] at hchild
      cases hchild
    rcases List.mem_cons.mp ht with rfl | ht
    · exact hs.allows u.pid
    · exact h.allows t ht u hu hchild
  truncated t ht hwriting := by
    rcases List.mem_cons.mp ht with rfl | ht
    · rw [hs.writing] at hwriting
      cases hwriting
    · exact h.truncated t ht hwriting
  recorded hnone t ht hchild := by
    rcases List.mem_cons.mp ht with rfl | ht
    · rw [hs.isChild] at hchild
      cases hchild
    · exact h.recorded (fun u hu => hnone u (List.mem_cons_of_mem _ hu)) t ht hchild

/-- A launch that goes on is alone with that. -/
theorem Sound.others_idle (h : Sound file (s :: stages)) (hs : s.phase.busy = true) :
    ∀ t ∈ stages, t.phase.busy = false := by
  have hbusy := h.busy
  rw [List.countP_cons, if_pos hs] at hbusy
  have hzero : stages.countP (fun t => t.phase.busy) = 0 := by omega
  intro t ht
  simpa using List.countP_eq_zero.mp hzero t ht

/-- One launch more that goes on, when there is no other one. -/
theorem Sound.cons_busy (h : Sound file stages) (hpid : 0 < s.pid ∧ s.pid < 2 ^ 31)
    (hothers : ∀ t ∈ stages, t.phase.busy = false) (hs : s.phase.isChild = false)
    (hwriting : s.phase.writing = false)
    (hallows : ∀ t ∈ stages, t.phase.isChild = true → s.phase.Allows t.pid) :
    Sound file (s :: stages) where
  pids := List.forall_mem_cons.mpr ⟨hpid, h.pids⟩
  busy := by
    have hzero : stages.countP (fun t => t.phase.busy) = 0 :=
      List.countP_eq_zero.mpr fun t ht => by simp [hothers t ht]
    rw [List.countP_cons, hzero]
    split <;> omega
  child := by
    rw [List.countP_cons_of_neg (by simp [hs])]
    exact h.child
  allows t ht u hu hchild := by
    rcases List.mem_cons.mp hu with rfl | hmem
    · rw [hs] at hchild
      cases hchild
    rcases List.mem_cons.mp ht with rfl | ht
    · exact hallows u hmem hchild
    · exact h.allows t ht u hmem hchild
  truncated t ht hwrites := by
    rcases List.mem_cons.mp ht with rfl | ht
    · rw [hwriting] at hwrites
      cases hwrites
    · exact h.truncated t ht hwrites
  recorded hnone t ht hchild := by
    rcases List.mem_cons.mp ht with rfl | ht
    · rw [hs] at hchild
      cases hchild
    · exact h.recorded (fun u hu => hnone u (List.mem_cons_of_mem _ hu)) t ht hchild

/-- A process in a phase like the one before. -/
theorem Sound.update (h : Sound file (s :: stages)) (hpid : s'.pid = s.pid)
    (hbusy : s'.phase.busy = s.phase.busy) (hchild : s'.phase.isChild = s.phase.isChild)
    (hwriting : s'.phase.writing = s.phase.writing)
    (hrecording : s'.phase.beforeTruncation = s.phase.beforeTruncation)
    (hallows : ∀ pid, s.phase.Allows pid → s'.phase.Allows pid) : Sound file (s' :: stages) where
  pids := List.forall_mem_cons.mpr ⟨hpid ▸ h.pids s List.mem_cons_self,
    fun t ht => h.pids t (List.mem_cons_of_mem _ ht)⟩
  busy := by simpa only [List.countP_cons, hbusy] using h.busy
  child := by simpa only [List.countP_cons, hchild] using h.child
  allows := by
    have hold : ∀ t ∈ s :: stages, ∀ u ∈ s' :: stages, u.phase.isChild = true →
        t.phase.Allows u.pid := by
      intro t ht u hu hu'
      rcases List.mem_cons.mp hu with rfl | hu
      · rw [hpid]
        exact h.allows t ht s List.mem_cons_self (hchild ▸ hu')
      · exact h.allows t ht u (List.mem_cons_of_mem _ hu) hu'
    intro t ht u hu hu'
    rcases List.mem_cons.mp ht with rfl | ht
    · exact hallows u.pid (hold s List.mem_cons_self u hu hu')
    · exact hold t (List.mem_cons_of_mem _ ht) u hu hu'
  truncated := by
    have hold := List.forall_mem_cons.mp h.truncated
    exact List.forall_mem_cons.mpr ⟨fun hw => hold.1 (hwriting ▸ hw), hold.2⟩
  recorded := by
    intro hnone t ht ht'
    have hnone := List.forall_mem_cons.mp hnone
    have hold := h.recorded (List.forall_mem_cons.mpr ⟨hrecording ▸ hnone.1, hnone.2⟩)
    rcases List.mem_cons.mp ht with rfl | ht
    · rw [hpid]
      exact hold s List.mem_cons_self (hchild ▸ ht')
    · exact hold t (List.mem_cons_of_mem _ ht) ht'

end sound

/-! ## What each call keeps -/

section calls

variable {pidFile : Bytes} {file : Option Bytes} {pid : ℤ} {phase : Phase} {stages : List Stage}

theorem Phase.idle_opening : Phase.opening.Idle := ⟨rfl, rfl, rfl, rfl, fun _ => trivial⟩

theorem Phase.idle_scanning : Phase.scanning.Idle := ⟨rfl, rfl, rfl, rfl, fun _ => trivial⟩

theorem Phase.idle_closing : (Phase.closing none).Idle := ⟨rfl, rfl, rfl, rfl, fun _ => trivial⟩

theorem Phase.idle_ended (status : ℤ) : (Phase.ended status).Idle :=
  ⟨rfl, rfl, rfl, rfl, fun _ => trivial⟩

/-- A launch that goes on and is not writing the pid file has read it and not yet truncated it. -/
theorem Phase.undecided (hbusy : phase.busy = true) (hwriting : phase.writing = false) :
    (Stage.process pidFile ⟨pid, phase⟩).undecided = true := by
  cases phase with
  | closing number =>
      cases number with
      | none => cases hbusy
      | some _ => rfl
  | killing _ => rfl
  | listening => rfl
  | forking => rfl
  | recording _ => rfl
  | printing _ => cases hwriting
  | flushing _ => cases hwriting
  | _ => cases hbusy

/-- A launch does not go on. -/
theorem Sound.idle {phase' : Phase} (h : Sound file (⟨pid, phase⟩ :: stages))
    (hphase : phase.beforeTruncation = false) (hidle : phase'.Idle) :
    Sound file (⟨pid, phase'⟩ :: stages) :=
  (h.tail hphase).cons_idle (h.pid) hidle

/-- When nobody is between reading and truncating the pid file and the file is not empty, nobody
goes on. -/
theorem Sound.quiet (h : Sound file stages) (hfile : file ≠ some [])
    (halone : ∀ t ∈ stages, (t.process pidFile).undecided = false) :
    ∀ t ∈ stages, t.phase.busy = false := by
  intro t ht
  by_contra hbusy
  rw [Bool.not_eq_false] at hbusy
  rcases hwriting : t.phase.writing with _ | _
  · have hundecided := @Phase.undecided pidFile t.pid _ hbusy hwriting
    rw [halone t ht] at hundecided
    cases hundecided
  · exact hfile (h.truncated t ht hwriting)

/-- A launch that does not go on allows any child and is not concerned with the pid file. -/
theorem Phase.of_not_busy (h : phase.busy = false) :
    phase.beforeTruncation = false ∧ phase.writing = false ∧ ∀ pid, phase.Allows pid := by
  cases phase with
  | closing number =>
      cases number with
      | none => exact ⟨rfl, rfl, fun _ => trivial⟩
      | some _ => cases h
  | _ => first | exact ⟨rfl, rfl, fun _ => trivial⟩ | cases h

/-- The number of a child is the one in a pid file that is not empty, when nobody goes on. -/
theorem Sound.child_recorded (h : Sound file stages) (hfile : file ≠ some [])
    (hquiet : ∀ t ∈ stages, t.phase.busy = false) :
    ∀ t ∈ stages, t.phase.isChild = true → file = some (Host.pidText t.pid) := fun t ht hchild =>
  (h.recorded (fun u hu => (Phase.of_not_busy (hquiet u hu)).1) t ht hchild).resolve_left
    hfile

/-- There is no pid file: there is no child. -/
theorem Sound.missing (h : Sound none (⟨pid, .opening⟩ :: stages))
    (halone : ∀ t ∈ stages, (t.process pidFile).undecided = false) :
    Sound none (⟨pid, .listening⟩ :: stages) := by
  have htail := h.tail rfl
  have hquiet := htail.quiet (by exact nofun) halone
  refine htail.cons_busy (h.pid) hquiet rfl rfl fun t ht hchild => ?_
  cases htail.child_recorded (by exact nofun) hquiet t ht hchild

/-- The number in the pid file is that of the child, if there is one. -/
theorem Sound.read {text after : Bytes} {number : ℤ}
    (h : Sound (some text) (⟨pid, .scanning⟩ :: stages))
    (hscan : scanInteger text = some (number, after))
    (halone : ∀ t ∈ stages, (t.process pidFile).undecided = false) :
    Sound (some text) (⟨pid, .closing (some (toInt number))⟩ :: stages) := by
  have htail := h.tail rfl
  have htext : some text ≠ some [] := by
    rintro heq
    rw [Option.some.inj heq] at hscan
    cases hscan
  have hquiet := htail.quiet htext halone
  refine htail.cons_busy (h.pid) hquiet rfl rfl fun t ht hchild => ?_
  obtain ⟨hlo, hhi⟩ := htail.pids t ht
  have hfile := Option.some.inj (htail.child_recorded htext hquiet t ht hchild)
  rw [hfile, Host.scanInteger_pidText hlo hhi] at hscan
  obtain ⟨rfl, -⟩ := Prod.mk.inj (Option.some.inj hscan)
  exact (toInt_of_mem (by omega) hhi).symm

/-- There is no process with the number that was read: there is no child. -/
theorem Sound.cleared {number : ℤ} (h : Sound file (⟨pid, .killing number⟩ :: stages))
    (hkill : ∀ t ∈ stages, t.pid ≠ number) : Sound file (⟨pid, .listening⟩ :: stages) := by
  have htail := h.tail rfl
  refine htail.cons_busy (h.pid) (h.others_idle rfl) rfl rfl
    fun t ht hchild => ?_
  exact hkill t ht (h.allows _ List.mem_cons_self t (List.mem_cons_of_mem _ ht) hchild)

/-- The two processes after the fork. -/
theorem Sound.fork {child : ℤ} (h : Sound file (⟨pid, .forking⟩ :: stages))
    (hchild : 0 < child ∧ child < 2 ^ 31) :
    Sound file (⟨child, .reopening true⟩ :: ⟨pid, .recording child⟩ :: stages) := by
  have hquiet := h.others_idle rfl
  have hnone : ∀ t ∈ stages, t.phase.isChild = false := by
    intro t ht
    by_contra hc
    exact h.allows _ List.mem_cons_self t (List.mem_cons_of_mem _ ht) (by simpa using hc)
  have hparent : Sound file (⟨pid, .recording child⟩ :: stages) :=
    (h.tail rfl).cons_busy (h.pid) hquiet rfl rfl fun t ht hc => by
      rw [hnone t ht] at hc
      cases hc
  have hzero : (⟨pid, .recording child⟩ :: stages).countP (fun t => t.phase.isChild) = 0 := by
    refine List.countP_eq_zero.mpr (List.forall_mem_cons.mpr ⟨by exact nofun, fun t ht => ?_⟩)
    simp [hnone t ht]
  refine ⟨List.forall_mem_cons.mpr ⟨hchild, hparent.pids⟩, ?_, ?_, ?_, ?_, ?_⟩
  · rw [List.countP_cons_of_neg (by exact nofun)]
    exact hparent.busy
  · rw [List.countP_cons, hzero]
    split <;> omega
  · intro s hs t ht ht'
    -- the child is the only one
    rcases List.mem_cons.mp ht with rfl | ht
    · rcases List.mem_cons.mp hs with rfl | hs
      · trivial
      rcases List.mem_cons.mp hs with rfl | hs
      · rfl
      · exact (Phase.of_not_busy (hquiet s hs)).2.2 _
    · rcases List.mem_cons.mp ht with rfl | ht
      · cases ht'
      · rw [hnone t ht] at ht'
        cases ht'
  · exact List.forall_mem_cons.mpr ⟨by exact nofun, hparent.truncated⟩
  · intro hrecording
    exact absurd (hrecording ⟨pid, .recording child⟩ (List.mem_cons_of_mem _ List.mem_cons_self))
      (by exact nofun)

/-- A parent truncates the pid file. -/
theorem Sound.truncate {child : ℤ} (h : Sound file (⟨pid, .recording child⟩ :: stages)) :
    Sound (some []) (⟨pid, .printing child⟩ :: stages) where
  pids := List.forall_mem_cons.mpr (List.forall_mem_cons.mp h.pids)
  busy := by
    have hbusy := h.busy
    rw [List.countP_cons] at hbusy ⊢
    exact hbusy
  child := by
    have hchild := h.child
    rw [List.countP_cons] at hchild ⊢
    exact hchild
  allows := by
    intro s hs t ht ht'
    rcases List.mem_cons.mp ht with rfl | ht
    · cases ht'
    rcases List.mem_cons.mp hs with rfl | hs
    · exact h.allows ⟨pid, .recording child⟩ List.mem_cons_self t (List.mem_cons_of_mem _ ht) ht'
    · exact h.allows s (List.mem_cons_of_mem _ hs) t (List.mem_cons_of_mem _ ht) ht'
  truncated := fun _ _ _ => rfl
  recorded := fun _ _ _ _ => Or.inl rfl

/-- A parent writes the pid file, or fails to. -/
theorem Sound.flush {child : ℤ} {file' : Option Bytes}
    (h : Sound file (⟨pid, .flushing child⟩ :: stages))
    (hfile : file' = some [] ∨ file' = some (Host.pidText child)) :
    Sound file' (⟨pid, .ended 0⟩ :: stages) := by
  have hquiet := h.others_idle rfl
  have hpids := List.forall_mem_cons.mp h.pids
  have hwriting : ∀ t ∈ stages, t.phase.writing = false := fun t ht =>
    (Phase.of_not_busy (hquiet t ht)).2.1
  have htail : Sound file' stages := by
    refine ⟨hpids.2, (h.tail rfl).busy, (h.tail rfl).child, (h.tail rfl).allows, ?_, ?_⟩
    · intro t ht hwrites
      rw [hwriting t ht] at hwrites
      cases hwrites
    · intro _ t ht hchild
      have hpid : t.pid = child :=
        h.allows _ List.mem_cons_self t (List.mem_cons_of_mem _ ht) hchild
      rwa [hpid]
  exact htail.cons_idle hpids.1 (Phase.idle_ended 0)

/-- **One call of one launch** keeps the pid file and the processes in agreement, as long as it does
not read the file while another launch has read it and not yet truncated it. -/
theorem Sound.call {file' : Option Bytes} {buffer' : Bytes} {c : StartCall}
    {k : StartReply c → Startup ℤ} {r : StartReply c}
    (h : Sound file (⟨pid, phase⟩ :: stages)) (hrest : phase.rest pidFile = .call c k)
    (heffect : Effect pidFile (file, phase.buffer) ⟨c, r⟩ (file', buffer'))
    (halone : reads ⟨c, r⟩ = true → ∀ t ∈ stages, (t.process pidFile).undecided = false) :
    ∃ phase', (⟨pid, phase'⟩ : Stage).process pidFile = ⟨pid, buffer', k r⟩ ∧
      Sound file' (⟨pid, phase'⟩ :: stages) := by
  cases phase with
  | opening =>
      cases hrest
      cases heffect with
      | missing => exact ⟨.listening, rfl, h.missing (halone rfl)⟩
      | @unreadable _ _ errno hne =>
          have hret : (⟨pid, .ended 1⟩ : Stage).process pidFile =
              ⟨pid, [], Phase.afterCheck pidFile (if errno = enoent then 0 else -1)⟩ := by
            rw [if_neg hne]
            rfl
          exact ⟨.ended 1, hret, h.idle rfl (Phase.idle_ended 1)⟩
      | opened => exact ⟨.scanning, rfl, h.idle rfl Phase.idle_scanning⟩
  | scanning =>
      cases hrest
      cases heffect with
      | @scanned text _ =>
          rcases hscan : scanInteger text with _ | ⟨number, after⟩
          · exact ⟨.closing none, rfl, h.idle rfl Phase.idle_closing⟩
          · rw [hscan] at halone
            exact ⟨.closing (some (toInt number)), rfl, h.read hscan (halone rfl)⟩
      | unscanned => exact ⟨.closing none, rfl, h.idle rfl Phase.idle_closing⟩
  | closing number =>
      cases number with
      | none =>
          cases hrest
          cases heffect with
          | closed => exact ⟨.ended 1, rfl, h.idle rfl (Phase.idle_ended 1)⟩
      | some number =>
          cases hrest
          cases heffect with
          | closed => exact ⟨.killing number, rfl, h.update rfl rfl rfl rfl rfl fun _ => id⟩
  | killing number =>
      cases hrest
      cases heffect
  | listening =>
      cases hrest
      cases heffect with
      | listened =>
          cases r with
          | false => exact ⟨.ended 1, rfl, h.idle rfl (Phase.idle_ended 1)⟩
          | true => exact ⟨.forking, rfl, h.update rfl rfl rfl rfl rfl fun _ => id⟩
  | forking =>
      cases hrest
      cases heffect
  | recording child =>
      cases hrest
      cases heffect with
      | truncated => exact ⟨.printing child, rfl, h.truncate⟩
  | printing child =>
      cases hrest
      cases heffect with
      | printed => exact ⟨.flushing child, rfl, h.update rfl rfl rfl rfl rfl fun _ => id⟩
  | flushing child =>
      have hfile : file = some [] := h.truncated _ List.mem_cons_self rfl
      cases hrest
      cases heffect with
      | @written text _ =>
          obtain rfl := Option.some.inj hfile
          refine ⟨.ended 0, rfl, h.flush (Or.inr ?_)⟩
          simp [Phase.buffer]
      | lost => exact ⟨.ended 0, rfl, h.flush (Or.inl hfile)⟩
  | reopening again =>
      cases again with
      | true =>
          cases hrest
          cases heffect with
          | reopened => exact ⟨.reopening false, rfl, h.update rfl rfl rfl rfl rfl fun _ => id⟩
      | false =>
          cases hrest
          cases heffect with
          | reopened => exact ⟨.leaving, rfl, h.update rfl rfl rfl rfl rfl fun _ => id⟩
  | leaving =>
      cases hrest
      cases heffect with
      | left => exact ⟨.looping, rfl, h.update rfl rfl rfl rfl rfl fun _ => id⟩
  | looping =>
      cases hrest
      cases heffect
  | ended status => cases hrest

/-- A launch looks for the process in the pid file. -/
theorem Sound.kill {target : ℤ} {k : Except Errno Unit → Startup ℤ}
    {r : Except Errno Unit} (h : Sound file (⟨pid, phase⟩ :: stages))
    (hrest : phase.rest pidFile = .call (.kill target) k)
    (hkill : r = .error esrch → ∀ t ∈ stages, t.pid ≠ target) :
    ∃ phase', (⟨pid, phase'⟩ : Stage).process pidFile = ⟨pid, phase.buffer, k r⟩ ∧
      Sound file (⟨pid, phase'⟩ :: stages) := by
  cases phase with
  | killing number =>
      cases hrest
      cases r with
      | error errno =>
          by_cases hesrch : errno = esrch
          · subst hesrch
            exact ⟨.listening, rfl, h.cleared (hkill rfl)⟩
          · have hret : (⟨pid, .ended 1⟩ : Stage).process pidFile =
                ⟨pid, [], Phase.afterCheck pidFile (if errno = esrch then 0 else -1)⟩ := by
              rw [if_neg hesrch]
              rfl
            exact ⟨.ended 1, hret, h.idle rfl (Phase.idle_ended 1)⟩
      | ok _ => exact ⟨.ended 1, rfl, h.idle rfl (Phase.idle_ended 1)⟩
  | closing number => cases number <;> cases hrest
  | reopening again => cases again <;> cases hrest
  | _ => cases hrest

/-- A launch forks. -/
theorem Sound.forks {child : ℤ} {k : ℤ → Startup ℤ} (h : Sound file (⟨pid, phase⟩ :: stages))
    (hrest : phase.rest pidFile = .call .fork k) (hchild : 0 < child ∧ child < 2 ^ 31) :
    (⟨pid, .recording child⟩ : Stage).process pidFile = ⟨pid, phase.buffer, k child⟩ ∧
      (⟨child, .reopening true⟩ : Stage).process pidFile = ⟨child, phase.buffer, k 0⟩ ∧
      Sound file (⟨child, .reopening true⟩ :: ⟨pid, .recording child⟩ :: stages) := by
  cases phase with
  | forking =>
      cases hrest
      refine ⟨?_, rfl, h.fork hchild⟩
      have hparent : Launch.forked (some pidFile) child =
          .call (.createPIDFile pidFile child) fun _ => .ret 0 := by
        rw [Launch.forked, if_neg hchild.1.le.not_gt, if_pos hchild.1]
        rfl
      have hrest : Phase.rest pidFile (.recording child) =
          (if child ≠ 0 then pure child else do
            startCall .freopen
            startCall .freopen
            startCall .setsid
            pure 0) >>= Phase.afterFork pidFile := by
        rw [if_pos hchild.1.ne', Program.ret_bind, Phase.afterFork, hparent]
        rfl
      exact congrArg (Process.mk pid []) hrest
  | closing number => cases number <;> cases hrest
  | reopening again => cases again <;> cases hrest
  | _ => cases hrest

/-- A launch cannot fork, and ends. -/
theorem Sound.noFork {k : ℤ → Startup ℤ} (h : Sound file (⟨pid, phase⟩ :: stages))
    (hrest : phase.rest pidFile = .call .fork k) :
    (⟨pid, .ended 1⟩ : Stage).process pidFile = ⟨pid, phase.buffer, k (-1)⟩ ∧
      Sound file (⟨pid, .ended 1⟩ :: stages) := by
  cases phase with
  | forking =>
      cases hrest
      exact ⟨rfl, h.idle rfl (Phase.idle_ended 1)⟩
  | closing number => cases number <;> cases hrest
  | reopening again => cases again <;> cases hrest
  | _ => cases hrest

/-- A process that is not about to truncate the pid file, by what it does next. -/
theorem Phase.beforeTruncation_of_next
    (h : (phase.rest pidFile).next ≠ some (.fopenWrite pidFile)) :
    phase.beforeTruncation = false := by
  cases phase with
  | recording child => exact absurd rfl h
  | _ => rfl

end calls

/-! ## Runs -/

section runs

variable {pidFile : Bytes} {file : Option Bytes} {stages : List Stage}

/-- The host with these processes. -/
def Stage.host (pidFile : Bytes) (file : Option Bytes) (stages : List Stage) : Host :=
  ⟨file, stages.map (Stage.process pidFile)⟩

/-- The process that takes a step, and the others. -/
theorem Stage.exists_middle {before after : List Process} {p : Process}
    (h : stages.map (Stage.process pidFile) = before ++ p :: after) :
    ∃ s others, stages.Perm (s :: others) ∧ s.process pidFile = p ∧
      (∀ t ∈ others, t.process pidFile ∈ before ++ p :: after) ∧
      (∃ stages' : List Stage, stages'.Perm others ∧
        stages'.map (Stage.process pidFile) = before ++ after) ∧
      ∀ s' : Stage, ∃ stages' : List Stage, stages'.Perm (s' :: others) ∧
        stages'.map (Stage.process pidFile) = before ++ s'.process pidFile :: after := by
  obtain ⟨front, back, rfl, rfl, hback⟩ := List.map_eq_append_iff.mp h
  obtain ⟨s, back, rfl, rfl, rfl⟩ := List.map_eq_cons_iff.mp hback
  refine ⟨s, front ++ back, List.perm_middle, rfl, fun t ht => ?_,
    ⟨front ++ back, .refl _, List.map_append⟩, fun s' => ?_⟩
  · rw [← h]
    exact List.mem_map_of_mem (List.perm_middle.mem_iff.mpr (List.mem_cons_of_mem _ ht))
  · exact ⟨front ++ s' :: back, List.perm_middle, by simp⟩

/-- **One step** keeps the pid file and the processes in agreement. -/
theorem Sound.step {act : Host.Act} {host' : Host} (h : Sound file stages)
    (halone : (Stage.host pidFile file stages).ReadsAlone act)
    (hstep : Host.Step pidFile (Stage.host pidFile file stages) act host') :
    ∃ stages', host' = Stage.host pidFile host'.file stages' ∧ Sound host'.file stages' := by
  unfold Stage.host at halone hstep
  generalize hprocesses : stages.map (Stage.process pidFile) = processes at halone hstep
  cases hstep with
  | @start _ _ pid hpid =>
      have hnew : Sound file (⟨pid, .opening⟩ :: stages) :=
        h.cons_idle ⟨hpid.1, hpid.2.1⟩ Phase.idle_opening
      refine ⟨stages ++ [⟨pid, .opening⟩], ?_, hnew.perm (List.perm_append_singleton _ _).symm⟩
      simp only [Stage.host, List.map_append, hprocesses]
      rfl
  | @call _ file' before after pid buffer buffer' c k r heffect =>
      obtain ⟨⟨pid', phase⟩, others, hperm, hs, hothers, -, hreplace⟩ :=
        Stage.exists_middle hprocesses
      obtain ⟨rfl, rfl, hrest⟩ := Process.mk.inj hs
      have hreads : reads ⟨c, r⟩ = true → ∀ t ∈ others, (t.process pidFile).undecided = false :=
        fun hreads t ht => halone hreads _ (hothers t ht)
      obtain ⟨phase', hphase', hsound⟩ := (h.perm hperm).call hrest heffect hreads
      obtain ⟨stages', hperm', hmap⟩ := hreplace ⟨pid', phase'⟩
      refine ⟨stages', ?_, hsound.perm hperm'.symm⟩
      rw [Stage.host, hmap, hphase']
  | @kill _ before after pid target buffer k r hkill =>
      obtain ⟨⟨pid', phase⟩, others, hperm, hs, hothers, -, hreplace⟩ :=
        Stage.exists_middle hprocesses
      obtain ⟨rfl, rfl, hrest⟩ := Process.mk.inj hs
      have hfound : r = .error esrch → ∀ t ∈ others, t.pid ≠ target := fun hr t ht =>
        hkill hr _ (hothers t ht)
      obtain ⟨phase', hphase', hsound⟩ := (h.perm hperm).kill hrest hfound
      obtain ⟨stages', hperm', hmap⟩ := hreplace ⟨pid', phase'⟩
      refine ⟨stages', ?_, hsound.perm hperm'.symm⟩
      rw [Stage.host, hmap, hphase']
  | @fork _ before after pid child buffer k hchild =>
      obtain ⟨⟨pid', phase⟩, others, hperm, hs, -, -, hreplace⟩ := Stage.exists_middle hprocesses
      obtain ⟨rfl, rfl, hrest⟩ := Process.mk.inj hs
      obtain ⟨hparent, hdaemon, hsound⟩ := (h.perm hperm).forks hrest ⟨hchild.1, hchild.2.1⟩
      obtain ⟨stages', hperm', hmap⟩ := hreplace ⟨pid', .recording child⟩
      refine ⟨stages' ++ [⟨child, .reopening true⟩], ?_, hsound.perm ?_⟩
      · simp only [Stage.host, List.map_append, List.map_cons, List.map_nil, hmap, hparent, hdaemon]
      · exact (hperm'.symm.cons _).trans (List.perm_append_singleton _ _).symm
  | @noFork _ before after pid buffer k =>
      obtain ⟨⟨pid', phase⟩, others, hperm, hs, -, -, hreplace⟩ := Stage.exists_middle hprocesses
      obtain ⟨rfl, rfl, hrest⟩ := Process.mk.inj hs
      obtain ⟨hended, hsound⟩ := (h.perm hperm).noFork hrest
      obtain ⟨stages', hperm', hmap⟩ := hreplace ⟨pid', .ended 1⟩
      refine ⟨stages', ?_, hsound.perm hperm'.symm⟩
      rw [Stage.host, hmap, hended]
  | @exit _ before after pid status buffer =>
      obtain ⟨⟨pid', phase⟩, others, hperm, hs, -, ⟨stages', hperm', hmap⟩, -⟩ :=
        Stage.exists_middle hprocesses
      obtain ⟨rfl, rfl, hrest⟩ := Process.mk.inj hs
      have hnext : (phase.rest pidFile).next ≠ some (.fopenWrite pidFile) := by
        rw [hrest]
        exact nofun
      refine ⟨stages', by rw [Stage.host, hmap], ?_⟩
      exact ((h.perm hperm).tail (Phase.beforeTruncation_of_next hnext)).perm hperm'.symm
  | @die _ before after p hnext =>
      obtain ⟨⟨pid', phase⟩, others, hperm, rfl, -, ⟨stages', hperm', hmap⟩, -⟩ :=
        Stage.exists_middle hprocesses
      refine ⟨stages', by rw [Stage.host, hmap], ?_⟩
      exact ((h.perm hperm).tail (Phase.beforeTruncation_of_next hnext)).perm hperm'.symm

/-- In a run in which each launch reads alone the pid file and the processes always agree. -/
theorem sound_of_readsAlone {acts : List Host.Act} {host : Host}
    (hrun : Path (fun s act s' => Host.ReadsAlone s act ∧ Host.Step pidFile s act s') ⟨file, []⟩
      acts host) :
    ∃ stages, host = Stage.host pidFile host.file stages ∧ Sound host.file stages := by
  induction hrun with
  | refl =>
      refine ⟨[], rfl, ?_, Nat.zero_le 1, Nat.zero_le 1, ?_, ?_, ?_⟩
      · exact fun _ hs => absurd hs List.not_mem_nil
      · exact fun _ hs => absurd hs List.not_mem_nil
      · exact fun _ hs => absurd hs List.not_mem_nil
      · exact fun _ _ ht => absurd ht List.not_mem_nil
  | step _ hstep ih =>
      obtain ⟨stages, hhost, hsound⟩ := ih
      rw [hhost] at hstep
      exact hsound.step hstep.1 hstep.2

/-- A daemon is a child. -/
theorem Stage.isChild_of_looping {s : Stage} (h : (s.process pidFile).looping = true) :
    s.phase.isChild = true := by
  obtain ⟨pid, phase⟩ := s
  cases phase with
  | closing number => cases number <;> cases h
  | reopening again => cases again <;> cases h
  | looping => rfl
  | _ => cases h

/-- **One daemon at most**, call by call: any number of launches with one pid file, whatever is in
that file in the beginning, their calls in any order, reads and the writing of the file failing or
not, processes ending at any time but between the fork and the truncation of the file, as long as no
launch reads the file while another one has read it and not yet truncated it. -/
theorem Host.single_of_readsAlone {acts : List Host.Act} {host : Host}
    (hrun : Path (fun s act s' => Host.ReadsAlone s act ∧ Host.Step pidFile s act s') ⟨file, []⟩
      acts host) : host.Single := by
  obtain ⟨stages, hhost, hsound⟩ := sound_of_readsAlone hrun
  rw [hhost, Host.Single, Stage.host, List.countP_map]
  exact (List.countP_mono_left fun s _ h => Stage.isChild_of_looping h).trans hsound.child

/-! ## A pid file without a number -/

/-- A launch that does not get past the check, or has been refused. -/
def Phase.refused : Phase → Bool
  | .opening => true
  | .scanning => true
  | .closing number => number.isNone
  | .ended status => status == 1
  | _ => false

/-- A call of such a launch, when there is no number in the pid file, leaves the file alone and the
launch where it is refused. -/
theorem Phase.refused_call {phase : Phase} {pid : ℤ} {text buffer' : Bytes} {file' : Option Bytes}
    {c : StartCall} {k : StartReply c → Startup ℤ} {r : StartReply c}
    (h : phase.refused = true) (htext : scanInteger text = none)
    (hrest : phase.rest pidFile = .call c k)
    (heffect : Effect pidFile (some text, phase.buffer) ⟨c, r⟩ (file', buffer')) :
    file' = some text ∧ ∃ phase', phase'.refused = true ∧
      (⟨pid, phase'⟩ : Stage).process pidFile = ⟨pid, buffer', k r⟩ := by
  cases phase with
  | opening =>
      cases hrest
      cases heffect with
      | @unreadable _ _ errno hne =>
          have hret : (⟨pid, .ended 1⟩ : Stage).process pidFile =
              ⟨pid, [], Phase.afterCheck pidFile (if errno = enoent then 0 else -1)⟩ := by
            rw [if_neg hne]
            rfl
          exact ⟨rfl, .ended 1, rfl, hret⟩
      | opened => exact ⟨rfl, .scanning, rfl, rfl⟩
  | scanning =>
      cases hrest
      cases heffect with
      | scanned =>
          rw [htext]
          exact ⟨rfl, .closing none, rfl, rfl⟩
      | unscanned => exact ⟨rfl, .closing none, rfl, rfl⟩
  | closing number =>
      cases number with
      | none =>
          cases hrest
          cases heffect with
          | closed => exact ⟨rfl, .ended 1, rfl, rfl⟩
      | some _ => cases h
  | ended status => cases hrest
  | _ => cases h

/-- Such a launch makes no other calls. -/
theorem Phase.refused_next {phase : Phase} {target : ℤ} (h : phase.refused = true) :
    (phase.rest pidFile).next ≠ some (.kill target) ∧ (phase.rest pidFile).next ≠ some .fork := by
  cases phase with
  | opening => constructor <;> intro hnext <;> cases hnext
  | scanning => constructor <;> intro hnext <;> cases hnext
  | closing number =>
      cases number with
      | none => constructor <;> intro hnext <;> cases hnext
      | some _ => cases h
  | ended status => constructor <;> intro hnext <;> cases hnext
  | _ => cases h

/-- One step of launches that are refused. -/
theorem Stage.locked_step {text : Bytes} {act : Host.Act} {host' : Host}
    (h : ∀ s ∈ stages, s.phase.refused = true) (htext : scanInteger text = none)
    (hstep : Host.Step pidFile (Stage.host pidFile (some text) stages) act host') :
    ∃ stages', host' = Stage.host pidFile (some text) stages' ∧
      ∀ s ∈ stages', s.phase.refused = true := by
  unfold Stage.host at hstep
  generalize hprocesses : stages.map (Stage.process pidFile) = processes at hstep
  cases hstep with
  | @start _ _ pid hpid =>
      refine ⟨stages ++ [⟨pid, .opening⟩], ?_, ?_⟩
      · simp only [Stage.host, List.map_append, hprocesses]
        rfl
      · exact List.forall_mem_append.mpr ⟨h, List.forall_mem_singleton.mpr rfl⟩
  | @call _ file' before after pid buffer buffer' c k r heffect =>
      obtain ⟨⟨pid', phase⟩, others, hperm, hs, -, -, hreplace⟩ := Stage.exists_middle hprocesses
      obtain ⟨rfl, rfl, hrest⟩ := Process.mk.inj hs
      have hall := List.forall_mem_cons.mp fun s hs => h s (hperm.mem_iff.mpr hs)
      obtain ⟨rfl, phase', hrefused, hphase'⟩ := Phase.refused_call hall.1 htext hrest heffect
      obtain ⟨stages', hperm', hmap⟩ := hreplace ⟨pid', phase'⟩
      refine ⟨stages', by rw [Stage.host, hmap, hphase'], fun s hs => ?_⟩
      rcases List.mem_cons.mp (hperm'.mem_iff.mp hs) with rfl | hs
      · exact hrefused
      · exact hall.2 s hs
  | @kill _ before after pid target buffer k r _ =>
      obtain ⟨⟨pid', phase⟩, others, hperm, hs, -, -, -⟩ := Stage.exists_middle hprocesses
      obtain ⟨rfl, rfl, hrest⟩ := Process.mk.inj hs
      have hrefused := h _ (hperm.mem_iff.mpr List.mem_cons_self)
      exact absurd (congrArg Program.next hrest) (Phase.refused_next hrefused).1
  | @fork _ before after pid child buffer k _ =>
      obtain ⟨⟨pid', phase⟩, others, hperm, hs, -, -, -⟩ := Stage.exists_middle hprocesses
      obtain ⟨rfl, rfl, hrest⟩ := Process.mk.inj hs
      have hrefused := h _ (hperm.mem_iff.mpr List.mem_cons_self)
      exact absurd (congrArg Program.next hrest) (@Phase.refused_next pidFile _ 0 hrefused).2
  | @noFork _ before after pid buffer k =>
      obtain ⟨⟨pid', phase⟩, others, hperm, hs, -, -, -⟩ := Stage.exists_middle hprocesses
      obtain ⟨rfl, rfl, hrest⟩ := Process.mk.inj hs
      have hrefused := h _ (hperm.mem_iff.mpr List.mem_cons_self)
      exact absurd (congrArg Program.next hrest) (@Phase.refused_next pidFile _ 0 hrefused).2
  | exit =>
      obtain ⟨s, others, hperm, -, -, ⟨stages', hperm', hmap⟩, -⟩ := Stage.exists_middle hprocesses
      refine ⟨stages', by rw [Stage.host, hmap], fun t ht => ?_⟩
      exact h t (hperm.mem_iff.mpr (List.mem_cons_of_mem _ (hperm'.mem_iff.mp ht)))
  | die _ =>
      obtain ⟨s, others, hperm, -, -, ⟨stages', hperm', hmap⟩, -⟩ := Stage.exists_middle hprocesses
      refine ⟨stages', by rw [Stage.host, hmap], fun t ht => ?_⟩
      exact h t (hperm.mem_iff.mpr (List.mem_cons_of_mem _ (hperm'.mem_iff.mp ht)))

/-- **A pid file without a number locks the daemon out**: whatever launches there are from then on,
in any order of their calls, the file stays as it is, none of them gets to run a daemon, and those
that end have failed. Such a file, an empty one, is left by a parent that could not write it, or
ended before it did. -/
theorem Host.locked {text : Bytes} (htext : scanInteger text = none) {acts : List Host.Act}
    {host : Host} (hrun : Path (Host.Step pidFile) ⟨some text, []⟩ acts host) :
    host.file = some text ∧ ∀ p ∈ host.processes, p.looping = false ∧
      ∀ status, p.rest.value = some status → status = 1 := by
  have hstages : ∃ stages, host = Stage.host pidFile (some text) stages ∧
      ∀ s ∈ stages, s.phase.refused = true := by
    induction hrun with
    | refl => exact ⟨[], rfl, fun _ hs => absurd hs List.not_mem_nil⟩
    | step _ hstep ih =>
        obtain ⟨stages, rfl, hrefused⟩ := ih
        exact Stage.locked_step hrefused htext hstep
  obtain ⟨stages, rfl, hrefused⟩ := hstages
  refine ⟨rfl, fun p hp => ?_⟩
  obtain ⟨⟨pid, phase⟩, hs, rfl⟩ := List.mem_map.mp hp
  have hphase := hrefused _ hs
  cases phase with
  | closing number =>
      cases number with
      | none => exact ⟨rfl, nofun⟩
      | some _ => cases hphase
  | ended status =>
      refine ⟨rfl, fun status' hstatus => ?_⟩
      obtain rfl : status = status' := Option.some.inj hstatus
      simpa [Phase.refused] using hphase
  | _ => first | exact ⟨rfl, nofun⟩ | cases hphase

end runs

/-! ## Functions that are done at once -/

section atOnce

variable {pidFile : Bytes}

/-- A process of which only what `main` calls is known. -/
def Process.ofLaunch (p : Ebbnc.Process) : Process := ⟨p.pid, [], p.rest.interpret Startup.ofLaunch⟩

/-- A host of such processes. -/
def Host.ofLaunch (host : Ebbnc.Host) : Host :=
  ⟨host.file, host.processes.map Process.ofLaunch⟩

variable {file : Option Bytes} {before after : List Process} {pid : ℤ}

/-- `isAlreadyRunning` without a step of another process in between. -/
theorem Host.path_isAlreadyRunning {f : ℤ → Startup ℤ} {kill : ℤ → Except Errno Unit}
    (hself : kill pid ≠ .error esrch) (hothers : ∀ p ∈ before ++ after, kill p.pid ≠ .error esrch) :
    ∃ acts, Path (Host.Step pidFile)
      ⟨file, before ++ ⟨pid, [], isAlreadyRunning pidFile >>= f⟩ :: after⟩ acts
      ⟨file, before ++
        ⟨pid, [], f (Ebbnc.isAlreadyRunning (Ebbnc.Host.fopen file) kill)⟩ :: after⟩ := by
  cases file with
  | none => exact ⟨_, .single (Host.Step.call .missing)⟩
  | some text =>
      have hopen : Host.Step pidFile
          ⟨some text, before ++ ⟨pid, [], isAlreadyRunning pidFile >>= f⟩ :: after⟩ _
          ⟨some text, before ++ ⟨pid, [], (startCall .fscanf >>= scanned) >>= f⟩ :: after⟩ :=
        Host.Step.call .opened
      have hscan : Host.Step pidFile
          ⟨some text, before ++ ⟨pid, [], (startCall .fscanf >>= scanned) >>= f⟩ :: after⟩ _
          ⟨some text, before ++
            ⟨pid, [], scanned ((scanInteger text).map fun number => toInt number.1) >>= f⟩ ::
              after⟩ :=
        Host.Step.call .scanned
      rcases hnumber : scanInteger text with _ | ⟨number, rest⟩
      · rw [hnumber] at hscan
        have hclose : Host.Step pidFile
            ⟨some text, before ++ ⟨pid, [], scanned none >>= f⟩ :: after⟩ _
            ⟨some text, before ++ ⟨pid, [], f (-1)⟩ :: after⟩ := Host.Step.call .closed
        simp only [Ebbnc.isAlreadyRunning, Ebbnc.Host.fopen, hnumber]
        exact ⟨_, .cons hopen (.cons hscan (.single hclose))⟩
      · rw [hnumber] at hscan
        have hclose : Host.Step pidFile
            ⟨some text, before ++ ⟨pid, [], scanned (some (toInt number)) >>= f⟩ :: after⟩ _
            ⟨some text, before ++ ⟨pid, [], (startCall (.kill (toInt number)) >>= fun reply =>
              pure (killed reply)) >>= f⟩ :: after⟩ := Host.Step.call .closed
        have hsend : Host.Step pidFile
            ⟨some text, before ++ ⟨pid, [], (startCall (.kill (toInt number)) >>= fun reply =>
              pure (killed reply)) >>= f⟩ :: after⟩
            (.call pid ⟨.kill (toInt number), kill (toInt number)⟩)
            ⟨some text, before ++ ⟨pid, [], f (killed (kill (toInt number)))⟩ :: after⟩ := by
          refine Host.Step.kill fun hr p hp heq => ?_
          rw [← heq] at hr
          rcases List.mem_cons.mp (List.perm_middle.mem_iff.mp hp) with rfl | hp
          · exact hself hr
          · exact hothers p hp hr
        have hresult : Ebbnc.isAlreadyRunning (Ebbnc.Host.fopen (some text)) kill =
            killed (kill (toInt number)) := by
          simp only [Ebbnc.isAlreadyRunning, Ebbnc.Host.fopen, hnumber]
          cases kill (toInt number) <;> rfl
        rw [hresult]
        exact ⟨_, .cons hopen (.cons hscan (.cons hclose (.single hsend)))⟩

/-- `createPIDFile` without a step of another process in between. -/
theorem Host.path_createPIDFile {child : ℤ} {f : Bool → Startup ℤ} :
    ∃ acts, Path (Host.Step pidFile)
      ⟨file, before ++ ⟨pid, [], createPIDFile pidFile child >>= f⟩ :: after⟩ acts
      ⟨(Ebbnc.createPIDFile true true file child).2, before ++
        ⟨pid, [], f (Ebbnc.createPIDFile true true file child).1⟩ :: after⟩ := by
  have htruncate : Host.Step pidFile
      ⟨file, before ++ ⟨pid, [], createPIDFile pidFile child >>= f⟩ :: after⟩ _
      ⟨some [], before ++ ⟨pid, [], (do
        let okay ← startCall (.fprintf child)
        startCall .fcloseWrite
        pure okay) >>= f⟩ :: after⟩ := Host.Step.call .truncated
  have hprint : Host.Step pidFile
      ⟨some [], before ++ ⟨pid, [], (do
        let okay ← startCall (.fprintf child)
        startCall .fcloseWrite
        pure okay) >>= f⟩ :: after⟩ _
      ⟨some [], before ++ ⟨pid, Ebbnc.Host.pidText child,
        (startCall .fcloseWrite >>= fun _ => pure true) >>= f⟩ :: after⟩ :=
    Host.Step.call .printed
  have hwrite : Host.Step pidFile
      ⟨some [], before ++ ⟨pid, Ebbnc.Host.pidText child,
        (startCall .fcloseWrite >>= fun _ => pure true) >>= f⟩ :: after⟩
      (.call pid ⟨.fcloseWrite, ()⟩)
      ⟨some (Ebbnc.Host.pidText child), before ++ ⟨pid, [], f true⟩ :: after⟩ := by
    have hclose := @Effect.written pidFile [] (Ebbnc.Host.pidText child)
    rw [List.drop_nil, List.append_nil] at hclose
    exact Host.Step.call hclose
  exact ⟨_, .cons htruncate (.cons hprint (.single hwrite))⟩

/-- `daemonise` without a step of another process in between. -/
theorem Host.path_daemonise {child : ℤ} {f : ℤ → Startup ℤ} (hchild : child ≠ 0)
    (hfree : Free ⟨file, before ++ ⟨pid, [], daemonise >>= f⟩ :: after⟩ child) :
    ∃ acts, Path (Host.Step pidFile)
      ⟨file, before ++ ⟨pid, [], daemonise >>= f⟩ :: after⟩ acts
      ⟨file, (before ++ ⟨pid, [], f child⟩ :: after) ++ [⟨child, [], f 0⟩]⟩ := by
  have hfork : Host.Step pidFile ⟨file, before ++ ⟨pid, [], daemonise >>= f⟩ :: after⟩
      (.call pid ⟨.fork, child⟩)
      ⟨file, (before ++ ⟨pid, [], f child⟩ :: after) ++ [⟨child, [], (do
        startCall .freopen
        startCall .freopen
        startCall .setsid
        pure 0) >>= f⟩]⟩ := by
    have hparent : (if child ≠ 0 then pure child else do
        startCall .freopen
        startCall .freopen
        startCall .setsid
        pure 0) >>= f = f child := by rw [if_pos hchild, Program.ret_bind]
    rw [← hparent]
    exact Host.Step.fork hfree
  -- the steps of the child, which stands behind the others
  generalize before ++ ⟨pid, [], f child⟩ :: after = processes at hfork ⊢
  have hfirst : Host.Step pidFile
      ⟨file, processes ++ [⟨child, [], (do
        startCall .freopen
        startCall .freopen
        startCall .setsid
        pure 0) >>= f⟩]⟩ _
      ⟨file, processes ++ [⟨child, [], (do
        startCall .freopen
        startCall .setsid
        pure 0) >>= f⟩]⟩ := Host.Step.call .reopened
  have hsecond : Host.Step pidFile
      ⟨file, processes ++ [⟨child, [], (do
        startCall .freopen
        startCall .setsid
        pure 0) >>= f⟩]⟩ _
      ⟨file, processes ++ [⟨child, [], (startCall .setsid >>= fun _ => pure 0) >>= f⟩]⟩ :=
    Host.Step.call .reopened
  have hleave : Host.Step pidFile
      ⟨file, processes ++ [⟨child, [], (startCall .setsid >>= fun _ => pure 0) >>= f⟩]⟩ _
      ⟨file, processes ++ [⟨child, [], f 0⟩]⟩ := Host.Step.call .left
  exact ⟨_, .cons hfork (.cons hfirst (.cons hsecond (.single hleave)))⟩

/-- **Launches whose functions are done at once** are among those whose calls are made one by one:
each of their steps is a run of such calls. -/
theorem Host.path_of_step {host host' : Ebbnc.Host} {act : Ebbnc.Host.Act}
    (h : Ebbnc.Host.Step pidFile host act host') :
    ∃ acts, Path (Host.Step pidFile) (Host.ofLaunch host) acts (Host.ofLaunch host') := by
  have hfree : ∀ {host : Ebbnc.Host} {pid : ℤ}, host.Free pid → (Host.ofLaunch host).Free pid := by
    rintro host pid ⟨hlo, hhi, hnone⟩
    refine ⟨hlo, hhi, fun p hp => ?_⟩
    obtain ⟨q, hq, rfl⟩ := List.mem_map.mp hp
    exact hnone q hq
  cases h with
  | start hpid =>
      simp only [Host.ofLaunch, List.map_append, List.map_cons, List.map_nil]
      exact ⟨_, .single (Host.Step.start (hfree hpid))⟩
  | @check file before after pid k kill hkill =>
      have hothers : ∀ p ∈ before.map Process.ofLaunch ++ after.map Process.ofLaunch,
          kill p.pid ≠ .error esrch := by
        intro p hp
        rw [← List.map_append] at hp
        obtain ⟨q, hq, rfl⟩ := List.mem_map.mp hp
        exact hkill q (List.perm_middle.mem_iff.mpr (List.mem_cons_of_mem _ hq))
      have hself := hkill _ (List.mem_append_right _ List.mem_cons_self)
      simp only [Host.ofLaunch, List.map_append, List.map_cons]
      exact Host.path_isAlreadyRunning hself hothers
  | listen okay =>
      simp only [Host.ofLaunch, List.map_append, List.map_cons]
      exact ⟨_, .single (Host.Step.call (.listened okay))⟩
  | @fork file before after pid child k hchild =>
      have hfree := hfree hchild
      simp only [Host.ofLaunch, List.map_append, List.map_cons, List.map_nil] at hfree ⊢
      exact Host.path_daemonise hchild.1.ne' hfree
  | noFork =>
      simp only [Host.ofLaunch, List.map_append, List.map_cons]
      exact ⟨_, .single Host.Step.noFork⟩
  | record =>
      simp only [Host.ofLaunch, List.map_append, List.map_cons]
      exact Host.path_createPIDFile
  | exit =>
      simp only [Host.ofLaunch, List.map_append, List.map_cons]
      exact ⟨_, .single Host.Step.exit⟩
  | die =>
      simp only [Host.ofLaunch, List.map_append, List.map_cons]
      exact ⟨_, .single (Host.Step.die (by exact nofun))⟩

/-- A run of steps that are done at once is a run of calls. -/
theorem Host.path_ofLaunch {host host' : Ebbnc.Host} {acts : List Ebbnc.Host.Act}
    (h : Path (Ebbnc.Host.Step pidFile) host acts host') :
    ∃ acts', Path (Host.Step pidFile) (Host.ofLaunch host) acts' (Host.ofLaunch host') := by
  induction h with
  | refl => exact ⟨[], .refl⟩
  | step _ hstep ih =>
      obtain ⟨acts₁, hpath₁⟩ := ih
      obtain ⟨acts₂, hpath₂⟩ := Host.path_of_step hstep
      exact ⟨acts₁ ++ acts₂, hpath₁.trans hpath₂⟩

/-- The daemons are the same. -/
theorem Host.single_ofLaunch {host : Ebbnc.Host} : (Host.ofLaunch host).Single ↔ host.Single := by
  have hlooping : Process.looping ∘ Process.ofLaunch = Ebbnc.Process.looping := by
    funext p
    obtain ⟨pid, rest⟩ := p
    cases rest with
    | ret _ => rfl
    | call c k => cases c <;> rfl
  rw [Host.Single, Host.ofLaunch, List.countP_map, hlooping]
  rfl

/-- **Two daemons**, when launches read the pid file one right after the other. -/
theorem Host.exists_not_single :
    ∃ acts host, Path (Host.Step Ebbnc.Host.somePidFile) ⟨none, []⟩ acts host ∧
      ¬ host.Single := by
  obtain ⟨acts, hpath⟩ := Host.path_ofLaunch Ebbnc.Host.path_overlapping
  exact ⟨acts, _, hpath, by rw [Host.single_ofLaunch]; decide⟩

end atOnce

/-! ## Runs of phases -/

section examples

open Ebbnc.Host (somePidFile)

variable {pidFile : Bytes}

/-- A call of a process in a phase. -/
theorem Stage.step_call {file file' : Option Bytes} (front back : List Stage) {s s' : Stage}
    {c : StartCall} {k : StartReply c → Startup ℤ} {r : StartReply c}
    (hrest : s.phase.rest pidFile = .call c k)
    (heffect : Effect pidFile (file, s.phase.buffer) ⟨c, r⟩ (file', s'.phase.buffer))
    (hrest' : s'.phase.rest pidFile = k r) (hpid : s'.pid = s.pid) :
    Host.Step pidFile (Stage.host pidFile file (front ++ s :: back)) (.call s.pid ⟨c, r⟩)
      (Stage.host pidFile file' (front ++ s' :: back)) := by
  have hs : s.process pidFile = ⟨s.pid, s.phase.buffer, .call c k⟩ := by rw [Stage.process, hrest]
  have hs' : s'.process pidFile = ⟨s.pid, s'.phase.buffer, k r⟩ := by
    rw [Stage.process, hrest', hpid]
  simp only [Stage.host, List.map_append, List.map_cons, hs, hs']
  exact Host.Step.call heffect

/-- A host with these processes. -/
abbrev somewhere (file : Option Bytes) (stages : List Stage) : Host :=
  Stage.host somePidFile file stages

/-- The run of two launches, of which the second reads the pid file when the first has truncated it
and not yet written it. -/
theorem path_readsAlone :
    Path (fun s act s' => Host.ReadsAlone s act ∧ Host.Step somePidFile s act s') ⟨none, []⟩
      [.start 100, .call 100 ⟨.fopenRead somePidFile, .error enoent⟩,
        .call 100 ⟨.listenAll, true⟩, .call 100 ⟨.fork, (101 : ℤ)⟩,
        .call 100 ⟨.fopenWrite somePidFile, true⟩, .start 102,
        .call 102 ⟨.fopenRead somePidFile, .ok ()⟩, .call 102 ⟨.fscanf, none⟩]
      (somewhere (some [])
        [⟨100, .printing 101⟩, ⟨101, .reopening true⟩, ⟨102, .closing none⟩]) := by
  have hstart₀ : Host.Step somePidFile ⟨none, []⟩ (.start 100)
      (somewhere none [⟨100, .opening⟩]) :=
    Host.Step.start ⟨by decide, by decide, by simp⟩
  have hopen₀ : Host.Step somePidFile (somewhere none [⟨100, .opening⟩])
      (.call 100 ⟨.fopenRead somePidFile, .error enoent⟩)
      (somewhere none [⟨100, .listening⟩]) :=
    Stage.step_call [] [] rfl .missing rfl rfl
  have hlisten : Host.Step somePidFile (somewhere none [⟨100, .listening⟩])
      (.call 100 ⟨.listenAll, true⟩) (somewhere none [⟨100, .forking⟩]) :=
    Stage.step_call [] [] rfl (.listened true) rfl rfl
  have hfork : Host.Step somePidFile (somewhere none [⟨100, .forking⟩])
      (.call 100 ⟨.fork, (101 : ℤ)⟩)
      (somewhere none [⟨100, .recording 101⟩, ⟨101, .reopening true⟩]) :=
    @Host.Step.fork _ none [] [] 100 101 [] _ ⟨by decide, by decide, by simp⟩
  have htruncate : Host.Step somePidFile
      (somewhere none [⟨100, .recording 101⟩, ⟨101, .reopening true⟩])
      (.call 100 ⟨.fopenWrite somePidFile, true⟩)
      (somewhere (some []) [⟨100, .printing 101⟩, ⟨101, .reopening true⟩]) :=
    Stage.step_call [] [⟨101, .reopening true⟩] rfl .truncated rfl rfl
  have hstart₁ : Host.Step somePidFile
      (somewhere (some []) [⟨100, .printing 101⟩, ⟨101, .reopening true⟩]) (.start 102)
      (somewhere (some []) [⟨100, .printing 101⟩, ⟨101, .reopening true⟩, ⟨102, .opening⟩]) :=
    Host.Step.start ⟨by decide, by decide, by simp [Stage.process]⟩
  have hopen₁ : Host.Step somePidFile
      (somewhere (some []) [⟨100, .printing 101⟩, ⟨101, .reopening true⟩, ⟨102, .opening⟩])
      (.call 102 ⟨.fopenRead somePidFile, .ok ()⟩)
      (somewhere (some []) [⟨100, .printing 101⟩, ⟨101, .reopening true⟩, ⟨102, .scanning⟩]) :=
    Stage.step_call [⟨100, .printing 101⟩, ⟨101, .reopening true⟩] [] rfl .opened rfl rfl
  have hscan : Host.Step somePidFile
      (somewhere (some []) [⟨100, .printing 101⟩, ⟨101, .reopening true⟩, ⟨102, .scanning⟩])
      (.call 102 ⟨.fscanf, none⟩)
      (somewhere (some []) [⟨100, .printing 101⟩, ⟨101, .reopening true⟩, ⟨102, .closing none⟩]) :=
    Stage.step_call [⟨100, .printing 101⟩, ⟨101, .reopening true⟩] [] rfl .scanned rfl rfl
  have halone : Host.ReadsAlone (somewhere none [⟨100, .opening⟩])
      (.call 100 ⟨.fopenRead somePidFile, .error enoent⟩) := by
    intro _ p hp
    obtain rfl := List.mem_singleton.mp hp
    rfl
  exact .cons ⟨trivial, hstart₀⟩ (.cons ⟨halone, hopen₀⟩ (.cons ⟨by exact nofun, hlisten⟩
    (.cons ⟨by exact nofun, hfork⟩ (.cons ⟨by exact nofun, htruncate⟩ (.cons ⟨trivial, hstart₁⟩
      (.cons ⟨by exact nofun, hopen₁⟩ (.single ⟨by exact nofun, hscan⟩)))))))

/-- The second launch is refused, and there is one daemon. -/
theorem single_readsAlone :
    Host.Single (somewhere (some [])
      [⟨100, .printing 101⟩, ⟨101, .reopening true⟩, ⟨102, .closing none⟩]) :=
  Host.single_of_readsAlone path_readsAlone

/-- An empty pid file refuses a launch. -/
theorem locked_empty :
    (somewhere (some []) [⟨100, .ended 1⟩]).file = some [] ∧
      ∀ p ∈ (somewhere (some []) [⟨100, .ended 1⟩]).processes,
        p.looping = false ∧ ∀ status, p.rest.value = some status → status = 1 := by
  have hstart : Host.Step somePidFile ⟨some [], []⟩ (.start 100)
      (somewhere (some []) [⟨100, .opening⟩]) :=
    Host.Step.start ⟨by decide, by decide, by simp⟩
  have hopen : Host.Step somePidFile (somewhere (some []) [⟨100, .opening⟩])
      (.call 100 ⟨.fopenRead somePidFile, .ok ()⟩)
      (somewhere (some []) [⟨100, .scanning⟩]) :=
    Stage.step_call [] [] rfl .opened rfl rfl
  have hscan : Host.Step somePidFile (somewhere (some []) [⟨100, .scanning⟩])
      (.call 100 ⟨.fscanf, none⟩) (somewhere (some []) [⟨100, .closing none⟩]) :=
    Stage.step_call [] [] rfl .scanned rfl rfl
  have hclose : Host.Step somePidFile (somewhere (some []) [⟨100, .closing none⟩])
      (.call 100 ⟨.fcloseRead, ()⟩) (somewhere (some []) [⟨100, .ended 1⟩]) :=
    Stage.step_call [] [] rfl .closed rfl rfl
  exact Host.locked (show scanInteger [] = none from rfl)
    (.cons hstart (.cons hopen (.cons hscan (.single hclose))))

end examples

end Startup

end Ebbnc
