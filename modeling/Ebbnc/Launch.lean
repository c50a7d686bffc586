import Ebbnc.Lib.CString
import Ebbnc.Lib.Program
import Ebbnc.System

/-!
# Launching the daemon

`main` from the check of the pid file on, with the two functions of `misc.c` that read and write
that file, and a host on which any number of launches with one pid file run, their steps in any
order.

* `isAlreadyRunning`, `createPIDFile` — the file, as a function of what the calls return.
* `Launch.main` — the launch of one daemon, as a program; `daemonise` splits the process in two.
* `Host`, `Host.Step` — the processes and the pid file, and one step of one of them.
* `Host.Orderly` — no launch checks the file while another one has checked it and not yet written
  its own.
* **`Host.single_of_orderly`** — in a run of orderly steps there is one daemon at most.
* `Host.not_single_overlapping` — two launches that both check first.
-/

namespace Ebbnc

open Lib

/-- `ENOENT`. -/
def enoent : Errno := 2

/-- `ESRCH`. -/
def esrch : Errno := 3

/-- The text of the file, or the error of `fopen`; and what `kill` with no signal returns for each
process.
Source: `misc.c` `isAlreadyRunning` -/
def isAlreadyRunning (fopen : Except Errno Bytes) (kill : ℤ → Except Errno Unit) : ℤ :=
  match fopen with
  | .error errno => if errno = enoent then 0 else -1
  | .ok text =>
    match scanInteger text with
    | none => -1
    | some (pid, _) =>
      match kill (toInt pid) with
      | .error errno => if errno = esrch then 0 else -1
      | .ok _ => 1

/-- The result and the text of the file, of which there is none when there is no file; `fopen` and
`fprintf` may fail.
Source: `misc.c` `createPIDFile` -/
def createPIDFile (fopen fprintf : Bool) (file : Option Bytes) (pid : ℤ) : Bool × Option Bytes :=
  if fopen then
    if fprintf then (true, some (printInt pid ++ ascii "\n")) else (false, some [])
  else (false, file)

/-- The calls of `main` after the config is loaded. -/
inductive LaunchCall
  | isAlreadyRunning (pidFile : Bytes)
  /-- `Server_listenAll`; whether there are servers. -/
  | listenAll
  /-- `daemonise`. -/
  | fork
  | createPIDFile (pidFile : Bytes) (pid : ℤ)
  /-- `Server_loop`, which does not return. -/
  | serverLoop
  deriving DecidableEq

/-- The replies. -/
abbrev LaunchReply : LaunchCall → Type
  | .isAlreadyRunning _ => ℤ
  | .listenAll => Bool
  | .fork => ℤ
  | .createPIDFile _ _ => Bool
  | .serverLoop => Empty

/-- What is left for a process to do, up to its exit status. -/
abbrev Launch := Program LaunchReply ℤ

/-- A call of a launch. -/
abbrev launchCall (c : LaunchCall) : Program LaunchReply (LaunchReply c) := Program.perform c

namespace Launch

/-- The process after `daemonise`: it failed, it is the parent, or it is the daemon.
Source: `main.c` `main` -/
def forked (pidFile : Option Bytes) (pid : ℤ) : Launch :=
  if pid < 0 then pure 1
  else if 0 < pid then
    match pidFile with
    | none => pure 0
    | some pidFile => do
      let _ ← launchCall (.createPIDFile pidFile pid)
      pure 0
  else do
    let never ← launchCall .serverLoop
    nomatch never

/-- Source: `main.c` `main`, from `Server_listenAll` on -/
def listen (pidFile : Option Bytes) : Launch := do
  if ← launchCall .listenAll then
    let pid ← launchCall .fork
    forked pidFile pid
  else pure 1

/-- Source: `main.c` `main`, the tests of the result of `isAlreadyRunning` -/
def checked (pidFile : Option Bytes) (ret : ℤ) : Launch :=
  if ret < 0 then pure 1
  else if ret ≠ 0 then pure 1
  else listen pidFile

/-- Source: `main.c` `main`, from the check of the pid file on -/
def main (pidFile : Option Bytes) : Launch :=
  match pidFile with
  | none => listen none
  | some path => do
    let ret ← launchCall (.isAlreadyRunning path)
    checked pidFile ret

end Launch

/-- A process and what is left for it to do. -/
structure Process where
  pid : ℤ
  rest : Launch

/-- A call between the check of the pid file and the end of the launch. -/
def LaunchCall.underway : LaunchCall → Bool
  | .listenAll => true
  | .fork => true
  | .createPIDFile _ _ => true
  | _ => false

/-- A call between the check of the pid file and the fork. -/
def LaunchCall.early : LaunchCall → Bool
  | .listenAll => true
  | .fork => true
  | _ => false

namespace Process

/-- A launch that has checked the pid file and not yet written its own. -/
def underway (p : Process) : Bool := p.rest.next.any LaunchCall.underway

/-- A launch that has checked the pid file and not yet forked. -/
def early (p : Process) : Bool := p.rest.next.any LaunchCall.early

/-- A daemon in `Server_loop`. -/
def looping (p : Process) : Bool := p.rest.next == some .serverLoop

end Process

/-- The processes that run the program, and the text of the pid file. -/
structure Host where
  file : Option Bytes
  processes : List Process

namespace Host

/-- What `fopen` finds of the file. -/
def fopen (file : Option Bytes) : Except Errno Bytes :=
  match file with
  | none => .error enoent
  | some text => .ok text

/-- No process has this number. -/
def Free (host : Host) (pid : ℤ) : Prop :=
  0 < pid ∧ pid < 2 ^ 31 ∧ ∀ p ∈ host.processes, p.pid ≠ pid

/-- `kill` finds the processes that there are. -/
def Finds (host : Host) (kill : ℤ → Except Errno Unit) : Prop :=
  ∀ p ∈ host.processes, kill p.pid ≠ .error esrch

/-- The steps, with the process that takes them. -/
inductive Act
  | start (pid : ℤ)
  | check (pid : ℤ)
  | listen (pid : ℤ)
  | fork (pid : ℤ)
  | record (pid : ℤ)
  | exit (pid : ℤ)
  /-- A daemon ends, whatever the reason. -/
  | die (pid : ℤ)

/-- A step of one process. All launches have the same pid file, and all file operations succeed. -/
inductive Step (pidFile : Bytes) : Host → Act → Host → Prop
  | start {file : Option Bytes} {processes : List Process} {pid : ℤ}
      (hpid : Free ⟨file, processes⟩ pid) :
      Step pidFile ⟨file, processes⟩ (.start pid)
        ⟨file, processes ++ [⟨pid, Launch.main (some pidFile)⟩]⟩
  | check {file : Option Bytes} {before after : List Process} {pid : ℤ} {k : ℤ → Launch}
      {kill : ℤ → Except Errno Unit}
      (hkill : Finds ⟨file, before ++ ⟨pid, .call (.isAlreadyRunning pidFile) k⟩ :: after⟩ kill) :
      Step pidFile ⟨file, before ++ ⟨pid, .call (.isAlreadyRunning pidFile) k⟩ :: after⟩
        (.check pid) ⟨file, before ++ ⟨pid, k (isAlreadyRunning (fopen file) kill)⟩ :: after⟩
  | listen {file : Option Bytes} {before after : List Process} {pid : ℤ} {k : Bool → Launch}
      (okay : Bool) :
      Step pidFile ⟨file, before ++ ⟨pid, .call .listenAll k⟩ :: after⟩ (.listen pid)
        ⟨file, before ++ ⟨pid, k okay⟩ :: after⟩
  | fork {file : Option Bytes} {before after : List Process} {pid child : ℤ} {k : ℤ → Launch}
      (hchild : Free ⟨file, before ++ ⟨pid, .call .fork k⟩ :: after⟩ child) :
      Step pidFile ⟨file, before ++ ⟨pid, .call .fork k⟩ :: after⟩ (.fork pid)
        ⟨file, (before ++ ⟨pid, k child⟩ :: after) ++ [⟨child, k 0⟩]⟩
  | noFork {file : Option Bytes} {before after : List Process} {pid : ℤ} {k : ℤ → Launch} :
      Step pidFile ⟨file, before ++ ⟨pid, .call .fork k⟩ :: after⟩ (.fork pid)
        ⟨file, before ++ ⟨pid, k (-1)⟩ :: after⟩
  | record {file : Option Bytes} {before after : List Process} {pid child : ℤ}
      {k : Bool → Launch} :
      Step pidFile ⟨file, before ++ ⟨pid, .call (.createPIDFile pidFile child) k⟩ :: after⟩
        (.record pid)
        ⟨(createPIDFile true true file child).2,
          before ++ ⟨pid, k (createPIDFile true true file child).1⟩ :: after⟩
  | exit {file : Option Bytes} {before after : List Process} {pid status : ℤ} :
      Step pidFile ⟨file, before ++ ⟨pid, .ret status⟩ :: after⟩ (.exit pid)
        ⟨file, before ++ after⟩
  | die {file : Option Bytes} {before after : List Process} {pid : ℤ} {k : Empty → Launch} :
      Step pidFile ⟨file, before ++ ⟨pid, .call .serverLoop k⟩ :: after⟩ (.die pid)
        ⟨file, before ++ after⟩

/-- There are no two daemons. -/
def Single (host : Host) : Prop := host.processes.countP Process.looping ≤ 1

instance (host : Host) : Decidable host.Single := inferInstanceAs (Decidable (_ ≤ 1))

/-- When the pid file is checked, no other launch has checked it and not yet written its own. -/
def Orderly (host : Host) : Act → Prop
  | .check _ => ∀ p ∈ host.processes, p.underway = false
  | _ => True

/-! ## The pid file -/

/-- The text of a pid file. -/
def pidText (pid : ℤ) : Bytes := printInt pid ++ ascii "\n"

/-- A process id is read back from the pid file. -/
theorem scanInteger_pidText {pid : ℤ} (hlo : 0 < pid) (hhi : pid < 2 ^ 31) :
    scanInteger (pidText pid) = some (pid, ascii "\n") := by
  apply scanInteger_printInt_append hlo
  · unfold longMax
    omega
  · intro c hc
    obtain rfl : c = 10 := by simpa [ascii] using hc.symm
    decide

/-- A daemon that is recorded in the pid file is found. -/
theorem isAlreadyRunning_pidText {pid : ℤ} (hlo : 0 < pid) (hhi : pid < 2 ^ 31)
    {kill : ℤ → Except Errno Unit} (hkill : kill pid ≠ .error esrch) :
    isAlreadyRunning (fopen (some (pidText pid))) kill ≠ 0 := by
  have hscan := scanInteger_pidText hlo hhi
  have hint : toInt pid = pid := toInt_of_mem (by omega) hhi
  unfold isAlreadyRunning
  simp only [fopen, hscan, hint]
  cases hreply : kill pid with
  | error errno =>
      have hne : errno ≠ esrch := fun heq => hkill (by rw [hreply, heq])
      simp [hne]
  | ok _ => simp

/-! ## Runs of orderly steps -/

/-- What can be left of `main` between two calls. -/
inductive Known (pidFile : Bytes) : Launch → Prop
  | main : Known pidFile (.call (.isAlreadyRunning pidFile) (Launch.checked (some pidFile)))
  | listen : Known pidFile (.call .listenAll fun okay =>
      if okay then .call .fork (Launch.forked (some pidFile)) else pure 1)
  | fork : Known pidFile (.call .fork (Launch.forked (some pidFile)))
  | record {child : ℤ} : Known pidFile (.call (.createPIDFile pidFile child) fun _ => .ret 0)
  | loop {k : Empty → Launch} : Known pidFile (.call .serverLoop k)
  | ret {status : ℤ} : Known pidFile (.ret status)

/-- The pid file and the processes agree: there is one daemon at most, a launch that has not forked
yet is alone, and a daemon is recorded in the file or about to be. -/
structure Sound (pidFile : Bytes) (host : Host) : Prop where
  known : ∀ p ∈ host.processes, Known pidFile p.rest
  pids : ∀ p ∈ host.processes, 0 < p.pid ∧ p.pid < 2 ^ 31
  single : host.Single
  underway : host.processes.countP Process.underway ≤ 1
  early : 0 < host.processes.countP Process.early → host.processes.countP Process.looping = 0
  recording : ∀ p ∈ host.processes, ∀ child,
    p.rest.next = some (.createPIDFile pidFile child) →
      ∀ q ∈ host.processes, q.looping = true → q.pid = child
  recorded : host.processes.countP Process.underway = 0 →
    ∀ q ∈ host.processes, q.looping = true → host.file = some (pidText q.pid)

section steps

variable {pidFile : Bytes} {file : Option Bytes} {processes processes' : List Process}
  {pid child : ℤ} {p p' : Process}

/-- The order of the processes does not matter. -/
theorem Sound.perm (h : Sound pidFile ⟨file, processes⟩) (hperm : processes.Perm processes') :
    Sound pidFile ⟨file, processes'⟩ where
  known q hq := h.known q (hperm.mem_iff.mpr hq)
  pids q hq := h.pids q (hperm.mem_iff.mpr hq)
  single := (hperm.countP_eq Process.looping).symm.trans_le h.single
  underway := (hperm.countP_eq Process.underway).symm.trans_le h.underway
  early hearly := by
    rw [← hperm.countP_eq] at hearly ⊢
    exact h.early hearly
  recording q hq child hnext q' hq' hloops :=
    h.recording q (hperm.mem_iff.mpr hq) child hnext q' (hperm.mem_iff.mpr hq') hloops
  recorded hnone q hq hloops := by
    rw [← hperm.countP_eq] at hnone
    exact h.recorded hnone q (hperm.mem_iff.mpr hq) hloops

/-- A process may as well stand in front of the others. -/
theorem sound_middle {before after : List Process} :
    Sound pidFile ⟨file, before ++ p :: after⟩ ↔ Sound pidFile ⟨file, p :: (before ++ after)⟩ :=
  ⟨fun h => h.perm List.perm_middle, fun h => h.perm List.perm_middle.symm⟩

/-- A launch that has not forked is underway and no daemon. -/
theorem of_early (h : p.early = true) : p.underway = true ∧ p.looping = false := by
  obtain ⟨pid, rest⟩ := p
  cases rest with
  | ret _ => cases h
  | call c k => cases c <;> first | exact ⟨rfl, rfl⟩ | cases h

/-- So is a launch that is about to write the pid file. -/
theorem of_next_record (h : p.rest.next = some (.createPIDFile pidFile child)) :
    p.underway = true ∧ p.early = false ∧ p.looping = false := by
  simp [Process.underway, Process.early, Process.looping, h, LaunchCall.underway, LaunchCall.early]

/-- A process that is not underway is about to write nothing. -/
theorem next_ne_of_idle (h : p.underway = false) :
    p.rest.next ≠ some (.createPIDFile pidFile child) := by
  intro heq
  rw [(of_next_record heq).1] at h
  cases h

/-- One process more that is neither underway nor a daemon. -/
theorem Sound.cons (h : Sound pidFile ⟨file, processes⟩) (hknown : Known pidFile p.rest)
    (hpid : 0 < p.pid ∧ p.pid < 2 ^ 31) (hidle : p.underway = false) (hloops : p.looping = false) :
    Sound pidFile ⟨file, p :: processes⟩ := by
  have hearly : p.early ≠ true := fun h => by rw [(of_early h).1] at hidle; cases hidle
  have hidle' : p.underway ≠ true := by rw [hidle]; nofun
  have hloops' : p.looping ≠ true := by rw [hloops]; nofun
  refine ⟨List.forall_mem_cons.mpr ⟨hknown, h.known⟩, List.forall_mem_cons.mpr ⟨hpid, h.pids⟩,
    ?_, ?_, ?_, ?_, ?_⟩
  · exact (List.countP_cons_of_neg hloops').trans_le h.single
  · exact (List.countP_cons_of_neg hidle').trans_le h.underway
  · rw [List.countP_cons_of_neg hearly, List.countP_cons_of_neg hloops']
    exact h.early
  · intro q hq child hnext q' hq' hq'loops
    have hq := (List.mem_cons.mp hq).resolve_left fun heq => next_ne_of_idle hidle (heq ▸ hnext)
    have hq' := (List.mem_cons.mp hq').resolve_left fun heq => hloops' (heq ▸ hq'loops)
    exact h.recording q hq child hnext q' hq' hq'loops
  · intro hnone q hq hqloops
    rw [List.countP_cons_of_neg hidle'] at hnone
    have hq := (List.mem_cons.mp hq).resolve_left fun heq => hloops' (heq ▸ hqloops)
    exact h.recorded hnone q hq hqloops

/-- One process less that is not underway. -/
theorem Sound.of_cons (h : Sound pidFile ⟨file, p :: processes⟩) (hidle : p.underway = false) :
    Sound pidFile ⟨file, processes⟩ := by
  have hearly : p.early ≠ true := fun h => by rw [(of_early h).1] at hidle; cases hidle
  have hidle' : p.underway ≠ true := by rw [hidle]; nofun
  have hsingle := h.single
  have hunderway := h.underway
  have hfirst := h.early
  have hrecorded := h.recorded
  simp only [Single, List.countP_cons_of_neg hearly, List.countP_cons_of_neg hidle',
    List.countP_cons] at hsingle hunderway hfirst hrecorded
  refine ⟨fun q hq => h.known q (List.mem_cons_of_mem _ hq),
    fun q hq => h.pids q (List.mem_cons_of_mem _ hq), ?_, hunderway, ?_, ?_, ?_⟩
  · exact (Nat.le_add_right _ _).trans hsingle
  · exact fun h => (Nat.add_eq_zero_iff.mp (hfirst h)).1
  · exact fun q hq child hnext q' hq' =>
      h.recording q (List.mem_cons_of_mem _ hq) child hnext q' (List.mem_cons_of_mem _ hq')
  · exact fun hnone q hq => hrecorded hnone q (List.mem_cons_of_mem _ hq)

/-- Without a daemon there is nothing for the pid file to agree with. -/
theorem sound_of_no_daemon (hknown : ∀ q ∈ processes, Known pidFile q.rest)
    (hpids : ∀ q ∈ processes, 0 < q.pid ∧ q.pid < 2 ^ 31)
    (hunderway : processes.countP Process.underway ≤ 1)
    (hlooping : processes.countP Process.looping = 0) : Sound pidFile ⟨file, processes⟩ := by
  have hno : ∀ q ∈ processes, q.looping ≠ true := List.countP_eq_zero.mp hlooping
  refine ⟨hknown, hpids, hlooping.trans_le zero_le_one, hunderway, fun _ => hlooping, ?_, ?_⟩
  · intro _ _ _ _ q hq hloops
    exact absurd hloops (hno q hq)
  · intro _ q hq hloops
    exact absurd hloops (hno q hq)

/-- A launch that has not forked is alone, and there is no daemon. -/
theorem Sound.of_early (h : Sound pidFile ⟨file, p :: processes⟩) (hp : p.early = true) :
    Sound pidFile ⟨file, processes⟩ ∧ processes.countP Process.underway = 0 ∧
      processes.countP Process.looping = 0 := by
  obtain ⟨hbusy, hloops⟩ := Host.of_early hp
  have hloops' : p.looping ≠ true := by rw [hloops]; nofun
  have hunderway := h.underway
  have hfirst := h.early
  simp only [List.countP_cons_of_pos hbusy, List.countP_cons_of_pos hp,
    List.countP_cons_of_neg hloops'] at hunderway hfirst
  have hnobody : processes.countP Process.underway = 0 := by omega
  have hnone : processes.countP Process.looping = 0 := hfirst (Nat.succ_pos _)
  refine ⟨?_, hnobody, hnone⟩
  exact sound_of_no_daemon (fun q hq => h.known q (List.mem_cons_of_mem _ hq))
    (fun q hq => h.pids q (List.mem_cons_of_mem _ hq)) (hnobody.trans_le zero_le_one) hnone

/-- A launch that has checked the pid file, when there is neither another one nor a daemon. -/
theorem Sound.cons_early (h : Sound pidFile ⟨file, processes⟩)
    (hunderway : processes.countP Process.underway = 0)
    (hlooping : processes.countP Process.looping = 0) (hknown : Known pidFile p.rest)
    (hpid : 0 < p.pid ∧ p.pid < 2 ^ 31) (hp : p.early = true) :
    Sound pidFile ⟨file, p :: processes⟩ := by
  obtain ⟨hbusy, hloops⟩ := Host.of_early hp
  have hloops' : p.looping ≠ true := by rw [hloops]; nofun
  apply sound_of_no_daemon (List.forall_mem_cons.mpr ⟨hknown, h.known⟩)
    (List.forall_mem_cons.mpr ⟨hpid, h.pids⟩)
  · rw [List.countP_cons_of_pos hbusy, hunderway]
  · rw [List.countP_cons_of_neg hloops', hlooping]

/-- The two processes after the fork. -/
theorem Sound.cons_forked {k : Empty → Launch} (h : Sound pidFile ⟨file, processes⟩)
    (hunderway : processes.countP Process.underway = 0)
    (hlooping : processes.countP Process.looping = 0)
    (hpid : 0 < pid ∧ pid < 2 ^ 31) (hchild : 0 < child ∧ child < 2 ^ 31) :
    Sound pidFile ⟨file, ⟨child, .call .serverLoop k⟩ ::
      ⟨pid, .call (.createPIDFile pidFile child) fun _ => .ret 0⟩ :: processes⟩ := by
  have hno : ∀ q ∈ processes, q.looping ≠ true := List.countP_eq_zero.mp hlooping
  have hidle : ∀ q ∈ processes, q.underway ≠ true := List.countP_eq_zero.mp hunderway
  refine ⟨?_, ?_, ?_, ?_, ?_, ?_, ?_⟩
  · exact List.forall_mem_cons.mpr ⟨.loop, List.forall_mem_cons.mpr ⟨.record, h.known⟩⟩
  · exact List.forall_mem_cons.mpr ⟨hchild, List.forall_mem_cons.mpr ⟨hpid, h.pids⟩⟩
  · rw [Single, List.countP_cons_of_pos rfl, List.countP_cons_of_neg (by exact nofun), hlooping]
  · rw [List.countP_cons_of_neg (by exact nofun), List.countP_cons_of_pos rfl, hunderway]
  · intro hearly
    rw [List.countP_cons_of_neg (by exact nofun),
      List.countP_cons_of_neg (by exact nofun)] at hearly
    obtain ⟨q, hq, hqearly⟩ := List.countP_pos_iff.mp hearly
    exact absurd (Host.of_early hqearly).1 (hidle q hq)
  · intro q hq child' hnext q' hq' hloops
    -- the only daemon is the child, and the only launch that writes its pid is the parent
    have hpid' : q'.pid = child := by
      rcases List.mem_cons.mp hq' with rfl | hq'
      · rfl
      rcases List.mem_cons.mp hq' with rfl | hq'
      · cases hloops
      · exact absurd hloops (hno q' hq')
    have hchild' : child' = child := by
      rcases List.mem_cons.mp hq with rfl | hq
      · cases hnext
      rcases List.mem_cons.mp hq with rfl | hq
      · cases hnext
        rfl
      · exact absurd (of_next_record hnext).1 (hidle q hq)
    rw [hpid', hchild']
  · intro hnone
    rw [List.countP_cons_of_neg (by exact nofun), List.countP_cons_of_pos rfl] at hnone
    cases hnone

/-- A launch that is about to write the pid file does so. -/
theorem Sound.of_record {k : Bool → Launch}
    (h : Sound pidFile ⟨file, ⟨pid, .call (.createPIDFile pidFile child) k⟩ :: processes⟩) :
    Sound pidFile ⟨some (pidText child), processes⟩ := by
  have hunderway := h.underway
  have hfirst := h.early
  have hsingle := h.single
  rw [Single] at hsingle
  rw [List.countP_cons_of_pos rfl] at hunderway
  rw [List.countP_cons_of_neg (by exact nofun), List.countP_cons_of_neg (by exact nofun)] at hfirst
  rw [List.countP_cons_of_neg (by exact nofun)] at hsingle
  have hnobody : processes.countP Process.underway = 0 := by omega
  refine ⟨fun q hq => h.known q (List.mem_cons_of_mem _ hq),
    fun q hq => h.pids q (List.mem_cons_of_mem _ hq), hsingle, hnobody.trans_le zero_le_one, hfirst,
    fun q hq child hnext => ?_, fun _ q hq hloops => ?_⟩
  · exact absurd (of_next_record hnext).1 (List.countP_eq_zero.mp hnobody q hq)
  · rw [h.recording _ List.mem_cons_self child rfl q (List.mem_cons_of_mem _ hq) hloops]

/-- The check finds the daemon that is recorded. -/
theorem Sound.not_looping {kill : ℤ → Except Errno Unit} (h : Sound pidFile ⟨file, processes⟩)
    (hkill : Finds ⟨file, processes⟩ kill) (hunderway : processes.countP Process.underway = 0)
    (hret : isAlreadyRunning (fopen file) kill = 0) : processes.countP Process.looping = 0 := by
  apply List.countP_eq_zero.mpr
  intro q hq hloops
  have hpids := h.pids q hq
  have hfile : file = some (pidText q.pid) := h.recorded hunderway q hq hloops
  rw [hfile] at hret
  exact isAlreadyRunning_pidText hpids.1 hpids.2 (hkill q hq) hret

/-- A launch checks the pid file while no other one is underway. -/
theorem Sound.check {kill : ℤ → Except Errno Unit} {k : ℤ → Launch}
    (h : Sound pidFile ⟨file, ⟨pid, .call (.isAlreadyRunning pidFile) k⟩ :: processes⟩)
    (hkill : Finds ⟨file, processes⟩ kill) (hidle : ∀ q ∈ processes, q.underway = false) :
    Sound pidFile ⟨file, ⟨pid, k (isAlreadyRunning (fopen file) kill)⟩ :: processes⟩ := by
  have hrest := h.of_cons rfl
  have hpid := h.pids _ List.mem_cons_self
  cases h.known _ List.mem_cons_self with
  | main =>
      rw [Launch.checked]
      split_ifs with hneg hne
      · exact hrest.cons .ret hpid rfl rfl
      · exact hrest.cons .ret hpid rfl rfl
      · have hnobody : processes.countP Process.underway = 0 := by
          apply List.countP_eq_zero.mpr
          intro q hq
          rw [hidle q hq]
          exact nofun
        have hnone := hrest.not_looping hkill hnobody (not_not.mp hne)
        exact hrest.cons_early hnobody hnone .listen hpid rfl

/-- A launch opens its servers, or ends. -/
theorem Sound.listen {k : Bool → Launch}
    (h : Sound pidFile ⟨file, ⟨pid, .call .listenAll k⟩ :: processes⟩) (okay : Bool) :
    Sound pidFile ⟨file, ⟨pid, k okay⟩ :: processes⟩ := by
  obtain ⟨hrest, hnobody, hnone⟩ := h.of_early rfl
  have hpid := h.pids _ List.mem_cons_self
  cases h.known _ List.mem_cons_self with
  | listen =>
      cases okay with
      | false => exact hrest.cons .ret hpid rfl rfl
      | true => exact hrest.cons_early hnobody hnone .fork hpid rfl

/-- A launch forks: there is a daemon, and the parent is about to record it. -/
theorem Sound.fork {k : ℤ → Launch}
    (h : Sound pidFile ⟨file, ⟨pid, .call .fork k⟩ :: processes⟩)
    (hchild : 0 < child ∧ child < 2 ^ 31) :
    Sound pidFile ⟨file, ⟨child, k 0⟩ :: ⟨pid, k child⟩ :: processes⟩ := by
  obtain ⟨hrest, hnobody, hnone⟩ := h.of_early rfl
  have hpid := h.pids _ List.mem_cons_self
  cases h.known _ List.mem_cons_self with
  | fork =>
      have hparent : Launch.forked (some pidFile) child =
          .call (.createPIDFile pidFile child) fun _ => .ret 0 := by
        rw [Launch.forked, if_neg hchild.1.le.not_gt, if_pos hchild.1]
        rfl
      obtain ⟨k, hk⟩ : ∃ k, Launch.forked (some pidFile) 0 = .call .serverLoop k := ⟨_, rfl⟩
      rw [hparent, hk]
      exact hrest.cons_forked hnobody hnone hpid hchild

/-- A launch cannot fork, and ends. -/
theorem Sound.noFork {k : ℤ → Launch}
    (h : Sound pidFile ⟨file, ⟨pid, .call .fork k⟩ :: processes⟩) :
    Sound pidFile ⟨file, ⟨pid, k (-1)⟩ :: processes⟩ := by
  obtain ⟨hrest, -, -⟩ := h.of_early rfl
  have hpid := h.pids _ List.mem_cons_self
  cases h.known _ List.mem_cons_self with
  | fork => exact hrest.cons .ret hpid rfl rfl

/-- The daemon is recorded, and the launch ends. -/
theorem Sound.record {k : Bool → Launch}
    (h : Sound pidFile ⟨file, ⟨pid, .call (.createPIDFile pidFile child) k⟩ :: processes⟩)
    (okay : Bool) : Sound pidFile ⟨some (pidText child), ⟨pid, k okay⟩ :: processes⟩ := by
  have hpid := h.pids _ List.mem_cons_self
  cases h.known _ List.mem_cons_self with
  | record => exact h.of_record.cons .ret hpid rfl rfl

/-- **One orderly step** keeps the pid file and the processes in agreement. -/
theorem Sound.step {host host' : Host} {act : Act} (h : Sound pidFile host)
    (horderly : Orderly host act) (hstep : Step pidFile host act host') : Sound pidFile host' := by
  cases hstep with
  | @start file processes pid hpid =>
      have hnew : Sound pidFile ⟨file, ⟨pid, Launch.main (some pidFile)⟩ :: processes⟩ :=
        h.cons .main ⟨hpid.1, hpid.2.1⟩ rfl rfl
      exact hnew.perm (List.perm_append_singleton _ _).symm
  | @check file before after pid k kill hkill =>
      rw [sound_middle] at h ⊢
      have hothers : ∀ q ∈ before ++ after,
          q ∈ before ++ ⟨pid, .call (.isAlreadyRunning pidFile) k⟩ :: after := fun q hq =>
        List.perm_middle.mem_iff.mpr (List.mem_cons_of_mem _ hq)
      exact h.check (fun q hq => hkill q (hothers q hq)) fun q hq => horderly q (hothers q hq)
  | listen okay =>
      rw [sound_middle] at h ⊢
      exact h.listen okay
  | @fork file before after pid child k hchild =>
      have hforked := (sound_middle.mp h).fork ⟨hchild.1, hchild.2.1⟩
      apply hforked.perm
      apply (List.perm_middle.symm.cons _).trans
      exact (List.perm_append_singleton _ _).symm
  | noFork =>
      rw [sound_middle] at h ⊢
      exact h.noFork
  | record =>
      rw [sound_middle] at h ⊢
      exact h.record _
  | exit => exact (sound_middle.mp h).of_cons rfl
  | die => exact (sound_middle.mp h).of_cons rfl

/-- In a run of orderly steps the pid file and the processes always agree. -/
theorem sound_of_orderly {acts : List Act} {host : Host}
    (hrun : Path (fun s act s' => Orderly s act ∧ Step pidFile s act s') ⟨file, []⟩ acts host) :
    Sound pidFile host := by
  induction hrun with
  | refl =>
      refine ⟨?_, ?_, Nat.zero_le 1, Nat.zero_le 1, fun _ => rfl, ?_, ?_⟩
      · exact fun _ hp => absurd hp List.not_mem_nil
      · exact fun _ hp => absurd hp List.not_mem_nil
      · exact fun _ hp => absurd hp List.not_mem_nil
      · exact fun _ _ hq => absurd hq List.not_mem_nil
  | step _ hstep ih => exact ih.step hstep.1 hstep.2

/-- **One daemon at most**: any number of launches with one pid file, whatever is in that file in
the beginning, their steps in any order, as long as no launch checks the file while another one has
checked it and not yet written its own. -/
theorem single_of_orderly {acts : List Act} {host : Host}
    (hrun : Path (fun s act s' => Orderly s act ∧ Step pidFile s act s') ⟨file, []⟩ acts host) :
    host.Single := (sound_of_orderly hrun).single

end steps

/-! ## Two launches -/

section examples

/-- A pid file. -/
def somePidFile : Bytes := ascii "ebbnc.pid"

/-- Every process is found. -/
def findsAll (_ : ℤ) : Except Errno Unit := .ok ()

/-- A launch before the check. -/
def starting (pid : ℤ) : Process := ⟨pid, Launch.main (some somePidFile)⟩

/-- A launch after the check. -/
def cleared (pid : ℤ) : Process := ⟨pid, Launch.listen (some somePidFile)⟩

/-- A launch whose servers listen. -/
def listening (pid : ℤ) : Process := ⟨pid, .call .fork (Launch.forked (some somePidFile))⟩

/-- A launch after the fork. -/
def parent (pid child : ℤ) : Process := ⟨pid, Launch.forked (some somePidFile) child⟩

/-- A process that has ended. -/
def exited (pid status : ℤ) : Process := ⟨pid, .ret status⟩

/-- A daemon. -/
def daemon (pid : ℤ) : Process := ⟨pid, Launch.forked (some somePidFile) 0⟩

/-- One launch after the other. -/
def orderlyActs : List Act :=
  [.start 100, .check 100, .listen 100, .fork 100, .record 100, .start 102, .check 102]

/-- Two launches at once. -/
def overlappingActs : List Act :=
  [.start 100, .start 101, .check 100, .check 101, .listen 100, .listen 101, .fork 100, .fork 101]

/-- The run of two launches at once. -/
theorem path_overlapping :
    Path (Step somePidFile) ⟨none, []⟩ overlappingActs
      ⟨none, [parent 100 102, parent 101 103, daemon 102, daemon 103]⟩ := by
  have hstart₀ : Step somePidFile ⟨none, []⟩ (.start 100) ⟨none, [starting 100]⟩ :=
    .start ⟨by decide, by decide, by simp⟩
  have hstart₁ : Step somePidFile ⟨none, [starting 100]⟩ (.start 101)
      ⟨none, [starting 100, starting 101]⟩ :=
    .start ⟨by decide, by decide, by simp [starting]⟩
  have hcheck₀ : Step somePidFile ⟨none, [starting 100, starting 101]⟩ (.check 100)
      ⟨none, [cleared 100, starting 101]⟩ :=
    @Step.check _ none [] [starting 101] 100 _ findsAll fun _ _ => nofun
  have hcheck₁ : Step somePidFile ⟨none, [cleared 100, starting 101]⟩ (.check 101)
      ⟨none, [cleared 100, cleared 101]⟩ :=
    @Step.check _ none [cleared 100] [] 101 _ findsAll fun _ _ => nofun
  have hlisten₀ : Step somePidFile ⟨none, [cleared 100, cleared 101]⟩ (.listen 100)
      ⟨none, [listening 100, cleared 101]⟩ :=
    @Step.listen _ none [] [cleared 101] 100 _ true
  have hlisten₁ : Step somePidFile ⟨none, [listening 100, cleared 101]⟩ (.listen 101)
      ⟨none, [listening 100, listening 101]⟩ :=
    @Step.listen _ none [listening 100] [] 101 _ true
  have hfork₀ : Step somePidFile ⟨none, [listening 100, listening 101]⟩ (.fork 100)
      ⟨none, [parent 100 102, listening 101, daemon 102]⟩ :=
    @Step.fork _ none [] [listening 101] 100 102 _ ⟨by decide, by decide, by simp [listening]⟩
  have hfork₁ : Step somePidFile ⟨none, [parent 100 102, listening 101, daemon 102]⟩ (.fork 101)
      ⟨none, [parent 100 102, parent 101 103, daemon 102, daemon 103]⟩ :=
    @Step.fork _ none [parent 100 102] [daemon 102] 101 103 _
      ⟨by decide, by decide, by simp [parent, daemon]⟩
  exact .cons hstart₀ (.cons hstart₁ (.cons hcheck₀ (.cons hcheck₁ (.cons hlisten₀
    (.cons hlisten₁ (.cons hfork₀ (.single hfork₁)))))))

/-- **Two daemons**: there is no pid file, both launches check that, and both go on. -/
theorem not_single_overlapping :
    Path (Step somePidFile) ⟨none, []⟩ overlappingActs
        ⟨none, [parent 100 102, parent 101 103, daemon 102, daemon 103]⟩ ∧
      ¬ Single ⟨none, [parent 100 102, parent 101 103, daemon 102, daemon 103]⟩ :=
  ⟨path_overlapping, by decide⟩

/-- The second launch finds the daemon of the first one. -/
theorem isAlreadyRunning_daemon : isAlreadyRunning (fopen (some (pidText 101))) findsAll = 1 := by
  have hscan := @scanInteger_pidText 101 (by decide) (by decide)
  simp only [isAlreadyRunning, fopen, hscan]
  rfl

/-- The run of one launch after the other. -/
theorem path_orderly :
    Path (fun s act s' => Orderly s act ∧ Step somePidFile s act s') ⟨none, []⟩ orderlyActs
      ⟨some (pidText 101), [exited 100 0, daemon 101, exited 102 1]⟩ := by
  have hstart₀ : Step somePidFile ⟨none, []⟩ (.start 100) ⟨none, [starting 100]⟩ :=
    .start ⟨by decide, by decide, by simp⟩
  have hcheck₀ : Step somePidFile ⟨none, [starting 100]⟩ (.check 100) ⟨none, [cleared 100]⟩ :=
    @Step.check _ none [] [] 100 _ findsAll fun _ _ => nofun
  have hlisten : Step somePidFile ⟨none, [cleared 100]⟩ (.listen 100) ⟨none, [listening 100]⟩ :=
    @Step.listen _ none [] [] 100 _ true
  have hfork : Step somePidFile ⟨none, [listening 100]⟩ (.fork 100)
      ⟨none, [parent 100 101, daemon 101]⟩ :=
    @Step.fork _ none [] [] 100 101 _ ⟨by decide, by decide, by simp⟩
  have hrecord : Step somePidFile ⟨none, [parent 100 101, daemon 101]⟩ (.record 100)
      ⟨some (pidText 101), [exited 100 0, daemon 101]⟩ :=
    @Step.record _ none [] [daemon 101] 100 101 _
  have hstart₁ : Step somePidFile ⟨some (pidText 101), [exited 100 0, daemon 101]⟩ (.start 102)
      ⟨some (pidText 101), [exited 100 0, daemon 101, starting 102]⟩ :=
    .start ⟨by decide, by decide, by simp [exited, daemon]⟩
  have hcheck₁ : Step somePidFile ⟨some (pidText 101), [exited 100 0, daemon 101, starting 102]⟩
      (.check 102) ⟨some (pidText 101), [exited 100 0, daemon 101, exited 102 1]⟩ := by
    have hcheck := @Step.check somePidFile (some (pidText 101)) [exited 100 0, daemon 101] [] 102
      (Launch.checked (some somePidFile)) findsAll fun _ _ => nofun
    rw [isAlreadyRunning_daemon] at hcheck
    exact hcheck
  have hidle₀ : ∀ p ∈ [starting 100], p.underway = false := by decide
  have hidle₁ : ∀ p ∈ [exited 100 0, daemon 101, starting 102], p.underway = false := by decide
  exact .cons ⟨trivial, hstart₀⟩ (.cons ⟨hidle₀, hcheck₀⟩ (.cons ⟨trivial, hlisten⟩
    (.cons ⟨trivial, hfork⟩ (.cons ⟨trivial, hrecord⟩ (.cons ⟨trivial, hstart₁⟩
      (.single ⟨hidle₁, hcheck₁⟩))))))

/-- There is one daemon. -/
theorem single_orderly :
    Single ⟨some (pidText 101), [exited 100 0, daemon 101, exited 102 1]⟩ :=
  single_of_orderly path_orderly

end examples

end Host

end Ebbnc
