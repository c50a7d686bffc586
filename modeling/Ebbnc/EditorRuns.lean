import Ebbnc.Editor

/-!
# What the runs of the editor build

The prompt loop against what it is for: the accepted answers, in the order they were given, *are*
the config. A run asks for bouncers in rounds of four questions and then for the options; the heap
holds one cell for each finished round, linked to the one before, and in the middle of a round one
more for the bouncer at hand.

* `Round`, `Round.bouncer`, `Entry.apply` — what the accepted answers of a round, and of a question
  about an option, stand for.
* `chain` — the heap the finished rounds leave; `walk_chain` — following its pointers.
* `Inv` — the state and the accepted answers agree; **`Inv.step`** — every iteration keeps this,
  unless it loses the bouncer at hand (`Stuck`) or runs out of memory.
* **`Completed.agrees`** — so it holds at the end of every run that ends well.
-/

namespace Ebbnc

open Lib

namespace Editor

/-! ## What accepted answers stand for -/

/-- The answer that was read. -/
def Entry.value (e : Entry) : Bytes := promptInput e.stage.defaultValue e.input.line

/-- The endpoint an answer stands for. -/
def endpointOf (value : Bytes) : Endpoint :=
  ⟨(addressTokens value).1, ((addressTokens value).2.map fun p => (strToLong p).2).getD (-1)⟩

/-- The local ip an answer stands for. -/
def localOf (value : Bytes) : Option Bytes :=
  if strcasecmpEq value (ascii "None") then none else some value

/-- The accepted answers about one bouncer. -/
structure Round where
  listen : Entry
  remote : Entry
  localIP : Entry
  another : Entry

/-- The bouncer three answers stand for. -/
def bouncerOf (listen remote localIP : Entry) : Bouncer where
  listenIP := (endpointOf listen.value).host
  listenPort := (endpointOf listen.value).port
  remoteHost := (endpointOf remote.value).host
  remotePort := (endpointOf remote.value).port
  localIP := localOf localIP.value

def Round.bouncer (r : Round) : Bouncer := bouncerOf r.listen r.remote r.localIP

def Round.entries (r : Round) : List Entry := [r.listen, r.remote, r.localIP, r.another]

/-- What an accepted answer does to the options. -/
def Entry.apply (config : Options) (e : Entry) : Options :=
  match e.stage with
  | .identTimeout | .idleTimeout | .writeTimeout =>
      match strToInt e.value with
      | some i => setTimeout e.stage i config
      | none => config
  | .idnt | .dnsLookup =>
      match parseBool e.value with
      | some value => setBool e.stage value config
      | none => config
  | .pidFile | .welcomeMsg =>
      if e.value = ascii "none" then config else setString e.stage (some e.value) config
  | _ => config

/-- The options a list of accepted answers stands for. -/
def applyAll (es : List Entry) : Options := es.foldl Entry.apply Options.new

/-- The key a list of accepted answers stands for. -/
def keyOf (es : List Entry) : Bytes :=
  es.foldl (fun key e => if e.stage = .password then strncpy key (getpass e.input.line) 16 else key)
    (List.replicate 17 0)

@[simp] theorem applyAll_concat (es : List Entry) (e : Entry) :
    applyAll (es ++ [e]) = Entry.apply (applyAll es) e := by
  simp [applyAll]

@[simp] theorem keyOf_concat (es : List Entry) (e : Entry) :
    keyOf (es ++ [e]) =
      if e.stage = .password then strncpy (keyOf es) (getpass e.input.line) 16 else keyOf es := by
  simp [keyOf]

/-- The answers that were accepted. -/
def accepted (log : List Entry) : List Entry := log.filter fun e => e.error == .none

theorem accepted_concat_none {log : List Entry} {e : Entry} (h : e.error = .none) :
    accepted (log ++ [e]) = accepted log ++ [e] := by
  simp [accepted, h]

theorem accepted_concat_ne {log : List Entry} {e : Entry} (h : e.error ≠ .none) :
    accepted (log ++ [e]) = accepted log := by
  simp [accepted, h]

section valid

variable (isValidHost : Option Bytes → Bool)

/-- An answer `host:port` that is accepted. -/
def EndpointValid (valid : Bytes → Bool) (value : Bytes) : Prop :=
  ∃ host port, addressTokens value = (some host, some port) ∧ valid host = true ∧
    (strToLong port).1 = true ∧ isValidPort (strToLong port).2 = true

/-- What the questions check. -/
def Entry.Valid (e : Entry) : Prop :=
  match e.stage with
  | .bouncerListen => EndpointValid isValidIP e.value
  | .bouncerRemote => EndpointValid (fun host => isValidHost (some host)) e.value
  | .bouncerLocal => strcasecmpEq e.value (ascii "None") = true ∨ isValidIP e.value = true
  | .bouncerAnother =>
      strcasecmpEq e.value (ascii "yes") = true ∨ strcasecmpEq e.value (ascii "no") = true
  | .identTimeout | .idleTimeout | .writeTimeout => ∃ i, strToInt e.value = some i ∧ 0 ≤ i
  | .idnt | .dnsLookup => ∃ value, parseBool e.value = some value
  | .password => minimumPasslen ≤ (getpass e.input.line).length
  | _ => True

end valid

/-- What `readEndpoint` gives: the endpoint of an accepted answer, or an error. -/
theorem readEndpoint_cases (valid : Bytes → Bool) (value : Bytes) (alloc : Bool) :
    (EndpointValid valid value ∧
        readEndpoint valid value alloc = (some fun _ => endpointOf value, .none)) ∨
      (readEndpoint valid value alloc).2 = .value ∨
      ((readEndpoint valid value alloc).2 = .strdup ∧ alloc = false ∧
        (readEndpoint valid value alloc).1 ≠ none) := by
  unfold readEndpoint EndpointValid endpointOf
  rcases htokens : addressTokens value with ⟨_ | host, port⟩
  · exact Or.inr (Or.inl rfl)
  · by_cases hvalid : valid host = true
    · rcases port with _ | p
      · exact Or.inr (Or.inl (by simp [hvalid]))
      · by_cases hport : ((strToLong p).1 && isValidPort (strToLong p).2) = true
        · simp only [if_pos hvalid, if_pos hport]
          cases alloc with
          | true =>
              rw [Bool.and_eq_true] at hport
              exact Or.inl ⟨⟨host, p, rfl, hvalid, hport⟩, rfl⟩
          | false => exact Or.inr (Or.inr ⟨rfl, rfl, nofun⟩)
        · exact Or.inr (Or.inl (by simp [hvalid, hport]))
    · exact Or.inr (Or.inl (by simp [hvalid]))

/-! ## The heap -/

/-- The pointer to the bouncer made last. -/
def top : ℕ → Option ℕ
  | 0 => none
  | n + 1 => some n

/-- The heap that holds these bouncers, each linked to the one made before it. -/
def chain (bs : List Bouncer) : List Cell := bs.mapIdx fun i b => { b with next := top i }

@[simp] theorem length_chain (bs : List Bouncer) : (chain bs).length = bs.length := by
  simp [chain]

theorem chain_concat (bs : List Bouncer) (b : Bouncer) :
    chain (bs ++ [b]) = chain bs ++ [{ b with next := top bs.length }] := by
  simp [chain, List.mapIdx_concat]

/-- Following the pointers from the bouncer made last gives all of them, the last one first. -/
theorem walk_chain (bs : List Bouncer) (more : List Cell) {fuel : ℕ} (h : bs.length ≤ fuel) :
    walk (chain bs ++ more) fuel (top bs.length) = some bs.reverse := by
  induction bs using List.reverseRecOn generalizing more fuel with
  | nil => cases fuel <;> rfl
  | append_singleton bs b ih =>
      rw [List.length_append, List.length_singleton] at h
      obtain ⟨fuel, rfl⟩ : ∃ n, fuel = n + 1 := ⟨fuel - 1, by omega⟩
      have hcell : (chain bs ++ ([{ b with next := top bs.length }] ++ more))[bs.length]? =
          some { b with next := top bs.length } := by
        rw [List.getElem?_append_right (by simp)]
        simp
      rw [chain_concat, List.append_assoc, List.length_append, List.length_singleton, top, walk,
        hcell, Option.bind_eq_bind, Option.bind_some, ih _ (by omega)]
      simp

/-! ## The agreement -/

/-- The questions about options, in order, and the end of the loop. `STAGE_IDNT` is not among
them. -/
def optionStages : List Stage :=
  [.identTimeout, .idleTimeout, .writeTimeout, .dnsLookup, .pidFile, .welcomeMsg, .password, .past]

section

variable (isValidHost : Option Bytes → Bool)

/-- The stages of a round: the answers so far, and the bouncer at hand as they left it. Ports are
stored before they are checked, so what was not yet accepted is not determined. -/
inductive Drafted : Stage → List Entry → Bouncer → Prop
  | listen {b : Bouncer} (hlocal : b.localIP = none) : Drafted .bouncerListen [] b
  | remote {l : Entry} {b : Bouncer} (hl : l.stage = .bouncerListen)
      (hlisten : ⟨b.listenIP, b.listenPort⟩ = endpointOf l.value) (hlocal : b.localIP = none) :
      Drafted .bouncerRemote [l] b
  | localIP {l r : Entry} {b : Bouncer} (hl : l.stage = .bouncerListen)
      (hr : r.stage = .bouncerRemote) (hlisten : ⟨b.listenIP, b.listenPort⟩ = endpointOf l.value)
      (hremote : ⟨b.remoteHost, b.remotePort⟩ = endpointOf r.value) (hlocal : b.localIP = none) :
      Drafted .bouncerLocal [l, r] b
  | another {l r o : Entry} {b : Bouncer} (hl : l.stage = .bouncerListen)
      (hr : r.stage = .bouncerRemote) (ho : o.stage = .bouncerLocal) (hb : b = bouncerOf l r o) :
      Drafted .bouncerAnother [l, r, o] b

/-- Where a run is, given the finished rounds: in the middle of a round, among the questions about
options, or past the end of the loop. -/
inductive Phase (rounds : List Round) : List Entry → Editor → Prop
  | bouncer {tail : List Entry} {s : Editor} {cell : Cell} (hdone : s.done = false)
      (hdraft : Drafted s.stage tail cell.toBouncer) (hnumber : ∀ e ∈ tail, e.bouncer = s.bouncer)
      (hbouncer : s.bouncer = some rounds.length)
      (hheap : s.heap = chain (rounds.map Round.bouncer) ++ [cell]) : Phase rounds tail s
  | option {tail : List Entry} {s : Editor} (hdone : s.done = false)
      (hstage : s.stage ∈ optionStages)
      (hrounds : rounds ≠ []) (htail : tail.map Entry.stage = optionStages.takeWhile (· ≠ s.stage))
      (hbouncer : s.bouncer = none) (hheap : s.heap = chain (rounds.map Round.bouncer)) :
      Phase rounds tail s
  | finished {tail : List Entry} {s : Editor} (hdone : s.done = true) (hstage : s.stage = .past)
      (hrounds : rounds ≠ []) (htail : tail.map Entry.stage = optionStages)
      (hbouncer : s.bouncer = none) (hheap : s.heap = chain (rounds.map Round.bouncer)) :
      Phase rounds tail s

/-- The answers of a finished round are about its own questions and its own bouncer. -/
structure Round.At (r : Round) (i : ℕ) : Prop where
  stages : r.entries.map Entry.stage =
    [.bouncerListen, .bouncerRemote, .bouncerLocal, .bouncerAnother]
  number : ∀ e ∈ r.entries, e.bouncer = some i

theorem Round.At.stage_eq {r : Round} {i : ℕ} (h : r.At i) :
    r.listen.stage = .bouncerListen ∧ r.remote.stage = .bouncerRemote ∧
      r.localIP.stage = .bouncerLocal ∧ r.another.stage = .bouncerAnother := by
  simpa [Round.entries] using h.stages

/-- The state is what the accepted answers of the log stand for; only the timeout a question is
about may hold a number that was refused. -/
structure Agrees (log : List Entry) (s : Editor) (rounds : List Round) (tail : List Entry) :
    Prop where
  accepted_eq : accepted log = rounds.flatMap Round.entries ++ tail
  valid : ∀ e ∈ accepted log, e.Valid isValidHost
  rounds_at : ∀ (i : ℕ) (r : Round), rounds[i]? = some r → r.At i
  bouncers : s.bouncers = top rounds.length
  config : ∃ stale, s.config = setTimeout s.stage stale (applyAll (accepted log))
  idnt : s.config.idnt = true
  key : s.key = keyOf (accepted log)
  phase : Phase rounds tail s

/-- The invariant of the runs that answer every question. -/
def Inv (log : List Entry) (s : Editor) : Prop :=
  ∃ rounds tail, Agrees isValidHost log s rounds tail

/-- The bouncer at hand is gone. -/
def Stuck (s : Editor) : Prop :=
  s.done = false ∧ s.bouncer = none ∧ (s.stage = .bouncerListen ∨ s.stage = .bouncerAnother)

/-- Memory ran out. -/
def Aborted (s : Editor) : Prop := s.done = true ∧ s.error ≠ .none

/-- The answer at `STAGE_BOUNCER_ANOTHER` was one of the two there are. -/
def Entry.Answered (e : Entry) : Prop :=
  e.stage = .bouncerAnother →
    strcasecmpEq e.value (ascii "yes") = true ∨ strcasecmpEq e.value (ascii "no") = true

instance : DecidablePred Entry.Answered := fun e =>
  inferInstanceAs (Decidable (e.stage = .bouncerAnother → _ ∨ _))

end

/-! ## One iteration -/

/-- A write through `bouncer` reaches the bouncer at hand, which is the last one of the heap. -/
theorem update_last {s : Editor} {cells : List Cell} {cell : Cell}
    (hbouncer : s.bouncer = some cells.length) (hheap : s.heap = cells ++ [cell])
    (f : Cell → Cell) : update { s with error := .none } f =
      .ok { s with error := .none, heap := cells ++ [f cell] } := by
  unfold update
  simp only [hbouncer, hheap, List.getElem?_concat_length, List.set_append_right _ _ (le_refl _),
    Nat.sub_self, List.set_cons_zero]
  rfl

/-- The value an iteration works with is the one of its entry. -/
theorem Entry.promptInput_of_stage (e : Entry) {q : Stage} (h : e.stage = q) :
    promptInput q.defaultValue e.input.line = e.value := by
  rw [Entry.value, h]

theorem exists_setTimeout (q : Stage) (config : Options) :
    ∃ i, config = setTimeout q i config := by
  cases q
  case identTimeout => exact ⟨config.identTimeout, rfl⟩
  case idleTimeout => exact ⟨config.idleTimeout, rfl⟩
  case writeTimeout => exact ⟨config.writeTimeout, rfl⟩
  all_goals exact ⟨0, rfl⟩

section step

variable {isValidHost : Option Bytes → Bool} {log : List Entry} {s s' : Editor} {e : Entry}
  {rounds : List Round} {tail : List Entry}

/-- An iteration that ends in an error but not in the end of the loop: the question is asked again,
and all that may have changed is what it writes. -/
theorem Agrees.retry (h : Agrees isValidHost log s rounds tail) (herror : e.error ≠ .none)
    (hstage : s'.stage = s.stage) (hbouncers : s'.bouncers = s.bouncers)
    (hconfig : ∃ i, s'.config = setTimeout s.stage i s.config) (hkey : s'.key = s.key)
    (hphase : Phase rounds tail s') : Agrees isValidHost (log ++ [e]) s' rounds tail := by
  obtain ⟨stale, hstale⟩ := h.config
  obtain ⟨i, hi⟩ := hconfig
  refine ⟨?_, ?_, h.rounds_at, hbouncers.trans h.bouncers, ⟨i, ?_⟩, ?_, ?_, hphase⟩
  · rw [accepted_concat_ne herror, h.accepted_eq]
  · rw [accepted_concat_ne herror]
    exact h.valid
  · rw [accepted_concat_ne herror, hi, hstale, hstage]
    cases s.stage <;> rfl
  · rw [hi, ← h.idnt]
    cases s.stage <;> rfl
  · rw [accepted_concat_ne herror, hkey, h.key]

/-- An iteration that ends without an error: the answer joins the accepted ones. -/
theorem Agrees.accept (h : Agrees isValidHost log s rounds tail) (herror : e.error = .none)
    (hvalid : e.Valid isValidHost) {rounds' : List Round} {tail' : List Entry}
    (heq : rounds'.flatMap Round.entries ++ tail' = rounds.flatMap Round.entries ++ (tail ++ [e]))
    (hat : ∀ (i : ℕ) (r : Round), rounds'[i]? = some r → r.At i)
    (hbouncers : s'.bouncers = top rounds'.length)
    (hconfig : ∃ i, s'.config = setTimeout s'.stage i (Entry.apply (applyAll (accepted log)) e))
    (hidnt : s'.config.idnt = true)
    (hkey : s'.key = if e.stage = .password then strncpy s.key (getpass e.input.line) 16 else s.key)
    (hphase : Phase rounds' tail' s') : Agrees isValidHost (log ++ [e]) s' rounds' tail' := by
  refine ⟨?_, ?_, hat, hbouncers, ?_, hidnt, ?_, hphase⟩
  · rw [accepted_concat_none herror, h.accepted_eq, heq, List.append_assoc]
  · rw [accepted_concat_none herror]
    intro x hx
    rcases List.mem_append.mp hx with hx | hx
    · exact h.valid x hx
    · rwa [List.mem_singleton.mp hx]
  · rw [accepted_concat_none herror, applyAll_concat]
    exact hconfig
  · rw [accepted_concat_none herror, keyOf_concat, hkey, h.key]

/-! ## The questions of a round -/

/-- What an iteration that asks for an endpoint of the bouncer at hand does. -/
theorem step_endpoint {valid : Bytes → Bool} {map : (Endpoint → Endpoint) → Cell → Cell}
    {cells : List Cell} {cell : Cell} (hbouncer : s.bouncer = some cells.length)
    (hheap : s.heap = cells ++ [cell])
    (hask : ask isValidHost { s with error := .none } e.input =
      askEndpoint { s with error := .none } valid map e.input)
    (hstage : e.stage = s.stage) (hstep : s.step isValidHost e.input = .ok s') :
    (EndpointValid valid e.value ∧ s' =
      { s with
        heap := cells ++ [map (fun _ => endpointOf e.value) cell]
        error := .none
        stage := s.stage.succ }) ∨
    (∃ cell', (cell' = cell ∨ ∃ f, cell' = map f cell) ∧
      s' = { s with heap := cells ++ [cell'], error := .value }) ∨
    (e.input.alloc = false ∧ s'.done = true ∧ s'.error = .strdup) := by
  have hvalue := e.promptInput_of_stage hstage
  have hupdate := update_last hbouncer hheap
  rw [step, hask, askEndpoint] at hstep
  simp only [hvalue] at hstep
  rcases readEndpoint_cases valid e.value e.input.alloc with
    ⟨hvalid, hread⟩ | herr | ⟨herr, halloc, -⟩
  · rw [hread] at hstep
    simp only [hupdate, Mem.ok_bind, Mem.pure_eq_ok, next, Except.ok.injEq] at hstep
    exact Or.inl ⟨hvalid, hstep.symm⟩
  · rcases hread : readEndpoint valid e.value e.input.alloc with ⟨_ | f, err⟩
    · rw [hread] at hstep herr
      simp only at herr
      subst herr
      simp only [Mem.ok_bind, Mem.pure_eq_ok, next, Except.ok.injEq] at hstep
      exact Or.inr (Or.inl ⟨cell, Or.inl rfl, by rw [← hstep, ← hheap]⟩)
    · rw [hread] at hstep herr
      simp only at herr
      subst herr
      simp only [hupdate, Mem.ok_bind, Mem.pure_eq_ok, next, Except.ok.injEq] at hstep
      exact Or.inr (Or.inl ⟨map f cell, Or.inr ⟨f, rfl⟩, hstep.symm⟩)
  · rcases hread : readEndpoint valid e.value e.input.alloc with ⟨_ | f, err⟩
    all_goals
      rw [hread] at hstep herr
      simp only at herr
      subst herr
      simp only [hupdate, Mem.ok_bind, Mem.pure_eq_ok, next, Except.ok.injEq] at hstep
      subst hstep
      exact Or.inr (Or.inr ⟨halloc, rfl, rfl⟩)

/-- The stages whose questions are about the bouncer at hand. -/
def roundStages : List Stage := [.bouncerListen, .bouncerRemote, .bouncerLocal]

/-- An accepted answer about the bouncer at hand. -/
theorem Agrees.accept_draft (h : Agrees isValidHost log s rounds tail) (hdone : s.done = false)
    (hround : s.stage ∈ roundStages) (hbouncer : s.bouncer = some rounds.length)
    (hnumber : ∀ x ∈ tail, x.bouncer = s.bouncer) (hstage : e.stage = s.stage)
    (hmine : e.bouncer = s.bouncer) (herror : e.error = .none) (hvalid : e.Valid isValidHost)
    {cell : Cell} (hdraft : Drafted s.stage.succ (tail ++ [e]) cell.toBouncer) :
    Agrees isValidHost (log ++ [e])
      { s with
        heap := chain (rounds.map Round.bouncer) ++ [cell]
        error := .none
        stage := s.stage.succ } rounds (tail ++ [e]) := by
  refine h.accept herror hvalid rfl h.rounds_at h.bouncers ?_ h.idnt ?_ ?_
  · obtain ⟨stale, hstale⟩ := h.config
    refine ⟨0, ?_⟩
    simp only [roundStages, List.mem_cons, List.not_mem_nil, or_false] at hround
    rcases hround with hs | hs | hs <;>
      simpa only [hs, Stage.succ, setTimeout, Entry.apply, hstage] using hstale
  · rw [if_neg]
    rw [hstage]
    rintro hs
    rw [hs] at hround
    exact absurd hround (by decide)
  · refine .bouncer hdone hdraft ?_ hbouncer rfl
    intro x hx
    rcases List.mem_append.mp hx with hx | hx
    · exact hnumber x hx
    · rw [List.mem_singleton.mp hx, hmine]

/-- A refused answer about the bouncer at hand. -/
theorem Agrees.retry_draft (h : Agrees isValidHost log s rounds tail) (hdone : s.done = false)
    (hbouncer : s.bouncer = some rounds.length) (hnumber : ∀ x ∈ tail, x.bouncer = s.bouncer)
    (herror : e.error = .value) {cell : Cell} (hdraft : Drafted s.stage tail cell.toBouncer) :
    Agrees isValidHost (log ++ [e])
      { s with heap := chain (rounds.map Round.bouncer) ++ [cell], error := .value } rounds tail :=
  h.retry (by rw [herror]; nofun) rfl rfl (exists_setTimeout _ _) rfl
    (.bouncer hdone hdraft hnumber hbouncer rfl)

/-- The iterations that ask for an address and a port. -/
theorem Agrees.step_endpoint (h : Agrees isValidHost log s rounds tail) (valid : Bytes → Bool)
    (map : (Endpoint → Endpoint) → Cell → Cell) {cell : Cell}
    (hdone : s.done = false) (hround : s.stage ∈ roundStages)
    (hbouncer : s.bouncer = some rounds.length)
    (hheap : s.heap = chain (rounds.map Round.bouncer) ++ [cell])
    (hnumber : ∀ x ∈ tail, x.bouncer = s.bouncer)
    (hask : ask isValidHost { s with error := .none } e.input =
      Editor.askEndpoint { s with error := .none } valid map e.input)
    (hvalid : EndpointValid valid e.value → e.Valid isValidHost)
    (haccept :
      Drafted s.stage.succ (tail ++ [e]) (map (fun _ => endpointOf e.value) cell).toBouncer)
    (hretry : ∀ f, Drafted s.stage tail (map f cell).toBouncer)
    (hkeep : Drafted s.stage tail cell.toBouncer) (hstep : Step isValidHost s e s') :
    Inv isValidHost (log ++ [e]) s' ∨ (e.input.alloc = false ∧ Aborted s') := by
  obtain ⟨-, hstep, hstage, hmine, herror⟩ := hstep
  have hlast : s.bouncer = some (chain (rounds.map Round.bouncer)).length := by simpa using hbouncer
  rcases Editor.step_endpoint hlast hheap hask hstage hstep with
    ⟨hok, rfl⟩ | ⟨cell', hcell, rfl⟩ | ⟨halloc, hdone', hstrdup⟩
  · exact Or.inl ⟨rounds, tail ++ [e], h.accept_draft hdone hround hbouncer hnumber hstage hmine
      herror (hvalid hok) haccept⟩
  · refine Or.inl ⟨rounds, tail, h.retry_draft hdone hbouncer hnumber herror ?_⟩
    rcases hcell with rfl | ⟨f, rfl⟩
    · exact hkeep
    · exact hretry f
  · exact Or.inr ⟨halloc, hdone', by rw [hstrdup]; nofun⟩

/-- What the iteration that asks for the local ip does to a bouncer that has none yet. -/
theorem step_local {cells : List Cell} {cell : Cell} (hbouncer : s.bouncer = some cells.length)
    (hheap : s.heap = cells ++ [cell]) (hlocal : cell.localIP = none)
    (hs : s.stage = .bouncerLocal) (hstage : e.stage = s.stage)
    (hstep : s.step isValidHost e.input = .ok s') :
    ((strcasecmpEq e.value (ascii "None") = true ∨ isValidIP e.value = true) ∧ s' =
      { s with
        heap := cells ++ [{ cell with localIP := localOf e.value }]
        error := .none
        stage := s.stage.succ }) ∨
    s' = { s with error := .value } ∨
    (e.input.alloc = false ∧ s'.done = true ∧ s'.error = .strdup) := by
  have hvalue := e.promptInput_of_stage hstage
  have hask : ask isValidHost { s with error := .none } e.input =
      askLocal { s with error := .none } e.input := by
    simp only [ask, hs]
  rw [step, hask, askLocal] at hstep
  simp only [hvalue] at hstep
  by_cases hnone : strcasecmpEq e.value (ascii "None") = true
  · rw [if_pos hnone] at hstep
    obtain rfl := Except.ok.inj hstep
    have hcell : { cell with localIP := localOf e.value } = cell := by
      rw [localOf, if_pos hnone, ← hlocal]
    refine Or.inl ⟨Or.inl hnone, ?_⟩
    rw [hcell, ← hheap]
    rfl
  · rw [if_neg hnone] at hstep
    by_cases hip : isValidIP e.value = true
    · rw [if_pos hip, update_last hbouncer hheap, Mem.ok_bind] at hstep
      rcases halloc : e.input.alloc with _ | _
      · rw [halloc] at hstep
        obtain rfl := Except.ok.inj hstep
        exact Or.inr (Or.inr ⟨rfl, rfl, rfl⟩)
      · rw [halloc] at hstep
        obtain rfl := Except.ok.inj hstep
        refine Or.inl ⟨Or.inr hip, ?_⟩
        rw [localOf, if_neg hnone]
        rfl
    · rw [if_neg hip] at hstep
      obtain rfl := Except.ok.inj hstep
      exact Or.inr (Or.inl rfl)

/-- The iterations that ask for the local ip. -/
theorem Agrees.step_local (h : Agrees isValidHost log s rounds tail) {cell : Cell}
    (hdone : s.done = false) (hs : s.stage = .bouncerLocal)
    (hbouncer : s.bouncer = some rounds.length)
    (hheap : s.heap = chain (rounds.map Round.bouncer) ++ [cell])
    (hnumber : ∀ x ∈ tail, x.bouncer = s.bouncer) (hlocal : cell.localIP = none)
    (haccept : Drafted .bouncerAnother (tail ++ [e])
      { cell.toBouncer with localIP := localOf e.value })
    (hkeep : Drafted s.stage tail cell.toBouncer) (hstep : Step isValidHost s e s') :
    Inv isValidHost (log ++ [e]) s' ∨ (e.input.alloc = false ∧ Aborted s') := by
  obtain ⟨-, hstep, hstage, hmine, herror⟩ := hstep
  have hlast : s.bouncer = some (chain (rounds.map Round.bouncer)).length := by simpa using hbouncer
  have hround : s.stage ∈ roundStages := by
    rw [hs]
    decide
  rcases Editor.step_local hlast hheap hlocal hs hstage hstep with
    ⟨hvalid, rfl⟩ | rfl | ⟨halloc, hdone', hstrdup⟩
  · refine Or.inl ⟨rounds, tail ++ [e], h.accept_draft hdone hround hbouncer hnumber hstage hmine
      herror (by rw [Entry.Valid, hstage, hs]; exact hvalid) ?_⟩
    rw [hs]
    exact haccept
  · have hagrees := h.retry_draft hdone hbouncer hnumber herror hkeep
    rw [← hheap] at hagrees
    exact Or.inl ⟨rounds, tail, hagrees⟩
  · exact Or.inr ⟨halloc, hdone', by rw [hstrdup]; nofun⟩

/-- The round that an answer at `STAGE_BOUNCER_ANOTHER` finishes. -/
theorem rounds_at_concat {r : Round} (hat : ∀ (i : ℕ) (r : Round), rounds[i]? = some r → r.At i)
    (hr : r.At rounds.length) :
    ∀ (i : ℕ) (r' : Round), (rounds ++ [r])[i]? = some r' → r'.At i := by
  intro i r' hi
  rcases Nat.lt_trichotomy i rounds.length with hlt | rfl | hgt
  · exact hat i r' (by rwa [List.getElem?_append_left hlt] at hi)
  · rw [List.getElem?_concat_length] at hi
    rwa [← Option.some.inj hi]
  · rw [List.getElem?_eq_none (by simp; omega)] at hi
    cases hi

/-- What the iteration that asks for another bouncer does, once the bouncer at hand is finished. -/
theorem step_another {cells : List Cell} {cell : Cell} (hbouncer : s.bouncer = some cells.length)
    (hheap : s.heap = cells ++ [cell]) (hs : s.stage = .bouncerAnother)
    (hstage : e.stage = s.stage) (hstep : s.step isValidHost e.input = .ok s') :
    (strcasecmpEq e.value (ascii "yes") = true ∧ e.input.alloc = true ∧ s' =
      { s with
        heap := cells ++ [{ cell with next := s.bouncers }] ++ [Cell.new]
        bouncers := s.bouncer
        bouncer := some (cells.length + 1)
        stage := .bouncerListen
        error := .none }) ∨
    (strcasecmpEq e.value (ascii "no") = true ∧ s' =
      { s with
        heap := cells ++ [{ cell with next := s.bouncers }]
        bouncers := s.bouncer
        bouncer := none
        stage := .identTimeout
        error := .none }) ∨
    (¬ (e.Answered ∧ e.input.alloc = true) ∧ s'.done = s.done ∧ s'.bouncer = none ∧
      (s'.stage = .bouncerListen ∨ s'.stage = s.stage)) := by
  have hupdate := update_last hbouncer hheap
  have hvalue := e.promptInput_of_stage hstage
  have hask : ask isValidHost { s with error := .none } e.input =
      askAnother { s with error := .none } e.input := by
    simp only [ask, hs]
  rw [step, hask, askAnother, hupdate, Mem.ok_bind] at hstep
  simp only [hvalue] at hstep
  by_cases hyes : strcasecmpEq e.value (ascii "yes") = true
  · rw [if_pos hyes] at hstep
    rcases halloc : e.input.alloc with _ | _
    · rw [halloc] at hstep
      obtain rfl := Except.ok.inj hstep
      exact Or.inr (Or.inr ⟨by simp, rfl, rfl, Or.inl rfl⟩)
    · rw [halloc] at hstep
      obtain rfl := Except.ok.inj hstep
      refine Or.inl ⟨hyes, rfl, ?_⟩
      simp [newBouncer, next, Stage.succ]
  · rw [if_neg hyes] at hstep
    by_cases hno : strcasecmpEq e.value (ascii "no") = true
    · rw [if_pos hno] at hstep
      obtain rfl := Except.ok.inj hstep
      refine Or.inr (Or.inl ⟨hno, ?_⟩)
      simp [next, hs, Stage.succ]
    · rw [if_neg hno] at hstep
      obtain rfl := Except.ok.inj hstep
      refine Or.inr (Or.inr ⟨?_, rfl, rfl, Or.inr rfl⟩)
      rintro ⟨hanswered, -⟩
      rcases hanswered (hstage.trans hs) with h | h
      · exact hyes h
      · exact hno h

/-- An accepted answer to the last question of a round. -/
theorem Agrees.accept_round {l r o : Entry} (h : Agrees isValidHost log s rounds [l, r, o])
    (hs : s.stage = .bouncerAnother) (hbouncer : s.bouncer = some rounds.length)
    (hnumber : ∀ x ∈ [l, r, o], x.bouncer = s.bouncer) (hl : l.stage = .bouncerListen)
    (hr : r.stage = .bouncerRemote) (ho : o.stage = .bouncerLocal) (hstage : e.stage = s.stage)
    (hmine : e.bouncer = s.bouncer) (herror : e.error = .none) (hvalid : e.Valid isValidHost)
    (hbouncers : s'.bouncers = s.bouncer) (hconfig : s'.config = s.config) (hkey : s'.key = s.key)
    (hphase : Phase (rounds ++ [⟨l, r, o, e⟩]) [] s') :
    Agrees isValidHost (log ++ [e]) s' (rounds ++ [⟨l, r, o, e⟩]) [] := by
  have hat : Round.At ⟨l, r, o, e⟩ rounds.length := by
    refine ⟨by simp only [Round.entries, List.map_cons, List.map_nil, hl, hr, ho, hstage, hs], ?_⟩
    intro x hx
    rcases List.mem_append.mp (show x ∈ [l, r, o] ++ [e] from hx) with hx | hx
    · rw [hnumber x hx, hbouncer]
    · rw [List.mem_singleton.mp hx, hmine, hbouncer]
  refine h.accept herror hvalid ?_ (rounds_at_concat h.rounds_at hat) ?_ ?_ ?_ ?_ hphase
  · simp [Round.entries]
  · rw [List.length_append, List.length_singleton, top, hbouncers]
    exact hbouncer
  · -- the question is about no option
    obtain ⟨stale, hstale⟩ := h.config
    obtain ⟨i, hi⟩ := exists_setTimeout s'.stage s'.config
    refine ⟨i, hi.trans ?_⟩
    rw [hconfig, Entry.apply, hstage, hs, hstale, hs]
    rfl
  · rw [hconfig]
    exact h.idnt
  · rw [if_neg (by rw [hstage, hs]; nofun), hkey]

/-- The bouncer that is finished is linked in front of the ones before it. -/
theorem Agrees.chain_concat {l r o : Entry} (h : Agrees isValidHost log s rounds tail) {cell : Cell}
    (hcell : cell.toBouncer = bouncerOf l r o) :
    chain (rounds.map Round.bouncer) ++ [{ cell with next := s.bouncers }] =
      chain ((rounds ++ [(⟨l, r, o, e⟩ : Round)]).map Round.bouncer) := by
  have hlink : ({ cell with next := s.bouncers } : Cell) =
      { bouncerOf l r o with next := top (rounds.map Round.bouncer).length } := by
    rw [← hcell, h.bouncers, List.length_map]
  rw [List.map_append, List.map_singleton, Editor.chain_concat, hlink]
  rfl

/-- The iterations that ask for another bouncer. The bouncer at hand is finished before the question
is asked, so it is lost when the answer is refused. -/
theorem Agrees.step_another {l r o : Entry} (h : Agrees isValidHost log s rounds [l, r, o])
    {cell : Cell} (hdone : s.done = false) (hs : s.stage = .bouncerAnother)
    (hbouncer : s.bouncer = some rounds.length)
    (hheap : s.heap = chain (rounds.map Round.bouncer) ++ [cell])
    (hnumber : ∀ x ∈ [l, r, o], x.bouncer = s.bouncer) (hl : l.stage = .bouncerListen)
    (hr : r.stage = .bouncerRemote) (ho : o.stage = .bouncerLocal)
    (hcell : cell.toBouncer = bouncerOf l r o) (hstep : Step isValidHost s e s') :
    Inv isValidHost (log ++ [e]) s' ∨
      (¬(e.Answered ∧ e.input.alloc = true) ∧ Stuck s') := by
  obtain ⟨-, hstep, hstage, hmine, herror⟩ := hstep
  have hlength : (chain (rounds.map Round.bouncer)).length = rounds.length := by simp
  have hlast : s.bouncer = some (chain (rounds.map Round.bouncer)).length := by
    rw [hbouncer, hlength]
  have hchain := h.chain_concat (e := e) hcell
  have hvalid : e.Answered → e.Valid isValidHost := by
    intro hanswered
    rw [Entry.Valid, hstage, hs]
    exact hanswered (hstage.trans hs)
  rcases Editor.step_another hlast hheap hs hstage hstep with
    ⟨hyes, -, rfl⟩ | ⟨hno, rfl⟩ | ⟨hnot, hdone', hnone, hstage'⟩
  · refine Or.inl ⟨_, _, h.accept_round hs hbouncer hnumber hl hr ho hstage hmine herror
      (hvalid fun _ => Or.inl hyes) rfl rfl rfl ?_⟩
    have hheap' := congrArg (· ++ [Cell.new]) hchain
    exact .bouncer hdone (.listen rfl) (by simp) (by simp) hheap'
  · refine Or.inl ⟨_, _, h.accept_round hs hbouncer hnumber hl hr ho hstage hmine herror
      (hvalid fun _ => Or.inr hno) rfl rfl rfl ?_⟩
    have hoption : Stage.identTimeout ∈ optionStages := by decide
    exact .option hdone hoption (by simp) rfl rfl hchain
  · refine Or.inr ⟨hnot, hdone'.trans hdone, hnone, ?_⟩
    rw [hs] at hstage'
    exact hstage'

/-! ## The questions about options -/

/-- What an iteration about an option does: it takes the answer over, or refuses it, or runs out of
memory. A timeout that is refused may have been stored. -/
inductive OptionStep (isValidHost : Option Bytes → Bool) (s : Editor) (e : Entry) : Editor → Prop
  | accept {config : Options} {key : Bytes} {done : Bool} (hvalid : e.Valid isValidHost)
      (hconfig : config = Entry.apply s.config e)
      (hkey : key = if e.stage = .password then strncpy s.key (getpass e.input.line) 16 else s.key)
      (hdone : done = decide (s.stage = .past)) : OptionStep isValidHost s e
        { s with config := config, key := key, done := done, error := .none, stage := s.stage.succ }
  | retry {config : Options} {err : Error} (hconfig : ∃ i, config = setTimeout s.stage i s.config)
      (herr : err ≠ .none) : OptionStep isValidHost s e { s with config := config, error := err }
  | abort {s' : Editor} (halloc : e.input.alloc = false) (hs' : Aborted s') :
      OptionStep isValidHost s e s'

theorem value_eq (hstage : e.stage = s.stage) :
    promptInput s.stage.defaultValue e.input.line = e.value := by
  rw [Entry.value, hstage]

/-- The three questions about timeouts. -/
theorem optionStep_timeout (hdone : s.done = false)
    (hs : s.stage = .identTimeout ∨ s.stage = .idleTimeout ∨ s.stage = .writeTimeout)
    (hstage : e.stage = s.stage) :
    OptionStep isValidHost s e (askTimeout { s with error := .none } e.input).next := by
  simp only [askTimeout, value_eq hstage]
  by_cases hempty : e.value = []
  · rw [if_pos hempty]
    exact .retry (exists_setTimeout _ _) nofun
  · rw [if_neg hempty]
    rcases hint : strToInt e.value with _ | i
    · exact .retry (exists_setTimeout _ _) nofun
    · by_cases hneg : i < 0
      · simp only [if_pos hneg]
        exact .retry ⟨i, rfl⟩ nofun
      · simp only [if_neg hneg]
        refine .accept ?_ ?_ ?_ ?_
        · rw [Entry.Valid, hstage]
          rcases hs with hs | hs | hs <;> rw [hs] <;> exact ⟨i, hint, not_lt.mp hneg⟩
        · rw [Entry.apply, hstage]
          rcases hs with hs | hs | hs <;> rw [hs] <;> simp only [hint]
        · rw [hstage]
          rcases hs with hs | hs | hs <;> rw [hs] <;> rfl
        · rw [hdone]
          rcases hs with hs | hs | hs <;> rw [hs] <;> rfl

/-- The question about the lookup of host names. -/
theorem optionStep_bool (hdone : s.done = false) (hs : s.stage = .dnsLookup)
    (hstage : e.stage = s.stage) :
    OptionStep isValidHost s e (askBool { s with error := .none } e.input).next := by
  simp only [askBool, value_eq hstage]
  rcases hbool : parseBool e.value with _ | value
  · exact .retry (exists_setTimeout _ _) nofun
  · refine .accept ?_ ?_ ?_ ?_
    · rw [Entry.Valid, hstage, hs]
      exact ⟨value, hbool⟩
    · rw [Entry.apply, hstage, hs]
      simp only [hbool]
    · rw [hstage, hs]
      rfl
    · rw [hdone, hs]
      rfl

/-- The questions about texts. -/
theorem optionStep_string (hdone : s.done = false)
    (hs : s.stage = .pidFile ∨ s.stage = .welcomeMsg) (hstage : e.stage = s.stage) :
    OptionStep isValidHost s e (askString { s with error := .none } e.input).next := by
  have hvalid : e.Valid isValidHost := by
    rw [Entry.Valid, hstage]
    rcases hs with hs | hs <;> rw [hs] <;> trivial
  have hkey : s.key =
      if e.stage = .password then strncpy s.key (getpass e.input.line) 16 else s.key := by
    rw [hstage]
    rcases hs with hs | hs <;> rw [hs] <;> rfl
  have hpast : s.done = decide (s.stage = .past) := by
    rw [hdone]
    rcases hs with hs | hs <;> rw [hs] <;> rfl
  simp only [askString, value_eq hstage]
  by_cases hnone : e.value = ascii "none"
  · rw [if_pos hnone]
    refine .accept hvalid ?_ hkey hpast
    rw [Entry.apply, hstage]
    rcases hs with hs | hs <;> simp only [hs, if_pos hnone]
  · rw [if_neg hnone]
    by_cases halloc : e.input.alloc = true
    · rw [if_pos halloc]
      refine .accept hvalid ?_ hkey hpast
      rw [Entry.apply, hstage]
      rcases hs with hs | hs <;> simp only [hs, if_neg hnone]
    · rw [if_neg halloc]
      exact .abort (by simpa using halloc) ⟨rfl, nofun⟩

/-- The question for the password. -/
theorem optionStep_password (hdone : s.done = false) (hs : s.stage = .password)
    (hstage : e.stage = s.stage) :
    OptionStep isValidHost s e (askPassword { s with error := .none } e.input).next := by
  rw [askPassword]
  by_cases hlen : minimumPasslen ≤ (getpass e.input.line).length
  · simp only [if_pos hlen]
    refine .accept ?_ ?_ ?_ ?_
    · rw [Entry.Valid, hstage, hs]
      exact hlen
    · rw [Entry.apply, hstage, hs]
    · rw [hstage, if_pos hs]
    · rw [hdone, hs]
      rfl
  · simp only [if_neg hlen]
    exact .retry (exists_setTimeout _ _) nofun

/-- The switch over the errors comes last. -/
theorem OptionStep.of_ask {s₁ : Editor} (hopt : OptionStep isValidHost s e s₁.next)
    (hask : ask isValidHost { s with error := .none } e.input = .ok s₁)
    (hstep : s.step isValidHost e.input = .ok s') : OptionStep isValidHost s e s' := by
  rw [step, hask] at hstep
  rwa [← Except.ok.inj hstep]

/-- **What an iteration past the rounds does**, whatever its question is. -/
theorem optionStep (hs : s.stage ∈ optionStages) (hidnt : s.config.idnt = true)
    (hstep : Step isValidHost s e s') : OptionStep isValidHost s e s' := by
  obtain ⟨hdone, hstep, hstage, -, -⟩ := hstep
  simp only [optionStages, List.mem_cons, List.not_mem_nil, or_false] at hs
  rcases hs with hs | hs | hs | hs | hs | hs | hs | hs
  · refine (optionStep_timeout hdone (Or.inl hs) hstage).of_ask ?_ hstep
    simp only [ask, hs, hidnt, if_true]
    rfl
  · refine (optionStep_timeout hdone (Or.inr (Or.inl hs)) hstage).of_ask ?_ hstep
    simp only [ask, hs]
    rfl
  · refine (optionStep_timeout hdone (Or.inr (Or.inr hs)) hstage).of_ask ?_ hstep
    simp only [ask, hs]
    rfl
  · refine (optionStep_bool hdone hs hstage).of_ask ?_ hstep
    simp only [ask, hs]
    rfl
  · refine (optionStep_string hdone (Or.inl hs) hstage).of_ask ?_ hstep
    simp only [ask, hs]
    rfl
  · refine (optionStep_string hdone (Or.inr hs) hstage).of_ask ?_ hstep
    simp only [ask, hs]
    rfl
  · refine (optionStep_password hdone hs hstage).of_ask ?_ hstep
    simp only [ask, hs]
    rfl
  · -- the loop ends
    have hend : OptionStep isValidHost s e (next { s with error := .none, done := true }) := by
      refine .accept ?_ ?_ ?_ ?_
      · rw [Entry.Valid, hstage, hs]
        trivial
      · rw [Entry.apply, hstage, hs]
      · rw [hstage, hs]
        rfl
      · rw [hs]
        rfl
    refine hend.of_ask ?_ hstep
    simp only [ask, hs]
    rfl

/-- An accepted answer overwrites what a refused one left behind. -/
theorem apply_setTimeout (hvalid : e.Valid isValidHost) (stale : ℤ) (config : Options) :
    Entry.apply (setTimeout e.stage stale config) e = Entry.apply config e := by
  unfold Entry.apply
  rcases hs : e.stage <;> try rfl
  all_goals
    rw [Entry.Valid, hs] at hvalid
    obtain ⟨i, hi, -⟩ := hvalid
    simp only [hi, setTimeout]

/-- An answer about an option leaves `idnt` alone unless it is about it. -/
theorem idnt_apply (hs : e.stage ≠ .idnt) (config : Options) :
    (Entry.apply config e).idnt = config.idnt := by
  have htimeout : ∀ q i, (setTimeout q i config).idnt = config.idnt := by
    intro q i
    cases q <;> rfl
  have hstring : ∀ q value, (setString q value config).idnt = config.idnt := by
    intro q value
    cases q <;> rfl
  have hbool : ∀ q value, q ≠ .idnt → (setBool q value config).idnt = config.idnt := by
    intro q value hq
    cases q <;> first | rfl | exact absurd rfl hq
  simp only [Entry.apply]
  split
  all_goals first
    | rfl
    | (split <;> first | rfl | exact htimeout _ _ | exact hstring _ _ | exact hbool _ _ hs)

/-- The iterations past the rounds. -/
theorem Agrees.step_option (h : Agrees isValidHost log s rounds tail) (hs : s.stage ∈ optionStages)
    (hrounds : rounds ≠ []) (htail : tail.map Entry.stage = optionStages.takeWhile (· ≠ s.stage))
    (hbouncer : s.bouncer = none) (hheap : s.heap = chain (rounds.map Round.bouncer))
    (hstep : Step isValidHost s e s') :
    Inv isValidHost (log ++ [e]) s' ∨ (e.input.alloc = false ∧ Aborted s') := by
  have hopt := optionStep hs h.idnt hstep
  obtain ⟨hdone, -, hstage, hmine, herror⟩ := hstep
  cases hopt with
  | @accept config key done hvalid hconfig hkey hdone' =>
      refine Or.inl ⟨rounds, tail ++ [e], h.accept herror hvalid rfl h.rounds_at h.bouncers ?_ ?_
        hkey ?_⟩
      · obtain ⟨stale, hstale⟩ := h.config
        obtain ⟨i, hi⟩ := exists_setTimeout s.stage.succ config
        refine ⟨i, hi.trans ?_⟩
        rw [hconfig, hstale, ← hstage, apply_setTimeout hvalid]
      · simp only
        rw [hconfig, idnt_apply, h.idnt]
        rw [hstage]
        rintro hidnt
        rw [hidnt] at hs
        exact absurd hs (by decide)
      · have hstages : (tail ++ [e]).map Entry.stage =
            optionStages.takeWhile (· ≠ s.stage) ++ [s.stage] := by
          rw [List.map_append, htail, List.map_singleton, hstage]
        by_cases hpast : s.stage = .past
        · refine .finished (by simp [hdone', hpast]) (by simp only [hpast]; rfl) hrounds ?_ hbouncer
            hheap
          rw [hstages, hpast]
          decide
        · refine .option (by simp [hdone', hpast]) ?_ hrounds ?_ hbouncer hheap
          · simp only [optionStages, List.mem_cons, List.not_mem_nil, or_false] at hs
            rcases hs with hs | hs | hs | hs | hs | hs | hs | hs <;> simp only [hs] <;> decide
          · rw [hstages]
            simp only [optionStages, List.mem_cons, List.not_mem_nil, or_false] at hs
            rcases hs with hs | hs | hs | hs | hs | hs | hs | hs <;> simp only [hs] <;>
              first | decide | exact absurd hs hpast
  | @retry config err hconfig herr =>
      exact Or.inl ⟨rounds, tail, h.retry (by rw [herror]; exact herr) rfl rfl hconfig rfl
        (.option hdone hs hrounds htail hbouncer hheap)⟩
  | abort halloc hs' => exact Or.inr ⟨halloc, hs'⟩

/-! ## The runs -/

/-- **Every iteration keeps the agreement** unless it loses the bouncer at hand or runs out of
memory. -/
theorem Inv.step (h : Inv isValidHost log s) (hstep : Step isValidHost s e s') :
    Inv isValidHost (log ++ [e]) s' ∨ (¬(e.Answered ∧ e.input.alloc = true) ∧ Stuck s') ∨
      (e.input.alloc = false ∧ Aborted s') := by
  obtain ⟨rounds, tail, h⟩ := h
  cases h.phase with
  | @bouncer cell hdone hdraft hnumber hbouncer hheap =>
      have hround := hdraft
      generalize hq : s.stage = q at hround
      generalize hb : cell.toBouncer = b at hround
      cases hround with
      | listen hlocal =>
          subst hb
          refine (h.step_endpoint isValidIP Cell.mapListen hdone
            (by rw [hq]; decide) hbouncer hheap hnumber (by simp only [ask, hq]) ?_ ?_ ?_ hdraft
            hstep).imp_right Or.inr
          · intro hv
            rw [Entry.Valid, hstep.2.2.1, hq]
            exact hv
          · rw [hq]
            exact .remote (hstep.2.2.1.trans hq) rfl hlocal
          · intro f
            rw [hq]
            exact .listen hlocal
      | remote hl hlisten hlocal =>
          subst hb
          refine (h.step_endpoint (fun host => isValidHost (some host)) Cell.mapRemote hdone
            (by rw [hq]; decide) hbouncer hheap hnumber
            (by simp only [ask, hq]) ?_ ?_ ?_ hdraft hstep).imp_right Or.inr
          · intro hv
            rw [Entry.Valid, hstep.2.2.1, hq]
            exact hv
          · rw [hq]
            exact .localIP hl (hstep.2.2.1.trans hq) hlisten rfl hlocal
          · intro f
            rw [hq]
            exact .remote hl hlisten hlocal
      | localIP hl hr hlisten hremote hlocal =>
          subst hb
          refine (h.step_local hdone hq hbouncer hheap hnumber hlocal
            (.another hl hr (hstep.2.2.1.trans hq) ?_) hdraft hstep).imp_right Or.inr
          rw [bouncerOf, ← hlisten, ← hremote]
      | another hl hr ho hcell =>
          exact (h.step_another hdone hq hbouncer hheap hnumber hl hr ho (hb.trans hcell)
            hstep).imp_right Or.inl
  | option hdone hs hrounds htail hbouncer hheap =>
      exact (h.step_option hs hrounds htail hbouncer hheap hstep).imp_right Or.inr
  | finished hdone => exact absurd hstep.1 (by simp [hdone])

/-- A run that lost the bouncer at hand never gets past the question it is at. -/
theorem Stuck.step (h : Stuck s) (hstep : Step isValidHost s e s') : Stuck s' := by
  obtain ⟨hdone, hbouncer, hs | hs⟩ := h
  · obtain ⟨-, hstep, -⟩ := hstep
    have hask : ask isValidHost { s with error := .none } e.input =
        askEndpoint { s with error := .none } isValidIP Cell.mapListen e.input := by
      simp only [ask, hs]
    rw [Editor.step, hask, askEndpoint] at hstep
    simp only at hstep
    generalize promptInput s.stage.defaultValue e.input.line = value at hstep
    rcases hread : readEndpoint isValidIP value e.input.alloc with ⟨_ | f, err⟩
    · -- nothing was written, so the answer was refused
      have herr : err = .value := by
        rcases readEndpoint_cases isValidIP value e.input.alloc with ⟨-, hr⟩ | hr | ⟨-, -, hr⟩
        · rw [hread] at hr
          cases hr
        · rwa [hread] at hr
        · rw [hread] at hr
          exact absurd rfl hr
      rw [hread] at hstep
      subst herr
      obtain rfl := Except.ok.inj hstep
      exact ⟨hdone, hbouncer, Or.inl hs⟩
    · rw [hread] at hstep
      simp only [update, hbouncer, Mem.throw_eq_error, Mem.error_bind] at hstep
      cases hstep
  · obtain ⟨-, hstep, -⟩ := hstep
    have hask : ask isValidHost { s with error := .none } e.input =
        askAnother { s with error := .none } e.input := by
      simp only [ask, hs]
    rw [Editor.step, hask, askAnother] at hstep
    simp only [update, hbouncer, Mem.throw_eq_error, Mem.error_bind] at hstep
    cases hstep

/-- The first bouncer is at hand. -/
theorem start_inv : Inv isValidHost [] (start true) := by
  refine ⟨[], [], rfl, by simp [accepted], by simp, rfl, ⟨0, rfl⟩, rfl, rfl, ?_⟩
  exact .bouncer rfl (.listen rfl) (by simp) rfl rfl

/-- **Every run** agrees with its accepted answers, or has lost the bouncer at hand, which takes an
answer that is neither yes nor no or an allocation that failed, or ran out of memory. -/
theorem run_cases {alloc : Bool} (h : Run isValidHost alloc log s) :
    Inv isValidHost log s ∨
      (¬(alloc = true ∧ ∀ x ∈ log, x.Answered ∧ x.input.alloc = true) ∧ (Stuck s ∨ Aborted s)) := by
  refine Path.invariant (I := fun log s => Inv isValidHost log s ∨
    (¬(alloc = true ∧ ∀ x ∈ log, x.Answered ∧ x.input.alloc = true) ∧
      (Stuck s ∨ Aborted s))) ?_ ?_ h
  · cases alloc with
    | true => exact Or.inl start_inv
    | false => exact Or.inr ⟨by simp, Or.inl ⟨rfl, rfl, Or.inl rfl⟩⟩
  · intro es s₁ x s₂ _ ih hstep
    have hlast : x ∈ es ++ [x] := by simp
    rcases ih with hinv | ⟨hbad, hstuck | habort⟩
    · rcases hinv.step hstep with hinv' | ⟨hlost, hstuck⟩ | ⟨halloc, habort⟩
      · exact Or.inl hinv'
      · exact Or.inr ⟨fun hall => hlost (hall.2 x hlast), Or.inl hstuck⟩
      · exact Or.inr ⟨fun hall => by simpa [halloc] using (hall.2 x hlast).2, Or.inr habort⟩
    · refine Or.inr ⟨fun hall => hbad ⟨hall.1, fun y hy => hall.2 y ?_⟩, Or.inl (hstuck.step hstep)⟩
      exact List.mem_append_left _ hy
    · exact absurd hstep.1 (by simp [habort.1])

/-- **A run that ends well** agrees with its accepted answers: some rounds, and then one answer to
each of the questions about options. -/
theorem Completed.agrees {alloc : Bool} (hc : s.Completed) (h : Run isValidHost alloc log s) :
    ∃ rounds tail, Agrees isValidHost log s rounds tail ∧ rounds ≠ [] ∧
      tail.map Entry.stage = optionStages ∧ s.heap = chain (rounds.map Round.bouncer) ∧
      s.stage = .past := by
  rcases run_cases h with ⟨rounds, tail, hagrees⟩ | ⟨-, hstuck | habort⟩
  · refine ⟨rounds, tail, hagrees, ?_⟩
    cases hagrees.phase with
    | bouncer hdone => exact absurd hc.1 (by simp [hdone])
    | option hdone => exact absurd hc.1 (by simp [hdone])
    | finished hdone hstage hrounds htail hbouncer hheap => exact ⟨hrounds, htail, hheap, hstage⟩
  · exact absurd hc.1 (by simp [hstuck.1])
  · exact absurd hc.2 habort.2

/-- What such a run built: the bouncers of its rounds, the last one first, and the options of its
accepted answers. -/
theorem Agrees.built (h : Agrees isValidHost log s rounds tail)
    (hheap : s.heap = chain (rounds.map Round.bouncer)) :
    s.built = some { s.config with bouncers := (rounds.map Round.bouncer).reverse } := by
  have hwalk := walk_chain (rounds.map Round.bouncer) [] (le_refl _)
  rw [List.append_nil, List.length_map] at hwalk
  rw [Editor.built, hheap, length_chain, List.length_map, h.bouncers, hwalk]
  rfl

end step

end Editor

end Ebbnc
