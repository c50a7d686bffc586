import Ebbnc.EditorRuns

/-!
# What the prompt loop guarantees

* `Linked` — the bouncers of a list in memory; `linked_chain` — those the finished rounds leave.
* `Safe` — the bouncer at hand is there and in no list yet, the list is the bouncers whose questions
  were answered, and no iteration faults.
* **`safe_iff_answered`** — a run is safe throughout exactly when every answer to "Another
  bouncer?" was yes or no.
* `replay` — runs evaluated on concrete input.
* **`not_asksEveryQuestion`** — no run that ends well asks every question: the step after the last
  bouncer skips `STAGE_IDNT`. `Completed.answers` says which questions it does ask.
-/

namespace Ebbnc

open Lib

namespace Editor

/-! ## Lists in memory -/

/-- The positions of the bouncers that a list starting at a pointer consists of; there are none when
the pointers run in a circle. -/
inductive Linked (heap : List Cell) : Option ℕ → List ℕ → Prop
  | nil : Linked heap none []
  | cons {a : ℕ} {cell : Cell} {as : List ℕ} (hcell : heap[a]? = some cell)
      (hnext : Linked heap cell.next as) : Linked heap (some a) (a :: as)

/-- A pointer determines its list. -/
theorem Linked.unique {heap : List Cell} {p : Option ℕ} {as bs : List ℕ} (h : Linked heap p as)
    (h' : Linked heap p bs) : as = bs := by
  induction h generalizing bs with
  | nil =>
      cases h'
      rfl
  | cons hcell _ ih =>
      cases h' with
      | cons hcell' hnext' =>
          rw [hcell] at hcell'
          obtain rfl := Option.some.inj hcell'
          rw [ih hnext']

/-- The cell of a finished round. -/
theorem getElem?_chain {bs : List Bouncer} (more : List Cell) {i : ℕ} (h : i < bs.length) :
    ∃ cell : Cell, (chain bs ++ more)[i]? = some cell ∧ cell.next = top i := by
  rw [List.getElem?_append_left (by simpa using h)]
  refine ⟨{ bs[i] with next := top i }, ?_, rfl⟩
  simp [chain, h]

/-- The finished rounds are listed, the last one first. -/
theorem linked_chain (bs : List Bouncer) (more : List Cell) {n : ℕ} (h : n ≤ bs.length) :
    Linked (chain bs ++ more) (top n) (List.range n).reverse := by
  induction n with
  | zero => exact .nil
  | succ n ih =>
      obtain ⟨cell, hcell, hnext⟩ := getElem?_chain more (show n < bs.length by omega)
      rw [List.range_succ, List.reverse_append, List.reverse_singleton, List.singleton_append]
      exact .cons hcell (hnext ▸ ih (by omega))

/-! ## Concrete runs -/

section replay

variable (isValidHost : Option Bytes → Bool)

/-- The iterations that a list of inputs leads through, and the state they lead to. -/
def replay (s : Editor) : List Input → Option (List Entry × Editor)
  | [] => some ([], s)
  | input :: inputs =>
      if s.done then none
      else
        match s.step isValidHost input with
        | .error _ => none
        | .ok s' => (replay s' inputs).map (.map (⟨s.stage, s.bouncer, input, s'.error⟩ :: ·) id)

/-- What is evaluated is a run. -/
theorem path_of_replay {s s' : Editor} {inputs : List Input} {log : List Entry}
    (h : replay isValidHost s inputs = some (log, s')) : Path (Step isValidHost) s log s' := by
  induction inputs generalizing s log with
  | nil =>
      obtain ⟨rfl, rfl⟩ := Prod.mk.inj (Option.some.inj h)
      exact .refl
  | cons input inputs ih =>
      rw [replay] at h
      split at h
      · cases h
      · next hdone =>
          split at h
          · cases h
          · next s₁ hs₁ =>
              obtain ⟨⟨log₁, s₂⟩, h₁, heq⟩ := Option.map_eq_some_iff.mp h
              obtain ⟨rfl, rfl⟩ := Prod.mk.inj heq
              exact (Path.single (e := ⟨s.stage, s.bouncer, input, s₁.error⟩)
                ⟨by simpa using hdone, hs₁, rfl, rfl, rfl⟩).trans (ih h₁)

/-- A run with what is evaluated about it. -/
theorem exists_run (inputs : List Input) (p : List Entry × Editor → Bool)
    (h : (replay isValidHost (start true) inputs).any p = true) :
    ∃ log s, replay isValidHost (start true) inputs = some (log, s) ∧
      Run isValidHost true log s ∧ p (log, s) = true := by
  cases hreplay : replay isValidHost (start true) inputs with
  | none =>
      rw [hreplay] at h
      cases h
  | some r =>
      rw [hreplay] at h
      exact ⟨r.1, r.2, rfl, path_of_replay isValidHost hreplay, h⟩

end replay

/-- A line typed while there is memory. -/
def typed (line : String) : Input := ⟨some (ascii line ++ [10]), true⟩

/-- A session with one bouncer, the default answers and a password. -/
def session : List Input :=
  [typed "1.2.3.4:21", typed "5.6.7.8:21", typed "9.9.9.9", typed "no", typed "", typed "",
    typed "", typed "", typed "", typed "", typed "password", typed ""]

/-- A session in which the question for another bouncer gets a third answer. -/
def refusedSession : List Input :=
  [typed "1.2.3.4:21", typed "5.6.7.8:21", typed "9.9.9.9", typed "maybe"]

/-! ## Safety -/

section

variable (isValidHost : Option Bytes → Bool)

/-- The stages of a round. -/
def handStages : List Stage :=
  [.bouncerListen, .bouncerRemote, .bouncerLocal, .bouncerAnother]

/-- The three questions about a bouncer were answered acceptably. -/
def AnsweredAll (log : List Entry) (a : ℕ) : Prop :=
  ∀ q ∈ roundStages, ∃ e ∈ log, e.stage = q ∧ e.bouncer = some a ∧ e.error = .none

/-- What should hold at the top of the loop. In the middle of a round the bouncer at hand is there
and not yet listed. The list is finite, and it consists of the bouncers whose three questions were
answered acceptably but for the one that is about to be put into it. No input makes the next
iteration fault. -/
structure Safe (log : List Entry) (s : Editor) : Prop where
  hand : s.stage ∈ handStages → ∃ a cell, s.bouncer = some a ∧ s.heap[a]? = some cell ∧
    ∀ as, Linked s.heap s.bouncers as → a ∉ as
  list : ∃ as, Linked s.heap s.bouncers as ∧ as.Nodup ∧
    ∀ a, (a ∈ as ∨ s.stage = .bouncerAnother ∧ s.bouncer = some a) ↔ AnsweredAll log a
  noFault : ∀ input, ∃ s', s.step isValidHost input = .ok s'

end

section safe

variable {isValidHost : Option Bytes → Bool} {log : List Entry} {s s' : Editor} {e : Entry}

/-- A write through a bouncer that is there does not fault. -/
theorem update_ok {a : ℕ} {cell : Cell} (hbouncer : s.bouncer = some a)
    (hcell : s.heap[a]? = some cell) (f : Cell → Cell) :
    s.update f = .ok { s with heap := s.heap.set a (f cell) } := by
  simp only [update, hbouncer, hcell]
  rfl

/-- An iteration faults at most because the bouncer at hand is not there. -/
theorem step_ok (h : s.stage ∈ handStages →
      ∃ a cell, s.bouncer = some a ∧ s.heap[a]? = some cell) (input : Input) :
    ∃ s', s.step isValidHost input = .ok s' := by
  have hask : ∃ s₁, ask isValidHost { s with error := .none } input = .ok s₁ := by
    have hendpoint : ∀ valid map, s.stage ∈ handStages →
        ∃ s₁, askEndpoint { s with error := .none } valid map input = .ok s₁ := by
      intro valid map hs
      obtain ⟨a, cell, hbouncer, hcell⟩ := h hs
      rw [askEndpoint]
      simp only
      split
      · exact ⟨_, rfl⟩
      · rw [update_ok (s := { s with error := .none }) hbouncer hcell]
        exact ⟨_, rfl⟩
    simp only [ask]
    split
    · next hs => exact hendpoint _ _ (by rw [hs]; decide)
    · next hs => exact hendpoint _ _ (by rw [hs]; decide)
    · next hs =>
        obtain ⟨a, cell, hbouncer, hcell⟩ := h (by rw [hs]; decide)
        simp only [askLocal]
        split
        · exact ⟨_, rfl⟩
        · split
          · rw [update_ok (s := { s with error := .none }) hbouncer hcell]
            exact ⟨_, rfl⟩
          · exact ⟨_, rfl⟩
    · next hs =>
        obtain ⟨a, cell, hbouncer, hcell⟩ := h (by rw [hs]; decide)
        simp only [askAnother]
        rw [update_ok (s := { s with error := .none }) hbouncer hcell]
        simp only [Mem.ok_bind]
        split
        · exact ⟨_, rfl⟩
        · split <;> exact ⟨_, rfl⟩
    all_goals exact ⟨_, rfl⟩
  obtain ⟨s₁, hs₁⟩ := hask
  exact ⟨s₁.next, by rw [step, hs₁]; rfl⟩

theorem mem_accepted {x : Entry} : x ∈ accepted log ↔ x ∈ log ∧ x.error = .none := by
  simp [accepted]

/-- Three accepted answers about one bouncer are the answers to its questions. -/
theorem answeredAll_of_entries {a : ℕ} {l r o : Entry} (es : List Entry)
    (hes : ∀ x ∈ es, x ∈ accepted log ∧ x.bouncer = some a) (hsub : [l, r, o] ⊆ es)
    (hl : l.stage = .bouncerListen) (hr : r.stage = .bouncerRemote) (ho : o.stage = .bouncerLocal) :
    AnsweredAll log a := by
  have hfind : ∀ x ∈ [l, r, o], ∃ e ∈ log, e.stage = x.stage ∧ e.bouncer = some a ∧
      e.error = .none := by
    intro x hx
    obtain ⟨hacc, hnumber⟩ := hes x (hsub hx)
    exact ⟨x, (mem_accepted.mp hacc).1, rfl, hnumber, (mem_accepted.mp hacc).2⟩
  intro q hq
  simp only [roundStages, List.mem_cons, List.not_mem_nil, or_false] at hq
  rcases hq with rfl | rfl | rfl
  · exact hl ▸ hfind l (by simp)
  · exact hr ▸ hfind r (by simp)
  · exact ho ▸ hfind o (by simp)

/-- A bouncer of a finished round had its three questions answered, and so had the one about to be
listed. -/
theorem Agrees.answeredAll {rounds : List Round} {tail : List Entry}
    (h : Agrees isValidHost log s rounds tail) {a : ℕ}
    (ha : a < rounds.length ∨ s.stage = .bouncerAnother ∧ s.bouncer = some a) :
    AnsweredAll log a := by
  rcases ha with ha | ⟨hs, ha⟩
  · have hat := h.rounds_at a rounds[a] (by simp [ha])
    obtain ⟨hl, hr, ho, -⟩ := hat.stage_eq
    refine answeredAll_of_entries rounds[a].entries ?_ (by simp [Round.entries]) hl hr ho
    intro x hx
    rw [h.accepted_eq]
    have hmem := List.mem_flatMap.mpr ⟨_, List.getElem_mem ha, hx⟩
    exact ⟨List.mem_append_left _ hmem, hat.number x hx⟩
  · cases h.phase with
    | bouncer hdone hdraft hnumber hbouncer hheap =>
        have hround := hdraft
        rw [hs] at hround
        cases hround with
        | another hl hr ho hb =>
            refine answeredAll_of_entries _ ?_ (List.Subset.refl _) hl hr ho
            intro x hx
            rw [h.accepted_eq]
            exact ⟨List.mem_append_right _ hx, (hnumber x hx).trans ha⟩
    | option hdone hstage =>
        rw [hs] at hstage
        exact absurd hstage (by decide)
    | finished hdone hstage =>
        rw [hs] at hstage
        cases hstage

/-- A bouncer whose questions were answered is that of a finished round, or the one about to be
listed: the answer about its local ip is in a round, or the last of the tail. -/
theorem Agrees.of_answeredAll {rounds : List Round} {tail : List Entry}
    (h : Agrees isValidHost log s rounds tail) {a : ℕ} (hall : AnsweredAll log a) :
    a < rounds.length ∨ s.stage = .bouncerAnother ∧ s.bouncer = some a := by
  obtain ⟨e, he, hstage, hbouncer, herror⟩ := hall .bouncerLocal (by decide)
  have hacc : e ∈ accepted log := mem_accepted.mpr ⟨he, herror⟩
  rw [h.accepted_eq] at hacc
  rcases List.mem_append.mp hacc with hround | htail
  · obtain ⟨r, hr, hmem⟩ := List.mem_flatMap.mp hround
    obtain ⟨i, hi, rfl⟩ := List.getElem_of_mem hr
    have hnumber := (h.rounds_at i rounds[i] (by simp [hi])).number e hmem
    rw [hbouncer] at hnumber
    exact Or.inl (Option.some.inj hnumber ▸ hi)
  · have hnot : ∀ es : List Entry, es.map Entry.stage ⊆ optionStages → e ∉ es := by
      intro es hes hmem
      have hin := hes (List.mem_map_of_mem hmem)
      rw [hstage] at hin
      exact absurd hin (by decide)
    cases h.phase with
    | bouncer hdone hdraft hnumber hhand hheap =>
        have hmine := (hnumber e htail).symm.trans hbouncer
        generalize hq : s.stage = q at hdraft
        generalize Cell.toBouncer _ = b at hdraft
        cases hdraft with
        | listen => cases htail
        | remote hl =>
            obtain rfl := List.mem_singleton.mp htail
            rw [hl] at hstage
            cases hstage
        | localIP hl hr =>
            simp only [List.mem_cons, List.not_mem_nil, or_false] at htail
            rcases htail with rfl | rfl
            · rw [hl] at hstage
              cases hstage
            · rw [hr] at hstage
              cases hstage
        | another => exact Or.inr ⟨rfl, hmine⟩
    | option hdone hs hrounds hstages =>
        refine absurd htail (hnot tail ?_)
        rw [hstages]
        exact List.takeWhile_subset _
    | finished hdone hs hrounds hstages =>
        exact absurd htail (hnot tail (hstages ▸ List.Subset.refl _))

/-- **A state that agrees with its accepted answers is safe.** -/
theorem Inv.safe (h : Inv isValidHost log s) : Safe isValidHost log s := by
  obtain ⟨rounds, tail, h⟩ := h
  have hlinked : ∀ more, s.heap = chain (rounds.map Round.bouncer) ++ more →
      Linked s.heap s.bouncers (List.range rounds.length).reverse := by
    intro more hheap
    rw [hheap, h.bouncers]
    exact linked_chain _ more (by simp)
  have hlist : Linked s.heap s.bouncers (List.range rounds.length).reverse := by
    cases h.phase with
    | bouncer _ _ _ _ hheap => exact hlinked _ hheap
    | option _ _ _ _ _ hheap => exact hlinked [] (by simpa using hheap)
    | finished _ _ _ _ _ hheap => exact hlinked [] (by simpa using hheap)
  have hhand : s.stage ∈ handStages → ∃ cell, s.bouncer = some rounds.length ∧
      s.heap[rounds.length]? = some cell := by
    intro hs
    cases h.phase with
    | @bouncer cell _ _ _ hbouncer hheap =>
        refine ⟨cell, hbouncer, ?_⟩
        rw [hheap, List.getElem?_append_right (by simp)]
        simp
    | option _ hstage =>
        simp only [handStages, List.mem_cons, List.not_mem_nil, or_false] at hs
        rcases hs with hs | hs | hs | hs <;> rw [hs] at hstage <;> exact absurd hstage (by decide)
    | finished _ hstage =>
        rw [hstage] at hs
        exact absurd hs (by decide)
  refine ⟨fun hs => ?_, ⟨_, hlist, ?_, fun a => ?_⟩, step_ok fun hs => ?_⟩
  · obtain ⟨cell, hbouncer, hcell⟩ := hhand hs
    refine ⟨_, cell, hbouncer, hcell, fun as has => ?_⟩
    rw [has.unique hlist]
    simp
  · exact List.nodup_reverse.mpr List.nodup_range
  · have hall : _ ↔ AnsweredAll log a := ⟨h.answeredAll, h.of_answeredAll⟩
    rw [← hall]
    simp
  · obtain ⟨cell, hbouncer, hcell⟩ := hhand hs
    exact ⟨_, cell, hbouncer, hcell⟩

/-- An answer that is neither yes nor no leaves the loop at the same stage without a bouncer. -/
theorem refused_another (hstep : Step isValidHost s e s') (hs : e.stage = .bouncerAnother)
    (hyes : strcasecmpEq e.value (ascii "yes") ≠ true)
    (hno : strcasecmpEq e.value (ascii "no") ≠ true) :
    s'.stage = .bouncerAnother ∧ s'.bouncer = none := by
  obtain ⟨-, hstep, hstage, -, -⟩ := hstep
  have hat : s.stage = .bouncerAnother := hstage.symm.trans hs
  have hask : ask isValidHost { s with error := .none } e.input =
      askAnother { s with error := .none } e.input := by
    simp only [ask, hat]
  rw [step, hask, askAnother] at hstep
  cases hupdate : update { s with error := .none } fun c => { c with next := s.bouncers } with
  | error fault =>
      rw [hupdate] at hstep
      cases hstep
  | ok s₁ =>
      have hstage₁ : s₁.stage = s.stage := by
        rw [update] at hupdate
        split at hupdate
        · cases hupdate
        · split at hupdate
          · cases hupdate
          · rw [← Except.ok.inj hupdate]
      rw [hupdate] at hstep
      simp only [Mem.ok_bind, hstage₁, value_eq hstage, if_neg hyes, if_neg hno] at hstep
      obtain rfl := Except.ok.inj hstep
      exact ⟨hat, rfl⟩

/-- **A run is safe throughout exactly when every answer to "Another bouncer?" was yes or no**, as
long as there is memory. -/
theorem safe_iff_answered (h : Run isValidHost true log s)
    (halloc : ∀ e ∈ log, e.input.alloc = true) :
    (∀ log₁ s₁, log₁ <+: log → Run isValidHost true log₁ s₁ → Safe isValidHost log₁ s₁) ↔
      ∀ e ∈ log, e.Answered := by
  constructor
  · intro hsafe e he hs
    obtain ⟨before, after, rfl⟩ := List.append_of_mem he
    obtain ⟨s₁, hbefore, hafter⟩ := h.exists_prefix rfl
    obtain ⟨s₂, hstep, -⟩ := hafter.exists_prefix (List.singleton_append).symm
    have hrun : Run isValidHost true (before ++ [e]) s₂ := hbefore.trans hstep
    have hpre : before ++ [e] <+: before ++ e :: after := ⟨after, by simp⟩
    by_contra hanswer
    rw [not_or] at hanswer
    obtain ⟨hat, hnone⟩ := refused_another hstep.of_single hs hanswer.1 hanswer.2
    obtain ⟨a, cell, ha, -⟩ := (hsafe _ _ hpre hrun).hand (by rw [hat]; decide)
    rw [hnone] at ha
    cases ha
  · intro hanswered log₁ s₁ hpre h₁
    have hall : ∀ e ∈ log₁, e.Answered ∧ e.input.alloc = true := fun e he =>
      ⟨hanswered e (hpre.subset he), halloc e (hpre.subset he)⟩
    rcases run_cases h₁ with hinv | ⟨hbad, -⟩
    · exact hinv.safe
    · exact absurd ⟨rfl, hall⟩ hbad

end safe

/-- A session that is safe throughout. -/
theorem safe_iff_answered_session : ∃ log s,
    replay numericHost (start true) session = some (log, s) ∧
      ∀ log₁ s₁, log₁ <+: log → Run numericHost true log₁ s₁ → Safe numericHost log₁ s₁ := by
  obtain ⟨log, s, hreplay, hrun, hlog⟩ := exists_run numericHost session
    (fun r => r.1.all fun e => e.input.alloc && decide e.Answered) (by decide +kernel)
  simp only [List.all_eq_true, Bool.and_eq_true, decide_eq_true_eq] at hlog
  exact ⟨log, s, hreplay, (safe_iff_answered hrun fun e he => (hlog e he).1).mpr
    fun e he => (hlog e he).2⟩

/-- Not every run is safe. -/
theorem not_safe : ¬ ∀ (isValidHost : Option Bytes → Bool) (log : List Entry) (s : Editor),
    Run isValidHost true log s → (∀ e ∈ log, e.input.alloc = true) → Safe isValidHost log s := by
  intro hsafe
  obtain ⟨log, s, -, hrun, hlog⟩ := exists_run numericHost refusedSession
    (fun r => r.1.all (·.input.alloc) && decide (r.2.stage = .bouncerAnother) &&
      r.2.bouncer.isNone) (by decide +kernel)
  simp only [List.all_eq_true, Bool.and_eq_true, decide_eq_true_eq, Option.isNone_iff_eq_none]
    at hlog
  obtain ⟨⟨halloc, hs⟩, hnone⟩ := hlog
  obtain ⟨a, cell, ha, -⟩ := (hsafe _ _ _ hrun halloc).hand (by rw [hs]; decide)
  rw [hnone] at ha
  cases ha

/-! ## The questions of a run that ends well -/

/-- The questions after the last bouncer. -/
def questions : List Stage :=
  [.idnt, .identTimeout, .idleTimeout, .writeTimeout, .dnsLookup, .pidFile, .welcomeMsg, .password]

/-- What an answer does to the options when the ident timeout is not asked for without idnt. -/
def Entry.applyAsked (config : Options) (e : Entry) : Options :=
  if e.stage = .identTimeout ∧ config.idnt = false then config else e.apply config

/-- Every question about an option was answered once, in order and after the last bouncer, and the
config holds these answers. -/
def AsksEveryQuestion (log : List Entry) (s : Editor) : Prop :=
  ∃ before answers, (accepted log).filter (fun e => e.stage ≠ .past) = before ++ answers ∧
    answers.map Entry.stage = questions ∧ (∀ e ∈ before, e.stage ∉ questions) ∧
      s.config = answers.foldl Entry.applyAsked Options.new

section questions

variable {isValidHost : Option Bytes → Bool} {alloc : Bool} {log : List Entry} {s : Editor}

/-- **The questions a run that ends well asks**: rounds of questions about bouncers, then those
about options from the ident timeout on; the options are the values of these answers, and `idnt`
keeps its default. -/
theorem Completed.answers (hc : s.Completed) (h : Run isValidHost alloc log s) :
    ∃ rounds answers, accepted log = rounds.flatMap Round.entries ++ answers ∧ rounds ≠ [] ∧
      (∀ r ∈ rounds, r.entries.map Entry.stage = handStages) ∧
      answers.map Entry.stage = optionStages ∧ s.config = applyAll (accepted log) ∧
      s.config.idnt = true := by
  obtain ⟨rounds, tail, hagrees, hrounds, htail, -, hpast⟩ := hc.agrees h
  refine ⟨rounds, tail, hagrees.accepted_eq, hrounds, ?_, htail, ?_, hagrees.idnt⟩
  · intro r hr
    obtain ⟨i, hi, rfl⟩ := List.getElem_of_mem hr
    exact (hagrees.rounds_at i _ (by simp [hi])).stages
  · obtain ⟨stale, hstale⟩ := hagrees.config
    rw [hstale, hpast]
    rfl

/-- `STAGE_IDNT` is never among them. -/
theorem Completed.stage_ne_idnt (hc : s.Completed) (h : Run isValidHost alloc log s) {e : Entry}
    (he : e ∈ accepted log) : e.stage ≠ .idnt := by
  obtain ⟨rounds, answers, hlog, -, hrounds, hanswers, -, -⟩ := hc.answers h
  intro hs
  rw [hlog] at he
  rcases List.mem_append.mp he with he | he
  · obtain ⟨r, hr, her⟩ := List.mem_flatMap.mp he
    have hmem := List.mem_map_of_mem (f := Entry.stage) her
    rw [hrounds r hr, hs] at hmem
    exact absurd hmem (by decide)
  · have hmem := List.mem_map_of_mem (f := Entry.stage) he
    rw [hanswers, hs] at hmem
    exact absurd hmem (by decide)

/-- A run that asks every question has an accepted answer about `idnt`. -/
theorem AsksEveryQuestion.exists_idnt (h : AsksEveryQuestion log s) :
    ∃ e ∈ accepted log, e.stage = .idnt := by
  obtain ⟨before, answers, hlog, hanswers, -, -⟩ := h
  obtain ⟨e, he, hs⟩ := List.mem_map.mp (hanswers ▸ (by decide : Stage.idnt ∈ questions))
  refine ⟨e, List.mem_of_mem_filter (p := fun e => e.stage ≠ .past) ?_, hs⟩
  rw [hlog]
  exact List.mem_append_right _ he

/-- **No run that ends well asks every question.** -/
theorem not_asksEveryQuestion (h : Run isValidHost alloc log s) (hc : s.Completed) :
    ¬ AsksEveryQuestion log s := by
  intro hall
  obtain ⟨e, he, hs⟩ := hall.exists_idnt
  exact hc.stage_ne_idnt h he hs

end questions

/-- A session that ends well without the question whether to send idnt. -/
theorem not_asksEveryQuestion_session : ∃ log s,
    replay numericHost (start true) session = some (log, s) ∧ s.Completed ∧
      ¬ AsksEveryQuestion log s := by
  obtain ⟨log, s, hreplay, hrun, hdone⟩ := exists_run numericHost session
    (fun r => decide r.2.Completed) (by decide +kernel)
  have hc : s.Completed := of_decide_eq_true hdone
  exact ⟨log, s, hreplay, hc, not_asksEveryQuestion hrun hc⟩

/-- Not every run that ends well asks every question. -/
theorem not_forall_asksEveryQuestion :
    ¬ ∀ (isValidHost : Option Bytes → Bool) (log : List Entry) (s : Editor),
      Run isValidHost true log s → s.Completed → AsksEveryQuestion log s := by
  intro hall
  obtain ⟨log, s, -, hrun, hdone⟩ := exists_run numericHost session
    (fun r => decide r.2.Completed) (by decide +kernel)
  have hc : s.Completed := of_decide_eq_true hdone
  obtain ⟨e, he, hs⟩ := (hall _ _ _ hrun hc).exists_idnt
  exact hc.stage_ne_idnt hrun he hs

end Editor

end Ebbnc
