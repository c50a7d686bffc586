import Ebbnc.EditorSafety

/-!
# The editor at the end of its input

When the standard input is used up every question gets the empty answer, default or not, and only
the password can still be typed. Two kinds of stages are told apart by what they make of that.

* `AtEnd` — what an iteration of the prompt loop can get then; `Ends` — the loop sets `done` after
  a bounded number of such iterations.
* `asking` — the stages whose answer must be one of some; `AsksAgain` — what they do at the end of
  the input; `step_asking` — an iteration there asks again, or follows a null pointer.
* `ending` — the stages that take any text, the password and what comes after it;
  `doneWithin_past` and so on — how many iterations are left there.
* **`ends_iff`** — in every reachable state the loop ends exactly from the stages of the second
  kind; **`not_ends`** — it does not from its first stage.
-/

namespace Ebbnc

open Lib

namespace Editor

/-- The input of an iteration when every `fgets` fails and `getpass` returns an acceptable
password. -/
def AtEnd (s : Editor) (input : Input) : Prop :=
  if s.stage = .password then minimumPasslen ≤ (getpass input.line).length else input.line = none

/-- The loop ends: it sets `done` after so many iterations at most, whatever memory there is. -/
def Ends (isValidHost : Option Bytes → Bool) (s : Editor) : Prop :=
  ∃ n, DoneWithin (step isValidHost) AtEnd (fun s => s.done = true) n s

/-- One iteration at the end of the input. -/
def EndStep (isValidHost : Option Bytes → Bool) (s : Editor) (input : Input) (s' : Editor) : Prop :=
  AtEnd s input ∧ s.done = false ∧ s.step isValidHost input = .ok s'

/-- The stages that take only certain answers, none of them empty. -/
def asking : List Stage :=
  [.bouncerListen, .bouncerRemote, .bouncerLocal, .bouncerAnother, .idnt, .identTimeout,
    .idleTimeout, .writeTimeout, .dnsLookup]

/-- The stages that take any text, the password, and what comes after it. -/
def ending : List Stage := [.pidFile, .welcomeMsg, .password, .past]

section

variable {isValidHost : Option Bytes → Bool} {s s' : Editor} {input : Input}

/-! ## Questions that are asked again -/

/-- At the end of the input every answer is empty, with a default value or without. -/
theorem promptInput_none (defaultValue : Option Bytes) : promptInput defaultValue none = [] := rfl

/-- Before the password there is no line to read. -/
theorem AtEnd.line (h : AtEnd s input) (hstage : s.stage ≠ .password) : input.line = none := by
  unfold AtEnd at h
  rwa [if_neg hstage] at h

/-- An empty answer names no address. -/
theorem askEndpoint_end (valid : Bytes → Bool) (map : (Endpoint → Endpoint) → Cell → Cell)
    (h : input.line = none) : s.askEndpoint valid map input = .ok { s with error := .value } := by
  unfold askEndpoint
  rw [h]
  rfl

/-- An empty answer is neither `None` nor a local ip. -/
theorem askLocal_end (h : input.line = none) :
    s.askLocal input = .ok { s with error := .value } := by
  unfold askLocal
  rw [h]
  rfl

/-- An empty answer is neither yes nor no, and the bouncer at hand is gone. -/
theorem askAnother_end (h : input.line = none) (hask : s.askAnother input = .ok s') :
    s'.done = s.done ∧ s'.stage = s.stage ∧ s'.error = .value := by
  unfold askAnother at hask
  cases hbouncer : s.bouncer with
  | none =>
      simp only [update, hbouncer, Mem.throw_eq_error, Mem.error_bind] at hask
      cases hask
  | some a =>
      cases hcell : s.heap[a]? with
      | none =>
          simp only [update, hbouncer, hcell, Mem.throw_eq_error, Mem.error_bind] at hask
          cases hask
      | some cell =>
          simp only [update, hbouncer, hcell, Mem.pure_eq_ok, Mem.ok_bind, h,
            promptInput_none] at hask
          obtain rfl := Except.ok.inj hask
          exact ⟨rfl, rfl, rfl⟩

/-- An empty answer is neither true nor false. -/
theorem askBool_end (h : input.line = none) : s.askBool input = { s with error := .value } := by
  unfold askBool
  rw [h]
  rfl

/-- An empty answer has no timeout in it. -/
theorem askTimeout_end (h : input.line = none) :
    s.askTimeout input = { s with error := .default } := by
  unfold askTimeout
  rw [h]
  rfl

/-- What `ask` does at the end of the input, at a stage whose answer must be one of some: it refuses
the answer, or there is no question to ask, and the next stage is of the same kind. -/
structure AsksAgain (s s₁ : Editor) : Prop where
  done : s₁.done = s.done
  stage : s₁.stage ∈ asking
  error : s₁.error = .value ∨ s₁.error = .default ∨
    (s₁.error = s.error ∧ s₁.stage.succ ∈ asking)

/-- An answer that is refused changes nothing but the error. -/
theorem asksAgain_of_refused {s₁ : Editor} {error : Error} (hstage : s.stage ∈ asking)
    (herror : error = .value ∨ error = .default)
    (hask : (Except.ok { s with error := error } : Mem Editor) = .ok s₁) : s.AsksAgain s₁ := by
  obtain rfl := Except.ok.inj hask
  exact ⟨rfl, hstage, herror.imp_right Or.inl⟩

/-- Each of these stages asks again. -/
theorem ask_asking {s₁ : Editor} (hstage : s.stage ∈ asking) (hend : input.line = none)
    (hask : s.ask isValidHost input = .ok s₁) : s.AsksAgain s₁ := by
  unfold ask at hask
  cases hs : s.stage <;> rw [hs] at hask
  case bouncerListen =>
    rw [askEndpoint_end isValidIP Cell.mapListen hend] at hask
    exact asksAgain_of_refused hstage (Or.inl rfl) hask
  case bouncerRemote =>
    rw [askEndpoint_end _ Cell.mapRemote hend] at hask
    exact asksAgain_of_refused hstage (Or.inl rfl) hask
  case bouncerLocal =>
    rw [askLocal_end hend] at hask
    exact asksAgain_of_refused hstage (Or.inl rfl) hask
  case bouncerAnother =>
    obtain ⟨hdone, hsame, herror⟩ := askAnother_end hend hask
    exact ⟨hdone, hsame ▸ hstage, Or.inl herror⟩
  case idnt =>
    rw [askBool_end hend] at hask
    exact asksAgain_of_refused hstage (Or.inl rfl) hask
  case identTimeout =>
    -- without idnt there is nothing to ask, and the idle timeout is next
    by_cases hidnt : s.config.idnt = true
    · rw [if_pos hidnt, askTimeout_end hend] at hask
      exact asksAgain_of_refused hstage (Or.inr rfl) hask
    · rw [if_neg hidnt] at hask
      obtain rfl := Except.ok.inj hask
      refine ⟨rfl, hstage, Or.inr (Or.inr ⟨rfl, ?_⟩)⟩
      rw [hs]
      simp [Stage.succ, asking]
  case idleTimeout =>
    rw [askTimeout_end hend] at hask
    exact asksAgain_of_refused hstage (Or.inr rfl) hask
  case writeTimeout =>
    rw [askTimeout_end hend] at hask
    exact asksAgain_of_refused hstage (Or.inr rfl) hask
  case dnsLookup =>
    rw [askBool_end hend] at hask
    exact asksAgain_of_refused hstage (Or.inl rfl) hask
  all_goals simp [hs, asking] at hstage

/-- An iteration is `ask` and then `next`. -/
theorem step_eq_ok (hstep : s.step isValidHost input = .ok s') :
    ∃ s₁, ask isValidHost { s with error := .none } input = .ok s₁ ∧ s' = s₁.next := by
  unfold step at hstep
  cases hask : ask isValidHost { s with error := .none } input with
  | error e =>
      rw [hask] at hstep
      cases hstep
  | ok s₁ =>
      rw [hask] at hstep
      exact ⟨s₁, rfl, (Except.ok.inj hstep).symm⟩

/-- **An iteration at one of these stages** that does not fault leads to one of them. -/
theorem step_asking (hdone : s.done = false) (hstage : s.stage ∈ asking) (hend : input.line = none)
    (hstep : s.step isValidHost input = .ok s') : s'.done = false ∧ s'.stage ∈ asking := by
  obtain ⟨s₁, hask, rfl⟩ := step_eq_ok hstep
  have hkept : ({ s with error := .none } : Editor).stage ∈ asking := hstage
  obtain ⟨hsame, hkept, herror | herror | ⟨herror, hsucc⟩⟩ := ask_asking hkept hend hask
  · unfold next
    rw [herror]
    exact ⟨hsame.trans hdone, hkept⟩
  · unfold next
    rw [herror]
    exact ⟨hsame.trans hdone, hkept⟩
  · unfold next
    rw [herror]
    exact ⟨hsame.trans hdone, hsucc⟩

/-- None of these stages is the password. -/
theorem ne_password (hstage : s.stage ∈ asking) : s.stage ≠ .password := by
  rintro hs
  simp [hs, asking] at hstage

/-- From such a stage no iterations at all set `done`. -/
theorem path_asking {inputs : List Input} (hdone : s.done = false) (hstage : s.stage ∈ asking)
    (hpath : Path (EndStep isValidHost) s inputs s') : s'.done = false ∧ s'.stage ∈ asking := by
  refine Path.invariant (I := fun _ s => s.done = false ∧ s.stage ∈ asking) ⟨hdone, hstage⟩ ?_ hpath
  rintro _ s₁ input s₂ - ⟨hdone, hstage⟩ ⟨hlaw, -, hstep⟩
  exact step_asking hdone hstage (hlaw.line (ne_password hstage)) hstep

/-- **From such a stage the loop does not end**. -/
theorem not_ends_of_asking (hdone : s.done = false) (hstage : s.stage ∈ asking) :
    ¬ Ends isValidHost s := by
  rintro ⟨n, hwithin⟩
  refine not_doneWithin (I := fun s => s.done = false ∧ s.stage ∈ asking) ?_ ?_ ⟨hdone, hstage⟩ n
    hwithin
  · rintro s ⟨hdone, -⟩
    simp [hdone]
  · rintro s ⟨hdone, hstage⟩
    refine ⟨⟨none, true⟩, ?_, fun s' hstep => step_asking hdone hstage rfl hstep⟩
    unfold AtEnd
    rw [if_neg (ne_password hstage)]

/-! ## Questions that take the empty answer -/

/-- One question more: the empty answer is accepted and the loop ends from the next stage, or there
is no memory for it and `done` is set at once. -/
theorem doneWithin_of_ask {n : ℕ}
    (hask : ∀ input, AtEnd s input →
      ∃ s₁, ask isValidHost { s with error := .none } input = .ok s₁ ∧ s₁.stage = s.stage ∧
        (s₁.error = .none ∨ s₁.error = .strdup))
    (hnext : ∀ s' : Editor, s'.stage = s.stage.succ →
      DoneWithin (step isValidHost) AtEnd (fun s => s.done = true) n s') :
    DoneWithin (step isValidHost) AtEnd (fun s => s.done = true) (n + 1) s := by
  refine .of_step fun input hlaw => ?_
  obtain ⟨s₁, hok, hstage, herror | herror⟩ := hask input hlaw
  · refine ⟨s₁.next, by simp [step, hok], hnext _ ?_⟩
    unfold next
    rw [herror]
    exact congrArg Stage.succ hstage
  · refine ⟨s₁.next, by simp [step, hok], .of_done ?_ n⟩
    unfold next
    rw [herror]

/-- Past the last question the loop sets `done`. -/
theorem doneWithin_past (hs : s.stage = .past) :
    DoneWithin (step isValidHost) AtEnd (fun s => s.done = true) 1 s := by
  refine .of_step fun input _ => ⟨{ s with error := .none, done := true }, ?_, rfl⟩
  unfold step ask
  rw [hs]
  simp [next, Stage.succ]

/-- The password is acceptable. -/
theorem doneWithin_password (hs : s.stage = .password) :
    DoneWithin (step isValidHost) AtEnd (fun s => s.done = true) 2 s := by
  apply doneWithin_of_ask
  · intro input hlaw
    unfold AtEnd at hlaw
    rw [if_pos hs] at hlaw
    refine ⟨askPassword { s with error := .none } input, ?_, ?_⟩
    · unfold ask
      rw [hs]
      rfl
    · unfold askPassword
      rw [if_pos hlaw]
      exact ⟨rfl, Or.inl rfl⟩
  · intro s' hs'
    exact doneWithin_past (hs'.trans (by rw [hs]; rfl))

/-- The empty text is copied, or there is no memory for the copy. -/
theorem askString_end (hend : input.line = none) :
    (askString { s with error := .none } input).stage = s.stage ∧
      ((askString { s with error := .none } input).error = .none ∨
        (askString { s with error := .none } input).error = .strdup) := by
  unfold askString
  rw [hend, promptInput_none]
  have hempty : ([] : Bytes) ≠ ascii "none" := by decide
  simp only [if_neg hempty]
  cases input.alloc with
  | true => exact ⟨rfl, Or.inl rfl⟩
  | false => exact ⟨rfl, Or.inr rfl⟩

/-- The welcome message may be empty. -/
theorem doneWithin_welcomeMsg (hs : s.stage = .welcomeMsg) :
    DoneWithin (step isValidHost) AtEnd (fun s => s.done = true) 3 s := by
  apply doneWithin_of_ask
  · intro input hlaw
    refine ⟨askString { s with error := .none } input, ?_, askString_end (hlaw.line (by simp [hs]))⟩
    unfold ask
    rw [hs]
    rfl
  · intro s' hs'
    exact doneWithin_password (hs'.trans (by rw [hs]; rfl))

/-- So may the path of the pid file. -/
theorem doneWithin_pidFile (hs : s.stage = .pidFile) :
    DoneWithin (step isValidHost) AtEnd (fun s => s.done = true) 4 s := by
  apply doneWithin_of_ask
  · intro input hlaw
    refine ⟨askString { s with error := .none } input, ?_, askString_end (hlaw.line (by simp [hs]))⟩
    unfold ask
    rw [hs]
    rfl
  · intro s' hs'
    exact doneWithin_welcomeMsg (hs'.trans (by rw [hs]; rfl))

/-- **From such a stage the loop ends**. -/
theorem ends_of_ending (hstage : s.stage ∈ ending) : Ends isValidHost s := by
  simp only [ending, List.mem_cons, List.not_mem_nil, or_false] at hstage
  obtain hs | hs | hs | hs := hstage
  · exact ⟨4, doneWithin_pidFile hs⟩
  · exact ⟨3, doneWithin_welcomeMsg hs⟩
  · exact ⟨2, doneWithin_password hs⟩
  · exact ⟨1, doneWithin_past hs⟩

/-! ## Reachable states -/

variable {alloc : Bool} {log : List Entry}

/-- While the loop goes on, it is at a stage of one kind or of the other. -/
theorem run_stage (h : Run isValidHost alloc log s) :
    s.done = true ∨ s.stage ∈ asking ∨ s.stage ∈ ending := by
  rcases run_cases h with ⟨rounds, tail, hagrees⟩ | ⟨-, ⟨-, -, hs⟩ | ⟨hdone, -⟩⟩
  · cases hagrees.phase with
    | bouncer hdone hdraft =>
        generalize hq : s.stage = q at hdraft
        cases hdraft <;> simp [asking]
    | option hdone hstage =>
        simp only [optionStages, List.mem_cons, List.not_mem_nil, or_false] at hstage
        rcases hstage with hs | hs | hs | hs | hs | hs | hs | hs <;> simp [hs, asking, ending]
    | finished hdone => exact Or.inl hdone
  · rcases hs with hs | hs <;> simp [hs, asking]
  · exact Or.inl hdone

/-- **The loop ends with its input** in exactly the reachable states in which it has ended, or only
texts and the password are left to ask for: at every other question it asks again for ever, or
follows a null pointer, and whatever memory there is `done` is not set. -/
theorem ends_iff (h : Run isValidHost alloc log s) :
    (Ends isValidHost s ↔ s.done = true ∨ s.stage ∈ ending) ∧
      (¬(s.done = true ∨ s.stage ∈ ending) →
        ∀ inputs s', Path (EndStep isValidHost) s inputs s' → s'.done = false) := by
  have hkind : ¬(s.done = true ∨ s.stage ∈ ending) → s.done = false ∧ s.stage ∈ asking := by
    intro hnot
    obtain ⟨hdone, hstage⟩ := not_or.mp hnot
    exact ⟨by simpa using hdone, ((run_stage h).resolve_left hdone).resolve_right hstage⟩
  refine ⟨⟨?_, ?_⟩, ?_⟩
  · intro hends
    by_contra hnot
    obtain ⟨hdone, hasking⟩ := hkind hnot
    exact not_ends_of_asking hdone hasking hends
  · rintro (hdone | hstage)
    · exact ⟨0, hdone⟩
    · exact ends_of_ending hstage
  · intro hnot inputs s' hpath
    obtain ⟨hdone, hasking⟩ := hkind hnot
    exact (path_asking hdone hasking hpath).1

end

/-- The loop does not end from its first question, whatever iterations follow, but it does once the
session has come to the welcome message. -/
theorem ends_iff_session :
    (∀ inputs s', Path (EndStep numericHost) (start true) inputs s' → s'.done = false) ∧
      ∃ log s, replay numericHost (start true) (session.take 9) = some (log, s) ∧
        s.stage = .welcomeMsg ∧ Ends numericHost s := by
  have hstart : ¬ ((start true).done = true ∨ (start true).stage ∈ ending) := by decide
  obtain ⟨log, s, hreplay, hrun, hstage⟩ := exists_run numericHost (session.take 9)
    (fun r => decide (r.2.stage = .welcomeMsg)) (by decide +kernel)
  have hwelcome : s.stage = .welcomeMsg := of_decide_eq_true hstage
  refine ⟨(ends_iff .refl).2 hstart, log, s, hreplay, hwelcome, (ends_iff hrun).1.mpr (Or.inr ?_)⟩
  rw [hwelcome]
  decide

/-- So an empty input keeps the loop from ending. -/
theorem not_ends : ¬ ∀ (isValidHost : Option Bytes → Bool) (alloc : Bool) (log : List Entry)
    (s : Editor), Run isValidHost alloc log s → Ends isValidHost s :=
  fun h => not_ends_of_asking rfl (by simp [start, newBouncer, asking])
    (h numericHost true [] (start true) .refl)

end Editor

end Ebbnc
