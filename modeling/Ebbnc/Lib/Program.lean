import Ebbnc.Lib.Machine
import Mathlib.Algebra.GroupWithZero.Nat

/-!
# Programs that call their environment

A program over an interface of calls, each with its type of replies, and a state machine that says
what it may do. Calls are not interpreted: an environment gives any reply that its law admits.

* `Program` — a program ends with a value, or makes a call and goes on with the reply.
* `Program.Trace` — the calls and replies of a run, which may be still going on; `trace_pure`,
  `trace_call`, `trace_bind` — the runs that are over, part by part.
* `Program.Iterations` — the passes of a loop; **`Program.Trace.iterations`** — a run of a loop is
  the runs of its passes, and `Program.Iterations.count_le` bounds them by the progress they make.
* `Program.Sim` — the program follows a state machine; `Program.Sim.call`, `Program.Sim.bind`,
  `Program.Sim.loop` — the rules for the parts a program is put together from.
* **`Program.Sim.path`** — every run of such a program, finished or not, is a path of the machine.
* `Program.Recorder` — the machine that remembers the run; **`Program.Sim.along`** — what holds of
  each call of such a program and the calls before it.
* `Program.Only` — the program keeps to some calls; `Program.Sim.of_only` — calls that leave the
  machine where it is.
* `Program.Step` — one call, and what is left of a program; **`Program.Trace.of_path`** — the calls
  up to what is left are a run.
* `Program.interpret` — a program stands for each call; **`Program.trace_interpret`** — its runs.
-/

namespace Lib

/-- A program that ends with a value, or makes a call and goes on with the reply. -/
inductive Program {Call : Type} (Reply : Call → Type) (α : Type) : Type
  | ret (a : α)
  | call (c : Call) (k : Reply c → Program Reply α)

/-- A call and the reply to it. -/
abbrev Event {Call : Type} (Reply : Call → Type) : Type := (c : Call) × Reply c

namespace Program

variable {Call : Type} {Reply : Call → Type} {α β σ : Type}

/-- One program after the other. -/
def bind : Program Reply α → (α → Program Reply β) → Program Reply β
  | ret a, f => f a
  | call c k, f => call c fun r => (k r).bind f

instance : Monad (Program Reply) where
  pure := ret
  bind := bind

/-- What follows a value goes on with it. -/
@[simp] theorem ret_bind (a : α) (f : α → Program Reply β) : (pure a >>= f) = f a := rfl

/-- A single call. -/
def perform (c : Call) : Program Reply (Reply c) := call c ret

/-- The call a program makes next. -/
def next : Program Reply α → Option Call
  | ret _ => none
  | call c _ => some c

/-- A loop whose body says whether to go on, for so many passes; none when it is still going on
after them. -/
def loop (body : Program Reply Bool) : ℕ → Program Reply (Option Unit)
  | 0 => pure none
  | passes + 1 => do
      if ← body then loop body passes else pure (some ())

/-- The calls and replies of a run, and the value when the run is over. -/
inductive Trace : Program Reply α → List (Event Reply) → Option α → Prop
  | ret (a : α) : Trace (ret a) [] (some a)
  | stop (p : Program Reply α) : Trace p [] none
  | call {c : Call} {k : Reply c → Program Reply α} {t : List (Event Reply)} {o : Option α}
      (r : Reply c) (h : Trace (k r) t o) : Trace (call c k) (⟨c, r⟩ :: t) o

/-! ## Runs that are over -/

section completed

variable {t : List (Event Reply)} {b : β}

/-- A program that makes no call. -/
theorem trace_pure {a b : α} : Trace (pure a : Program Reply α) t (some b) ↔ t = [] ∧ b = a := by
  constructor
  · intro h
    cases h
    exact ⟨rfl, rfl⟩
  · rintro ⟨rfl, rfl⟩
    exact .ret b

/-- The same when there are two values. -/
theorem trace_pure_mk {γ : Type} {b' : β} {c c' : γ} :
    Trace (pure (b', c') : Program Reply (β × γ)) t (some (b, c)) ↔ t = [] ∧ b = b' ∧ c = c' := by
  rw [trace_pure, Prod.mk.injEq]

/-- A call, and what follows it. -/
theorem trace_call {c : Call} {f : Reply c → Program Reply β} :
    Trace (Program.perform c >>= f) t (some b) ↔
      ∃ r t', t = ⟨c, r⟩ :: t' ∧ Trace (f r) t' (some b) := by
  constructor
  · intro h
    cases h with
    | call r h => exact ⟨r, _, rfl, h⟩
  · rintro ⟨r, t', rfl, h⟩
    exact .call r h

/-- One program after the other. -/
theorem trace_bind {p : Program Reply α} {f : α → Program Reply β} :
    Trace (p >>= f) t (some b) ↔
      ∃ a t₁ t₂, t = t₁ ++ t₂ ∧ Trace p t₁ (some a) ∧ Trace (f a) t₂ (some b) := by
  induction p generalizing t with
  | ret a =>
      constructor
      · exact fun h => ⟨a, [], t, rfl, .ret a, h⟩
      · rintro ⟨a', t₁, t₂, rfl, h₁, h₂⟩
        cases h₁
        exact h₂
  | call c k ih =>
      constructor
      · intro h
        cases h with
        | call r h =>
          obtain ⟨a, t₁, t₂, rfl, h₁, h₂⟩ := (ih r).mp h
          exact ⟨a, ⟨c, r⟩ :: t₁, t₂, rfl, .call r h₁, h₂⟩
      · rintro ⟨a, t₁, t₂, rfl, h₁, h₂⟩
        cases h₁ with
        | call r h₁ => exact .call r ((ih r).mpr ⟨a, _, t₂, rfl, h₁, h₂⟩)

/-- A run that is over, and one of what follows. -/
theorem Trace.bind {p : Program Reply α} {f : α → Program Reply β} {t t' : List (Event Reply)}
    {a : α} {o : Option β} (h : Trace p t (some a)) (h' : Trace (f a) t' o) :
    Trace (p >>= f) (t ++ t') o := by
  induction p generalizing t with
  | ret a =>
      cases h
      exact h'
  | call c k ih =>
      cases h with
      | call r h => exact .call r (ih r h)

/-- A run that is not over. -/
theorem Trace.bind_of_none {p : Program Reply α} {f : α → Program Reply β}
    {t : List (Event Reply)} (h : Trace p t none) : Trace (p >>= f) t none := by
  induction p generalizing t with
  | ret a =>
      cases h
      exact .stop _
  | call c k ih =>
      cases h with
      | stop => exact .stop _
      | call r h => exact .call r (ih r h)

/-- A run of a single call. -/
theorem Trace.single {c : Call} (r : Reply c) :
    Trace (Program.perform c : Program Reply _) [⟨c, r⟩] (some r) := .call r (.ret r)

/-- A call, and a run of what follows it. -/
theorem Trace.next {c : Call} {f : Reply c → Program Reply β} {o : Option β} (r : Reply c)
    (h : Trace (f r) t o) : Trace (Program.perform c >>= f) (⟨c, r⟩ :: t) o := .call r h

end completed

/-! ## Loops, pass by pass -/

section iterations

variable {t : List (Event Reply)}

/-- A run of one program after the other is a run of the first that is not over, or a run of the
first that is and one of the second. -/
theorem Trace.bind_cases {p : Program Reply α} {f : α → Program Reply β} {o : Option β}
    (h : Trace (p.bind f) t o) :
    (Trace p t none ∧ o = none) ∨
      ∃ a t₁ t₂, t = t₁ ++ t₂ ∧ Trace p t₁ (some a) ∧ Trace (f a) t₂ o := by
  induction p generalizing t with
  | ret a => exact Or.inr ⟨a, [], t, rfl, .ret a, h⟩
  | call c k ih =>
      cases h with
      | stop => exact Or.inl ⟨.stop _, rfl⟩
      | call r h =>
        rcases ih r h with ⟨hfirst, ho⟩ | ⟨a, t₁, t₂, rfl, h₁, h₂⟩
        · exact Or.inl ⟨.call r hfirst, ho⟩
        · exact Or.inr ⟨a, ⟨c, r⟩ :: t₁, t₂, rfl, .call r h₁, h₂⟩

/-- The passes of a loop: those after which it went on, and a last one with what became of it,
which is none as long as the pass is not over. -/
inductive Iterations (body : Program Reply Bool) :
    List (List (Event Reply) × Option Bool) → Prop
  | nil : Iterations body []
  | last {t : List (Event Reply)} {o : Option Bool} (h : Trace body t o) :
      Iterations body [(t, o)]
  | cons {t : List (Event Reply)} {rest : List (List (Event Reply) × Option Bool)}
      (h : Trace body t (some true)) (hrest : Iterations body rest) :
      Iterations body ((t, some true) :: rest)

/-- **A run of a loop is the runs of its passes**, one after the other. -/
theorem Trace.iterations {body : Program Reply Bool} {passes : ℕ} {o : Option (Option Unit)}
    (h : Trace (loop body passes) t o) :
    ∃ its, Iterations body its ∧ t = its.flatMap Prod.fst := by
  induction passes generalizing t o with
  | zero =>
      cases h with
      | ret => exact ⟨[], .nil, rfl⟩
      | stop => exact ⟨[], .nil, rfl⟩
  | succ passes ih =>
      rcases Trace.bind_cases h with ⟨hpass, -⟩ | ⟨more, t₁, t₂, rfl, hpass, hrest⟩
      · exact ⟨[(t, none)], .last hpass, by simp⟩
      · cases more with
        | false =>
            have hnil : t₂ = [] := by cases hrest <;> rfl
            exact ⟨[(t₁, some false)], .last hpass, by simp [hnil]⟩
        | true =>
            obtain ⟨its, hits, rfl⟩ := ih hrest
            exact ⟨(t₁, some true) :: its, .cons hpass hits, by simp⟩

/-- The passes are runs of the body. -/
theorem Iterations.trace {body : Program Reply Bool}
    {its : List (List (Event Reply) × Option Bool)} (hits : Iterations body its)
    {pass : List (Event Reply)} {o : Option Bool} (h : (pass, o) ∈ its) : Trace body pass o := by
  induction hits with
  | nil => cases h
  | last hpass =>
      cases List.mem_singleton.mp h
      exact hpass
  | cons hpass _ ih =>
      rcases List.mem_cons.mp h with heq | h
      · cases heq
        exact hpass
      · exact ih h

/-- A loop that makes progress in every pass but the last makes no more passes than there is
progress to make. -/
theorem Iterations.count_le {body : Program Reply Bool}
    {its : List (List (Event Reply) × Option Bool)} (hits : Iterations body its)
    (counted : List (Event Reply) → Bool) (progress : List (Event Reply) → ℕ)
    (h : ∀ t, (t, some true) ∈ its → counted t = true → 0 < progress t) :
    its.countP (fun it => counted it.1) ≤ (its.map fun it => progress it.1).sum + 1 := by
  induction hits with
  | nil => simp
  | @last t o _ =>
      rw [List.countP_singleton]
      split <;> omega
  | @cons t rest _ _ ih =>
      have hrest := ih fun t' ht' => h t' (List.mem_cons_of_mem _ ht')
      simp only [List.countP_cons, List.map_cons, List.sum_cons]
      by_cases hcounted : counted t = true
      · have hpos := h t List.mem_cons_self hcounted
        rw [if_pos hcounted]
        omega
      · rw [if_neg hcounted]
        omega

end iterations

/-! ## Following a state machine -/

section sim

variable (Step : σ → Event Reply → σ → Prop) (Law : σ → Event Reply → Prop)

/-- From a state of the machine the program does only what the machine can do, whatever lawful
replies it gets, and it ends in a state that fits its value. -/
def Sim : Program Reply α → σ → (α → σ → Prop) → Prop
  | ret a, s, Q => Q a s
  | call c k, s, Q => ∀ r, Law s ⟨c, r⟩ → ∃ s', Step s ⟨c, r⟩ s' ∧ Sim (k r) s' Q

variable {Step Law} {s : σ} {Q : α → σ → Prop}

@[simp] theorem sim_pure (a : α) : Sim Step Law (pure a) s Q ↔ Q a s := Iff.rfl

/-- A single call is one step of the machine. -/
theorem Sim.perform {c : Call} {Q : Reply c → σ → Prop}
    (h : ∀ r, Law s ⟨c, r⟩ → ∃ s', Step s ⟨c, r⟩ s' ∧ Q r s') :
    Sim Step Law (Program.perform c) s Q := h

/-- A call is one step of the machine, and the program goes on from where it leads. -/
theorem Sim.call {c : Call} {f : Reply c → Program Reply α}
    (h : ∀ r, Law s ⟨c, r⟩ → ∃ s', Step s ⟨c, r⟩ s' ∧ Sim Step Law (f r) s' Q) :
    Sim Step Law (Program.perform c >>= f) s Q := h

/-- What is weaker holds at the end, too. -/
theorem Sim.mono {p : Program Reply α} {Q' : α → σ → Prop} (h : Sim Step Law p s Q)
    (hQ : ∀ a s', Q a s' → Q' a s') : Sim Step Law p s Q' := by
  induction p generalizing s with
  | ret a => exact hQ a s h
  | call c k ih =>
      intro r hr
      obtain ⟨s', hs', hk⟩ := h r hr
      exact ⟨s', hs', ih r hk⟩

/-- Under a stricter law the program follows the machine, too. -/
theorem Sim.of_law {p : Program Reply α} {Law' : σ → Event Reply → Prop}
    (h : Sim Step Law p s Q) (hlaw : ∀ s e, Law' s e → Law s e) : Sim Step Law' p s Q := by
  induction p generalizing s with
  | ret a => exact h
  | call c k ih =>
      intro r hr
      obtain ⟨s', hs', hk⟩ := h r (hlaw s ⟨c, r⟩ hr)
      exact ⟨s', hs', ih r hk⟩

/-- One program after the other follows the machine when each does. -/
theorem Sim.bind {p : Program Reply α} {f : α → Program Reply β} {Q' : β → σ → Prop}
    (h : Sim Step Law p s Q) (hf : ∀ a s', Q a s' → Sim Step Law (f a) s' Q') :
    Sim Step Law (p >>= f) s Q' := by
  induction p generalizing s with
  | ret a => exact hf a s h
  | call c k ih =>
      intro r hr
      obtain ⟨s', hs', hk⟩ := h r hr
      exact ⟨s', hs', ih r hk⟩

/-- A loop follows the machine when its body does, from one state of the invariant to another. -/
theorem Sim.loop {body : Program Reply Bool} {I K : σ → Prop}
    (hbody : ∀ s, I s → Sim Step Law body s fun more s' => if more then I s' else K s')
    (passes : ℕ) (hs : I s) :
    Sim Step Law (Program.loop body passes) s fun o s' => if o.isSome then K s' else I s' := by
  induction passes generalizing s with
  | zero => exact hs
  | succ passes ih =>
      refine (hbody s hs).bind fun more s' hs' => ?_
      cases more with
      | true => exact ih hs'
      | false => exact hs'

/-- **Every run is a path of the machine**, and a run that is over has ended in a state that fits
its value. -/
theorem Sim.path {p : Program Reply α} (h : Sim Step Law p s Q) {t : List (Event Reply)}
    {o : Option α} (ht : Trace p t o)
    (hlaw : Along (fun t₁ e => ∀ s', Path Step s t₁ s' → Law s' e) t) :
    ∃ s', Path Step s t s' ∧ ∀ a ∈ o, Q a s' := by
  induction ht generalizing s with
  | ret a =>
      refine ⟨s, .refl, ?_⟩
      rintro _ ⟨⟩
      exact h
  | stop p => exact ⟨s, .refl, nofun⟩
  | @call c k t o r _ ih =>
      obtain ⟨s', hs', hk⟩ := h r (hlaw [] _ t rfl s .refl)
      obtain ⟨s'', hpath, hQ⟩ := ih hk fun t₁ e t₂ ht s₁ hs₁ =>
        hlaw (⟨c, r⟩ :: t₁) e t₂ (by rw [ht, List.cons_append]) s₁
          ((Path.single hs').trans hs₁)
      exact ⟨s'', (Path.single hs').trans hpath, hQ⟩

end sim

/-! ## Remembering the run -/

section recorder

variable {P : List (Event Reply) → Event Reply → Prop}

/-- The machine whose state is the run so far. It makes every call that is allowed after that. -/
def Recorder (P : List (Event Reply) → Event Reply → Prop) (t : List (Event Reply))
    (e : Event Reply) (t' : List (Event Reply)) : Prop :=
  P t e ∧ t' = t ++ [e]

/-- A path of the machine ends with the run, each of whose calls was allowed. -/
theorem Recorder.of_path {t t' : List (Event Reply)} (h : Path (Recorder P) [] t t') :
    t' = t ∧ Along P t := by
  induction h with
  | refl => exact ⟨rfl, along_nil⟩
  | step _ hstep ih =>
      obtain ⟨rfl, halong⟩ := ih
      obtain ⟨he, rfl⟩ := hstep
      exact ⟨rfl, along_concat.mpr ⟨halong, he⟩⟩

/-- **Each call of a run is allowed after those before it**, in runs that are not over, too. -/
theorem Sim.along {p : Program Reply α} {Q : α → List (Event Reply) → Prop}
    (h : Sim (Recorder P) (fun _ _ => True) p [] Q) {t : List (Event Reply)} {o : Option α}
    (ht : Trace p t o) : Along P t := by
  obtain ⟨t', hpath, -⟩ := h.path ht fun _ _ _ _ _ _ => trivial
  exact (Recorder.of_path hpath).2

end recorder

/-! ## Programs that keep to some calls -/

section only

/-- The program makes calls of one kind only, whatever the replies. -/
def Only (P : Call → Prop) : Program Reply α → Prop
  | ret _ => True
  | call c k => P c ∧ ∀ r, Only P (k r)

variable {P : Call → Prop}

/-- A single call. -/
theorem Only.perform {c : Call} (hc : P c) : Only P (Program.perform c : Program Reply _) :=
  ⟨hc, fun _ => trivial⟩

/-- A call, and what follows it. -/
theorem Only.call {c : Call} {f : Reply c → Program Reply α} (hc : P c) (hf : ∀ r, Only P (f r)) :
    Only P (Program.perform c >>= f) := ⟨hc, hf⟩

/-- One program after the other. -/
theorem Only.bind {p : Program Reply α} {f : α → Program Reply β} (h : Only P p)
    (hf : ∀ a, Only P (f a)) : Only P (p >>= f) := by
  induction p with
  | ret a => exact hf a
  | call c k ih => exact ⟨h.1, fun r => ih r (h.2 r)⟩

/-- Calls of one kind are calls of a wider one. -/
theorem Only.mono {P' : Call → Prop} {p : Program Reply α} (h : Only P p)
    (hP : ∀ c, P c → P' c) : Only P' p := by
  induction p with
  | ret a => trivial
  | call c k ih => exact ⟨hP c h.1, fun r => ih r (h.2 r)⟩

/-- A program whose calls leave the machine where it is. -/
theorem Sim.of_only {Step : σ → Event Reply → σ → Prop} {Law : σ → Event Reply → Prop} {s : σ}
    {p : Program Reply α} (h : Only P p)
    (hstep : ∀ c, P c → ∀ r, Law s ⟨c, r⟩ → Step s ⟨c, r⟩ s) :
    Sim Step Law p s fun _ s' => s' = s := by
  induction p with
  | ret a => rfl
  | call c k ih => exact fun r hr => ⟨s, hstep c h.1 r hr, ih r (h.2 r)⟩

/-- What is known of a program that keeps to some calls, as far as these are lawful, and its run. -/
theorem Only.record {Step : σ → Event Reply → σ → Prop} {Law : σ → Event Reply → Prop} {s : σ}
    {p : Program Reply α} {Q : α → σ → Prop} (h : Only P p) (hsim : Sim Step Law p s Q)
    (hlaw : ∀ c, P c → ∀ r s, Law s ⟨c, r⟩) (t : List (Event Reply)) :
    Sim (Recorder fun _ _ => True) (fun _ _ => True) p t fun a t' =>
      ∃ t₁ s', t' = t ++ t₁ ∧ (∀ e ∈ t₁, P e.1) ∧ Q a s' := by
  induction p generalizing s t with
  | ret a => exact ⟨[], s, (List.append_nil t).symm, by simp, hsim⟩
  | call c k ih =>
      intro r _
      obtain ⟨s', -, hk⟩ := hsim r (hlaw c h.1 r s)
      refine ⟨t ++ [⟨c, r⟩], ⟨trivial, rfl⟩, (ih r (h.2 r) hk _).mono ?_⟩
      rintro a t' ⟨t₁, s'', rfl, ht₁, hQ⟩
      refine ⟨⟨c, r⟩ :: t₁, s'', by simp, ?_, hQ⟩
      intro e he
      rcases List.mem_cons.mp he with rfl | he
      · exact h.1
      · exact ht₁ e he

end only

/-! ## What is left of a program -/

section rest

/-- One call of a program, and what is left of it. -/
inductive Step : Program Reply α → Event Reply → Program Reply α → Prop
  | call {c : Call} {k : Reply c → Program Reply α} (r : Reply c) : Step (.call c k) ⟨c, r⟩ (k r)

/-- The value of a program that is over. -/
def value : Program Reply α → Option α
  | ret a => some a
  | call _ _ => none

/-- A run of what is left is the end of a run. -/
theorem Trace.append {p q : Program Reply α} {t t' : List (Event Reply)} {o : Option α}
    (h : Path Step p t q) (h' : Trace q t' o) : Trace p (t ++ t') o := by
  induction h generalizing t' with
  | refl => exact h'
  | step _ hstep ih =>
      cases hstep with
      | call r =>
        rw [List.append_assoc]
        exact ih (.call r h')

/-- **The calls up to what is left are a run**, which is over when a value is left. -/
theorem Trace.of_path {p q : Program Reply α} {t : List (Event Reply)} (h : Path Step p t q) :
    Trace p t q.value := by
  rw [← List.append_nil t]
  apply Trace.append h
  cases q with
  | ret a => exact .ret a
  | call c k => exact .stop _

/-- After a run that is over, what follows is left. -/
theorem Trace.path_bind {p : Program Reply α} {f : α → Program Reply β} {t : List (Event Reply)}
    {a : α} (h : Trace p t (some a)) : Path Step (p >>= f) t (f a) := by
  induction p generalizing t with
  | ret b =>
      cases h
      exact .refl
  | call c k ih =>
      cases h with
      | call r h => exact Path.cons (.call r) (ih r h)

end rest

/-! ## Calls that are programs themselves -/

section interpret

variable {Call' : Type} {Reply' : Call' → Type} (h : (c : Call) → Program Reply' (Reply c))

/-- The program over another interface in which a program stands for each call. -/
def interpret : Program Reply α → Program Reply' α
  | ret a => ret a
  | call c k => h c >>= fun r => (k r).interpret

/-- Runs of the programs that stand for the calls of a run, one after the other. -/
inductive Interprets : List (Event Reply) → List (Event Reply') → Prop
  | nil : Interprets [] []
  | cons {c : Call} {r : Reply c} {t : List (Event Reply)} {t₁ t₂ : List (Event Reply')}
      (hc : Trace (h c) t₁ (some r)) (ht : Interprets t t₂) : Interprets (⟨c, r⟩ :: t) (t₁ ++ t₂)

variable {h}

/-- **The runs of an interpreted program** are the runs of the program, with a run of what stands
for it in place of each call. -/
theorem trace_interpret {p : Program Reply α} {t' : List (Event Reply')} {a : α} :
    Trace (p.interpret h) t' (some a) ↔ ∃ t, Interprets h t t' ∧ Trace p t (some a) := by
  induction p generalizing t' with
  | ret b =>
      constructor
      · intro ht
        obtain ⟨rfl, rfl⟩ := trace_pure.mp ht
        exact ⟨[], .nil, .ret _⟩
      · rintro ⟨t, ht, htrace⟩
        cases htrace
        cases ht
        exact .ret _
  | call c k ih =>
      constructor
      · intro ht
        obtain ⟨r, t₁, t₂, rfl, hc, hrest⟩ := trace_bind.mp ht
        obtain ⟨t, hinterprets, htrace⟩ := (ih r).mp hrest
        exact ⟨⟨c, r⟩ :: t, .cons hc hinterprets, .call r htrace⟩
      · rintro ⟨t, ht, htrace⟩
        cases htrace with
        | call r htrace =>
          cases ht with
          | cons hc ht => exact trace_bind.mpr ⟨r, _, _, rfl, hc, (ih r).mpr ⟨_, ht, htrace⟩⟩

/-- Where a single call stands for each call, the run has the same calls under other names. -/
theorem trace_interpret_single {p : Program Reply α} {t' : List (Event Reply')} {a : α}
    {rename : Event Reply → Event Reply'}
    (hsingle : ∀ c r t, Trace (h c) t (some r) → t = [rename ⟨c, r⟩])
    (ht : Trace (p.interpret h) t' (some a)) :
    ∃ t, t' = t.map rename ∧ Trace p t (some a) := by
  obtain ⟨t, hinterprets, htrace⟩ := trace_interpret.mp ht
  refine ⟨t, ?_, htrace⟩
  clear htrace ht
  induction hinterprets with
  | nil => rfl
  | cons hc _ ih => rw [hsingle _ _ _ hc, ih, List.map_cons, List.singleton_append]

/-- A run under other names, where a single call stands for each call. -/
theorem Trace.interpret_single {p : Program Reply α} {t : List (Event Reply)} {a : α}
    {rename : Event Reply → Event Reply'}
    (hsingle : ∀ c r, Trace (h c) [rename ⟨c, r⟩] (some r)) (ht : Trace p t (some a)) :
    Trace (p.interpret h) (t.map rename) (some a) := by
  induction p generalizing t with
  | ret b =>
      cases ht
      exact .ret _
  | call c k ih =>
      cases ht with
      | call r ht => exact (hsingle c r).bind (ih r ht)

end interpret

end Program

end Lib
