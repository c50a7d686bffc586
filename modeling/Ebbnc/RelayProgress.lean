import Ebbnc.Client

/-!
# Progress of the relay

* `Event.polled`, `polledIn` — the polls that return a positive count; `PassProgresses` — such a
  pass of the relay leaves it or reads something.
* `Client.relayPass_progress` — a pass does so exactly when `POLLIN` is reported for one of the
  sockets: an error or a hang-up alone is neither read nor looked at.
* **`Client.relay_progress_iff`** — hence in every run, and how many passes there can be for the
  bytes that arrive.
-/

namespace Ebbnc

open Lib

/-! ## Positive polls -/

/-- The `revents` of a `poll` that returns a positive count. -/
def Event.polled : Event → Option (Revents × Revents)
  | ⟨.poll _ _ _, .ok (c, r)⟩ => if c = .zero ∧ r = .zero then none else some (c, r)
  | _ => none

/-- The `revents` of the poll a pass of the relay starts with, when its count is positive. -/
def polledIn (pass : List Event) : Option (Revents × Revents) := pass.head?.bind Event.polled

/-- `POLLIN` is reported for one of the sockets. -/
def Readable (revents : Revents × Revents) : Prop :=
  revents.1.pollin = true ∨ revents.2.pollin = true

namespace Client

variable (client : Client)

/-- A pass that is over: it has left the loop, or it has read a byte from one of the sockets. -/
def PassProgresses (pass : List Event) (more : Bool) : Prop :=
  more = false ∨ received client.cSock pass ≠ [] ∨ received client.rSock pass ≠ []

/-- Something read from the client is not nothing, or the branch ends the loop. -/
theorem relayClient_progress {t : List Event} {more : Bool}
    (h : Program.Trace (client.relayClient true) t (some more)) :
    more = false ∨ received client.cSock t ≠ [] := by
  unfold relayClient at h
  rw [if_pos rfl] at h
  obtain ⟨reply, t', rfl, hrest⟩ := Program.trace_call.mp h
  cases reply with
  | error errno => exact Or.inl (Program.trace_pure.mp hrest).2
  | ok chunk =>
      by_cases hchunk : chunk.1 = []
      · simp only [if_pos hchunk] at hrest
        exact Or.inl (Program.trace_pure.mp hrest).2
      · refine Or.inr ?_
        simp [received, hchunk]

/-- Something read from the server is not nothing, or the branch ends the loop. -/
theorem relayServer_progress {t : List Event} {more : Bool}
    (h : Program.Trace (client.relayServer true) t (some more)) :
    more = false ∨ received client.rSock t ≠ [] := by
  unfold relayServer at h
  rw [if_pos rfl] at h
  obtain ⟨reply, t', rfl, hrest⟩ := Program.trace_call.mp h
  cases reply with
  | error errno =>
      obtain ⟨_, _, _, -, -, hleave⟩ := Program.trace_bind.mp hrest
      exact Or.inl (Program.trace_pure.mp hleave).2
  | ok chunk =>
      by_cases hchunk : chunk.1 = []
      · simp only [if_pos hchunk] at hrest
        obtain ⟨_, _, _, -, -, hleave⟩ := Program.trace_bind.mp hrest
        exact Or.inl (Program.trace_pure.mp hleave).2
      · refine Or.inr ?_
        simp [received, hchunk]

/-- What a pass does after a poll with a positive count. -/
theorem relayPass_polled {pass : List Event} {more : Bool} {c r : Revents}
    (h : Program.Trace client.relayPass pass (some more)) (hpolled : polledIn pass = some (c, r)) :
    ∃ e rest, pass = e :: rest ∧ e.polled = some (c, r) ∧
      Program.Trace (do
        if ← client.relayClient c.pollin then client.relayServer r.pollin else pure false)
        rest (some more) := by
  unfold relayPass at h
  obtain ⟨reply, rest, rfl, hrest⟩ := Program.trace_call.mp h
  have he : Event.polled ⟨.poll client.cSock client.rSock client.timeout, reply⟩ = some (c, r) :=
    hpolled
  refine ⟨_, rest, rfl, he, ?_⟩
  match reply, he, hrest with
  | .ok (c', r'), he, hrest =>
      unfold Event.polled at he
      by_cases hzero : c' = .zero ∧ r' = .zero
      · simp [hzero] at he
      · simp only [if_neg hzero, Option.some.injEq, Prod.mk.injEq] at he
        obtain ⟨rfl, rfl⟩ := he
        simp only [if_neg hzero] at hrest
        exact hrest

/-- **A pass after a positive poll progresses exactly when `POLLIN` is reported.** -/
theorem relayPass_progress {pass : List Event} {more : Bool} {revents : Revents × Revents}
    (h : Program.Trace client.relayPass pass (some more)) (hpolled : polledIn pass = some revents) :
    client.PassProgresses pass more ↔ Readable revents := by
  obtain ⟨c, r⟩ := revents
  obtain ⟨e, rest, rfl, he, hrest⟩ := client.relayPass_polled h hpolled
  have hnone : ∀ fd, Event.got fd e = [] := by
    intro fd
    obtain ⟨c', reply⟩ := e
    cases c' <;> first | rfl | cases he
  have hgot : ∀ fd, received fd (e :: rest) = received fd rest := by
    intro fd
    simp [received, hnone fd]
  unfold PassProgresses Readable
  rw [hgot, hgot]
  obtain ⟨goes, t₁, t₂, rfl, h₁, h₂⟩ := Program.trace_bind.mp hrest
  have happend : ∀ fd, received fd (t₁ ++ t₂) = received fd t₁ ++ received fd t₂ := by
    intro fd
    simp [received]
  rw [happend, happend]
  rcases hc : c.pollin with _ | _
  · -- the client is passed over
    rw [hc] at h₁
    obtain ⟨rfl, rfl⟩ := Program.trace_pure.mp h₁
    simp only [if_pos] at h₂
    rcases hr : r.pollin with _ | _
    · rw [hr] at h₂
      obtain ⟨rfl, rfl⟩ := Program.trace_pure.mp h₂
      simp [received]
    · rw [hr] at h₂
      have hserver := client.relayServer_progress h₂
      simp only [Bool.false_eq_true, false_or, iff_true]
      rcases hserver with hleaves | hreads
      · exact Or.inl hleaves
      · exact Or.inr (Or.inr (by simpa using fun _ => hreads))
  · rw [hc] at h₁
    simp only [true_or, iff_true]
    rcases client.relayClient_progress h₁ with rfl | hreads
    · rw [if_neg (by decide)] at h₂
      exact Or.inl (Program.trace_pure.mp h₂).2
    · exact Or.inr (Or.inl (by simpa using fun hnil => absurd hnil hreads))

/-! ## Runs of the relay -/

/-- The passes of a run of the relay. -/
def PassesOf (t : List Event) (its : List (List Event × Option Bool)) : Prop :=
  Program.Iterations client.relayPass its ∧ t = its.flatMap Prod.fst

/-- Something holds of the reply of every poll with a positive count whose pass is over. -/
def AtPolls (its : List (List Event × Option Bool))
    (P : List Event → Bool → Revents × Revents → Prop) : Prop :=
  ∀ pass more revents, (pass, some more) ∈ its → polledIn pass = some revents →
    P pass more revents

/-- The bytes that were read in the passes are those of the run. -/
theorem length_received (fd : ℤ) (its : List (List Event × Option Bool)) :
    (received fd (its.flatMap Prod.fst)).length =
      (its.map fun it => (received fd it.1).length).sum := by
  induction its with
  | nil => rfl
  | cons it its ih =>
      rw [List.map_cons, List.sum_cons, ← ih, List.flatMap_cons, received, List.flatMap_append,
        List.length_append]
      rfl

/-- **The relay makes progress** in a run exactly when every poll with a positive count has
reported `POLLIN`; and then there are no more of them than bytes were read, but for the last. -/
theorem relay_progress_iff {passes : ℕ} {t : List Event} {o : Option (Option Unit)}
    (h : Program.Trace (client.relay passes) t o) :
    (∃ its, client.PassesOf t its) ∧ ∀ its, client.PassesOf t its →
      (AtPolls its (fun pass more _ => client.PassProgresses pass more) ↔
        AtPolls its fun _ _ revents => Readable revents) ∧
      (AtPolls its (fun _ _ revents => Readable revents) →
        its.countP (fun it => (polledIn it.1).isSome) ≤
          (received client.cSock t).length + (received client.rSock t).length + 1) := by
  refine ⟨Program.Trace.iterations h, ?_⟩
  rintro its ⟨hits, rfl⟩
  have hpass : ∀ {pass more revents}, (pass, some more) ∈ its → polledIn pass = some revents →
      (client.PassProgresses pass more ↔ Readable revents) := fun hmem hpolled =>
    client.relayPass_progress (hits.trace hmem) hpolled
  refine ⟨⟨fun hall pass more revents hmem hpolled => ?_,
    fun hall pass more revents hmem hpolled => ?_⟩, fun hall => ?_⟩
  · exact (hpass hmem hpolled).mp (hall pass more revents hmem hpolled)
  · exact (hpass hmem hpolled).mpr (hall pass more revents hmem hpolled)
  · have hcount := hits.count_le (fun pass => (polledIn pass).isSome)
      (fun pass => (received client.cSock pass).length + (received client.rSock pass).length)
      fun pass hmem hpolled => ?_
    · rw [length_received, length_received, ← List.sum_map_add]
      exact hcount
    · obtain ⟨revents, hrevents⟩ := Option.isSome_iff_exists.mp hpolled
      rcases (hpass hmem hrevents).mpr (hall pass true revents hmem hrevents) with hleft | hread
      · cases hleft
      · rcases hread with hread | hread
        · have hpos := List.length_pos_iff.mpr hread
          omega
        · have hpos := List.length_pos_iff.mpr hread
          omega

/-- A connection that waits for ever. -/
def idler : Client := ⟨4, .other 0, 5, Config.new, ⟨none, 0, none, 0, none⟩⟩

/-- One byte from the client. -/
def oneByte : List Event :=
  [⟨.poll 4 5 (-1), .ok (⟨true, false, false, false⟩, .zero)⟩,
    ⟨.read 4 bufsiz, .ok ⟨[97], by decide⟩⟩,
    ⟨.write 5 [97], .ok ⟨1, by decide⟩⟩]

theorem oneByte_relay : Program.Trace (idler.relay 1) oneByte (some none) :=
  .call _ (.call _ (.call _ (.ret none)))

/-- The run in which it is passed on. -/
theorem relay_progress_oneByte :
    (∃ its, idler.PassesOf oneByte its) ∧ ∀ its, idler.PassesOf oneByte its →
      (AtPolls its (fun pass more _ => idler.PassProgresses pass more) ↔
        AtPolls its fun _ _ revents => Readable revents) ∧
      (AtPolls its (fun _ _ revents => Readable revents) →
        its.countP (fun it => (polledIn it.1).isSome) ≤
          (received idler.cSock oneByte).length + (received idler.rSock oneByte).length + 1) :=
  idler.relay_progress_iff oneByte_relay

/-! ## A relay that spins -/

/-- A poll that reports a hang-up of the client and nothing else. -/
def hangup : Event := ⟨.poll 4 5 (-1), .ok (⟨false, false, true, false⟩, .zero)⟩

/-- Nothing follows it in the pass. -/
theorem hangup_pass : Program.Trace idler.relayPass [hangup] (some true) := by
  apply Program.trace_call.mpr
  refine ⟨.ok (⟨false, false, true, false⟩, .zero), [], rfl, ?_⟩
  exact .ret true

/-- It may be reported as often as there are passes. -/
theorem hangup_relay (passes : ℕ) :
    Program.Trace (idler.relay passes) (List.replicate passes hangup) (some none) := by
  induction passes with
  | zero => exact .ret none
  | succ passes ih =>
      apply Program.trace_bind.mpr
      exact ⟨true, [hangup], _, rfl, hangup_pass, ih⟩

/-- The relay that waits for a client that has hung up spins: there is no bound on its passes,
and none of them reads anything. -/
theorem not_relay_progress :
    (∀ passes, Program.Trace (idler.relay passes) (List.replicate passes hangup) (some none) ∧
      received 4 (List.replicate passes hangup) = [] ∧
      received 5 (List.replicate passes hangup) = []) ∧
    ¬ ∀ (client : Client) (passes : ℕ) (t : List Event) (o : Option (Option Unit)),
      Program.Trace (client.relay passes) t o → ∀ its, client.PassesOf t its →
        AtPolls its fun pass more _ => client.PassProgresses pass more := by
  have hquiet : ∀ fd passes, received fd (List.replicate passes hangup) = [] := by
    intro fd passes
    rw [received, List.flatMap_eq_nil_iff]
    intro e he
    rw [List.eq_of_mem_replicate he]
    rfl
  refine ⟨fun passes => ⟨hangup_relay passes, hquiet 4 passes, hquiet 5 passes⟩, fun h => ?_⟩
  have hpass := h idler 1 [hangup] _ (hangup_relay 1) [([hangup], some true)]
    ⟨.last hangup_pass, rfl⟩ [hangup] true (⟨false, false, true, false⟩, .zero) (by simp)
    (by decide)
  rcases hpass with hleft | hread | hread
  · cases hleft
  · exact hread rfl
  · exact hread rfl

end Client

end Ebbnc
