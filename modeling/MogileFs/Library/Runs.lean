import Mathlib

/-!
# Runs of a state machine under a guard

A state machine is a function `step : σ → ι → σ`; a run is a list of inputs.
`Meets step guard s ops` says that every step of the run from `s` meets `guard`
in the state it starts from.

Results:
* `run_append`, `meets_append`: a run and one that goes on from where it ends.
* `meets_congr`: guards that agree step by step are met by the same runs.
* `throughout_of_meets`: an invariant kept by every guarded step holds in every
  state of a guarded run.
* `throughout_of_steps`: the same for an invariant kept by every step.
* `run_take_le`: what never shrinks in a step never shrinks in a run.
* `invariant_iff_meets`: when, from states with the invariant, `guard` is exactly
  what makes a step keep it, then the invariant holds in every state of a run
  exactly when the run meets `guard`.
-/

namespace Runs

variable {σ ι : Type*} (step : σ → ι → σ)

/-- The state after the inputs `ops`. -/
def run (s : σ) (ops : List ι) : σ := ops.foldl step s

@[simp] theorem run_nil (s : σ) : run step s [] = s := rfl

@[simp] theorem run_cons (s : σ) (op : ι) (ops : List ι) :
    run step s (op :: ops) = run step (step s op) ops := rfl

theorem run_append (s : σ) (ops ops' : List ι) :
    run step s (ops ++ ops') = run step (run step s ops) ops' := List.foldl_append

/-- Every step of the run meets `guard` in the state it starts from. -/
def Meets (guard : σ → ι → Prop) : σ → List ι → Prop
  | _, [] => True
  | s, op :: ops => guard s op ∧ Meets guard (step s op) ops

/-- A guard that can be decided can be decided for a run. -/
instance Meets.decidable {guard : σ → ι → Prop} [∀ s op, Decidable (guard s op)] :
    (s : σ) → (ops : List ι) → Decidable (Meets step guard s ops)
  | _, [] => isTrue trivial
  | s, op :: ops => @instDecidableAnd _ _ _ (Meets.decidable (step s op) ops)

/-- The invariant holds in the first state and after every step of the run. -/
def Throughout (inv : σ → Prop) (s : σ) (ops : List ι) : Prop :=
  ∀ k, inv (run step s (ops.take k))

theorem throughout_cons {inv : σ → Prop} {s : σ} {op : ι} {ops : List ι} :
    Throughout step inv s (op :: ops) ↔ inv s ∧ Throughout step inv (step s op) ops := by
  constructor
  · intro h
    exact ⟨h 0, fun k => h (k + 1)⟩
  · rintro ⟨h0, h⟩ k
    cases k with
    | zero => exact h0
    | succ k => exact h k

variable {step} {inv : σ → Prop} {guard : σ → ι → Prop}

theorem meets_append {s : σ} {ops ops' : List ι} :
    Meets step guard s (ops ++ ops') ↔
      Meets step guard s ops ∧ Meets step guard (run step s ops) ops' := by
  induction ops generalizing s with
  | nil => simp [Meets]
  | cons op ops ih => simp only [List.cons_append, Meets, run_cons, ih, and_assoc]

/-- Guards that agree in all states with an invariant of the steps are met by the same runs. -/
theorem meets_congr {guard' : σ → ι → Prop} (hstep : ∀ s op, inv s → inv (step s op))
    (h : ∀ s op, inv s → (guard s op ↔ guard' s op)) {s : σ} (hs : inv s) {ops : List ι} :
    Meets step guard s ops ↔ Meets step guard' s ops := by
  induction ops generalizing s with
  | nil => exact Iff.rfl
  | cons op ops ih => exact and_congr (h s op hs) (ih (hstep s op hs))

/-- An invariant kept by every guarded step holds in every state of a guarded run. -/
theorem throughout_of_meets (hstep : ∀ s op, inv s → guard s op → inv (step s op)) {s : σ}
    (hs : inv s) {ops : List ι} (h : Meets step guard s ops) : Throughout step inv s ops := by
  induction ops generalizing s with
  | nil => exact fun k => by simpa using hs
  | cons op ops ih =>
    rw [throughout_cons]
    exact ⟨hs, ih (hstep s op hs h.1) h.2⟩

/-- An invariant kept by every step holds in every state of every run. -/
theorem throughout_of_steps (hstep : ∀ s op, inv s → inv (step s op)) {s : σ} (hs : inv s)
    {ops : List ι} : Throughout step inv s ops := by
  induction ops generalizing s with
  | nil => exact fun k => by simpa using hs
  | cons op ops ih =>
    rw [throughout_cons]
    exact ⟨hs, ih (hstep s op hs)⟩

/-- What never shrinks in a step never shrinks in a run. -/
theorem run_take_le {R : σ → σ → Prop} (hrefl : ∀ s, R s s)
    (htrans : ∀ s t u, R s t → R t u → R s u) (hstep : ∀ s op, R s (step s op)) (s : σ)
    (ops : List ι) {k k' : ℕ} (hk : k ≤ k') :
    R (run step s (ops.take k)) (run step s (ops.take k')) := by
  induction ops generalizing s k k' with
  | nil => simpa using hrefl s
  | cons op ops ih =>
    cases k' with
    | zero =>
      obtain rfl : k = 0 := by omega
      exact hrefl s
    | succ k' =>
      cases k with
      | zero => exact htrans _ _ _ (hstep s op) (ih (step s op) (Nat.zero_le k'))
      | succ k => exact ih (step s op) (Nat.le_of_succ_le_succ hk)

/-- The guard that decides every single step decides the whole run. -/
theorem invariant_iff_meets
    (hstep : ∀ s op, inv s → (inv (step s op) ↔ guard s op)) {s : σ} (hs : inv s)
    {ops : List ι} : Throughout step inv s ops ↔ Meets step guard s ops := by
  induction ops generalizing s with
  | nil => exact ⟨fun _ => trivial, fun _ k => by simpa using hs⟩
  | cons op ops ih =>
    rw [throughout_cons, Meets]
    have hiff := hstep s op hs
    constructor
    · rintro ⟨-, h⟩
      have hnext : inv (step s op) := h 0
      exact ⟨hiff.mp hnext, (ih hnext).mp h⟩
    · rintro ⟨hg, h⟩
      have hnext := hiff.mpr hg
      exact ⟨hs, (ih hnext).mpr h⟩

end Runs
