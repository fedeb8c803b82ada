import MogileFs.Library.Runs

/-!
# Work paid out of a potential

A state machine whose steps may cost something, and may be paid for: a potential bounds what the
steps of a run cost all together, whatever order they come in.

Results:
* `total_le_of_potential`: the cost of a run is at most the potential at its start and what has been
  paid in on the way.
* `exists_of_not_meets`: where a run leaves a guard.
-/

namespace Runs

variable {σ ι : Type*} (step : σ → ι → σ)

/-- The sum of `f` over the steps of a run, each in the state it starts from. -/
def total (f : σ → ι → ℕ) : σ → List ι → ℕ
  | _, [] => 0
  | s, op :: ops => f s op + total f (step s op) ops

theorem total_mul (k : ℕ) (f : σ → ι → ℕ) (s : σ) (ops : List ι) :
    total step (fun s op => k * f s op) s ops = k * total step f s ops := by
  induction ops generalizing s with
  | nil => rfl
  | cons op ops ih => rw [total, total, ih, Nat.mul_add]

variable {step} {inv : σ → Prop} {guard : σ → ι → Prop} {potential : σ → ℕ}
  {cost income : σ → ι → ℕ}

theorem Meets.and {guard' : σ → ι → Prop} {s : σ} {ops : List ι} (h : Meets step guard s ops)
    (h' : Meets step guard' s ops) :
    Meets step (fun s op => guard s op ∧ guard' s op) s ops := by
  induction ops generalizing s with
  | nil => trivial
  | cons op ops ih => exact ⟨⟨h.1, h'.1⟩, ih h.2 h'.2⟩

/-- A guard on the state that a run does not meet fails in one of its states. -/
theorem exists_of_not_meets {P : σ → Prop} {s : σ} {ops : List ι}
    (h : ¬Meets step (fun s _ => P s) s ops) : ∃ k < ops.length, ¬P (run step s (ops.take k)) := by
  induction ops generalizing s with
  | nil => exact absurd trivial h
  | cons op ops ih =>
    by_cases hs : P s
    · obtain ⟨k, hk, hfails⟩ := ih fun hrest => h ⟨hs, hrest⟩
      exact ⟨k + 1, Nat.succ_lt_succ hk, hfails⟩
    · exact ⟨0, Nat.succ_pos _, hs⟩

/-- A step costs at most what it takes from the potential, and what is paid in. -/
theorem total_le_of_potential (hinv : ∀ s op, inv s → guard s op → inv (step s op))
    (hpays : ∀ s op, inv s → guard s op →
      potential (step s op) + cost s op ≤ potential s + income s op)
    {s : σ} (hs : inv s) {ops : List ι} (h : Meets step guard s ops) :
    potential (run step s ops) + total step cost s ops ≤
      potential s + total step income s ops := by
  induction ops generalizing s with
  | nil => exact le_refl _
  | cons op ops ih =>
    have hfirst := hpays s op hs h.1
    have hrest := ih (hinv s op hs h.1) h.2
    rw [run_cons, total, total]
    omega

end Runs
