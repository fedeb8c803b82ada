import Mathlib

/-!
# Histories of a shared system

A system makes steps, each with an event, and between them others change its state. `History s
events s'` says that on the way from `s` to `s'` exactly the events of the list have happened, in
this order.

Results:
* `History.append`, `History.split`: histories one after another.
* `History.next`, `History.at`: the states around one of the events.
* `History.kept`: what the steps and everybody else keep.
* `History.forall_mem`: what is true of the event of every step.
-/

namespace Histories

variable {σ ε : Type*}

/-- The way from one state to another, with its events. -/
inductive History (step : σ → ε → σ → Prop) (others : σ → σ → Prop) : σ → List ε → σ → Prop
  | refl (s : σ) : History step others s [] s
  | other {s s₁ s' : σ} {events : List ε} :
      others s s₁ → History step others s₁ events s' → History step others s events s'
  | event {s s₁ s' : σ} {e : ε} {events : List ε} :
      step s e s₁ → History step others s₁ events s' → History step others s (e :: events) s'

variable {step : σ → ε → σ → Prop} {others : σ → σ → Prop} {s s' : σ} {events : List ε}

theorem History.append {s₁ : σ} {events' : List ε} (h : History step others s events s₁)
    (h' : History step others s₁ events' s') : History step others s (events ++ events') s' := by
  induction h with
  | refl => exact h'
  | other hother _ ih => exact .other hother (ih h')
  | event hstep _ ih => exact .event hstep (ih h')

theorem History.split {first second : List ε} (h : History step others s (first ++ second) s') :
    ∃ s₁, History step others s first s₁ ∧ History step others s₁ second s' := by
  generalize hevents : first ++ second = events at h
  induction h generalizing first with
  | refl s =>
    obtain ⟨rfl, rfl⟩ := List.append_eq_nil_iff.mp hevents
    exact ⟨s, .refl s, .refl s⟩
  | other hother _ ih =>
    obtain ⟨s₁, hfirst, hsecond⟩ := ih hevents
    exact ⟨s₁, .other hother hfirst, hsecond⟩
  | @event s s₁ s' e events hstep hrest ih =>
    cases first with
    | nil =>
      rw [List.nil_append] at hevents
      rw [hevents]
      exact ⟨s, .refl s, .event hstep hrest⟩
    | cons e' first =>
      rw [List.cons_append, List.cons.injEq] at hevents
      obtain ⟨rfl, hevents⟩ := hevents
      obtain ⟨s₂, hfirst, hsecond⟩ := ih hevents
      exact ⟨s₂, .event hstep hfirst, hsecond⟩

/-- Right before the first event and right behind it. -/
theorem History.next {e : ε} (h : History step others s (e :: events) s') :
    ∃ s₁ s₂, History step others s [] s₁ ∧ step s₁ e s₂ ∧ History step others s₂ events s' := by
  generalize hall : e :: events = all at h
  induction h with
  | refl => cases hall
  | other hother _ ih =>
    obtain ⟨s₁, s₂, hidle, hstep, hrest⟩ := ih hall
    exact ⟨s₁, s₂, .other hother hidle, hstep, hrest⟩
  | event hstep hrest _ =>
    rw [List.cons.injEq] at hall
    obtain ⟨rfl, rfl⟩ := hall
    exact ⟨_, _, .refl _, hstep, hrest⟩

/-- Right before an event and right behind it. -/
theorem History.at {before after : List ε} {e : ε}
    (h : History step others s (before ++ e :: after) s') :
    ∃ s₁ s₂, History step others s before s₁ ∧ step s₁ e s₂ ∧ History step others s₂ after s' := by
  obtain ⟨s₀, hbefore, hafter⟩ := h.split
  obtain ⟨s₁, s₂, hidle, hstep, hrest⟩ := hafter.next
  have hfirst := hbefore.append hidle
  rw [List.append_nil] at hfirst
  exact ⟨s₁, s₂, hfirst, hstep, hrest⟩

theorem History.kept {P : σ → Prop} (hstep : ∀ e ∈ events, ∀ s s₁, step s e s₁ → P s → P s₁)
    (hothers : ∀ s s₁, others s s₁ → P s → P s₁) (h : History step others s events s') (hs : P s) :
    P s' := by
  induction h with
  | refl => exact hs
  | other hother _ ih => exact ih hstep (hothers _ _ hother hs)
  | event hfirst _ ih =>
    exact ih (fun e he => hstep e (List.mem_cons_of_mem _ he))
      (hstep _ List.mem_cons_self _ _ hfirst hs)

theorem History.forall_mem {P : ε → Prop} (hstep : ∀ s e s₁, step s e s₁ → P e)
    (h : History step others s events s') : ∀ e ∈ events, P e := by
  induction h with
  | refl => exact fun e he => absurd he List.not_mem_nil
  | other _ _ ih => exact ih
  | event hfirst _ ih =>
    intro e he
    rcases List.mem_cons.mp he with rfl | he
    · exact hstep _ _ _ hfirst
    · exact ih e he

end Histories
