import Mathlib

/-!
# Logs of events

A log is a list of events, the latest at its end. `Each P log` says that every
event stands to the events before it as `P` demands, and `Since q log before e rest`
that `e` is the last event of `log` with `q`, `before` what came before and `rest` what
came after it.

Results:
* `each_concat`: a log grows event by event.
* `Since.concat`, `since_concat_self`: the last event with `q` when an event is added.
* `Since.unique`: there is only one.
-/

namespace Traces

variable {ε : Type*}

/-- Splitting a log at an event: the event is the last one, or stands before it. -/
theorem concat_eq_append_cons {log past rest : List ε} {e x : ε} :
    log ++ [e] = past ++ x :: rest ↔
      (log = past ∧ x = e ∧ rest = []) ∨ ∃ rest', rest = rest' ++ [e] ∧ log = past ++ x :: rest' := by
  constructor
  · intro h
    rcases List.eq_nil_or_concat rest with rfl | ⟨rest', e', rfl⟩
    · obtain ⟨hlog, he⟩ := List.append_inj' h rfl
      exact Or.inl ⟨hlog, by simpa using he.symm, rfl⟩
    · rw [List.concat_eq_append, ← List.cons_append, ← List.append_assoc] at h
      obtain ⟨hlog, he⟩ := List.append_inj' h rfl
      obtain rfl : e = e' := by simpa using he
      exact Or.inr ⟨rest', List.concat_eq_append, hlog⟩
  · rintro (⟨rfl, rfl, rfl⟩ | ⟨rest', rfl, rfl⟩)
    · rfl
    · rw [List.append_assoc, List.cons_append]

/-! ## Every event, given its past -/

/-- `P past e` holds of every event `e` of the log, `past` being the events before it. -/
def Each (P : List ε → ε → Prop) (log : List ε) : Prop :=
  ∀ past e rest, log = past ++ e :: rest → P past e

variable {P Q : List ε → ε → Prop}

theorem each_nil : Each P [] := fun past e rest h => by
  have := congrArg List.length h
  simp at this

theorem each_concat {log : List ε} {e : ε} : Each P (log ++ [e]) ↔ Each P log ∧ P log e := by
  constructor
  · intro h
    refine ⟨fun past x rest hlog => ?_, h log e [] rfl⟩
    exact h past x (rest ++ [e]) (by rw [hlog, List.append_assoc, List.cons_append])
  · rintro ⟨hlog, he⟩ past x rest hsplit
    rcases concat_eq_append_cons.mp hsplit with ⟨rfl, rfl, -⟩ | ⟨rest', -, h⟩
    · exact he
    · exact hlog past x rest' h

theorem Each.mono {log : List ε} (h : Each P log)
    (himp : ∀ past e rest, log = past ++ e :: rest → P past e → Q past e) : Each Q log :=
  fun past e rest hlog => himp past e rest hlog (h past e rest hlog)

theorem Each.past {log : List ε} (h : Each P log) {past : List ε} {e : ε} {rest : List ε}
    (hlog : log = past ++ e :: rest) : Each P past :=
  fun past' x rest' hpast =>
    h past' x (rest' ++ e :: rest) (by rw [hlog, hpast, List.append_assoc, List.cons_append])

/-! ## The last event of a kind -/

/-- `e` is the last event of `log` with `q`, and `rest` what came after it. -/
def Since (q : ε → Prop) (log : List ε) (before : List ε) (e : ε) (rest : List ε) : Prop :=
  log = before ++ e :: rest ∧ q e ∧ ∀ x ∈ rest, ¬q x

variable {q : ε → Prop}

theorem since_concat_self {log : List ε} {e : ε} (h : q e) : Since q (log ++ [e]) log e [] :=
  ⟨rfl, h, fun _ hx => by cases hx⟩

theorem Since.concat {log before rest : List ε} {e x : ε} (h : Since q log before e rest)
    (hx : ¬q x) : Since q (log ++ [x]) before e (rest ++ [x]) := by
  obtain ⟨rfl, he, hrest⟩ := h
  refine ⟨by rw [List.append_assoc, List.cons_append], he, fun y hy => ?_⟩
  rcases List.mem_append.mp hy with hy | hy
  · exact hrest y hy
  · rw [List.mem_singleton.mp hy]
    exact hx

theorem Since.unique {log before before' rest rest' : List ε} {e e' : ε}
    (h : Since q log before e rest) (h' : Since q log before' e' rest') :
    before = before' ∧ e = e' ∧ rest = rest' := by
  induction rest using List.reverseRecOn generalizing log rest' with
  | nil =>
    rcases List.eq_nil_or_concat rest' with rfl | ⟨l, x, rfl⟩
    · obtain ⟨hbefore, he⟩ := List.append_inj' (h.1.symm.trans h'.1) rfl
      exact ⟨hbefore, by simpa using he, rfl⟩
    · rw [List.concat_eq_append] at h'
      have hx := h.1.symm.trans h'.1
      rw [← List.cons_append, ← List.append_assoc] at hx
      obtain ⟨-, he⟩ := List.append_inj' hx rfl
      obtain rfl : e = x := by simpa using he
      exact absurd h.2.1 (h'.2.2 e (by simp))
  | append_singleton l x ih =>
    have hlog : log = (before ++ e :: l) ++ [x] := by rw [h.1]; simp
    rcases List.eq_nil_or_concat rest' with rfl | ⟨l', x', rfl⟩
    · have hx := hlog.symm.trans h'.1
      obtain ⟨-, he⟩ := List.append_inj' hx rfl
      obtain rfl : x = e' := by simpa using he
      exact absurd h'.2.1 (h.2.2 x (by simp))
    · rw [List.concat_eq_append] at h' ⊢
      have hx := hlog.symm.trans h'.1
      rw [← List.cons_append, ← List.append_assoc] at hx
      obtain ⟨hinit, he⟩ := List.append_inj' hx rfl
      obtain rfl : x = x' := by simpa using he
      obtain ⟨hb, he, hr⟩ := ih
        ⟨rfl, h.2.1, fun y hy => h.2.2 y (by simp [hy])⟩
        ⟨hinit, h'.2.1, fun y hy => h'.2.2 y (by simp [hy])⟩
      exact ⟨hb, he, by rw [hr]⟩

end Traces
