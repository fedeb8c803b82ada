import Mathlib

/-!
# Tokens in places

`contents p` are the tokens in place `p`. `Exclusive known contents` says that the places hold
the known tokens and no others, each in one place and once there.

Results:
* `Exclusive.existsUnique`: where a token is.
* `Exclusive.step`: it is kept when nothing moves, when tokens go from one place to another, and
  when a new token appears.
* `Step.append`, `Step.lift`: a step beside contents that stay, and the same step seen among more
  places.
-/

namespace Ledger

variable {P T : Type*}

structure Exclusive (known : T → Prop) (contents : P → List T) : Prop where
  known_iff : ∀ x, known x ↔ ∃ p, x ∈ contents p
  nodup : ∀ p, (contents p).Nodup
  unique : ∀ p q x, x ∈ contents p → x ∈ contents q → p = q

variable {known known' : T → Prop} {c c' : P → List T} {p q : P} {x : T} {xs : List T}

/-- A known token is in exactly one place. -/
theorem Exclusive.existsUnique (h : Exclusive known c) (hx : known x) : ∃! p, x ∈ c p := by
  obtain ⟨p, hp⟩ := (h.known_iff x).mp hx
  exact ⟨p, hp, fun q hq => h.unique q p x hq hp⟩

/-- Only the order in the places has changed. -/
theorem Exclusive.congr (h : Exclusive known c) (hc : ∀ p, (c' p).Perm (c p)) :
    Exclusive known c' where
  known_iff y := (h.known_iff y).trans (exists_congr fun p => (hc p).mem_iff.symm)
  nodup p := (hc p).nodup_iff.mpr (h.nodup p)
  unique p q y hp hq := h.unique p q y ((hc p).mem_iff.mp hp) ((hc q).mem_iff.mp hq)

/-- The tokens `xs` leave `p` for `q`. -/
theorem Exclusive.transfer (h : Exclusive known c) (hpq : p ≠ q) (hp : (c p).Perm (xs ++ c' p))
    (hq : (c' q).Perm (xs ++ c q)) (hr : ∀ r, r ≠ p → r ≠ q → (c' r).Perm (c r)) :
    Exclusive known c' := by
  have hnodup : (xs ++ c' p).Nodup := hp.nodup_iff.mp (h.nodup p)
  obtain ⟨hxs, hcp, hdisjoint⟩ := List.nodup_append.mp hnodup
  -- where a token is after the move, in terms of where it was
  have hmem : ∀ r y, y ∈ c' r ↔ (y ∈ c r ∧ y ∉ xs) ∨ (r = q ∧ y ∈ xs) := by
    intro r y
    by_cases hrp : r = p
    · subst hrp
      rw [hp.mem_iff, List.mem_append]
      constructor
      · exact fun hy => Or.inl ⟨Or.inr hy, fun hyx => hdisjoint y hyx y hy rfl⟩
      · rintro (⟨hy, hyx⟩ | ⟨hrq, -⟩)
        · exact hy.resolve_left hyx
        · exact absurd hrq hpq
    · by_cases hrq : r = q
      · subst hrq
        rw [hq.mem_iff, List.mem_append]
        constructor
        · rintro (hy | hy)
          · exact Or.inr ⟨rfl, hy⟩
          · refine Or.inl ⟨hy, fun hyx => hpq ?_⟩
            exact h.unique p r y (hp.mem_iff.mpr (List.mem_append_left _ hyx)) hy
        · rintro (⟨hy, -⟩ | ⟨-, hy⟩)
          · exact Or.inr hy
          · exact Or.inl hy
      · rw [(hr r hrp hrq).mem_iff]
        constructor
        · refine fun hy => Or.inl ⟨hy, fun hyx => hrp ?_⟩
          exact h.unique r p y hy (hp.mem_iff.mpr (List.mem_append_left _ hyx))
        · rintro (⟨hy, -⟩ | ⟨hrq', -⟩)
          · exact hy
          · exact absurd hrq' hrq
  have hfrom : ∀ y ∈ xs, y ∈ c p := fun y hy => hp.mem_iff.mpr (List.mem_append_left _ hy)
  refine ⟨fun y => ?_, fun r => ?_, fun r s y hy hy' => ?_⟩
  · rw [h.known_iff]
    constructor
    · rintro ⟨r, hy⟩
      by_cases hyx : y ∈ xs
      · exact ⟨q, (hmem q y).mpr (Or.inr ⟨rfl, hyx⟩)⟩
      · exact ⟨r, (hmem r y).mpr (Or.inl ⟨hy, hyx⟩)⟩
    · rintro ⟨r, hy⟩
      rcases (hmem r y).mp hy with ⟨hy, -⟩ | ⟨-, hyx⟩
      · exact ⟨r, hy⟩
      · exact ⟨p, hfrom y hyx⟩
  · by_cases hrp : r = p
    · rw [hrp]
      exact hcp
    · by_cases hrq : r = q
      · rw [hrq]
        refine hq.nodup_iff.mpr (List.nodup_append.mpr ⟨hxs, h.nodup q, ?_⟩)
        rintro y hy _ hy' rfl
        exact hpq (h.unique p q y (hfrom y hy) hy')
      · exact (hr r hrp hrq).nodup_iff.mpr (h.nodup r)
  · rcases (hmem r y).mp hy with ⟨hy, hyx⟩ | ⟨rfl, hyx⟩
    · rcases (hmem s y).mp hy' with ⟨hy', -⟩ | ⟨-, hyx'⟩
      · exact h.unique r s y hy hy'
      · exact absurd hyx' hyx
    · rcases (hmem s y).mp hy' with ⟨-, hyx'⟩ | ⟨rfl, -⟩
      · exact absurd hyx hyx'
      · rfl

/-- A token that nobody knew appears in `q`. -/
theorem Exclusive.create (h : Exclusive known c) (hx : ¬known x)
    (hknown : ∀ y, known' y ↔ known y ∨ y = x) (hq : (c' q).Perm (x :: c q))
    (hr : ∀ r, r ≠ q → (c' r).Perm (c r)) : Exclusive known' c' := by
  have hnowhere : ∀ r, x ∉ c r := fun r hmem => hx ((h.known_iff x).mpr ⟨r, hmem⟩)
  have hmem : ∀ r y, y ∈ c' r ↔ y ∈ c r ∨ (r = q ∧ y = x) := by
    intro r y
    by_cases hrq : r = q
    · subst hrq
      rw [hq.mem_iff, List.mem_cons]
      constructor
      · rintro (hy | hy)
        · exact Or.inr ⟨rfl, hy⟩
        · exact Or.inl hy
      · rintro (hy | ⟨-, hy⟩)
        · exact Or.inr hy
        · exact Or.inl hy
    · rw [(hr r hrq).mem_iff]
      exact ⟨Or.inl, fun hy => hy.resolve_right fun hrx => hrq hrx.1⟩
  refine ⟨fun y => ?_, fun r => ?_, fun r s y hy hy' => ?_⟩
  · rw [hknown, h.known_iff]
    constructor
    · rintro (⟨r, hy⟩ | hy)
      · exact ⟨r, (hmem r y).mpr (Or.inl hy)⟩
      · exact ⟨q, (hmem q y).mpr (Or.inr ⟨rfl, hy⟩)⟩
    · rintro ⟨r, hy⟩
      rcases (hmem r y).mp hy with hy | ⟨-, hy⟩
      · exact Or.inl ⟨r, hy⟩
      · exact Or.inr hy
  · by_cases hrq : r = q
    · rw [hrq]
      exact hq.nodup_iff.mpr (List.nodup_cons.mpr ⟨hnowhere q, h.nodup q⟩)
    · exact (hr r hrq).nodup_iff.mpr (h.nodup r)
  · rcases (hmem r y).mp hy with hy | ⟨rfl, rfl⟩
    · rcases (hmem s y).mp hy' with hy' | ⟨-, rfl⟩
      · exact h.unique r s y hy hy'
      · exact absurd hy (hnowhere r)
    · rcases (hmem s _).mp hy' with hy' | ⟨rfl, -⟩
      · exact absurd hy' (hnowhere s)
      · rfl

/-! ## Steps -/

/-- One step of the ledger. -/
inductive Step (known known' : T → Prop) (c c' : P → List T) : Prop
  | stay (hknown : ∀ x, known' x ↔ known x) (hc : ∀ p, (c' p).Perm (c p))
  | move (p q : P) (xs : List T) (hknown : ∀ x, known' x ↔ known x) (hpq : p ≠ q)
      (hp : (c p).Perm (xs ++ c' p)) (hq : (c' q).Perm (xs ++ c q))
      (hr : ∀ r, r ≠ p → r ≠ q → (c' r).Perm (c r))
  | create (q : P) (x : T) (hx : ¬known x) (hknown : ∀ y, known' y ↔ known y ∨ y = x)
      (hq : (c' q).Perm (x :: c q)) (hr : ∀ r, r ≠ q → (c' r).Perm (c r))

theorem Exclusive.of_known (h : Exclusive known c) (hknown : ∀ x, known' x ↔ known x) :
    Exclusive known' c := ⟨fun x => (hknown x).trans (h.known_iff x), h.nodup, h.unique⟩

theorem Exclusive.step (h : Exclusive known c) (hstep : Step known known' c c') :
    Exclusive known' c' := by
  cases hstep with
  | stay hknown hc => exact (h.of_known hknown).congr hc
  | move p q xs hknown hpq hp hq hr => exact (h.of_known hknown).transfer hpq hp hq hr
  | create q x hx hknown hq hr => exact h.create hx hknown hq hr

/-- Nothing else has changed. -/
theorem Step.append (h : Step known known' c c') (rest : P → List T) :
    Step known known' (fun p => rest p ++ c p) (fun p => rest p ++ c' p) := by
  cases h with
  | stay hknown hc => exact .stay hknown fun p => (hc p).append_left _
  | move p q xs hknown hpq hp hq hr =>
    refine .move p q xs hknown hpq ?_ ?_ fun r hrp hrq => (hr r hrp hrq).append_left _
    · exact (hp.append_left _).trans (List.perm_append_comm_assoc ..)
    · exact (hq.append_left _).trans (List.perm_append_comm_assoc ..)
  | create q x hx hknown hq hr =>
    refine .create q x hx hknown ?_ fun r hrq => (hr r hrq).append_left _
    exact (hq.append_left _).trans List.perm_middle

/-- The places of the step are some of the places of `d` and `d'`, which agree elsewhere. -/
theorem Step.lift {Q : Type*} (h : Step known known' c c') {f : P → Q}
    (hf : Function.Injective f) {d d' : Q → List T} (hd : ∀ p, d (f p) = c p)
    (hd' : ∀ p, d' (f p) = c' p) (hother : ∀ r, (∀ p, r ≠ f p) → d' r = d r) :
    Step known known' d d' := by
  have hperm : ∀ r, (∀ p, r = f p → (c' p).Perm (c p)) → (d' r).Perm (d r) := by
    intro r hr
    by_cases hmem : ∃ p, r = f p
    · obtain ⟨p, rfl⟩ := hmem
      rw [hd, hd']
      exact hr p rfl
    · rw [hother r fun p hp => hmem ⟨p, hp⟩]
  cases h with
  | stay hknown hc => exact .stay hknown fun r => hperm r fun p _ => hc p
  | move p q xs hknown hpq hp hq hr =>
    refine .move (f p) (f q) xs hknown (hf.ne hpq) ?_ ?_ fun r hrp hrq => hperm r ?_
    · rwa [hd, hd']
    · rwa [hd, hd']
    · rintro p' rfl
      exact hr p' (fun heq => hrp (congrArg f heq)) (fun heq => hrq (congrArg f heq))
  | create q x hx hknown hq hr =>
    refine .create (f q) x hx hknown ?_ fun r hrq => hperm r ?_
    · rwa [hd, hd']
    · rintro p' rfl
      exact hr p' fun heq => hrq (congrArg f heq)

end Ledger
