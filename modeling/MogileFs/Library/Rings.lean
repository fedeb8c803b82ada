import Mathlib

/-!
# Doubly linked rings

A ring is a sentinel and the links `next` and `prev` between it and the nodes. A ring *holds* a
list when following the links from the sentinel goes through the nodes of the list, forwards and
backwards.

Results:
* `Holds.insertAfter`, `Holds.unsplice`, `Holds.remove`: what the operations make of the list.
* `Holds.listed_unsplice`: a run of nodes cut out of a ring, ended with a null link.
* `Holds.scanBack`: the scan from the end of the ring that stops at the first node that fails.
* `rtakeWhile_rdropWhile_eq_filter`: such a scan of an ordered list.
* `Holds.deleteFrom`, `Holds.cleanup`: removing all nodes from a place on.
-/

namespace Rings

open Function

variable {ν : Type*}

/-- Where a link leads. -/
inductive Place (ν : Type*)
  | null
  | sentinel
  | node (n : ν)
deriving DecidableEq

/-- The links of a ring, and those that are left of the nodes that are not in it. -/
structure LinkedRing (ν : Type*) where
  next : Place ν → Place ν
  prev : Place ν → Place ν

namespace LinkedRing

/-! ## The list of a ring -/

/-- Both links between two neighbours. -/
def Linked (r : LinkedRing ν) (a b : Place ν) : Prop := r.next a = b ∧ r.prev b = a

/-- From `a` the links lead through the nodes of `l`. -/
def Reach (r : LinkedRing ν) : Place ν → List ν → Prop
  | _, [] => True
  | a, n :: l => r.Linked a (.node n) ∧ r.Reach (.node n) l

/-- The last place on the way from `a` through `l`. -/
def lastPlace : Place ν → List ν → Place ν
  | a, [] => a
  | _, n :: l => lastPlace (.node n) l

/-- The first place on the way through `l` to `b`. -/
def firstPlace (b : Place ν) : List ν → Place ν
  | [] => b
  | n :: _ => .node n

/-- The ring consists of the nodes of `l`, in this order. -/
structure Holds (r : LinkedRing ν) (l : List ν) : Prop where
  nodup : l.Nodup
  reach : r.Reach .sentinel l
  close : r.Linked (lastPlace .sentinel l) .sentinel

/-- The ring with no nodes. -/
def empty : LinkedRing ν := ⟨fun _ => .sentinel, fun _ => .sentinel⟩

theorem holds_empty : (empty : LinkedRing ν).Holds [] := ⟨List.nodup_nil, trivial, rfl, rfl⟩

@[simp] theorem lastPlace_nil (a : Place ν) : lastPlace a [] = a := rfl

@[simp] theorem lastPlace_cons (a : Place ν) (n : ν) (l : List ν) :
    lastPlace a (n :: l) = lastPlace (.node n) l := rfl

theorem lastPlace_append (a : Place ν) (l m : List ν) :
    lastPlace a (l ++ m) = lastPlace (lastPlace a l) m := by
  induction l generalizing a with
  | nil => rfl
  | cons n l ih => exact ih (.node n)

theorem lastPlace_concat (a : Place ν) (l : List ν) (n : ν) :
    lastPlace a (l ++ [n]) = .node n := by
  rw [lastPlace_append]
  rfl

theorem lastPlace_mem (a : Place ν) (l : List ν) :
    lastPlace a l = a ∨ ∃ n ∈ l, lastPlace a l = .node n := by
  induction l using List.reverseRecOn with
  | nil => exact .inl rfl
  | append_singleton l n _ => exact .inr ⟨n, by simp, lastPlace_concat a l n⟩

theorem firstPlace_append {m : List ν} (hm : m ≠ []) (b : Place ν) (k : List ν) :
    firstPlace b (m ++ k) = .node (m.head hm) := by
  obtain ⟨n, m, rfl⟩ := List.exists_cons_of_ne_nil hm
  rfl

theorem lastPlace_append_ne {m : List ν} (hm : m ≠ []) (a : Place ν) (l : List ν) :
    lastPlace a (l ++ m) = .node (m.getLast hm) := by
  conv_lhs => rw [← List.dropLast_append_getLast hm, ← List.append_assoc]
  exact lastPlace_concat _ _ _

theorem reach_append {r : LinkedRing ν} {a : Place ν} {l m : List ν} :
    r.Reach a (l ++ m) ↔ r.Reach a l ∧ r.Reach (lastPlace a l) m := by
  induction l generalizing a with
  | nil => simp [Reach]
  | cons n l ih => simp only [List.cons_append, Reach, lastPlace_cons, ih, and_assoc]

/-- A way is kept when its links are; the last place's `next` is not one of them. -/
theorem Reach.congr {r r' : LinkedRing ν} {a : Place ν} {l : List ν} (h : r.Reach a l)
    (hnext : ∀ x ∈ (a :: l.map .node).dropLast, r'.next x = r.next x)
    (hprev : ∀ n ∈ l, r'.prev (.node n) = r.prev (.node n)) : r'.Reach a l := by
  induction l generalizing a with
  | nil => trivial
  | cons n l ih =>
    simp only [List.map_cons, List.dropLast_cons_cons] at hnext
    refine ⟨⟨?_, ?_⟩, ih h.2 (fun x hx => ?_) fun m hm => hprev m (List.mem_cons_of_mem _ hm)⟩
    · exact (hnext a List.mem_cons_self).trans h.1.1
    · exact (hprev n List.mem_cons_self).trans h.1.2
    · exact hnext x (List.mem_cons_of_mem _ hx)

/-- The links between two parts of the list. -/
theorem Holds.linked {r : LinkedRing ν} {l k : List ν} (h : r.Holds (l ++ k)) :
    r.Linked (lastPlace .sentinel l) (firstPlace .sentinel k) := by
  cases k with
  | nil => simpa [firstPlace] using h.close
  | cons n k => exact (reach_append.mp h.reach).2.1

/-- Behind the first node of the second part. -/
theorem Holds.behind {r : LinkedRing ν} {l k : List ν} {n : ν} (h : r.Holds (l ++ n :: k)) :
    r.Reach (.node n) k ∧ r.Linked (lastPlace (.node n) k) .sentinel := by
  refine ⟨(reach_append.mp h.reach).2.2, ?_⟩
  have hclose := h.close
  rwa [lastPlace_append, lastPlace_cons] at hclose

/-! ## Places apart -/

theorem node_ne_node {m n : ν} {l : List ν} (hm : m ∈ l) (hn : n ∉ l) :
    Place.node m ≠ .node n := by
  rintro ⟨⟩
  exact hn hm

theorem lastPlace_ne_node {l : List ν} {n : ν} (hn : n ∉ l) :
    lastPlace .sentinel l ≠ .node n := by
  rcases lastPlace_mem .sentinel l with hlast | ⟨m, hm, hlast⟩
  · rw [hlast]
    exact nofun
  · rw [hlast]
    exact node_ne_node hm hn

theorem firstPlace_ne_node {l : List ν} {n : ν} (hn : n ∉ l) :
    firstPlace .sentinel l ≠ .node n := by
  cases l with
  | nil => exact nofun
  | cons m l => exact node_ne_node List.mem_cons_self hn

theorem node_ne_firstPlace {l k : List ν} (h : (l ++ k).Nodup) {m : ν} (hm : m ∈ l) :
    Place.node m ≠ firstPlace .sentinel k :=
  (firstPlace_ne_node fun hk => List.disjoint_of_nodup_append h hm hk).symm

theorem node_ne_lastPlace {l k : List ν} (h : (l ++ k).Nodup) {m : ν} (hm : m ∈ k) :
    Place.node m ≠ lastPlace .sentinel l :=
  (lastPlace_ne_node fun hl => List.disjoint_of_nodup_append h hl hm).symm

theorem ne_lastPlace_of_mem {l : List ν} (h : l.Nodup) {x : Place ν}
    (hx : x ∈ (Place.sentinel :: l.map .node).dropLast) : x ≠ lastPlace .sentinel l := by
  induction l using List.reverseRecOn with
  | nil => simp at hx
  | append_singleton l n _ =>
    rw [List.map_append, List.map_singleton, ← List.cons_append, List.dropLast_concat] at hx
    rw [lastPlace_concat]
    rintro rfl
    have hn : n ∈ l := by simpa using hx
    exact List.disjoint_of_nodup_append h hn (List.mem_singleton_self n)

theorem mem_of_mem_dropLast {a x : Place ν} {l : List ν}
    (hx : x ∈ (a :: l.map .node).dropLast) : x = a ∨ ∃ n ∈ l, x = .node n := by
  rcases List.mem_cons.mp (List.mem_of_mem_dropLast hx) with hx | hx
  · exact .inl hx
  · obtain ⟨n, hn, rfl⟩ := List.mem_map.mp hx
    exact .inr ⟨n, hn, rfl⟩

/-! ## Relinking -/

/-- A way that starts at a node of the ring keeps clear of the rest. -/
theorem Reach.congr_node {r r' : LinkedRing ν} {q : ν} {k : List ν} (h : r.Reach (.node q) k)
    (hnext : ∀ n ∈ q :: k, r'.next (.node n) = r.next (.node n))
    (hprev : ∀ n ∈ k, r'.prev (.node n) = r.prev (.node n)) : r'.Reach (.node q) k := by
  refine h.congr (fun x hx => ?_) hprev
  rcases mem_of_mem_dropLast hx with rfl | ⟨n, hn, rfl⟩
  · exact hnext q List.mem_cons_self
  · exact hnext n (List.mem_cons_of_mem _ hn)

/-- The parts `l` and `k` of a ring with `m` between them, when the way from `l` goes through `m`
    and everything else is as in `r`. -/
theorem Holds.relink {r r' : LinkedRing ν} {l k m m' : List ν} (h : r.Holds (l ++ m' ++ k))
    (hnodup : (l ++ m ++ k).Nodup)
    (hnext : ∀ x, x ≠ lastPlace .sentinel l → (∀ n ∈ m, x ≠ .node n) → r'.next x = r.next x)
    (hprev : ∀ x, x ≠ firstPlace .sentinel k → (∀ n ∈ m, x ≠ .node n) → r'.prev x = r.prev x)
    (hm : r'.Reach (lastPlace .sentinel l) m)
    (hend : r'.Linked (lastPlace .sentinel (l ++ m)) (firstPlace .sentinel k)) :
    r'.Holds (l ++ m ++ k) := by
  have hl : (l ++ m).Nodup := (List.nodup_append.mp hnodup).1
  have hml : ∀ n ∈ m, n ∉ l := fun n hn hnl => List.disjoint_of_nodup_append hl hnl hn
  have hmk : ∀ n ∈ m, n ∉ k := fun n hn =>
    List.disjoint_of_nodup_append hnodup (List.mem_append_right l hn)
  have hlk : (l ++ k).Nodup := hnodup.sublist
    ((List.sublist_append_left l m).append (List.Sublist.refl k))
  have hfront : r'.Reach .sentinel l := by
    have hreach := (reach_append.mp (reach_append.mp h.reach).1).1
    refine hreach.congr (fun x hx => hnext x (ne_lastPlace_of_mem (List.nodup_append.mp hl).1 hx)
      fun n hn => ?_) fun a ha => hprev _ (node_ne_firstPlace hlk ha) fun n hn => ?_
    · rcases mem_of_mem_dropLast hx with rfl | ⟨a, ha, rfl⟩
      · exact nofun
      · exact node_ne_node ha (hml n hn)
    · exact node_ne_node ha (hml n hn)
  have hway : r'.Reach .sentinel (l ++ m) := reach_append.mpr ⟨hfront, hm⟩
  cases k with
  | nil =>
    rw [List.append_nil] at hnodup ⊢
    exact ⟨hnodup, hway, hend⟩
  | cons q k =>
    obtain ⟨hbehind, hclose⟩ := h.behind
    have hnextk : ∀ n ∈ q :: k, r'.next (.node n) = r.next (.node n) := fun n hn =>
      hnext _ (node_ne_lastPlace hlk hn) fun a ha => node_ne_node hn (hmk a ha)
    have hq : (q :: k).Nodup := (List.nodup_append.mp hnodup).2.1
    refine ⟨hnodup, reach_append.mpr ⟨hway, hend, ?_⟩, ?_, ?_⟩
    · refine hbehind.congr_node hnextk fun n hn => hprev _ ?_ fun a ha =>
        node_ne_node (List.mem_cons_of_mem _ hn) (hmk a ha)
      exact node_ne_node hn (List.nodup_cons.mp hq).1
    · rw [lastPlace_append, lastPlace_cons]
      rcases lastPlace_mem (.node q) k with hlast | ⟨n, hn, hlast⟩
      · rw [hlast, hnextk q List.mem_cons_self, ← hlast, hclose.1]
      · rw [hlast, hnextk n (List.mem_cons_of_mem _ hn), ← hlast, hclose.1]
    · have hsentinel : r'.prev .sentinel = r.prev .sentinel :=
        hprev _ (fun hq => nomatch hq) fun n _ hn => nomatch hn
      rw [lastPlace_append, lastPlace_cons, hsentinel, hclose.2]

/-! ## Runs of nodes -/

/-- Following `next` from `p` goes through the nodes of `l` and ends at a null link. -/
def Listed (r : LinkedRing ν) : Place ν → List ν → Prop
  | p, [] => p = .null
  | p, n :: l => p = .node n ∧ r.Listed (r.next (.node n)) l

/-- A way whose last link is null. -/
theorem Reach.listed {r r' : LinkedRing ν} {n : ν} {l : List ν} (h : r.Reach (.node n) l)
    (hnext : ∀ x ∈ (Place.node n :: l.map .node).dropLast, r'.next x = r.next x)
    (hnull : r'.next (lastPlace (.node n) l) = .null) :
    r'.Listed (.node n) (n :: l) := by
  induction l generalizing n with
  | nil => exact ⟨rfl, hnull⟩
  | cons m l ih =>
    simp only [List.map_cons, List.dropLast_cons_cons] at hnext
    refine ⟨rfl, ?_⟩
    rw [hnext _ List.mem_cons_self, h.1.1]
    exact ih h.2 (fun x hx => hnext x (List.mem_cons_of_mem _ hx)) hnull

/-- From `p` backwards as long as `test` holds: the last node for which it did. -/
def scanBack (r : LinkedRing ν) (test : ν → Bool) : ℕ → Place ν → Option ν → Option ν
  | fuel + 1, .node n, last =>
    if test n then r.scanBack test fuel (r.prev (.node n)) (some n) else last
  | _, _, last => last

theorem Reach.scanBack {r : LinkedRing ν} {l : List ν} (h : r.Reach .sentinel l) (test : ν → Bool)
    {fuel : ℕ} (hfuel : l.length ≤ fuel) (last : Option ν) :
    r.scanBack test fuel (lastPlace .sentinel l) last =
      ((l.rtakeWhile test).head?).or last := by
  induction l using List.reverseRecOn generalizing fuel last with
  | nil => cases fuel <;> rfl
  | append_singleton l n ih =>
    obtain ⟨hl, hn, -⟩ := reach_append.mp h
    rw [List.length_append, List.length_singleton] at hfuel
    obtain ⟨fuel, rfl⟩ : ∃ f, fuel = f + 1 := ⟨fuel - 1, by omega⟩
    rw [lastPlace_concat, LinkedRing.scanBack]
    by_cases htest : test n
    · rw [if_pos htest, hn.2, ih hl (by omega), List.rtakeWhile_concat_pos _ _ _ htest]
      cases l.rtakeWhile test <;> rfl
    · rw [if_neg htest, List.rtakeWhile_concat_neg _ _ _ htest]
      rfl

/-- The scan finds the first node of the longest run at the end whose nodes all pass. -/
theorem Holds.scanBack {r : LinkedRing ν} {l : List ν} (h : r.Holds l) (test : ν → Bool) {fuel : ℕ}
    (hfuel : l.length ≤ fuel) :
    r.scanBack test fuel (r.prev .sentinel) none = (l.rtakeWhile test).head? := by
  rw [h.close.2, h.reach.scanBack test hfuel, Option.or_none]

/-! ## Scans from the end -/

section RightScans

variable {α : Type*}

theorem rtakeWhile_map (f : α → ν) (test : ν → Bool) (l : List α) :
    (l.map f).rtakeWhile test = (l.rtakeWhile (test ∘ f)).map f := by
  rw [List.rtakeWhile, ← List.map_reverse, List.takeWhile_map, List.rtakeWhile, List.map_reverse]

theorem rdropWhile_map (f : α → ν) (test : ν → Bool) (l : List α) :
    (l.map f).rdropWhile test = (l.rdropWhile (test ∘ f)).map f := by
  rw [List.rdropWhile, ← List.map_reverse, List.dropWhile_map, List.rdropWhile, List.map_reverse]

/-- When everything behind an element that passes passes too, a scan from the end finds all that
    pass, and leaves all others. -/
theorem rtakeWhile_rdropWhile_eq_filter {test : α → Bool} {l : List α}
    (h : l.Pairwise fun a b => test a → test b) :
    l.rtakeWhile test = l.filter test ∧ l.rdropWhile test = l.filter (!test ·) := by
  induction l using List.reverseRecOn with
  | nil => exact ⟨rfl, rfl⟩
  | append_singleton l a ih =>
    obtain ⟨hl, -, hla⟩ := List.pairwise_append.mp h
    rw [List.filter_append, List.filter_append]
    by_cases htest : test a
    · rw [List.rtakeWhile_concat_pos _ _ _ htest, List.rdropWhile_concat_pos _ _ _ htest,
        (ih hl).1, (ih hl).2]
      simp [htest]
    · have hnone : ∀ b ∈ l, ¬test b := fun b hb hpass =>
        htest (hla b hb a (List.mem_singleton_self a) hpass)
      have hall : l.filter (!test ·) = l := List.filter_eq_self.mpr (by simpa using hnone)
      rw [List.rtakeWhile_concat_neg _ _ _ htest, List.rdropWhile_concat_neg _ _ _ htest, hall,
        List.filter_eq_nil_iff.mpr hnone]
      simp [htest]

end RightScans

/-! ## Operations -/

variable [DecidableEq ν]

def setNext (r : LinkedRing ν) (a b : Place ν) : LinkedRing ν :=
  { r with next := update r.next a b }

def setPrev (r : LinkedRing ν) (a b : Place ν) : LinkedRing ν :=
  { r with prev := update r.prev a b }

/-- Inserts the node `n` behind the place `p`. -/
def insertAfter (r : LinkedRing ν) (p : Place ν) (n : ν) : LinkedRing ν :=
  let r := r.setPrev (.node n) p
  let r := r.setNext (.node n) (r.next p)
  let r := r.setPrev (r.next p) (.node n)
  r.setNext p (.node n)

/-- Inserts `n` as the first node. -/
def insertHead (r : LinkedRing ν) (n : ν) : LinkedRing ν := r.insertAfter .sentinel n

/-- Inserts `n` behind the last node. -/
def insertTail (r : LinkedRing ν) (n : ν) : LinkedRing ν := r.insertAfter (r.prev .sentinel) n

/-- Takes the nodes from `first` to `last` out; their own links stay as they are. -/
def unsplice (r : LinkedRing ν) (first last : ν) : LinkedRing ν :=
  let r := r.setNext (r.prev (.node first)) (r.next (.node last))
  r.setPrev (r.next (.node last)) (r.prev (.node first))

/-- Takes one node out. -/
def remove (r : LinkedRing ν) (n : ν) : LinkedRing ν := r.unsplice n n

/-- A node that is not in the ring, inserted between two parts of the list. -/
theorem Holds.insertAfter {r : LinkedRing ν} {l k : List ν} {n : ν} (h : r.Holds (l ++ k))
    (hn : n ∉ l ++ k) : (r.insertAfter (lastPlace .sentinel l) n).Holds (l ++ [n] ++ k) := by
  obtain ⟨hnl, hnk⟩ : n ∉ l ∧ n ∉ k := by simpa using hn
  have hp := lastPlace_ne_node hnl
  have hc := firstPlace_ne_node hnk
  have hlink := h.linked
  have hnext : (r.insertAfter (lastPlace .sentinel l) n).next =
      update (update r.next (.node n) (firstPlace .sentinel k)) (lastPlace .sentinel l)
        (.node n) := by
    rw [← hlink.1]
    rfl
  have hprev : (r.insertAfter (lastPlace .sentinel l) n).prev =
      update (update r.prev (.node n) (lastPlace .sentinel l)) (firstPlace .sentinel k)
        (.node n) := by
    simp only [LinkedRing.insertAfter, setNext, setPrev, update_of_ne hp, hlink.1]
  have hnodup : (l ++ [n] ++ k).Nodup := by
    rw [List.append_assoc, List.singleton_append, List.nodup_middle, List.nodup_cons]
    exact ⟨hn, h.nodup⟩
  have h' : r.Holds (l ++ [] ++ k) := by rwa [List.append_nil]
  refine h'.relink hnodup (fun x hx hxn => ?_) (fun x hx hxn => ?_) ⟨⟨?_, ?_⟩, trivial⟩ ⟨?_, ?_⟩
  · rw [hnext, update_of_ne hx, update_of_ne (hxn n (List.mem_singleton_self n))]
  · rw [hprev, update_of_ne hx, update_of_ne (hxn n (List.mem_singleton_self n))]
  · rw [hnext, update_self]
  · rw [hprev, update_of_ne hc.symm, update_self]
  · rw [lastPlace_concat, hnext, update_of_ne hp.symm, update_self]
  · rw [lastPlace_concat, hprev, update_self]

theorem Holds.insertHead {r : LinkedRing ν} {l : List ν} {n : ν} (h : r.Holds l) (hn : n ∉ l) :
    (r.insertHead n).Holds (n :: l) :=
  Holds.insertAfter (l := []) h hn

theorem Holds.insertTail {r : LinkedRing ν} {l : List ν} {n : ν} (h : r.Holds l) (hn : n ∉ l) :
    (r.insertTail n).Holds (l ++ [n]) := by
  have h' : r.Holds (l ++ []) := by rwa [List.append_nil]
  have hinserted := h'.insertAfter (n := n) (by rwa [List.append_nil])
  rw [List.append_nil] at hinserted
  rw [LinkedRing.insertTail, h.close.2]
  exact hinserted

/-- The links of a ring out of which the nodes of `m` are cut. -/
theorem Holds.unsplice_links {r : LinkedRing ν} {l m k : List ν} (h : r.Holds (l ++ m ++ k))
    (hm : m ≠ []) :
    r.unsplice (m.head hm) (m.getLast hm) =
      ⟨update r.next (lastPlace .sentinel l) (firstPlace .sentinel k),
        update r.prev (firstPlace .sentinel k) (lastPlace .sentinel l)⟩ := by
  have hend := h.linked
  rw [lastPlace_append_ne hm] at hend
  have hstart : r.Linked (lastPlace .sentinel l) (firstPlace .sentinel (m ++ k)) :=
    Holds.linked (by rwa [← List.append_assoc])
  rw [firstPlace_append hm] at hstart
  have hlast : Place.node (m.getLast hm) ≠ lastPlace .sentinel l :=
    node_ne_lastPlace (List.nodup_append.mp h.nodup).1 (List.getLast_mem hm)
  simp only [LinkedRing.unsplice, setNext, setPrev, hstart.2, update_of_ne hlast, hend.1]

/-- The nodes `m` taken out of the ring. -/
theorem Holds.unsplice {r : LinkedRing ν} {l m k : List ν} (h : r.Holds (l ++ m ++ k))
    (hm : m ≠ []) : (r.unsplice (m.head hm) (m.getLast hm)).Holds (l ++ k) := by
  rw [h.unsplice_links hm]
  have hlk : (l ++ [] ++ k).Nodup := by
    rw [List.append_nil]
    exact h.nodup.sublist ((List.sublist_append_left l m).append (List.Sublist.refl k))
  have hrelinked : LinkedRing.Holds ⟨update r.next (lastPlace .sentinel l) (firstPlace .sentinel k),
      update r.prev (firstPlace .sentinel k) (lastPlace .sentinel l)⟩ (l ++ [] ++ k) := by
    refine h.relink hlk (fun x hx _ => update_of_ne hx _ _) (fun x hx _ => update_of_ne hx _ _)
      trivial ?_
    rw [List.append_nil]
    exact ⟨update_self .., update_self ..⟩
  rwa [List.append_nil] at hrelinked

/-- One node taken out of the ring. -/
theorem Holds.remove {r : LinkedRing ν} {l k : List ν} {n : ν} (h : r.Holds (l ++ [n] ++ k)) :
    (r.remove n).Holds (l ++ k) :=
  h.unsplice (List.cons_ne_nil n [])

/-- The nodes that were cut out, after the `next` of the last of them has been set to null. -/
theorem Holds.listed_unsplice {r : LinkedRing ν} {l m k : List ν} (h : r.Holds (l ++ m ++ k))
    (hm : m ≠ []) :
    ((r.unsplice (m.head hm) (m.getLast hm)).setNext (.node (m.getLast hm)) .null).Listed
      (.node (m.head hm)) m := by
  have hcut := h.unsplice_links hm
  have hlm := (List.nodup_append.mp h.nodup).1
  obtain ⟨n, m, rfl⟩ := List.exists_cons_of_ne_nil hm
  have hreach := (reach_append.mp (reach_append.mp h.reach).1).2.2
  rw [hcut, List.head_cons]
  have hmnodup : (n :: m).Nodup := (List.nodup_append.mp hlm).2.1
  have hlast : lastPlace (.node n) m = .node ((n :: m).getLast hm) :=
    lastPlace_append_ne hm .sentinel []
  refine hreach.listed (fun x hx => ?_) (by rw [hlast]; exact update_self ..)
  have hxlast : x ≠ .node ((n :: m).getLast hm) := by
    have hx' : x ∈ (Place.sentinel :: (n :: m).map .node).dropLast := by
      rw [List.map_cons, List.dropLast_cons_cons]
      exact List.mem_cons_of_mem _ hx
    have hne := ne_lastPlace_of_mem hmnodup hx'
    rwa [lastPlace_cons, hlast] at hne
  have hxl : x ≠ lastPlace .sentinel l := by
    rcases mem_of_mem_dropLast hx with rfl | ⟨a, ha, rfl⟩
    · exact node_ne_lastPlace hlm List.mem_cons_self
    · exact node_ne_lastPlace hlm (List.mem_cons_of_mem _ ha)
  exact (update_of_ne hxlast _ _).trans (update_of_ne hxl _ _)

/-- The links of a node that is not in the ring do not matter. -/
theorem Holds.setNext {r : LinkedRing ν} {l : List ν} {n : ν} (h : r.Holds l) (hn : n ∉ l)
    (b : Place ν) : (r.setNext (.node n) b).Holds l := by
  have hother : ∀ x, x ≠ .node n → (r.setNext (.node n) b).next x = r.next x :=
    fun x hx => update_of_ne hx _ _
  refine ⟨h.nodup, h.reach.congr (fun x hx => hother x ?_) fun _ _ => rfl, ?_, h.close.2⟩
  · rcases mem_of_mem_dropLast hx with rfl | ⟨m, hm, rfl⟩
    · exact nofun
    · exact node_ne_node hm hn
  · rw [hother _ (lastPlace_ne_node hn), h.close.1]

/-! ## Loops -/

/-- From `p` on every node is taken out, the link behind it being read before. -/
def deleteFrom : ℕ → Place ν → LinkedRing ν → LinkedRing ν
  | fuel + 1, .node n, r => deleteFrom fuel (r.next (.node n)) (r.remove n)
  | _, _, r => r

/-- The first node is taken out until there is none. -/
def cleanup : ℕ → LinkedRing ν → LinkedRing ν
  | 0, r => r
  | fuel + 1, r =>
    match r.next .sentinel with
    | .node n => cleanup fuel (r.remove n)
    | _ => r

theorem Holds.deleteFrom {r : LinkedRing ν} {l k : List ν} (h : r.Holds (l ++ k)) {fuel : ℕ}
    (hfuel : k.length ≤ fuel) :
    (r.deleteFrom fuel (firstPlace .sentinel k)).Holds l := by
  induction k generalizing r fuel with
  | nil =>
    rw [List.append_nil] at h
    cases fuel <;> exact h
  | cons n k ih =>
    rw [List.length_cons] at hfuel
    obtain ⟨fuel, rfl⟩ : ∃ f, fuel = f + 1 := ⟨fuel - 1, by omega⟩
    have h' : r.Holds (l ++ [n] ++ k) := by rwa [List.append_assoc]
    have hlink := h'.linked
    rw [lastPlace_concat] at hlink
    rw [firstPlace, LinkedRing.deleteFrom, hlink.1]
    exact ih h'.remove (by omega)

theorem Holds.cleanup {r : LinkedRing ν} {l : List ν} (h : r.Holds l) {fuel : ℕ}
    (hfuel : l.length ≤ fuel) : (r.cleanup fuel).Holds [] := by
  induction l generalizing r fuel with
  | nil =>
    have hnext : r.next .sentinel = .sentinel := h.close.1
    cases fuel with
    | zero => exact h
    | succ fuel =>
      rw [LinkedRing.cleanup, hnext]
      exact h
  | cons n l ih =>
    rw [List.length_cons] at hfuel
    obtain ⟨fuel, rfl⟩ : ∃ f, fuel = f + 1 := ⟨fuel - 1, by omega⟩
    have hnext : r.next .sentinel = .node n := h.reach.1.1
    rw [LinkedRing.cleanup, hnext]
    exact ih (Holds.remove (l := []) h) (by omega)

end LinkedRing

end Rings
