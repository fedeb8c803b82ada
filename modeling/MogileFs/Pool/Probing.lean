import MogileFs.Pool.Iteration
import MogileFs.Pool.Partition

/-!
# Probing the inactive trackers

`mfs_pool_test_inactive_trackers` (`src/pool.c`, lines 395–422) asks every
tracker of a copy of the inactive list for a path that need not exist. A tracker
that replies, with an error too, goes back to the active list and its
connection to its stack; any other connection is destroyed. A connect that fails
calls `mfs_pool_deactivate` on a tracker that is inactive already.

Results:
* `probeTracker_effect`: what one pass of the loop does, for each of the ways a
  probe can go.
* `mfsPoolTestInactiveTrackers_effect`: what the whole call does, for every
  order in which the copy is walked.
-/

namespace MogileFs

/-! ## The call -/

/-- The world after one exchange on a connection of tracker `i`. -/
def World.exchanged (w : World) (i : ℕ) (entry : ConnectionEntry) (isNew : Bool) : World :=
  { w with env := { w.env with exchange := w.env.exchange.tail } }.record
    (.exchange i entry isNew w.env.exchange.head)

/-- `mfs_tracker_request` for `get_paths` on a connection of the pool: its
    status, the hash and the world. -/
def requestGetPaths (trackerIndex : ℕ) (entry : ConnectionEntry) (isNew : Bool) (result : Hash)
    (w : World) : AprStatus × Hash × World :=
  let (rv, _, result) := mfsTrackerRequest w.env.exchange.head none result
  (rv, result, w.exchanged trackerIndex entry isNew)

/-- What is done with a connection (lines 407–419). -/
def probeConnection (trackerIndex : ℕ) (entry : ConnectionEntry) (isNew : Bool) (result : Hash)
    (w : World) : Hash × World :=
  let (rv, result, w) := requestGetPaths trackerIndex entry isNew result w
  if rv = .success then
    (result, mfsPoolReturnConnection (mfsPoolActivate w trackerIndex) trackerIndex entry)
  else (result, mfsPoolDestroyConnection w entry)

/-- The body of the loop (lines 404–420). What the source drops of
    `mfs_pool_get_connection_ex`, `isNew` here, goes into the log only. -/
def probeTracker (trackerIndex : ℕ) (result : Hash) (w : World) : Hash × World :=
  let (connectionEntry, isNew, w) := mfsPoolGetConnectionEx w trackerIndex true
  match connectionEntry with
  | some entry => probeConnection trackerIndex entry isNew result w
  | none => (result, w)

/-- The loop (lines 404–421). -/
def probeLoop (inactive : TrackerList) (result : Hash) (w : World) : World :=
  match _h : mfsPoolNextTracker inactive with
  | (none, _) => w
  | (some _, inactive) =>
    let (result, w) := probeTracker (mfsPoolCurrentTrackerIndex inactive) result w
    probeLoop inactive result w
termination_by inactive.unvisited.length
decreasing_by rw [unvisited_of_some _h]; simp

/-- `mfs_pool_test_inactive_trackers` (lines 395–422). The request line is the
    same for every tracker. -/
def mfsPoolTestInactiveTrackers (w : World) : World :=
  match mfsPoolListInactiveTrackers w.trackers w.env.rand.head with
  | none => w
  | some inactive =>
    probeLoop inactive aprHashMake { w with env := { w.env with rand := w.env.rand.tail } }

/-! ## One probe -/

/-- How the probe of a tracker goes: no connection can be made, or a connection
    from the stack (`cached`) or a new one is asked. `now` is the clock when the
    connection is returned. -/
inductive Probe
  | unreachable (tracker : ℕ) (rv : AprStatus)
  | asked (tracker : ℕ) (cached : Bool) (entry : ConnectionEntry) (x : Exchange) (now : ℤ)

namespace Probe

def tracker : Probe → ℕ
  | unreachable tracker _ => tracker
  | asked tracker _ _ _ _ => tracker

/-- A valid reply, `OK` or `ERR`, has come. -/
def replied : Probe → Bool
  | unreachable _ _ => false
  | asked _ _ _ x _ => (exchangeReply x).rv = .success

/-- The connection, as it is returned. -/
def entry : Probe → Option ConnectionEntry
  | unreachable _ _ => none
  | asked _ _ entry _ now => some { entry with lastUsed := now }

/-- What the log shows of the probe. -/
def events (p : Probe) : List Event :=
  match p with
  | unreachable tracker rv => [.connect tracker rv]
  | asked tracker cached entry x now =>
    [if cached then .obtained tracker entry else .connect tracker .success,
      .exchange tracker entry (!cached) x,
      if p.replied then .returned tracker { entry with lastUsed := now } else .destroyed entry]

/-- The outcomes of `mfs_tracker_connect` that the probe takes. -/
def connects : Probe → List AprStatus
  | unreachable _ rv => [rv]
  | asked _ cached _ _ _ => if cached then [] else [.success]

/-- The exchanges that the probe takes. -/
def exchanges : Probe → List Exchange
  | unreachable _ _ => []
  | asked _ _ _ x _ => [x]

/-- The probe uses the top of the stack if there is one, and connects if not. -/
def Fits (stack : List ConnectionEntry) : Probe → Prop
  | unreachable _ rv => stack = [] ∧ rv ≠ .success
  | asked _ cached entry _ _ => if cached then stack.head? = some entry else stack = []

/-- The stack after the probe. -/
def stackAfter (stack : List ConnectionEntry) (p : Probe) : List ConnectionEntry :=
  (if p.replied then p.entry.toList else []) ++ stack.tail

/-- What the probe `p` does to the world. -/
structure Effect (p : Probe) (w w' : World) : Prop where
  log : w'.log = w.log ++ p.events
  connects : w.env.connect = p.connects ++ₛ w'.env.connect
  exchanges : w.env.exchange = p.exchanges ++ₛ w'.env.exchange
  fits : p.Fits (w.trackers.stack p.tracker)
  active : w'.trackers.active = w.trackers.active ++ if p.replied then [p.tracker] else []
  inactive : w'.trackers.inactive =
    if p.replied then w.trackers.inactive.erase p.tracker else w.trackers.inactive
  partition : w'.trackers.Partition
  stack : w'.trackers.stack p.tracker = p.stackAfter (w.trackers.stack p.tracker)
  others : ∀ j ≠ p.tracker, w'.trackers.stack j = w.trackers.stack j

end Probe

theorem TrackerPool.Partition.nodup {pool : TrackerPool} (h : pool.Partition) :
    (pool.active ++ pool.inactive).Nodup :=
  h.perm.nodup_iff.mpr List.nodup_range

theorem TrackerPool.Partition.notMem_active {pool : TrackerPool} (h : pool.Partition) {i : ℕ}
    (hi : i ∈ pool.inactive) : i ∉ pool.active := by
  intro hactive
  exact List.disjoint_of_nodup_append h.nodup hactive hi

theorem TrackerPool.SameLists.active {p q : TrackerPool} (h : p.SameLists q) :
    q.active = p.active := by
  obtain ⟨-, -, h3, h4, -⟩ := h
  rw [TrackerPool.active, h3, h4]
  rfl

theorem TrackerPool.SameLists.inactive {p q : TrackerPool} (h : p.SameLists q) :
    q.inactive = p.inactive := by
  obtain ⟨-, -, -, -, h5, h6⟩ := h
  rw [TrackerPool.inactive, h5, h6]
  rfl

/-- `w` is `w₀` once a connection for tracker `i` has been taken from its stack
    (`cached`) or made. -/
structure World.Connected (w₀ w : World) (i : ℕ) (cached : Bool) (entry : ConnectionEntry) :
    Prop where
  log : w.log = w₀.log ++ [if cached then .obtained i entry else .connect i .success]
  connects : w₀.env.connect = (if cached then [] else [AprStatus.success]) ++ₛ w.env.connect
  exchanges : w.env.exchange = w₀.env.exchange
  lists : w₀.trackers.SameLists w.trackers
  fits : if cached then (w₀.trackers.stack i).head? = some entry else w₀.trackers.stack i = []
  stack : w.trackers.stack i = (w₀.trackers.stack i).tail
  others : ∀ j ≠ i, w.trackers.stack j = w₀.trackers.stack j

theorem probeConnection_of_reply {w : World} (h : (exchangeReply w.env.exchange.head).rv = .success)
    (i : ℕ) (entry : ConnectionEntry) (isNew : Bool) (result : Hash) :
    (probeConnection i entry isNew result w).2 =
      mfsPoolReturnConnection (mfsPoolActivate (w.exchanged i entry isNew) i) i entry := by
  simp [probeConnection, requestGetPaths, mfsTrackerRequest, h]

theorem probeConnection_of_failure {w : World} (h : (exchangeReply w.env.exchange.head).rv ≠ .success)
    (i : ℕ) (entry : ConnectionEntry) (isNew : Bool) (result : Hash) :
    (probeConnection i entry isNew result w).2 =
      mfsPoolDestroyConnection (w.exchanged i entry isNew) entry := by
  simp [probeConnection, requestGetPaths, mfsTrackerRequest, h]

section Asked

variable {w₀ w : World} {i : ℕ} {cached : Bool} {entry : ConnectionEntry}

theorem World.Connected.log_exchanged (h : w₀.Connected w i cached entry) :
    (w.exchanged i entry (!cached)).log = w₀.log ++
      [if cached then .obtained i entry else .connect i .success,
        .exchange i entry (!cached) w.env.exchange.head] := by
  show w.log ++ [_] = _
  rw [h.log, List.append_assoc]
  rfl

theorem World.Connected.exchange_exchanged (h : w₀.Connected w i cached entry) :
    w₀.env.exchange = [w.env.exchange.head] ++ₛ (w.exchanged i entry (!cached)).env.exchange := by
  rw [← h.exchanges]
  exact (Stream'.append_stream_head_tail _).symm

/-- A reply: the tracker becomes active, and the connection is returned. -/
theorem probe_effect_of_reply (h : w₀.Connected w i cached entry) (hp : w₀.trackers.Partition)
    (hi : i ∈ w₀.trackers.inactive) (hreply : (exchangeReply w.env.exchange.head).rv = .success) :
    (Probe.asked i cached entry w.env.exchange.head w.env.clock.head).Effect w₀
      (mfsPoolReturnConnection (mfsPoolActivate (w.exchanged i entry (!cached)) i) i entry) := by
  set w₁ := w.exchanged i entry (!cached) with hw₁
  have hreplied : (Probe.asked i cached entry w.env.exchange.head w.env.clock.head).replied =
      true := decide_eq_true hreply
  have hi₁ : i ∈ w₁.trackers.inactive := h.lists.inactive ▸ hi
  obtain ⟨hactive, hinactive, -, -⟩ := mfsPoolActivate_lists hi₁
  obtain ⟨hstacks, hlog, -⟩ := sameStacks_mfsPoolActivate w₁ i
  have henv := env_mfsPoolActivate w₁ i
  constructor
  · show (mfsPoolActivate w₁ i).log ++ [_] = _
    rw [hlog, h.log_exchanged, henv, List.append_assoc]
    simp only [Probe.events, hreplied, ite_true]
    rfl
  · show _ = _ ++ₛ (mfsPoolActivate w₁ i).env.connect
    rw [henv]
    exact h.connects
  · show _ = _ ++ₛ (mfsPoolActivate w₁ i).env.exchange
    rw [henv]
    exact h.exchange_exchanged
  · exact h.fits
  · rw [if_pos hreplied]
    show (mfsPoolActivate w₁ i).trackers.active = _
    rw [hactive]
    exact congrArg (· ++ [i]) h.lists.active
  · rw [if_pos hreplied]
    show (mfsPoolActivate w₁ i).trackers.inactive = _
    rw [hinactive]
    exact congrArg (·.erase i) h.lists.inactive
  · have hp₁ : w₁.trackers.Partition := hp.of_sameLists h.lists
    exact (partition_mfsPoolActivate hp₁ i).of_sameLists ⟨rfl, rfl, rfl, rfl, rfl, rfl⟩
  · show ((mfsPoolActivate w₁ i).trackers.setConnectionPool i _).stack i = _
    rw [stack_setConnectionPool_self]
    show _ :: (mfsPoolActivate w₁ i).trackers.stack i = _
    rw [hstacks i, Probe.stackAfter, if_pos hreplied, henv]
    exact congrArg (_ :: ·) h.stack
  · intro j hj
    have hne : j ≠ i := hj
    show ((mfsPoolActivate w₁ i).trackers.setConnectionPool i _).stack j = _
    rw [stack_setConnectionPool_of_ne _ _ hne, hstacks j]
    exact h.others j hne

/-- No reply: the connection is destroyed, and nothing else changes. -/
theorem probe_effect_of_failure (h : w₀.Connected w i cached entry) (hp : w₀.trackers.Partition)
    (hreply : (exchangeReply w.env.exchange.head).rv ≠ .success) :
    (Probe.asked i cached entry w.env.exchange.head w.env.clock.head).Effect w₀
      (mfsPoolDestroyConnection (w.exchanged i entry (!cached)) entry) := by
  have hreplied : (Probe.asked i cached entry w.env.exchange.head w.env.clock.head).replied =
      false := decide_eq_false hreply
  constructor
  · show (w.exchanged i entry (!cached)).log ++ [_] = _
    rw [h.log_exchanged, List.append_assoc]
    simp only [Probe.events, hreplied, Bool.false_eq_true, ite_false]
    rfl
  · exact h.connects
  · exact h.exchange_exchanged
  · exact h.fits
  · rw [hreplied]
    show w.trackers.active = w₀.trackers.active ++ []
    rw [h.lists.active, List.append_nil]
  · rw [hreplied]
    exact h.lists.inactive
  · exact hp.of_sameLists h.lists
  · rw [Probe.stackAfter, hreplied]
    exact h.stack
  · exact h.others

/-- A connection that is asked, with either outcome. -/
theorem probeConnection_effect (h : w₀.Connected w i cached entry) (hp : w₀.trackers.Partition)
    (hi : i ∈ w₀.trackers.inactive) (result : Hash) :
    (Probe.asked i cached entry w.env.exchange.head w.env.clock.head).Effect w₀
      (probeConnection i entry (!cached) result w).2 := by
  by_cases hreply : (exchangeReply w.env.exchange.head).rv = .success
  · rw [probeConnection_of_reply hreply]
    exact probe_effect_of_reply h hp hi hreply
  · rw [probeConnection_of_failure hreply]
    exact probe_effect_of_failure h hp hreply

end Asked

/-- What one pass of the loop does to an inactive tracker. -/
theorem probeTracker_effect {w : World} (hp : w.trackers.Partition) {i : ℕ}
    (hi : i ∈ w.trackers.inactive) (result : Hash) :
    ∃ p : Probe, p.tracker = i ∧ p.Effect w (probeTracker i result w).2 := by
  unfold probeTracker
  cases hs : w.trackers.stack i with
  | cons entry rest =>
    -- a connection of the stack
    have hconnected : w.Connected ((w.withoutFirst i).record (.obtained i entry)) i true entry :=
      { log := rfl
        connects := rfl
        exchanges := rfl
        lists := ⟨rfl, rfl, rfl, rfl, rfl, rfl⟩
        fits := by rw [hs]; rfl
        stack := stack_withoutFirst w i
        others := fun j hj => stack_withoutFirst_of_ne w hj }
    rw [mfsPoolGetConnectionEx_cons hs]
    exact ⟨_, rfl, probeConnection_effect hconnected hp hi result⟩
  | nil =>
    have hconnect : w.env.connect = [w.env.connect.head] ++ₛ w.env.connect.tail :=
      (Stream'.append_stream_head_tail _).symm
    by_cases hrv : w.env.connect.head = .success
    · have hconnected : w.Connected
          { (mfsTrackerConnect w i).2 with nextConnection := w.nextConnection + 1 } i false
          ⟨w.nextConnection, 0⟩ :=
        { log := by
            show w.log ++ [.connect i w.env.connect.head] = _
            rw [hrv]
            rfl
          connects := by rw [hrv] at hconnect; exact hconnect
          exchanges := rfl
          lists := ⟨rfl, rfl, rfl, rfl, rfl, rfl⟩
          fits := hs
          stack := by rw [hs]; exact hs
          others := fun _ _ => rfl }
      rw [mfsPoolGetConnectionEx_new hs hrv]
      exact ⟨_, rfl, probeConnection_effect hconnected hp hi result⟩
    · -- `mfs_pool_deactivate` finds the tracker inactive
      rw [mfsPoolGetConnectionEx_unreachable hs hrv]
      have hinactive : i ∉ (mfsTrackerConnect w i).2.trackers.active := hp.notMem_active hi
      rw [mfsPoolDeactivate_of_notMem hinactive]
      refine ⟨.unreachable i w.env.connect.head, rfl, rfl, hconnect, rfl, ⟨hs, hrv⟩, ?_, rfl, hp,
        ?_, fun _ _ => rfl⟩
      · exact (List.append_nil _).symm
      · show w.trackers.stack i = [] ++ (w.trackers.stack i).tail
        rw [hs]
        rfl

/-! ## The whole call -/

/-- What a list of probes of different trackers does to the world. -/
structure ProbesEffect (probes : List Probe) (w w' : World) : Prop where
  log : w'.log = w.log ++ probes.flatMap Probe.events
  connects : w.env.connect = probes.flatMap Probe.connects ++ₛ w'.env.connect
  exchanges : w.env.exchange = probes.flatMap Probe.exchanges ++ₛ w'.env.exchange
  fits : ∀ p ∈ probes, p.Fits (w.trackers.stack p.tracker)
  active : w'.trackers.active = w.trackers.active ++ (probes.filter Probe.replied).map Probe.tracker
  partition : w'.trackers.Partition
  stack : ∀ p ∈ probes, w'.trackers.stack p.tracker = p.stackAfter (w.trackers.stack p.tracker)
  others : ∀ j ∉ probes.map Probe.tracker, w'.trackers.stack j = w.trackers.stack j

theorem probesEffect_nil {w : World} (h : w.trackers.Partition) : ProbesEffect [] w w where
  log := (List.append_nil _).symm
  connects := rfl
  exchanges := rfl
  fits := fun _ hp => absurd hp List.not_mem_nil
  active := (List.append_nil _).symm
  partition := h
  stack := fun _ hp => absurd hp List.not_mem_nil
  others := fun _ _ => rfl

theorem probesEffect_cons {p : Probe} {probes : List Probe} {w w₁ w' : World} (h : p.Effect w w₁)
    (hs : ProbesEffect probes w₁ w') (hp : p.tracker ∉ probes.map Probe.tracker) :
    ProbesEffect (p :: probes) w w' := by
  -- the trackers of the other probes are untouched by the first one
  have hbefore : ∀ q ∈ probes, w₁.trackers.stack q.tracker = w.trackers.stack q.tracker := by
    intro q hq
    refine h.others q.tracker ?_
    intro hsame
    exact hp (hsame ▸ List.mem_map_of_mem hq)
  constructor
  · rw [hs.log, h.log, List.append_assoc, List.flatMap_cons]
  · rw [h.connects, hs.connects, List.flatMap_cons, Stream'.append_append_stream]
  · rw [h.exchanges, hs.exchanges, List.flatMap_cons, Stream'.append_append_stream]
  · intro q hq
    rcases List.mem_cons.mp hq with rfl | hq
    · exact h.fits
    · rw [← hbefore q hq]
      exact hs.fits q hq
  · rw [hs.active, h.active, List.append_assoc, List.filter_cons]
    split_ifs <;> rfl
  · exact hs.partition
  · intro q hq
    rcases List.mem_cons.mp hq with rfl | hq
    · rw [hs.others q.tracker hp, h.stack]
    · rw [hs.stack q hq, hbefore q hq]
  · intro j hj
    rw [List.map_cons, List.mem_cons, not_or] at hj
    rw [hs.others j hj.2, h.others j hj.1]

/-- The loop probes what its list has still to return. -/
theorem probeLoop_effect (list : TrackerList) (result : Hash) (w : World)
    (hp : w.trackers.Partition) (hsub : ∀ i ∈ list.unvisited, i ∈ w.trackers.inactive)
    (hnodup : list.unvisited.Nodup) :
    ∃ probes : List Probe, probes.map Probe.tracker = list.unvisited ∧
      ProbesEffect probes w (probeLoop list result w) := by
  induction list, result, w using probeLoop.induct with
  | case1 list result w list' hnext =>
    rw [probeLoop, hnext]
    exact ⟨[], (unvisited_of_none hnext).symm, probesEffect_nil hp⟩
  | case2 list result w i list' hnext result' w' hbody ih =>
    have hlist := unvisited_of_some hnext
    rw [currentTrackerIndex_of_some hnext] at hbody
    rw [hlist] at hsub hnodup
    obtain ⟨p, hptracker, heffect⟩ := probeTracker_effect hp (hsub i List.mem_cons_self) result
    rw [hbody] at heffect
    obtain ⟨hnotMem, hrest⟩ := List.nodup_cons.mp hnodup
    -- the trackers still to come stay inactive
    have hstill : ∀ j ∈ list'.unvisited, j ∈ w'.trackers.inactive := by
      intro j hj
      have hinactive := hsub j (List.mem_cons_of_mem _ hj)
      rw [heffect.inactive]
      split_ifs
      · have hne : j ≠ i := fun hji => hnotMem (by rw [← hji]; exact hj)
        rw [hptracker]
        exact (List.mem_erase_of_ne hne).mpr hinactive
      · exact hinactive
    obtain ⟨probes, hmap, hprobes⟩ := ih heffect.partition hstill hrest
    refine ⟨p :: probes, by rw [List.map_cons, hptracker, hmap, hlist], ?_⟩
    rw [probeLoop, hnext]
    simp only [currentTrackerIndex_of_some hnext, hbody]
    exact probesEffect_cons heffect hprobes (by rw [hptracker, hmap]; exact hnotMem)

/-- The call is a list of probes of the inactive trackers, each once. -/
theorem mfsPoolTestInactiveTrackers_probes {w : World} (h : w.trackers.Partition) :
    ∃ probes : List Probe, (probes.map Probe.tracker).Perm w.trackers.inactive ∧
      ProbesEffect probes w (mfsPoolTestInactiveTrackers w) := by
  unfold mfsPoolTestInactiveTrackers
  cases hlist : mfsPoolListInactiveTrackers w.trackers w.env.rand.head with
  | none =>
    refine ⟨[], ?_, probesEffect_nil h⟩
    rw [mfsPoolListInactiveTrackers_none.mp hlist]
    exact List.Perm.refl _
  | some list =>
    have hperm := mfsPoolListInactiveTrackers_unvisited hlist
    set w₁ : World := { w with env := { w.env with rand := w.env.rand.tail } } with hw₁
    have hsub : ∀ i ∈ list.unvisited, i ∈ w₁.trackers.inactive :=
      fun i hi => hperm.mem_iff.mp hi
    have hnodup : list.unvisited.Nodup := hperm.nodup_iff.mpr h.nodup.of_append_right
    obtain ⟨probes, hmap, heffect⟩ := probeLoop_effect list aprHashMake w₁ h hsub hnodup
    refine ⟨probes, by rw [hmap]; exact hperm, ?_⟩
    exact ⟨heffect.log, heffect.connects, heffect.exchanges, heffect.fits, heffect.active,
      heffect.partition, heffect.stack, heffect.others⟩

/-- A probed tracker becomes active exactly when its probe was replied to. -/
theorem ProbesEffect.mem_active_iff {probes : List Probe} {w w' : World}
    (h : ProbesEffect probes w w') (hp : w.trackers.Partition)
    (hperm : (probes.map Probe.tracker).Perm w.trackers.inactive) {p : Probe} (hmem : p ∈ probes) :
    p.tracker ∈ w'.trackers.active ↔ p.replied = true := by
  have hnodup : (probes.map Probe.tracker).Nodup := hperm.nodup_iff.mpr hp.nodup.of_append_right
  have hbefore : p.tracker ∉ w.trackers.active :=
    hp.notMem_active (hperm.mem_iff.mp (List.mem_map_of_mem hmem))
  rw [h.active, List.mem_append, List.mem_map]
  constructor
  · intro hactive
    obtain ⟨q, hq, hsame⟩ := hactive.resolve_left hbefore
    obtain ⟨hqmem, hqreplied⟩ := List.mem_filter.mp hq
    rw [← List.inj_on_of_nodup_map hnodup hqmem hmem hsame]
    exact hqreplied
  · intro hreplied
    exact Or.inr ⟨p, List.mem_filter.mpr ⟨hmem, hreplied⟩, rfl⟩

/-- What becomes of the connection of a probe. -/
theorem ProbesEffect.connection {probes : List Probe} {w w' : World} (h : ProbesEffect probes w w')
    {i : ℕ} {cached : Bool} {entry : ConnectionEntry} {x : Exchange} {now : ℤ}
    (hmem : Probe.asked i cached entry x now ∈ probes) :
    if (exchangeReply x).rv = .success then
      (w'.trackers.stack i).head? = some { entry with lastUsed := now }
    else .destroyed entry ∈ w'.log := by
  split_ifs with hreply
  · have hstack := h.stack _ hmem
    rw [Probe.stackAfter, show (Probe.asked i cached entry x now).replied = true from
      decide_eq_true hreply] at hstack
    exact congrArg List.head? hstack
  · rw [h.log]
    refine List.mem_append_right _ (List.mem_flatMap.mpr ⟨_, hmem, ?_⟩)
    rw [Probe.events, show (Probe.asked i cached entry x now).replied = false from
      decide_eq_false hreply]
    simp

/-- From lists that partition the trackers, whatever the stacks hold and however
    the connects and exchanges go: every inactive tracker is probed once, with
    the top of its stack if there is one, and becomes active exactly when its
    probe is replied to; active trackers stay active; the lists still partition
    the trackers; a connection with a reply is on top of the stack of its
    tracker, and any other one has been destroyed. -/
theorem mfsPoolTestInactiveTrackers_effect (w : World) (h : w.trackers.Partition) :
    ∃ probes : List Probe,
      (probes.map Probe.tracker).Perm w.trackers.inactive ∧ (probes.map Probe.tracker).Nodup ∧
      ProbesEffect probes w (mfsPoolTestInactiveTrackers w) ∧
      (∀ p ∈ probes,
        p.tracker ∈ (mfsPoolTestInactiveTrackers w).trackers.active ↔ p.replied = true) ∧
      (∀ i ∈ w.trackers.active, i ∈ (mfsPoolTestInactiveTrackers w).trackers.active) ∧
      ∀ (i : ℕ) (cached : Bool) (entry : ConnectionEntry) (x : Exchange) (now : ℤ),
        Probe.asked i cached entry x now ∈ probes →
          if (exchangeReply x).rv = .success then
            ((mfsPoolTestInactiveTrackers w).trackers.stack i).head? =
              some { entry with lastUsed := now }
          else .destroyed entry ∈ (mfsPoolTestInactiveTrackers w).log := by
  obtain ⟨probes, hperm, heffect⟩ := mfsPoolTestInactiveTrackers_probes h
  refine ⟨probes, hperm, hperm.nodup_iff.mpr h.nodup.of_append_right, heffect, ?_, ?_, ?_⟩
  · intro p hp
    exact heffect.mem_active_iff h hperm hp
  · intro i hi
    rw [heffect.active]
    exact List.mem_append_left _ hi
  · intro i cached entry x now hmem
    exact heffect.connection hmem

/-- Two inactive trackers, one of them with a pooled connection; the other
    cannot be reached. -/
def twoInactive : World :=
  { oneTrackerWorld [] .econnrefused [] with
    trackers := { mfsPoolInit 2 zeroMemory with
      trackerCount := 2
      inactiveTrackers := id
      inactiveTrackerCount := 2
      connectionPools := fun i => if i = 0 then ⟨true, 1, [⟨0, 0⟩]⟩ else ⟨true, 0, []⟩ } }

theorem mfsPoolTestInactiveTrackers_effect_two : ∃ probes : List Probe,
    (probes.map Probe.tracker).Perm [0, 1] ∧
      ProbesEffect probes twoInactive (mfsPoolTestInactiveTrackers twoInactive) := by
  have hpartition : twoInactive.trackers.Partition := ⟨by decide, rfl, le_rfl⟩
  obtain ⟨probes, hperm, -, heffect, -⟩ := mfsPoolTestInactiveTrackers_effect twoInactive hpartition
  exact ⟨probes, hperm, heffect⟩

end MogileFs
