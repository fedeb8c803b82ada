import MogileFs.Pool.MaintenanceThreads
import MogileFs.Pool.Registration
import MogileFs.Tracker.Decimal

/-!
# A pool from a list of trackers

`mfs_pool_init_quick` (`src/pool.c`, lines 32–57) reads a list
`address:port,address:port…`. The tokenizer passes over commas that follow each
other, and over those at the ends, but the pool is made for one tracker more than
there are commas, and the registration that fills it starts the maintenance
thread.

Results:
* `registeredPool_holds`: what any registrations leave in a pool.
* `quickRegistrations_trackerText`: the tokens of a list are its trackers.
* `mfsPoolInitQuick_readBack`: the pool of a list, whatever lookups fail.
-/

namespace MogileFs

open Cells

/-! ## Registrations -/

/-- The tracker a registration is for. -/
def Registration.info (r : Registration) : TrackerInfo := ⟨r.address, r.port⟩

/-- A pool for `n` trackers that holds `infos`, all of them active. -/
structure TrackerPool.Holds (pool : TrackerPool) (n : ℕ) (allow : Bool) (infos : List TrackerInfo) :
    Prop where
  count : pool.trackerCount = infos.length
  max : pool.maxTrackerCount = n
  room : infos.length ≤ n
  trackers : cells pool.trackers infos.length = infos
  active : pool.active = List.range infos.length
  inactive : pool.inactive = []
  starts : pool.maintenanceStarts = if allow ∧ infos ≠ [] ∧ infos.length = n then 1 else 0

theorem holds_mfsPoolInit (n : ℕ) (palloc : PoolMemory) (allow : Bool) :
    (mfsPoolInit n palloc).Holds n allow [] where
  count := rfl
  max := rfl
  room := Nat.zero_le n
  trackers := rfl
  active := rfl
  inactive := rfl
  starts := by
    rw [if_neg]
    · rfl
    · intro h
      exact h.2.1 rfl

/-- What a registration leaves of the trackers and of the threads. -/
theorem mfsPoolRegisterTracker_trackers {pool : TrackerPool} {r : Registration}
    (h : pool.Registers r) :
    (mfsPoolRegisterTracker pool r).trackers =
        Function.update pool.trackers pool.trackerCount r.info ∧
      (mfsPoolRegisterTracker pool r).maintenanceStarts = pool.maintenanceStarts +
        if r.allowMaintenanceThread ∧ pool.trackerCount + 1 = pool.maxTrackerCount then 1 else 0 := by
  obtain ⟨hcount, haddr, hmutex⟩ := h
  unfold mfsPoolRegisterTracker mfsPoolStartMaintenanceThread
  simp only [hcount, haddr, hmutex, ne_eq, not_true_eq_false, ite_false]
  split_ifs <;> simp_all [Registration.info]

/-- A registration that fails may leave its tracker behind those in use. -/
theorem mfsPoolRegisterTracker_trackers_of_not {pool : TrackerPool} {r : Registration}
    (h : ¬pool.Registers r) (n : ℕ) (hn : n ≤ pool.trackerCount) :
    cells (mfsPoolRegisterTracker pool r).trackers n = cells pool.trackers n ∧
      (mfsPoolRegisterTracker pool r).maintenanceStarts = pool.maintenanceStarts := by
  unfold mfsPoolRegisterTracker
  simp only
  split_ifs with hcount haddr hmutex
  · exact ⟨rfl, rfl⟩
  · exact ⟨rfl, rfl⟩
  · exact ⟨cells_update_of_le hn _, rfl⟩
  · exact absurd ⟨hcount, not_not.mp haddr, not_not.mp hmutex⟩ h
  · exact absurd ⟨hcount, not_not.mp haddr, not_not.mp hmutex⟩ h

section Register

variable {pool : TrackerPool} {n : ℕ} {allow : Bool} {infos : List TrackerInfo} {r : Registration}

/-- A registration that succeeds adds its tracker. -/
theorem TrackerPool.Holds.register (h : pool.Holds n allow infos)
    (hallow : r.allowMaintenanceThread = allow) (hr : r.Succeeds) (hroom : infos.length < n) :
    (mfsPoolRegisterTracker pool r).Holds n allow (infos ++ [r.info]) := by
  have hregisters : pool.Registers r := by
    refine ⟨?_, hr.1, hr.2⟩
    rw [h.count, h.max]
    omega
  obtain ⟨hactive, hinactive, hcount, hmax⟩ := mfsPoolRegisterTracker_lists hregisters
  obtain ⟨htrackers, hstarts⟩ := mfsPoolRegisterTracker_trackers hregisters
  have hlength : pool.activeTrackerCount = infos.length := by
    have hactiveLength := congrArg List.length h.active
    rwa [TrackerPool.active, length_cells, List.length_range] at hactiveLength
  have hlengthAppend : (infos ++ [r.info]).length = infos.length + 1 := List.length_append
  constructor
  · rw [hcount, h.count, hlengthAppend]
  · rw [hmax, h.max]
  · omega
  · rw [htrackers, hlengthAppend, h.count, cells_update_end, h.trackers]
  · have hrange : cells pool.activeTrackers infos.length = List.range infos.length := by
      rw [← h.active, TrackerPool.active, hlength]
    rw [hactive, h.count, hlength, cells_update_end, hlengthAppend, List.range_succ, hrange]
  · rw [hinactive]
    exact h.inactive
  · -- the pool was not full before
    have hbefore : pool.maintenanceStarts = 0 := by
      rw [h.starts, if_neg]
      intro hfull
      omega
    rw [hstarts, hbefore, zero_add, hallow, h.count, h.max, hlengthAppend]
    simp

/-- A registration that fails leaves the others as they are. -/
theorem TrackerPool.Holds.register_failed (h : pool.Holds n allow infos) (hr : ¬r.Succeeds) :
    (mfsPoolRegisterTracker pool r).Holds n allow infos := by
  have hregisters : ¬pool.Registers r := fun hregisters => hr hregisters.2
  have hsame := mfsPoolRegisterTracker_sameLists hregisters
  obtain ⟨htrackers, hstarts⟩ :=
    mfsPoolRegisterTracker_trackers_of_not hregisters infos.length h.count.ge
  obtain ⟨hcount, hmax, hactive, hactiveCount, hinactive, hinactiveCount⟩ := hsame
  constructor
  · rw [hcount, h.count]
  · rw [hmax, h.max]
  · exact h.room
  · rw [htrackers, h.trackers]
  · rw [TrackerPool.active, hactive, hactiveCount]
    exact h.active
  · rw [TrackerPool.inactive, hinactive, hinactiveCount]
    exact h.inactive
  · rw [hstarts, h.starts]

end Register

/-- The trackers whose registrations succeed. -/
def succeeding (registrations : List Registration) : List TrackerInfo :=
  (registrations.filter (·.Succeeds)).map Registration.info

/-- A pool with room for all of the registrations holds those that succeed. -/
theorem registeredPool_holds (n : ℕ) (palloc : PoolMemory) (allow : Bool)
    (registrations : List Registration) (hroom : registrations.length ≤ n)
    (hallow : ∀ r ∈ registrations, r.allowMaintenanceThread = allow) :
    (registeredPool n palloc registrations).Holds n allow (succeeding registrations) := by
  induction registrations using List.reverseRecOn with
  | nil => exact holds_mfsPoolInit n palloc allow
  | append_singleton registrations r ih =>
    rw [List.length_append, List.length_singleton] at hroom
    have hbefore := ih (by omega) fun q hq => hallow q (List.mem_append_left _ hq)
    have hlength : (succeeding registrations).length ≤ registrations.length := by
      rw [succeeding, List.length_map]
      exact List.length_filter_le _ _
    rw [registeredPool, List.foldl_append, succeeding, List.filter_append, List.map_append]
    by_cases hr : r.Succeeds
    · rw [List.filter_singleton, decide_eq_true hr]
      exact hbefore.register (hallow r (by simp)) hr (by omega)
    · rw [List.filter_singleton, decide_eq_false hr]
      show (mfsPoolRegisterTracker (registeredPool n palloc registrations) r).Holds n allow
        (succeeding registrations ++ [])
      rw [List.append_nil]
      exact hbefore.register_failed hr

/-! ## The list -/

/-- A tracker of a list, and the commas behind it that no tracker needs. -/
structure TrackerItem where
  address : Bytes
  port : ℕ
  spare : ℕ
  plain : ch ',' ∉ address ∧ ch ':' ∉ address
  port_lt : port < 2 ^ 31

/-- `address:port`. -/
def TrackerItem.token (item : TrackerItem) : Bytes :=
  item.address ++ ch ':' :: decimalNat item.port

def commas (n : ℕ) : Bytes := List.replicate n (ch ',')

/-- The trackers with a comma between them. -/
def trackerItems : List TrackerItem → Bytes
  | [] => []
  | [item] => item.token ++ commas item.spare
  | item :: items => item.token ++ commas (item.spare + 1) ++ trackerItems items

/-- The list, with commas in front of it. -/
def trackerText (front : ℕ) (items : List TrackerItem) : Bytes := commas front ++ trackerItems items

/-- The registrations the list asks for. -/
def itemRegistrations (allow : Bool) : List TrackerItem → Stream' Lookup → List Registration
  | [], _ => []
  | item :: items, lookups =>
    ⟨item.address, item.port, lookups.head.sockaddrInfoGet, lookups.head.mutexCreate, allow⟩ ::
      itemRegistrations allow items lookups.tail

theorem comma_notMem_token (item : TrackerItem) : ch ',' ∉ item.token := by
  intro h
  rcases List.mem_append.mp h with haddress | hport
  · exact item.plain.1 haddress
  · rcases List.mem_cons.mp hport with hcolon | hdigits
    · revert hcolon
      decide
    · exact notMem_decimalNat item.port (by decide) hdigits

theorem token_ne_nil (item : TrackerItem) : item.token ≠ [] := by
  intro h
  have hlength := congrArg List.length h
  simp [TrackerItem.token] at hlength

/-- The tokenizer passes over the commas in front of a token, and over one behind it. -/
theorem aprStrtok_commas {n : ℕ} {token rest : Bytes} (hne : token ≠ []) (hplain : ch ',' ∉ token)
    (hrest : rest = [] ∨ rest.head? = some (ch ',')) :
    aprStrtok (commas n ++ (token ++ rest)) (ch ',') = some (token, rest.drop 1) := by
  obtain ⟨c, token', rfl⟩ := List.exists_cons_of_ne_nil hne
  have hc : c ≠ ch ',' := fun hc => hplain (hc ▸ List.mem_cons_self)
  have hfront : (commas n ++ (c :: token' ++ rest)).dropWhile (· = ch ',') = c :: token' ++ rest := by
    rw [List.dropWhile_append_of_pos]
    · rw [List.cons_append, List.dropWhile_cons_of_neg (by simpa using hc)]
    · intro x hx
      exact decide_eq_true (List.eq_of_mem_replicate hx)
  have hall : ∀ x ∈ c :: token', decide (x ≠ ch ',') = true := by
    intro x hx
    refine decide_eq_true ?_
    rintro rfl
    exact hplain hx
  have hstop : rest.takeWhile (· ≠ ch ',') = [] ∧ rest.dropWhile (· ≠ ch ',') = rest := by
    rcases hrest with rfl | hhead
    · exact ⟨rfl, rfl⟩
    · obtain ⟨rest', rfl⟩ := List.head?_eq_some_iff.mp hhead
      exact ⟨List.takeWhile_cons_of_neg (by simp), List.dropWhile_cons_of_neg (by simp)⟩
  rw [aprStrtok]
  simp only [hfront]
  rw [if_neg (by simp), List.takeWhile_append_of_pos hall, List.dropWhile_append_of_pos hall,
    hstop.1, hstop.2, List.append_nil]

theorem aprStrtok_only_commas (n : ℕ) : aprStrtok (commas n) (ch ',') = none := by
  have hdrop : (commas n).dropWhile (· = ch ',') = [] := by
    refine List.dropWhile_eq_nil_iff.mpr ?_
    intro x hx
    exact decide_eq_true (List.eq_of_mem_replicate hx)
  rw [aprStrtok]
  simp only [hdrop, if_true]

/-- A token is cut at its colon, and its number is read back. -/
theorem tokenRegistration_token (item : TrackerItem) (lookup : Lookup) (allow : Bool) :
    tokenRegistration item.token lookup allow =
      ⟨item.address, item.port, lookup.sockaddrInfoGet, lookup.mutexCreate, allow⟩ := by
  have hall : ∀ x ∈ item.address, decide (x ≠ ch ':') = true := by
    intro x hx
    refine decide_eq_true ?_
    rintro rfl
    exact item.plain.2 hx
  rw [tokenRegistration, TrackerItem.token, List.takeWhile_append_of_pos hall,
    List.dropWhile_append_of_pos hall, List.takeWhile_cons_of_neg (by simp),
    List.dropWhile_cons_of_neg (by simp), List.append_nil, List.drop_one, List.tail_cons,
    atoi_decimalNat item.port_lt]

/-- The tokens of the list are its trackers. -/
theorem quickRegistrations_trackerText (allow : Bool) (items : List TrackerItem) (front : ℕ)
    (lookups : Stream' Lookup) :
    quickRegistrations allow (trackerText front items) lookups =
      some (itemRegistrations allow items lookups) := by
  induction items generalizing front lookups with
  | nil =>
    rw [trackerText, trackerItems, List.append_nil, quickRegistrations, aprStrtok_only_commas]
    rfl
  | cons item items ih =>
    have hcolon : ch ':' ∈ item.token := by simp [TrackerItem.token]
    -- what stands behind the token: commas, and the other trackers
    obtain ⟨behind, rest, htext, hbehind, hrest⟩ : ∃ (behind : Bytes) (front' : ℕ),
        trackerItems (item :: items) = item.token ++ behind ∧
          (behind = [] ∨ behind.head? = some (ch ',')) ∧
          behind.drop 1 = trackerText front' items := by
      cases items with
      | nil =>
        refine ⟨commas item.spare, item.spare - 1, rfl, ?_, ?_⟩
        · cases item.spare with
          | zero => exact Or.inl rfl
          | succ n => exact Or.inr rfl
        · rw [trackerText, trackerItems, List.append_nil, commas, List.drop_replicate]
          rfl
      | cons item' items =>
        refine ⟨commas (item.spare + 1) ++ trackerItems (item' :: items), item.spare, ?_,
          Or.inr rfl, rfl⟩
        rw [trackerItems, List.append_assoc]
        exact fun h => by cases h
    have htoken : aprStrtok (trackerText front (item :: items)) (ch ',') =
        some (item.token, trackerText rest items) := by
      rw [trackerText, htext, aprStrtok_commas (token_ne_nil item) (comma_notMem_token item) hbehind,
        hrest]
    rw [quickRegistrations, htoken]
    simp only [if_pos hcolon]
    rw [ih, tokenRegistration_token]
    rfl

/-! ## The pool -/

theorem length_itemRegistrations (allow : Bool) (items : List TrackerItem)
    (lookups : Stream' Lookup) : (itemRegistrations allow items lookups).length = items.length := by
  induction items generalizing lookups with
  | nil => rfl
  | cons item items ih => rw [itemRegistrations, List.length_cons, List.length_cons, ih]

theorem allow_itemRegistrations (allow : Bool) (items : List TrackerItem)
    (lookups : Stream' Lookup) :
    ∀ r ∈ itemRegistrations allow items lookups, r.allowMaintenanceThread = allow := by
  induction items generalizing lookups with
  | nil =>
    intro r hr
    cases hr
  | cons item items ih =>
    intro r hr
    rcases List.mem_cons.mp hr with rfl | hr
    · rfl
    · exact ih lookups.tail r hr

/-- One comma between two trackers, and the spare ones. -/
theorem count_trackerItems (item : TrackerItem) (items : List TrackerItem) :
    (trackerItems (item :: items)).count (ch ',') =
      items.length + ((item :: items).map TrackerItem.spare).sum := by
  induction items generalizing item with
  | nil =>
    rw [trackerItems, List.count_append, List.count_eq_zero_of_not_mem (comma_notMem_token item),
      commas, List.count_replicate_self]
    simp
  | cons item' items ih =>
    rw [trackerItems, List.count_append, List.count_append,
      List.count_eq_zero_of_not_mem (comma_notMem_token item), commas, List.count_replicate_self, ih]
    · simp only [List.length_cons, List.map_cons, List.sum_cons]
      omega
    · exact fun h => by cases h

/-- The trackers of a list, whatever commas are spare in it and whichever lookups fail: they are
    all active, those that cannot be looked up apart, and in the order of the list. The
    maintenance thread is started when no comma is spare and no lookup has failed, and only then. -/
theorem mfsPoolInitQuick_readBack (allow : Bool) (front : ℕ) (item : TrackerItem)
    (items : List TrackerItem) (palloc : PoolMemory) (lookups : Stream' Lookup) :
    ∃ pool, mfsPoolInitQuick allow (trackerText front (item :: items)) palloc lookups = some pool ∧
      cells pool.trackers pool.trackerCount =
        succeeding (itemRegistrations allow (item :: items) lookups) ∧
      pool.active = List.range pool.trackerCount ∧ pool.inactive = [] ∧
      (pool.maintenanceStarts = if allow ∧ front = 0 ∧ (∀ x ∈ item :: items, x.spare = 0) ∧
        ∀ r ∈ itemRegistrations allow (item :: items) lookups, r.Succeeds then 1 else 0) := by
  set registrations := itemRegistrations allow (item :: items) lookups with hregistrations
  have hlength : registrations.length = items.length + 1 := by
    rw [hregistrations, length_itemRegistrations, List.length_cons]
  set spare := ((item :: items).map TrackerItem.spare).sum with hspare
  have hcount : (trackerText front (item :: items)).count (ch ',') =
      front + (items.length + spare) := by
    rw [trackerText, List.count_append, commas, List.count_replicate_self, count_trackerItems]
  have hpool : mfsPoolInitQuick allow (trackerText front (item :: items)) palloc lookups =
      some (registeredPool (front + (items.length + spare) + 1) palloc registrations) := by
    rw [mfsPoolInitQuick_eq, quickRegistrations_trackerText, hcount]
    rfl
  have hholds := registeredPool_holds (front + (items.length + spare) + 1) palloc allow registrations
    (by omega) (allow_itemRegistrations allow (item :: items) lookups)
  refine ⟨_, hpool, ?_, ?_, hholds.inactive, ?_⟩
  · rw [hholds.count]
    exact hholds.trackers
  · rw [hholds.active, hholds.count]
  rw [hholds.starts]
  -- the pool is full when there is room for the trackers of the list only, and all of them are found
  have hfound : (succeeding registrations).length ≤ registrations.length := by
    rw [succeeding, List.length_map]
    exact List.length_filter_le _ _
  have hall : (succeeding registrations).length = registrations.length ↔
      ∀ r ∈ registrations, r.Succeeds := by
    rw [succeeding, List.length_map, List.length_filter_eq_length_iff]
    simp only [decide_eq_true_eq]
  have hnoSpare : spare = 0 ↔ ∀ x ∈ item :: items, x.spare = 0 := by
    rw [hspare, List.sum_eq_zero_iff]
    simp only [List.mem_map, forall_exists_index, and_imp, forall_apply_eq_imp_iff₂]
  refine if_congr (and_congr_right fun _ => ?_) rfl rfl
  rw [← hall, ← hnoSpare, ← List.length_pos_iff]
  omega

theorem a_plain : ch ',' ∉ str "a" ∧ ch ':' ∉ str "a" := by decide

theorem b_plain : ch ',' ∉ str "b" ∧ ch ':' ∉ str "b" := by decide

theorem one_lt_int : 1 < 2 ^ 31 := by decide

theorem two_lt_int : 2 < 2 ^ 31 := by decide

/-- `a:1`. -/
def itemA : TrackerItem := ⟨str "a", 1, 0, a_plain, one_lt_int⟩

/-- `b:2` with a spare comma behind it. -/
def itemB : TrackerItem := ⟨str "b", 2, 1, b_plain, two_lt_int⟩

/-- A comma at the end: both trackers are there, but the pool is for three. -/
theorem mfsPoolInitQuick_readBack_two :
    ∃ pool, mfsPoolInitQuick true (str "a:1,b:2,") zeroMemory
        (Stream'.const ⟨.success, .success⟩) = some pool ∧
      cells pool.trackers pool.trackerCount = [⟨str "a", 1⟩, ⟨str "b", 2⟩] ∧
      pool.active = List.range pool.trackerCount ∧ pool.inactive = [] ∧
      pool.maintenanceStarts = 0 := by
  obtain ⟨pool, hpool, htrackers, hactive, hinactive, hstarts⟩ :=
    mfsPoolInitQuick_readBack true 0 itemA [itemB] zeroMemory (Stream'.const ⟨.success, .success⟩)
  have htext : trackerText 0 [itemA, itemB] = str "a:1,b:2," := by decide +kernel
  rw [htext] at hpool
  refine ⟨pool, hpool, htrackers, hactive, hinactive, ?_⟩
  -- one comma is spare
  rw [hstarts, if_neg]
  rintro ⟨-, -, hspare, -⟩
  exact absurd (hspare itemB (by simp)) (by decide)

end MogileFs
