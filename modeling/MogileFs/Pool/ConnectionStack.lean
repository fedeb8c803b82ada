import MogileFs.Library.Rings
import MogileFs.Library.Runs
import MogileFs.Pool.Expiry

/-!
# The connection stack

`connection_stack` is a ring of `tracker_connection_pool_entry` (`src/mogile_fs.h`, lines 148–152).
`mfs_pool_get_connection_ex` takes its first entry, `mfs_pool_return_connection` stamps an entry
and makes it the first one, and `mfs_pool_get_expired_trackers` goes backwards from the last one
(`src/pool.c`, lines 272–280, 313–326 and 443–469). An entry is named by the number of its
connection, here and in the stacks of `TrackerPool`.

Results:
* `pop_represents`, `push_represents`, `getExpired_represents`: what the ring does is what the lists
  of `TrackerPool` say.
* `expired_exactly`: the stack is ordered, and expiry takes exactly the expired entries.
-/

namespace MogileFs

open Function Rings Runs

/-! ## The ring -/

/-- `tracker_connection_pool` behind its mutex, with the `last_used` of all entries. -/
structure RingPool where
  connectionStack : LinkedRing ℕ
  lastUsed : ℕ → ℤ
  connectionCount : ℤ

/-- The locked section of `mfs_pool_get_connection_ex` (lines 272–280). -/
def RingPool.pop (cp : RingPool) : Option ℕ × RingPool :=
  match cp.connectionStack.next .sentinel with
  | .node entry =>
    (some entry, { cp with
      connectionStack := cp.connectionStack.remove entry
      connectionCount := cp.connectionCount - 1 })
  | _ => (none, cp)

/-- `mfs_pool_return_connection` (lines 313–326). -/
def RingPool.push (cp : RingPool) (entry : ℕ) (now : ℤ) : RingPool where
  connectionStack := cp.connectionStack.insertHead entry
  lastUsed := update cp.lastUsed entry now
  connectionCount := cp.connectionCount + 1

/-- The loop of `mfs_pool_get_expired_trackers` (lines 452–456): the most recently used entry that
    needs to expire. -/
def RingPool.lastEntry (cp : RingPool) (fuel : ℕ) (now : ℤ) : Option ℕ :=
  let cutoff := now - aprTimeFromSec mfsConnectionExpireTime
  cp.connectionStack.scanBack (cp.lastUsed · < cutoff) fuel (cp.connectionStack.prev .sentinel) none

/-- The entries from `lastEntry` to `connectionEntry` taken out (line 459), and the null link at
    which the caller stops (line 467). -/
def RingPool.cutOut (cp : RingPool) (lastEntry connectionEntry : ℕ) : RingPool :=
  let connectionStack := cp.connectionStack.unsplice lastEntry connectionEntry
  { cp with connectionStack := connectionStack.setNext (.node connectionEntry) .null }

/-- `mfs_pool_get_expired_trackers` (lines 443–469). -/
def RingPool.getExpired (cp : RingPool) (fuel : ℕ) (now : ℤ) : Option ℕ × RingPool :=
  match cp.lastEntry fuel now, cp.connectionStack.prev .sentinel with
  | some lastEntry, .node connectionEntry => (some lastEntry, cp.cutOut lastEntry connectionEntry)
  | _, _ => (none, cp)

/-- Where the caller of `mfs_pool_get_expired_trackers` begins. -/
def chainStart : Option ℕ → Place ℕ
  | none => .null
  | some entry => .node entry

/-! ## The list -/

/-- The entry behind a pointer. -/
def RingPool.entry (cp : RingPool) (n : ℕ) : ConnectionEntry := ⟨n, cp.lastUsed n⟩

/-- The ring goes through the entries `nodes`, and these are the stack of `p`. -/
structure RingPool.Represents (cp : RingPool) (nodes : List ℕ) (p : ConnectionPool) : Prop where
  ring : cp.connectionStack.Holds nodes
  entries : p.connectionStack = nodes.map cp.entry
  count : cp.connectionCount = p.connectionCount

/-- The entry is expired at `now`. -/
def ConnectionEntry.isExpired (now : ℤ) (entry : ConnectionEntry) : Bool :=
  entry.lastUsed < now - aprTimeFromSec mfsConnectionExpireTime

/-- What `mfs_pool_get_expired_trackers` leaves. -/
def ConnectionPool.withoutExpired (p : ConnectionPool) (now : ℤ) : ConnectionPool :=
  { p with connectionStack := p.connectionStack.rdropWhile (·.isExpired now) }

/-- What it returns. -/
def ConnectionPool.expired (p : ConnectionPool) (now : ℤ) : List ConnectionEntry :=
  p.connectionStack.rtakeWhile (·.isExpired now)

theorem mfsPoolGetExpiredTrackers_eq (w : World) (i : ℕ) :
    (mfsPoolGetExpiredTrackers w i).1 = (w.trackers.connectionPools i).expired w.env.clock.head ∧
      (mfsPoolGetExpiredTrackers w i).2.trackers.connectionPools i =
        (w.trackers.connectionPools i).withoutExpired w.env.clock.head :=
  ⟨rfl, update_self ..⟩

theorem pop_represents_nil {cp : RingPool} {p : ConnectionPool} (h : cp.Represents [] p) :
    cp.pop = (none, cp) := by
  have hnext : cp.connectionStack.next .sentinel = .sentinel := h.ring.close.1
  rw [RingPool.pop, hnext]

theorem pop_represents {cp : RingPool} {n : ℕ} {nodes : List ℕ} {p : ConnectionPool}
    (h : cp.Represents (n :: nodes) p) :
    cp.pop.1 = some n ∧ cp.pop.2.Represents nodes p.removeFirst := by
  have hnext : cp.connectionStack.next .sentinel = .node n := h.ring.reach.1.1
  rw [RingPool.pop, hnext]
  refine ⟨rfl, LinkedRing.Holds.remove (l := []) h.ring, ?_, congrArg (· - 1) h.count⟩
  rw [ConnectionPool.removeFirst, h.entries]
  rfl

theorem push_represents {cp : RingPool} {nodes : List ℕ} {p : ConnectionPool}
    (h : cp.Represents nodes p) {n : ℕ} (hn : n ∉ nodes) (now : ℤ) :
    (cp.push n now).Represents (n :: nodes) (p.insertHead ⟨n, now⟩) := by
  refine ⟨h.ring.insertHead hn, ?_, congrArg (· + 1) h.count⟩
  have hpushed : (cp.push n now).entry n = ⟨n, now⟩ :=
    congrArg (ConnectionEntry.mk n) (update_self ..)
  have hothers : nodes.map (cp.push n now).entry = nodes.map cp.entry :=
    List.map_congr_left fun m hm => by
      have hne : m ≠ n := fun heq => hn (heq ▸ hm)
      exact congrArg (ConnectionEntry.mk m) (update_of_ne hne _ _)
  rw [List.map_cons, hpushed, hothers, ← h.entries]
  rfl

/-- The longest run of expired entries at the end is cut out, and ends with NULL. -/
theorem getExpired_represents {cp : RingPool} {nodes : List ℕ} {p : ConnectionPool}
    (h : cp.Represents nodes p) {fuel : ℕ} (hfuel : nodes.length ≤ fuel) (now : ℤ) :
    ∃ kept gone, (cp.getExpired fuel now).2.Represents kept (p.withoutExpired now) ∧
      (cp.getExpired fuel now).2.connectionStack.Listed
        (chainStart (cp.getExpired fuel now).1) gone ∧
      p.expired now = gone.map cp.entry ∧ nodes = kept ++ gone := by
  let test : ℕ → Bool := fun n => (cp.entry n).isExpired now
  have hsplit : nodes.rdropWhile test ++ nodes.rtakeWhile test = nodes :=
    List.rdropWhile_append_rtakeWhile
  have hkept : (p.withoutExpired now).connectionStack = (nodes.rdropWhile test).map cp.entry := by
    rw [ConnectionPool.withoutExpired, h.entries]
    exact LinkedRing.rdropWhile_map cp.entry _ nodes
  have hgone : p.expired now = (nodes.rtakeWhile test).map cp.entry := by
    rw [ConnectionPool.expired, h.entries]
    exact LinkedRing.rtakeWhile_map cp.entry _ nodes
  have hscan : cp.lastEntry fuel now = (nodes.rtakeWhile test).head? := h.ring.scanBack test hfuel
  have hring : cp.connectionStack.Holds
      (nodes.rdropWhile test ++ nodes.rtakeWhile test ++ []) := by
    rw [List.append_nil, hsplit]
    exact h.ring
  refine ⟨nodes.rdropWhile test, nodes.rtakeWhile test, ?_⟩
  by_cases hnone : nodes.rtakeWhile test = []
  · -- the last entry, if there is one, is not expired
    rw [hnone, List.append_nil] at hsplit
    rw [hnone] at hscan
    have hcall : cp.getExpired fuel now = (none, cp) := by
      rw [RingPool.getExpired, hscan]
      rfl
    rw [hcall, hnone]
    exact ⟨⟨hsplit.symm ▸ h.ring, hkept, h.count⟩, rfl, by rw [hgone, hnone],
      by rw [List.append_nil, hsplit]⟩
  · have hlast : cp.connectionStack.prev .sentinel =
        .node ((nodes.rtakeWhile test).getLast hnone) := by
      have hclose := hring.close.2
      rwa [List.append_nil, LinkedRing.lastPlace_append_ne hnone] at hclose
    have hcall : cp.getExpired fuel now = (some ((nodes.rtakeWhile test).head hnone),
        cp.cutOut ((nodes.rtakeWhile test).head hnone)
          ((nodes.rtakeWhile test).getLast hnone)) := by
      rw [RingPool.getExpired, hscan, hlast, List.head?_eq_some_head hnone]
    rw [hcall]
    have hout : (nodes.rtakeWhile test).getLast hnone ∉ nodes.rdropWhile test ++ [] := by
      rw [List.append_nil]
      intro hmem
      have hnodup := hsplit.symm ▸ h.ring.nodup
      exact List.disjoint_of_nodup_append hnodup hmem (List.getLast_mem hnone)
    have hcut := (hring.unsplice hnone).setNext hout .null
    rw [List.append_nil] at hcut
    exact ⟨⟨hcut, hkept, h.count⟩, hring.listed_unsplice hnone, hgone, hsplit.symm⟩

/-! ## Histories -/

/-- One connection pool, the entries its clients have, how many entries there have been, and what
    the clock has stamped. -/
structure StackHistory where
  cp : RingPool
  held : List ℕ
  made : ℕ
  stamps : List ℤ

/-- A call, with what it meets outside: whether a new connection can be made, or the time.
    `returnConnection` is about the `i`-th of the entries the clients have. -/
inductive StackMove
  | getConnection (createNew connects : Bool)
  | returnConnection (i : ℕ) (now : ℤ)
  | getExpired (now : ℤ)

/-- A connection that cannot be made deactivates the tracker, whose stack is empty then. -/
def StackMove.apply (s : StackHistory) : StackMove → StackHistory
  | .getConnection createNew connects =>
    match s.cp.pop with
    | (some n, cp) => { s with cp := cp, held := s.held ++ [n] }
    | (none, cp) =>
      if createNew && connects then
        { s with cp := cp, held := s.held ++ [s.made], made := s.made + 1 }
      else { s with cp := cp }
  | .returnConnection i now =>
    match s.held[i]? with
    | none => s
    | some n =>
      { s with
        cp := s.cp.push n now
        held := s.held.eraseIdx i
        stamps := s.stamps ++ [now] }
  | .getExpired now => { s with cp := (s.cp.getExpired s.made now).2 }

/-- After the registration of the tracker; a new entry is cleared memory. -/
def newStack : StackHistory := ⟨⟨.empty, fun _ => 0, 0⟩, [], 0, []⟩

/-- The stamp of a return is not before that of an earlier one. -/
def StackMove.InOrder (s : StackHistory) : StackMove → Prop
  | .returnConnection _ now => ∀ stamp ∈ s.stamps, stamp ≤ now
  | _ => True

/-- From the most to the least recently used. -/
def MostRecentFirst (entries : List ConnectionEntry) : Prop :=
  entries.Pairwise fun a b => b.lastUsed ≤ a.lastUsed

/-- What a call of `mfs_pool_get_expired_trackers` does to a ring that represents `p`: the entries
    that are not expired stay, in their order, and the others are returned as a chain that ends
    with NULL, the most recently used one first. -/
structure ExpiresExactly (cp : RingPool) (fuel : ℕ) (p : ConnectionPool) (now : ℤ) : Prop where
  stays : ∃ kept, (cp.getExpired fuel now).2.Represents kept
    { p with connectionStack := p.connectionStack.filter (!·.isExpired now) }
  chain : (cp.getExpired fuel now).2.connectionStack.Listed (chainStart (cp.getExpired fuel now).1)
    ((p.connectionStack.filter (·.isExpired now)).map ConnectionEntry.connection)
  recentFirst : MostRecentFirst (p.connectionStack.filter (·.isExpired now))
  stamps : (cp.getExpired fuel now).2.lastUsed = cp.lastUsed

/-- The ring is the stack `p`, which is in order, and no entry is in it twice, or in it and with a
    client. -/
structure StackHistory.OrderedAs (s : StackHistory) (nodes : List ℕ) (p : ConnectionPool) :
    Prop where
  represents : s.cp.Represents nodes p
  recentFirst : MostRecentFirst p.connectionStack
  stamped : ∀ entry ∈ p.connectionStack, entry.lastUsed ∈ s.stamps
  apart : (s.held ++ nodes).Nodup
  made : ∀ n ∈ s.held ++ nodes, n < s.made

def StackHistory.Ordered (s : StackHistory) : Prop := ∃ nodes p, s.OrderedAs nodes p

theorem length_le_made {s : StackHistory} {nodes : List ℕ} {p : ConnectionPool}
    (h : s.OrderedAs nodes p) : nodes.length ≤ s.made := by
  have hnodup : nodes.Nodup := (List.nodup_append.mp h.apart).2.1
  have hsub : nodes.toFinset ⊆ Finset.range s.made := fun n hn =>
    Finset.mem_range.mpr (h.made n (List.mem_append_right _ (List.mem_toFinset.mp hn)))
  calc nodes.length = nodes.toFinset.card := (List.toFinset_card_of_nodup hnodup).symm
    _ ≤ (Finset.range s.made).card := Finset.card_le_card hsub
    _ = s.made := Finset.card_range _

/-- In an ordered stack the run of expired entries at the end is all of them. -/
theorem expired_eq_filter {p : ConnectionPool} (h : MostRecentFirst p.connectionStack) (now : ℤ) :
    p.expired now = p.connectionStack.filter (·.isExpired now) ∧
      p.withoutExpired now =
        { p with connectionStack := p.connectionStack.filter (!·.isExpired now) } := by
  have hpasses : p.connectionStack.Pairwise fun a b => a.isExpired now → b.isExpired now := by
    refine h.imp fun {a b} hab ha => ?_
    simp only [ConnectionEntry.isExpired, decide_eq_true_eq] at ha ⊢
    exact lt_of_le_of_lt hab ha
  obtain ⟨htaken, hleft⟩ := LinkedRing.rtakeWhile_rdropWhile_eq_filter hpasses
  exact ⟨htaken, by rw [ConnectionPool.withoutExpired, hleft]⟩

theorem lastUsed_getExpired (cp : RingPool) (fuel : ℕ) (now : ℤ) :
    (cp.getExpired fuel now).2.lastUsed = cp.lastUsed := by
  unfold RingPool.getExpired
  split <;> rfl

theorem StackHistory.OrderedAs.expiresExactly {s : StackHistory} {nodes : List ℕ}
    {p : ConnectionPool} (h : s.OrderedAs nodes p) (now : ℤ) :
    ExpiresExactly s.cp s.made p now := by
  obtain ⟨kept, gone, hkept, hlisted, hgone, -⟩ :=
    getExpired_represents h.represents (length_le_made h) now
  obtain ⟨htaken, hleft⟩ := expired_eq_filter h.recentFirst now
  rw [hleft] at hkept
  rw [htaken] at hgone
  refine ⟨⟨kept, hkept⟩, ?_, h.recentFirst.sublist List.filter_sublist, lastUsed_getExpired ..⟩
  rw [hgone, List.map_map]
  simpa [Function.comp_def, RingPool.entry] using hlisted

/-! ## Steps -/

theorem ordered_newStack : newStack.OrderedAs [] ⟨true, 0, []⟩ where
  represents := ⟨LinkedRing.holds_empty, rfl, rfl⟩
  recentFirst := List.Pairwise.nil
  stamped _ h := absurd h List.not_mem_nil
  apart := List.nodup_nil
  made _ h := absurd h List.not_mem_nil

theorem ordered_getConnection {s : StackHistory} {nodes : List ℕ} {p : ConnectionPool}
    (h : s.OrderedAs nodes p) (createNew connects : Bool) :
    (StackMove.apply s (.getConnection createNew connects)).Ordered := by
  cases nodes with
  | nil =>
    simp only [StackMove.apply, pop_represents_nil h.represents]
    by_cases hnew : (createNew && connects) = true
    · rw [if_pos hnew]
      have hmade : s.made ∉ s.held := fun hmem =>
        absurd (h.made s.made (List.mem_append_left _ hmem)) (lt_irrefl _)
      refine ⟨[], p, h.represents, h.recentFirst, h.stamped, ?_, fun n hn => ?_⟩
      · rw [List.append_nil, ← List.concat_eq_append]
        exact (List.nodup_append.mp h.apart).1.concat hmade
      · rw [List.append_nil, List.mem_append, List.mem_singleton] at hn
        rcases hn with hn | rfl
        · exact Nat.lt_succ_of_lt (h.made n (List.mem_append_left _ hn))
        · exact Nat.lt_succ_self _
    · rw [if_neg hnew]
      exact ⟨[], p, h⟩
  | cons n nodes =>
    obtain ⟨hentry, hpopped⟩ := pop_represents h.represents
    cases hpop : s.cp.pop with
    | mk entry cp =>
    rw [hpop] at hentry hpopped
    obtain rfl : entry = some n := hentry
    have hmoved : s.held ++ [n] ++ nodes = s.held ++ n :: nodes := by
      rw [List.append_assoc, List.singleton_append]
    simp only [StackMove.apply, hpop]
    refine ⟨nodes, p.removeFirst, hpopped, h.recentFirst.sublist (List.tail_sublist _),
      fun entry he => h.stamped entry (List.mem_of_mem_tail he), ?_, ?_⟩
    · rw [hmoved]
      exact h.apart
    · rw [hmoved]
      exact h.made

theorem ordered_returnConnection {s : StackHistory} {nodes : List ℕ} {p : ConnectionPool}
    (h : s.OrderedAs nodes p) (i : ℕ) {now : ℤ} (hnow : ∀ stamp ∈ s.stamps, stamp ≤ now) :
    (StackMove.apply s (.returnConnection i now)).Ordered := by
  cases hi : s.held[i]? with
  | none =>
    simp only [StackMove.apply, hi]
    exact ⟨nodes, p, h⟩
  | some n =>
    obtain ⟨hlt, rfl⟩ := List.getElem?_eq_some_iff.mp hi
    simp only [StackMove.apply, hi]
    have hmoved : (s.held.eraseIdx i ++ s.held[i] :: nodes).Perm (s.held ++ nodes) :=
      List.perm_middle.trans ((List.getElem_cons_eraseIdx_perm hlt).append_right nodes)
    have hn : s.held[i] ∉ nodes :=
      List.disjoint_of_nodup_append h.apart (List.getElem_mem hlt)
    refine ⟨s.held[i] :: nodes, p.insertHead ⟨s.held[i], now⟩,
      push_represents h.represents hn now, ?_, ?_, hmoved.nodup_iff.mpr h.apart, fun m hm =>
        h.made m (hmoved.mem_iff.mp hm)⟩
    · exact List.pairwise_cons.mpr
        ⟨fun entry he => hnow _ (h.stamped entry he), h.recentFirst⟩
    · intro entry he
      rcases List.mem_cons.mp he with rfl | he
      · exact List.mem_append_right _ (List.mem_singleton_self now)
      · exact List.mem_append_left _ (h.stamped entry he)

theorem ordered_getExpired {s : StackHistory} {nodes : List ℕ} {p : ConnectionPool}
    (h : s.OrderedAs nodes p) (now : ℤ) :
    (StackMove.apply s (.getExpired now)).Ordered := by
  obtain ⟨kept, gone, hkept, -, -, rfl⟩ :=
    getExpired_represents h.represents (length_le_made h) now
  have hkept_le : (p.withoutExpired now).connectionStack <+: p.connectionStack :=
    List.rdropWhile_prefix _ _
  have hsub : (s.held ++ kept).Sublist (s.held ++ (kept ++ gone)) :=
    (List.sublist_append_left kept gone).append_left s.held
  exact ⟨kept, p.withoutExpired now, hkept, h.recentFirst.sublist hkept_le.sublist,
    fun entry he => h.stamped entry (hkept_le.mem he), h.apart.sublist hsub,
    fun n hn => h.made n (hsub.mem hn)⟩

theorem ordered_apply {s : StackHistory} {move : StackMove} (h : s.Ordered)
    (hmove : move.InOrder s) : (move.apply s).Ordered := by
  obtain ⟨nodes, p, h⟩ := h
  cases move with
  | getConnection createNew connects => exact ordered_getConnection h createNew connects
  | returnConnection i now => exact ordered_returnConnection h i hmove
  | getExpired now => exact ordered_getExpired h now

/-! ## Runs -/

/-- As long as the stamps of the returns do not decrease, the stack goes from the most to the least
    recently used entry, and a call of `mfs_pool_get_expired_trackers` takes exactly the expired
    entries, whatever the time is. -/
theorem expired_exactly {moves : List StackMove}
    (h : Meets StackMove.apply (fun s move => move.InOrder s) newStack moves) :
    Throughout StackMove.apply (fun s => ∃ nodes p, s.cp.Represents nodes p ∧
      MostRecentFirst p.connectionStack ∧ ∀ now, ExpiresExactly s.cp s.made p now)
      newStack moves := by
  have hinv : Throughout StackMove.apply StackHistory.Ordered newStack moves :=
    throughout_of_meets (fun _ _ hs hmove => ordered_apply hs hmove) ⟨_, _, ordered_newStack⟩ h
  intro k
  obtain ⟨nodes, p, hk⟩ := hinv k
  exact ⟨nodes, p, hk.represents, hk.recentFirst, hk.expiresExactly⟩

/-- Two connections are made and returned, the first one 90 seconds before the call that expires
    it, the second one 30 seconds before. -/
theorem expired_exactly_first :
    Throughout StackMove.apply (fun s => ∃ nodes p, s.cp.Represents nodes p ∧
      MostRecentFirst p.connectionStack ∧ ∀ now, ExpiresExactly s.cp s.made p now) newStack
      [.getConnection true true, .getConnection true true, .returnConnection 0 10000000,
        .returnConnection 0 70000000, .getExpired 100000000, .getConnection false true] :=
  expired_exactly ⟨trivial, trivial, fun _ hs => absurd hs List.not_mem_nil, by
    change ∀ stamp ∈ [10000000], stamp ≤ (70000000 : ℤ)
    decide, trivial, trivial, trivial⟩

end MogileFs
