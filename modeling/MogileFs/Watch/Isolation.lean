import MogileFs.Library.Runs
import MogileFs.Watch.Fidelity
import MogileFs.Watch.LineCopy

/-!
# Lines after a reconnect

`read_buf`, `buf_pointer` and `cnt` outlive the connection. Where a line comes
from is told by the events of the calls (`WatchEvent`): each position of `read_buf`
comes from the connection that delivered it last, or from none (`Provenance`).

Two things let a byte into a line that the current connection has not
delivered. A line that is too long leaves the rest of its chunk to the next
connection, and a refill promises one byte more than it has received. The
second is harmless where the connection itself has delivered that byte earlier, or
where it is a NUL that is dropped behind a newline (`Provenance.Clean`).

Results:
* `watchCalls_isolated`: in a run whose steps are all clean, every line consists of
  bytes of the connection that is current when it is returned.
* `nextLine_isolated`, `readlineLoop_isolated`: the same for one call, and for one
  reading of a line.
* `not_owns_connected`: what is promised when a connection is got is never its own.
* `Buffered.filled`, `Buffered.takeOne`: what keeps the promised bytes those of the
  current connection.
-/

namespace MogileFs

open Cells Runs

/-! ## Where bytes come from -/

/-- What happens to `read_buf`: a connection is got while `cnt` bytes are promised,
    `sock_readline` is called, a `recv` stores `bytes` in front of a byte `behind`, and the
    byte at `pos` is stored in the caller's buffer. -/
inductive WatchEvent
  | connected (cnt : ℕ)
  | started
  | received (bytes : Bytes) (behind : Byte)
  | stored (pos : ℕ) (c : Byte)

/-- The number of the current connection, the connection each position of `read_buf`
    was received on, and what `sock_readline` has stored of the line. -/
structure Provenance where
  connection : ℕ
  origin : ℕ → Option ℕ
  line : List (Byte × Option ℕ)

/-- Nothing has been received. -/
def Provenance.init : Provenance := ⟨0, fun _ => none, []⟩

def Provenance.step (p : Provenance) : WatchEvent → Provenance
  | .connected _ => { p with connection := p.connection + 1 }
  | .started => { p with line := [] }
  | .received bytes _ =>
    { p with origin := fun i => if i < bytes.length then some p.connection else p.origin i }
  | .stored pos c => { p with line := p.line ++ [(c, p.origin pos)] }

/-- The position holds a byte of the current connection. -/
def Provenance.Owns (p : Provenance) (i : ℕ) : Prop := p.origin i = some p.connection

/-- The chunk ends with a newline, but for NULs. -/
def EndsLine (bytes : Bytes) : Prop := ∃ front k, bytes = front ++ LF :: List.replicate k 0

theorem endsLine_iff {bytes : Bytes} :
    EndsLine bytes ↔ (bytes.rdropWhile (· = 0)).getLast? = some LF := by
  constructor
  · rintro ⟨front, k, rfl⟩
    induction k with
    | zero =>
      rw [List.replicate_zero, List.rdropWhile_concat_neg _ _ _ (by decide)]
      exact List.getLast?_concat
    | succ k ih =>
      rw [List.replicate_succ', ← List.cons_append, ← List.append_assoc,
        List.rdropWhile_concat_pos _ _ _ (by decide)]
      exact ih
  · intro h
    obtain ⟨front, hfront⟩ := List.getLast?_eq_some_iff.mp h
    have hsplit : bytes.rdropWhile (· = 0) ++ bytes.rtakeWhile (· = 0) = bytes :=
      List.rdropWhile_append_rtakeWhile
    have hzeros : bytes.rtakeWhile (· = 0) =
        List.replicate (bytes.rtakeWhile (· = 0)).length 0 := by
      refine List.eq_replicate_iff.mpr ⟨rfl, fun x hx => ?_⟩
      simpa using List.mem_rtakeWhile_imp hx
    refine ⟨front, (bytes.rtakeWhile (· = 0)).length, ?_⟩
    rw [← hzeros]
    calc bytes = (front ++ [LF]) ++ bytes.rtakeWhile (· = 0) := by rw [← hfront, hsplit]
      _ = front ++ LF :: bytes.rtakeWhile (· = 0) := by rw [List.append_assoc]; rfl

instance (bytes : Bytes) : Decidable (EndsLine bytes) := decidable_of_iff _ endsLine_iff.symm

/-- A connection is got with nothing promised; and the byte that a `recv` promises
    without having received it is the connection's own, or a NUL behind a newline. -/
def Provenance.Clean (p : Provenance) : WatchEvent → Prop
  | .connected cnt => cnt = 0
  | .received bytes behind =>
    bytes = [] ∨ p.Owns bytes.length ∨ (behind = 0 ∧ EndsLine bytes)
  | _ => True

instance (p : Provenance) : (e : WatchEvent) → Decidable (p.Clean e)
  | .connected cnt => inferInstanceAs (Decidable (cnt = 0))
  | .started => isTrue trivial
  | .received bytes behind => inferInstanceAs (Decidable (bytes = [] ∨
      p.origin bytes.length = some p.connection ∨ (behind = 0 ∧ EndsLine bytes)))
  | .stored _ _ => isTrue trivial

/-- Whatever has happened, no byte that is promised when a connection is got can be of
    that connection. -/
theorem not_owns_connected (events : List WatchEvent) (cnt i : ℕ) :
    ¬ ((run Provenance.step .init events).step (.connected cnt)).Owns i := by
  have hpast : Throughout Provenance.step
      (fun p => ∀ i k, p.origin i = some k → k ≤ p.connection) .init events := by
    refine throughout_of_steps (fun p e h => ?_) (fun i k hk => by cases hk)
    intro i k hk
    cases e with
    | connected cnt => exact (h i k hk).trans (Nat.le_succ _)
    | started => exact h i k hk
    | received bytes behind =>
      by_cases hi : i < bytes.length
      · have horigin : some p.connection = some k := (if_pos hi).symm.trans hk
        exact (Option.some.inj horigin).ge
      · exact h i k ((if_neg hi).symm.trans hk)
    | stored pos c => exact h i k hk
  intro hown
  have hle := hpast events.length i _ (by rw [List.take_length]; exact hown)
  rw [List.take_length] at hle
  exact absurd hle (Nat.not_succ_le_self _)

/-! ## The events of the calls -/

/-- The `recv` of a refill. -/
def refillEvents (b : ReadBuffer) (incoming : List (Recv readBufSize)) : List WatchEvent :=
  if b.cnt = 0 then
    match incoming with
    | [] => []
    | r :: _ => [.received r.bytes (b.behind r)]
  else []

/-- The events of `sock_readline`, along its loop. -/
def readlineEvents (len : ℕ) (b : ReadBuffer) (incoming : List (Recv readBufSize)) :
    List WatchEvent :=
  if 0 < decSize len then
    match _h : refill b incoming with
    | .waiting => []
    | .failed _ _ _ => refillEvents b incoming
    | .again b' incoming' =>
      refillEvents b incoming ++ readlineEvents (incSize (decSize len)) b' incoming'
    | .ready b' incoming' =>
      refillEvents b incoming ++ .stored b'.bufPointer b'.current ::
        if b'.current = LF then []
        else readlineEvents (decSize len) (b'.advance .taken) incoming'
  else []
termination_by readMeasure b incoming
decreasing_by
  · exact readMeasure_again _h
  · exact (readMeasure_ready _h : readMeasure _ incoming' < _)

/-- A connection is got when there is none. -/
def connectEvents (s : WatchState) : List WatchEvent :=
  match s.watch.connection, (connectWatch s).watch.connection with
  | none, some _ => [.connected s.watch.buffer.cnt]
  | _, _ => []

/-- The events of `get_next_watch_line`, along its loop. -/
def nextLineEvents (passes : ℕ) (s : WatchState) (buf : ℕ → Byte) (len : ℕ) : List WatchEvent :=
  match passes with
  | 0 => []
  | passes + 1 =>
    let s' := connectWatch s
    connectEvents s ++
      match s'.watch.connection with
      | none => nextLineEvents passes s' buf len
      | some entry =>
        let r := sockReadline true buf len s'.watch.buffer (s'.incoming entry.connection)
        let next := { s' with
          watch := { s'.watch with buffer := r.buffer }
          incoming := Function.update s'.incoming entry.connection r.incoming }
        .started :: readlineEvents len s'.watch.buffer (s'.incoming entry.connection) ++
          match r.rv with
          | none => []
          | some .success => []
          | some _ =>
            nextLineEvents passes
              { next with
                watch := { next.watch with connection := none }
                w := mfsPoolDestroyConnection next.w entry }
              r.bufptr.memory len

/-- A call of `get_next_watch_line`: what it returns, what it leaves in the caller's
    buffer, and its events. -/
structure WatchCall where
  rv : Option AprStatus
  memory : ℕ → Byte
  events : List WatchEvent

/-- `n` calls into one buffer. -/
def watchCalls (passes len : ℕ) : ℕ → WatchState → (ℕ → Byte) → List WatchCall
  | 0, _, _ => []
  | n + 1, s, buf =>
    let (rv, memory, s') := getNextWatchLine true passes s buf len
    ⟨rv, memory, nextLineEvents passes s buf len⟩ :: watchCalls passes len n s' memory

/-- The line in the caller's buffer is what has been stored, up to a NUL, and all of that
    comes from the current connection. -/
def Provenance.LineOwned (p : Provenance) (line : Bytes) : Prop :=
  line <+: p.line.map Prod.fst ∧ ∀ x ∈ p.line, x.2 = some p.connection

/-- Every line that is returned comes from the connection that is current then. -/
def IsolatedFrom (len : ℕ) : Provenance → List WatchCall → Prop
  | _, [] => True
  | p, c :: calls =>
    let p := run Provenance.step p c.events
    (c.rv = some .success → p.LineOwned (cstr (cells c.memory len))) ∧ IsolatedFrom len p calls

/-! ## The promised bytes -/

/-- The bytes that `cnt` promises are of the current connection, but for a NUL behind
    a newline. -/
def Buffered (p : Provenance) (b : ReadBuffer) : Prop :=
  ∃ own phantom, b.available = own ++ phantom ∧ (∀ i < own.length, p.Owns (b.bufPointer + i)) ∧
    (phantom = [] ∨ phantom = [0] ∧ EndsLine own)

theorem buffered_of_cnt {b : ReadBuffer} (h : b.cnt = 0) (p : Provenance) : Buffered p b := by
  refine ⟨[], [], ?_, fun i hi => absurd hi (Nat.not_lt_zero i), Or.inl rfl⟩
  exact List.length_eq_zero_iff.mp ((length_available b).trans h)

theorem Provenance.owns_received (p : Provenance) (bytes : Bytes) (behind : Byte) {i : ℕ}
    (h : i < bytes.length ∨ p.Owns i) : (p.step (.received bytes behind)).Owns i := by
  show (if i < bytes.length then some p.connection else p.origin i) = some p.connection
  by_cases hi : i < bytes.length
  · exact if_pos hi
  · rw [if_neg hi]
    exact h.resolve_left hi

/-- A clean `recv` fills the buffer with bytes of the current connection. -/
theorem Buffered.filled {p : Provenance} {b : ReadBuffer} {r : Recv readBufSize}
    (hne : r.bytes ≠ []) (h : p.Clean (.received r.bytes (b.behind r))) :
    Buffered (p.step (.received r.bytes (b.behind r))) (b.filled r) := by
  have hav := available_filled b r
  have hptr : (b.filled r).bufPointer = 0 := rfl
  rcases h.resolve_left hne with hbehind | ⟨hnul, hends⟩
  · refine ⟨r.bytes ++ [b.behind r], [], by rw [hav, List.append_nil], ?_, Or.inl rfl⟩
    intro i hi
    rw [List.length_append, List.length_singleton] at hi
    rw [hptr, Nat.zero_add]
    rcases Nat.lt_succ_iff_lt_or_eq.mp hi with hi | rfl
    · exact p.owns_received _ _ (Or.inl hi)
    · exact p.owns_received _ _ (Or.inr hbehind)
  · refine ⟨r.bytes, [b.behind r], hav, ?_, Or.inr ⟨by rw [hnul], hends⟩⟩
    intro i hi
    rw [hptr, Nat.zero_add]
    exact p.owns_received _ _ (Or.inl hi)

theorem EndsLine.of_cons {c : Byte} {bytes : Bytes} (h : EndsLine (c :: bytes)) :
    (c = LF ∧ ∃ k, bytes = List.replicate k 0) ∨ EndsLine bytes := by
  obtain ⟨front, k, hfront⟩ := h
  cases front with
  | nil =>
    obtain ⟨hc, hbytes⟩ := List.cons.inj hfront
    exact Or.inl ⟨hc, k, hbytes⟩
  | cons d front =>
    obtain ⟨-, hbytes⟩ := List.cons.inj hfront
    exact Or.inr ⟨front, k, hbytes⟩

/-- The newline is not dropped with the NULs. -/
theorem EndsLine.dropWhile {bytes : Bytes} (h : EndsLine bytes) :
    EndsLine (bytes.dropWhile (· = 0)) ∧
      (bytes ++ [0]).dropWhile (· = 0) = bytes.dropWhile (· = 0) ++ [0] := by
  obtain ⟨front, k, rfl⟩ := h
  have hdrop : ∀ tail : Bytes, (front ++ LF :: tail).dropWhile (· = 0) =
      front.dropWhile (· = 0) ++ LF :: tail := by
    intro tail
    induction front with
    | nil => rfl
    | cons d front ih =>
      by_cases hd : d = 0
      · simpa [hd] using ih
      · simp [hd]
  refine ⟨⟨_, k, hdrop _⟩, ?_⟩
  rw [hdrop, List.append_assoc, List.cons_append, hdrop, List.append_assoc, List.cons_append]

theorem skipNuls_available (b : ReadBuffer) :
    (skipNuls b).available = b.available.dropWhile (· = 0) ∧
      (skipNuls b).bufPointer = b.bufPointer + (b.available.takeWhile (· = 0)).length := by
  induction b using skipNuls.induct with
  | case1 b hpos hcur ih =>
    cases hav : b.available with
    | nil =>
      have := length_available b
      rw [hav, List.length_nil] at this
      omega
    | cons c rest =>
      obtain ⟨-, hc, hrest⟩ := available_cons hav
      have hzero : c = 0 := hc.symm.trans hcur
      rw [skipNuls, if_pos hpos, if_pos hcur]
      have hnext : ({ (b.note .inspected).advance .skipped with cnt := b.cnt - 1 } :
          ReadBuffer).available = rest := hrest
      obtain ⟨h1, h2⟩ := ih
      rw [hnext] at h1 h2
      refine ⟨by rw [h1, hzero, List.dropWhile_cons_of_pos (by simp)], ?_⟩
      rw [h2, hzero, List.takeWhile_cons_of_pos (by simp), List.length_cons]
      show b.bufPointer + 1 + _ = _
      omega
  | case2 b hpos hcur =>
    cases hav : b.available with
    | nil =>
      have := length_available b
      rw [hav, List.length_nil] at this
      omega
    | cons c rest =>
      obtain ⟨-, hc, -⟩ := available_cons hav
      have hne : c ≠ 0 := fun h => hcur (hc.trans h)
      rw [skipNuls, if_pos hpos, if_neg hcur, List.dropWhile_cons_of_neg (by simpa using hne),
        List.takeWhile_cons_of_neg (by simpa using hne)]
      exact ⟨hav, rfl⟩
  | case3 b hpos =>
    have hnil : b.available = [] := by
      apply List.length_eq_zero_iff.mp
      rw [length_available]
      omega
    rw [skipNuls, if_neg hpos, hnil]
    exact ⟨rfl, rfl⟩

/-- Behind a newline the NULs are dropped, and with them the one that has not been
    received. -/
theorem buffered_skipNuls {p : Provenance} {b : ReadBuffer} {own phantom : Bytes}
    (hav : b.available = own ++ phantom) (hown : ∀ i < own.length, p.Owns (b.bufPointer + i))
    (hphantom : phantom = [] ∨
      phantom = [0] ∧ ((∃ k, own = List.replicate k 0) ∨ EndsLine own)) :
    Buffered p (skipNuls b) := by
  obtain ⟨hskip, hptr⟩ := skipNuls_available b
  rw [hav] at hskip hptr
  have hsplit : own.takeWhile (· = 0) ++ own.dropWhile (· = 0) = own :=
    List.takeWhile_append_dropWhile
  have hlength := congrArg List.length hsplit
  rw [List.length_append] at hlength
  rcases hphantom with rfl | ⟨rfl, ⟨k, hzeros⟩ | hends⟩
  · rw [List.append_nil] at hskip hptr
    refine ⟨own.dropWhile (· = 0), [], by rw [hskip, List.append_nil], ?_, Or.inl rfl⟩
    intro i hi
    rw [hptr, Nat.add_assoc]
    exact hown _ (by omega)
  · -- nothing but NULs is promised
    have hall : (own ++ [0]).dropWhile (· = 0) = [] := by
      rw [List.dropWhile_eq_nil_iff, hzeros]
      intro x hx
      rcases List.mem_append.mp hx with hx | hx
      · simpa using List.eq_of_mem_replicate hx
      · simpa using hx
    apply buffered_of_cnt
    rw [← length_available, hskip, hall, List.length_nil]
  · obtain ⟨hends', hdrop⟩ := hends.dropWhile
    have htake : (own ++ [0]).takeWhile (· = 0) = own.takeWhile (· = 0) := by
      have hwhole : (own ++ [0]).takeWhile (· = 0) ++ (own ++ [0]).dropWhile (· = 0) =
          own ++ [0] := List.takeWhile_append_dropWhile
      rw [hdrop, ← List.append_assoc] at hwhole
      have hcut := List.append_cancel_right hwhole
      exact List.append_cancel_right (hcut.trans hsplit.symm)
    refine ⟨own.dropWhile (· = 0), [0], hskip.trans hdrop, ?_, Or.inr ⟨rfl, hends'⟩⟩
    intro i hi
    rw [hptr, htake, Nat.add_assoc]
    exact hown _ (by omega)

/-- The next promised byte is of the current connection. Behind it the promise holds;
    and behind a newline it holds when the NULs have been dropped. -/
theorem Buffered.takeOne {p : Provenance} {b : ReadBuffer} (h : Buffered p b) (hpos : 0 < b.cnt) :
    p.Owns b.bufPointer ∧ (b.current ≠ LF → Buffered p b.takeOne) ∧
      (b.current = LF → Buffered p (skipNuls b.takeOne)) := by
  obtain ⟨own, phantom, hav, hown, hphantom⟩ := h
  cases own with
  | nil =>
    -- a NUL is promised behind a newline only
    rcases hphantom with rfl | ⟨-, front, k, hends⟩
    · have := length_available b
      rw [hav, List.append_nil, List.length_nil] at this
      omega
    · exact absurd hends (by simp)
  | cons c own =>
    rw [List.cons_append] at hav
    obtain ⟨-, hcur, hrest⟩ := available_cons hav
    have hown' : ∀ i < own.length, p.Owns (b.takeOne.bufPointer + i) := by
      intro i hi
      have hnext := hown (i + 1) (by rw [List.length_cons]; omega)
      show p.Owns (b.bufPointer + 1 + i)
      rwa [Nat.add_assoc, Nat.add_comm 1]
    refine ⟨hown 0 (by simp), fun hlf => ?_, fun _ => ?_⟩
    · refine ⟨own, phantom, hrest, hown', hphantom.imp_right fun ⟨hnul, hends⟩ => ⟨hnul, ?_⟩⟩
      exact hends.of_cons.resolve_left fun hc => hlf (hcur.trans hc.1)
    · refine buffered_skipNuls hrest hown' (hphantom.imp_right fun ⟨hnul, hends⟩ => ⟨hnul, ?_⟩)
      exact hends.of_cons.imp_left And.right

/-! ## One line -/

/-- A clean refill, whatever `recv` answers. -/
theorem refill_buffered {p : Provenance} {b : ReadBuffer} {incoming : List (Recv readBufSize)}
    (h : Buffered p b) (hempty : TimeoutsEmpty incoming)
    (hclean : Meets Provenance.step Provenance.Clean p (refillEvents b incoming)) :
    match refill b incoming with
    | .waiting => Buffered (run Provenance.step p (refillEvents b incoming)) b
    | .again b' rest | .failed _ b' rest =>
      Buffered (run Provenance.step p (refillEvents b incoming)) b' ∧ TimeoutsEmpty rest
    | .ready b' rest => TimeoutsEmpty rest ∧ ∃ b₀, 0 < b₀.cnt ∧
        Buffered (run Provenance.step p (refillEvents b incoming)) b₀ ∧
        b' = { b₀ with cnt := b₀.cnt - 1 } := by
  by_cases hcnt : b.cnt = 0
  · cases incoming with
    | nil =>
      simp only [refill, refillEvents, hcnt, if_true]
      exact h
    | cons r incoming =>
      have hrest : TimeoutsEmpty incoming := fun q hq => hempty q (List.mem_cons_of_mem _ hq)
      simp only [refillEvents, hcnt, if_true] at hclean ⊢
      simp only [run_cons, run_nil]
      by_cases hbytes : r.bytes = []
      · have hzero : (b.recv r).cnt = 0 := congrArg List.length hbytes
        have hnone := buffered_of_cnt hzero (p.step (.received r.bytes (b.behind r)))
        by_cases htime : r.rv = .timeup
        · simp only [refill, hcnt, htime, if_true]
          exact ⟨hnone, hrest⟩
        · by_cases hfail : r.rv ≠ .success ∧ (b.recv r).cnt = 0
          · simp only [refill, hcnt, htime, if_true, if_false, if_pos hfail]
            exact ⟨hnone, hrest⟩
          · simp only [refill, hcnt, htime, if_true, if_false, if_neg hfail, if_pos hzero]
            exact ⟨hnone, hrest⟩
      · have hpos : (b.recv r).cnt ≠ 0 := by
          simpa [ReadBuffer.recv, List.length_eq_zero_iff] using hbytes
        have htime : r.rv ≠ .timeup := fun ht => hbytes (hempty r (List.mem_cons_self ..) ht)
        have hfail : ¬ (r.rv ≠ .success ∧ (b.recv r).cnt = 0) := fun hf => hpos hf.2
        simp only [refill, hcnt, htime, if_true, if_false, if_neg hfail, if_neg hpos]
        exact ⟨hrest, b.filled r, Nat.succ_pos _, Buffered.filled hbytes hclean.1, rfl⟩
  · simp only [refill, refillEvents, hcnt, if_false]
    exact ⟨hempty, b, Nat.pos_of_ne_zero hcnt, h, rfl⟩

/-- A refill changes neither the connection nor the line. -/
theorem run_refillEvents (p : Provenance) (b : ReadBuffer) (incoming : List (Recv readBufSize)) :
    (run Provenance.step p (refillEvents b incoming)).connection = p.connection ∧
      (run Provenance.step p (refillEvents b incoming)).line = p.line := by
  unfold refillEvents
  split
  · cases incoming with
    | nil => exact ⟨rfl, rfl⟩
    | cons r incoming => exact ⟨rfl, rfl⟩
  · exact ⟨rfl, rfl⟩

/-- What has been stored is of the current connection, and stands in the caller's
    buffer. -/
structure Storing (p : Provenance) (q : Cursor) : Prop where
  own : ∀ x ∈ p.line, x.2 = some p.connection
  wrote : q.Wrote (p.line.map Prod.fst)

theorem Storing.congr {p p' : Provenance} {q : Cursor} (h : Storing p q)
    (hconnection : p'.connection = p.connection) (hline : p'.line = p.line) : Storing p' q := by
  refine ⟨?_, ?_⟩
  · rw [hline, hconnection]
    exact h.own
  · rw [hline]
    exact h.wrote

theorem Storing.stored {p : Provenance} {q : Cursor} (h : Storing p q) {pos : ℕ}
    (hpos : p.Owns pos) (c : Byte) : Storing (p.step (.stored pos c)) (q.put c) := by
  refine ⟨?_, ?_⟩
  · intro x hx
    rcases List.mem_append.mp hx with hx | hx
    · exact h.own x hx
    · rw [List.mem_singleton.mp hx]
      exact hpos
  · show (q.put c).Wrote ((p.line ++ [(c, p.origin pos)]).map Prod.fst)
    rw [List.map_append]
    exact h.wrote.put c

/-- What is left when a line has been read, or given up. -/
structure LineIsolated (p : Provenance) (r : ReadlineResult) : Prop where
  buffered : Buffered p r.buffer
  timeouts : TimeoutsEmpty r.incoming
  line : r.rv = some .success →
    ∃ q, Storing p q ∧ r.bufptr = terminateBuffer q p.line.length

/-- A refill, and the byte that is stored after it. -/
theorem stored_isolated {p : Provenance} {q : Cursor} {b b' : ReadBuffer}
    {incoming rest : List (Recv readBufSize)} (hbuf : Buffered p b)
    (hempty : TimeoutsEmpty incoming) (hstoring : Storing p q)
    (hrefill : refill b incoming = .ready b' rest)
    (hclean : Meets Provenance.step Provenance.Clean p (refillEvents b incoming)) :
    let p' := (run Provenance.step p (refillEvents b incoming)).step
      (.stored b'.bufPointer b'.current)
    TimeoutsEmpty rest ∧ Storing p' (q.put b'.current) ∧ p'.line.length = p.line.length + 1 ∧
      (b'.current ≠ LF → Buffered p' (b'.advance .taken)) ∧
      (b'.current = LF → Buffered p' (skipNuls (b'.advance .taken))) := by
  have hnext := refill_buffered hbuf hempty hclean
  obtain ⟨hconnection, hline⟩ := run_refillEvents p b incoming
  rw [hrefill] at hnext
  obtain ⟨hrest, b₀, hpos, hbuf₀, rfl⟩ := hnext
  obtain ⟨hown, hkeep, hskip⟩ := hbuf₀.takeOne hpos
  refine ⟨hrest, (hstoring.congr hconnection hline).stored hown _, ?_, hkeep, hskip⟩
  show List.length (_ ++ [_]) = p.line.length + 1
  rw [List.length_append, List.length_singleton, hline]

theorem readlineLoop_isolated (q : Cursor) (size len : ℕ) (b : ReadBuffer)
    (incoming : List (Recv readBufSize)) :
    ∀ p, Buffered p b → TimeoutsEmpty incoming → Storing p q → size = p.line.length →
      Meets Provenance.step Provenance.Clean p (readlineEvents len b incoming) →
      LineIsolated (run Provenance.step p (readlineEvents len b incoming))
        (readlineLoop true q size len b incoming) := by
  induction q, size, len, b, incoming using readlineLoop.induct true with
  | case1 q size len b incoming hgo hrefill =>
    intro p hbuf hempty _ _ hclean
    rw [readlineLoop, if_pos hgo, hrefill, readlineEvents, if_pos hgo.2, hrefill]
    exact ⟨hbuf, hempty, fun hs => by cases hs⟩
  | case2 q size len b incoming hgo rv b' rest hrefill =>
    intro p hbuf hempty _ _ hclean
    rw [readlineEvents, if_pos hgo.2, hrefill] at hclean ⊢
    have hnext := refill_buffered hbuf hempty hclean
    have hrv := refill_failed hrefill
    rw [hrefill] at hnext
    rw [readlineLoop, if_pos hgo, hrefill]
    exact ⟨hnext.1, hnext.2, fun hs => absurd (Option.some.inj hs) hrv⟩
  | case3 q size len b incoming hgo b' rest hrefill ih =>
    intro p hbuf hempty hstoring hsize hclean
    rw [readlineEvents, if_pos hgo.2, hrefill] at hclean ⊢
    simp only at hclean ⊢
    rw [meets_append] at hclean
    have hnext := refill_buffered hbuf hempty hclean.1
    obtain ⟨hconnection, hline⟩ := run_refillEvents p b incoming
    rw [hrefill] at hnext
    rw [readlineLoop, if_pos hgo, hrefill, run_append]
    simp only
    exact ih _ hnext.1 hnext.2 (hstoring.congr hconnection hline) (by rw [hline, hsize]) hclean.2
  | case4 q size len b incoming hgo b' rest hrefill c hc =>
    intro p hbuf hempty hstoring hsize hclean
    rw [readlineEvents, if_pos hgo.2, hrefill] at hclean ⊢
    simp only at hclean ⊢
    rw [if_pos hc] at hclean ⊢
    rw [meets_append] at hclean
    obtain ⟨hrest, hstored, hlength, -, hskip⟩ :=
      stored_isolated hbuf hempty hstoring hrefill hclean.1
    rw [readlineLoop, if_pos hgo, hrefill, run_append]
    simp only
    rw [if_pos hc, run_cons, run_nil, hsize, ← hlength]
    exact ⟨hskip hc, hrest, fun _ => ⟨_, hstored, rfl⟩⟩
  | case5 q size len b incoming hgo b' rest hrefill c hc ih =>
    intro p hbuf hempty hstoring hsize hclean
    rw [readlineEvents, if_pos hgo.2, hrefill] at hclean ⊢
    simp only at hclean ⊢
    rw [if_neg hc] at hclean ⊢
    rw [meets_append] at hclean
    obtain ⟨hrest, hstored, hlength, hkeep, -⟩ :=
      stored_isolated hbuf hempty hstoring hrefill hclean.1
    rw [readlineLoop, if_pos hgo, hrefill, run_append]
    simp only
    rw [if_neg hc, run_cons]
    exact ih _ (hkeep hc) hrest hstored (by rw [hlength, hsize]) hclean.2.2
  | case6 q size len b incoming hgo =>
    intro p hbuf hempty _ _ _
    have hzero : ¬ 0 < decSize len := fun h => hgo ⟨rfl, h⟩
    rw [readlineLoop, if_neg hgo, readlineEvents, if_neg hzero]
    exact ⟨hbuf, hempty, fun hs => by cases hs⟩

/-! ## The string in the caller's buffer -/

/-- A string that memory holds, but for some NULs. -/
theorem cstr_cells_prefix {s : Bytes} :
    ∀ {memory : ℕ → Byte} {len : ℕ}, s.length < len → memory s.length = 0 →
      (∀ i < s.length, memory i = s.getD i 0 ∨ memory i = 0) → cstr (cells memory len) <+: s := by
  induction s with
  | nil =>
    intro memory len hlen hend _
    obtain ⟨n, rfl⟩ : ∃ n, len = n + 1 := ⟨len - 1, by rw [List.length_nil] at hlen; omega⟩
    rw [cells_succ_left, show memory 0 = 0 from hend]
    exact List.nil_prefix
  | cons c s ih =>
    intro memory len hlen hend hmem
    rw [List.length_cons] at hlen hend
    obtain ⟨n, rfl⟩ : ∃ n, len = n + 1 := ⟨len - 1, by omega⟩
    rw [cells_succ_left]
    by_cases hzero : memory 0 = 0
    · rw [hzero]
      exact List.nil_prefix
    · have hfirst : memory 0 = c := (hmem 0 (Nat.succ_pos _)).resolve_right hzero
      have hrest : cstr (cells (fun i => memory (i + 1)) n) <+: s :=
        ih (by omega) hend fun i hi => hmem (i + 1) (Nat.succ_lt_succ hi)
      rw [hfirst, cstr, List.takeWhile_cons_of_pos (by simpa [← hfirst] using hzero)]
      exact (List.cons_prefix_cons).mpr ⟨rfl, hrest⟩

theorem terminateBuffer_pos (q : Cursor) (size : ℕ) : (terminateBuffer q size).pos = q.pos := by
  unfold terminateBuffer
  simp only
  split_ifs <;> rfl

theorem cstr_terminateBuffer {q : Cursor} {s : Bytes} (h : q.Wrote s) (size : ℕ) {len : ℕ}
    (hlen : s.length < len) : cstr (cells (terminateBuffer q size).memory len) <+: s := by
  have hpos := h.pos
  have hput : (q.poke q.pos 0).memory s.length = 0 := by
    rw [← hpos]
    exact Function.update_self _ _ _
  have hkeep : ∀ i < s.length, (q.poke q.pos 0).memory i = s.getD i 0 := by
    intro i hi
    rw [← h.memory i hi]
    exact Function.update_of_ne (by omega) _ _
  unfold terminateBuffer
  simp only
  split_ifs with hcr
  · have hold : ∀ i, i ≠ q.pos - 2 →
        ((q.poke q.pos 0).poke (q.pos - 2) 0).memory i = (q.poke q.pos 0).memory i :=
      fun i hi => Function.update_of_ne hi _ _
    have hself : ((q.poke q.pos 0).poke (q.pos - 2) 0).memory (q.pos - 2) = 0 :=
      Function.update_self _ _ _
    refine cstr_cells_prefix hlen ?_ fun i hi => ?_
    · by_cases hat : s.length = q.pos - 2
      · rw [hat]
        exact hself
      · exact (hold _ hat).trans hput
    · by_cases hat : i = q.pos - 2
      · rw [hat]
        exact Or.inr hself
      · exact Or.inl ((hold i hat).trans (hkeep i hi))
  · exact cstr_cells_prefix hlen hput fun i hi => Or.inl (hkeep i hi)

/-! ## Calls -/

/-- The state of the watch between two passes. -/
structure Tracked (p : Provenance) (s : WatchState) : Prop where
  buffered : Buffered p s.watch.buffer
  timeouts : ∀ entry, TimeoutsEmpty (s.incoming entry)

/-- A connection is got with an empty buffer. -/
theorem Tracked.connect {p : Provenance} {s : WatchState} (h : Tracked p s)
    (hclean : Meets Provenance.step Provenance.Clean p (connectEvents s)) :
    Tracked (run Provenance.step p (connectEvents s)) (connectWatch s) := by
  obtain ⟨hbuffer, hincoming⟩ := connectWatch_keeps s
  refine ⟨?_, by rw [hincoming]; exact h.timeouts⟩
  rw [hbuffer]
  unfold connectEvents at hclean ⊢
  split at hclean
  · exact buffered_of_cnt hclean.1 _
  · exact h.buffered

/-- `sock_readline` on a connection of the watch. -/
theorem Tracked.sockReadline {p : Provenance} {s : WatchState} (h : Tracked p s)
    (entry : ConnectionEntry) (buf : ℕ → Byte) {len : ℕ} (hlen : 1 ≤ len) (hmax : len < 2 ^ 64)
    (hclean : Meets Provenance.step Provenance.Clean (p.step .started)
      (readlineEvents len s.watch.buffer (s.incoming entry.connection))) :
    let r := sockReadline true buf len s.watch.buffer (s.incoming entry.connection)
    let p' := run Provenance.step (p.step .started)
      (readlineEvents len s.watch.buffer (s.incoming entry.connection))
    Tracked p' (s.put entry r.buffer r.incoming) ∧
      (r.rv = some .success → p'.LineOwned (cstr (cells r.bufptr.memory len))) := by
  have hstart : Storing (p.step .started) ⟨buf, 0, 0⟩ :=
    ⟨fun x hx => (by cases hx), ⟨rfl, fun i hi => absurd hi (Nat.not_lt_zero i), Nat.zero_le _⟩⟩
  have hline := readlineLoop_isolated ⟨buf, 0, 0⟩ 0 len s.watch.buffer
    (s.incoming entry.connection) (p.step .started) h.buffered (h.timeouts entry.connection) hstart
    rfl hclean
  have hbound := readlineLoop_bounded hmax _ 0 len s.watch.buffer
    (s.incoming entry.connection) hlen (copying_start buf len)
  rw [← MogileFs.sockReadline] at hline hbound
  intro r p'
  refine ⟨⟨hline.buffered, fun e => ?_⟩, fun hrv => ?_⟩
  · show TimeoutsEmpty (Function.update s.incoming entry.connection r.incoming e)
    by_cases he : e = entry.connection
    · rw [he, Function.update_self]
      exact hline.timeouts
    · rw [Function.update_of_ne he]
      exact h.timeouts e
  · obtain ⟨q, hstoring, hq⟩ := hline.line hrv
    have hstored := hbound.stored
    have hpos := hstoring.wrote.pos
    rw [hq, terminateBuffer_pos] at hstored
    refine ⟨?_, hstoring.own⟩
    rw [hq]
    exact cstr_terminateBuffer hstoring.wrote _ (by omega)

/-- What a call leaves, and what it returns. -/
structure CallIsolated (p : Provenance) (len : ℕ)
    (result : Option AprStatus × (ℕ → Byte) × WatchState) : Prop where
  tracked : Tracked p result.2.2
  line : result.1 = some .success → p.LineOwned (cstr (cells result.2.1 len))

theorem nextLine_isolated {len : ℕ} (hlen : 1 ≤ len) (hmax : len < 2 ^ 64) (passes : ℕ)
    (s : WatchState) (buf : ℕ → Byte) (p : Provenance) (h : Tracked p s)
    (hclean : Meets Provenance.step Provenance.Clean p (nextLineEvents passes s buf len)) :
    CallIsolated (run Provenance.step p (nextLineEvents passes s buf len)) len
      (getNextWatchLine true passes s buf len) := by
  induction passes generalizing s buf p with
  | zero => exact ⟨h, fun hs => by cases hs⟩
  | succ passes ih =>
    unfold nextLineEvents at hclean ⊢
    unfold getNextWatchLine
    simp only [Bool.not_true, Bool.false_eq_true, if_false] at hclean ⊢
    rw [meets_append] at hclean
    rw [run_append]
    obtain ⟨hconnect, hrest⟩ := hclean
    have htracked := h.connect hconnect
    generalize run Provenance.step p (connectEvents s) = p₁ at htracked hrest ⊢
    generalize connectWatch s = s₁ at htracked hrest ⊢
    cases hc : s₁.watch.connection with
    | none =>
      rw [hc] at hrest
      exact ih s₁ buf p₁ htracked hrest
    | some entry =>
      rw [hc] at hrest
      simp only [List.cons_append] at hrest ⊢
      obtain ⟨-, hrest⟩ := hrest
      rw [meets_append] at hrest
      obtain ⟨hread, hafter⟩ := hrest
      obtain ⟨hleft, hline⟩ := htracked.sockReadline entry buf hlen hmax hread
      rw [run_cons, run_append]
      generalize run Provenance.step (p₁.step .started)
        (readlineEvents len s₁.watch.buffer (s₁.incoming entry.connection)) = p₂
        at hleft hline hafter ⊢
      generalize sockReadline true buf len s₁.watch.buffer (s₁.incoming entry.connection) = r
        at hleft hline hafter ⊢
      cases hrv : r.rv with
      | none => exact ⟨⟨hleft.buffered, hleft.timeouts⟩, fun hs => by cases hs⟩
      | some rv =>
        rw [hrv] at hafter
        by_cases hsuccess : rv = .success
        · rw [hsuccess] at hrv ⊢
          exact ⟨⟨hleft.buffered, hleft.timeouts⟩, fun _ => hline hrv⟩
        · -- the connection is destroyed, and the loop goes on
          have hdestroyed : Tracked p₂ { s₁.put entry r.buffer r.incoming with
              watch := { s₁.watch with connection := none, buffer := r.buffer }
              w := mfsPoolDestroyConnection s₁.w entry } := ⟨hleft.buffered, hleft.timeouts⟩
          cases rv <;> first
            | exact absurd rfl hsuccess
            | exact ih _ _ p₂ hdestroyed hafter

/-- In a run of calls from a fresh watch whose steps are all clean, whatever the
    connections deliver, each line consists of bytes that the connection current at
    its return has delivered. -/
theorem watchCalls_isolated (w : World) (trackerIndex : ℕ) (behind : ℕ → Byte)
    (incoming : ℕ → List (Recv readBufSize)) (send : Stream' AprStatus)
    (htimeouts : ∀ entry, TimeoutsEmpty (incoming entry)) {len : ℕ} (hlen : 1 ≤ len)
    (hmax : len < 2 ^ 31) (passes n : ℕ) (buf : ℕ → Byte)
    (hclean : Meets Provenance.step Provenance.Clean .init
      ((watchCalls passes len n (freshWatch w trackerIndex behind incoming send) buf).flatMap
        (·.events))) :
    IsolatedFrom len .init
      (watchCalls passes len n (freshWatch w trackerIndex behind incoming send) buf) := by
  have hstart : Tracked .init (freshWatch w trackerIndex behind incoming send) :=
    ⟨buffered_of_cnt rfl _, htimeouts⟩
  generalize freshWatch w trackerIndex behind incoming send = s at hstart hclean ⊢
  generalize Provenance.init = p at hstart hclean ⊢
  induction n generalizing s p buf with
  | zero => trivial
  | succ n ih =>
    rw [watchCalls] at hclean ⊢
    simp only [List.flatMap_cons] at hclean ⊢
    rw [meets_append] at hclean
    have hcall := nextLine_isolated hlen (by omega) passes s buf p hstart hclean.1
    exact ⟨hcall.line, ih _ _ _ hcall.tracked hclean.2⟩

/-- A watch whose connections, each of them new, deliver these chunks. -/
def deliveringWatch (incoming : ℕ → List (Recv readBufSize)) : WatchState :=
  freshWatch (oneTrackerWorld [] .success []) 0 (fun _ => 0) incoming (Stream'.const .success)

/-- A line on each of two connections, the first of which ends behind it. -/
theorem watchCalls_isolated_two :
    let incoming : ℕ → List (Recv readBufSize) := fun entry =>
      if entry = 0 then [⟨.success, str "ab\r\n", by decide⟩, ⟨.eof, [], by decide⟩]
      else [⟨.success, str "cde\r\n", by decide⟩]
    let calls := watchCalls 2 100 2 (deliveringWatch incoming) fun _ => 0
    calls.map (fun c => (c.rv, cstr (cells c.memory 100))) =
        [(some .success, str "ab"), (some .success, str "cde")] ∧
      IsolatedFrom 100 .init calls := by
  intro incoming calls
  refine ⟨by decide +kernel, ?_⟩
  refine watchCalls_isolated (oneTrackerWorld [] .success []) 0 (fun _ => 0) incoming
    (Stream'.const .success) ?_ (by decide) (by decide) 2 2 (fun _ => 0) (by decide +kernel)
  intro entry r hr ht
  by_cases hentry : entry = 0
  · rw [show incoming entry = incoming 0 by rw [hentry]] at hr
    rcases List.mem_pair.mp hr with rfl | rfl
    · cases ht
    · cases ht
  · simp only [incoming, if_neg hentry] at hr
    rw [List.mem_singleton.mp hr] at ht
    cases ht

/-- A line too long for 4 positions: the connection is given up, and the next line
    begins with what it has left. -/
theorem leftover_in_line :
    let calls := watchCalls 2 4 1 (deliveringWatch fun entry =>
      if entry = 0 then [⟨.success, str "abcd\n", by decide⟩] else []) fun _ => 0
    let p := run Provenance.step .init (calls.flatMap (·.events))
    calls.map (fun c => (c.rv, cstr (cells c.memory 4))) = [(some .success, str "d\n")] ∧
      (p.connection, p.line) = (2, [(ch 'd', some 1), (LF, some 1)]) ∧
      ¬ IsolatedFrom 4 .init calls := by
  intro calls p
  refine ⟨by decide +kernel, by decide +kernel, fun h => ?_⟩
  have hown := (h.1 (by decide +kernel)).2
  revert hown
  decide +kernel

end MogileFs
