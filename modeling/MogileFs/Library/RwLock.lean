import Mathlib

/-!
# A lock for many readers or one writer

The lock knows who holds it. `HeldAs lock mode` says that the threads hold it as `mode` has it,
each at most once.

Results:
* `HeldAs.rdlock`, `HeldAs.wrlock`, `HeldAs.unlock_read`, `HeldAs.unlock_write`: what the
  operations do to the modes.
* `HeldAs.exclusive`: a writer is alone.
-/

namespace RwLock

/-- The holders; nobody reads while somebody writes. -/
structure Lock (T : Type*) where
  readers : List T
  writer : Option T
  exclusive : writer.isSome → readers = []

variable {T : Type*}

/-- A lock that nobody holds. -/
def free : Lock T := ⟨[], none, fun _ => rfl⟩

/-- Locking for reading; `none` while the caller has to wait. -/
def rdlock (lock : Lock T) (t : T) : Option (Lock T) :=
  if h : lock.writer = none then some ⟨t :: lock.readers, none, by simp⟩ else none

/-- Locking for writing; `none` while the caller has to wait. -/
def wrlock (lock : Lock T) (t : T) : Option (Lock T) :=
  if lock.writer = none ∧ lock.readers = [] then some ⟨[], some t, fun _ => rfl⟩ else none

variable [DecidableEq T]

/-- Giving up one's hold. -/
def unlock (lock : Lock T) (t : T) : Lock T :=
  if lock.writer = some t then free
  else ⟨lock.readers.erase t, lock.writer, fun h => by rw [lock.exclusive h]; rfl⟩

/-- How a thread holds the lock. -/
inductive Mode
  | free
  | read
  | write
deriving DecidableEq

/-- The threads hold the lock as `mode` says. -/
structure HeldAs (lock : Lock T) (mode : T → Mode) : Prop where
  readers : ∀ t, lock.readers.count t = if mode t = .read then 1 else 0
  writer : ∀ t, lock.writer = some t ↔ mode t = .write

variable {lock lock' : Lock T} {mode : T → Mode} {t : T}

theorem heldAs_free : HeldAs (free : Lock T) fun _ => .free :=
  ⟨fun _ => rfl, fun _ => by simp [free]⟩

/-- Nobody else holds the lock of a writer. -/
theorem HeldAs.exclusive (h : HeldAs lock mode) (ht : mode t = .write) {u : T} (hu : u ≠ t) :
    mode u = .free := by
  have hwriter := (h.writer t).mpr ht
  have hreaders := lock.exclusive (by rw [hwriter]; rfl)
  cases hmode : mode u with
  | free => rfl
  | read =>
    have hcount := h.readers u
    rw [hreaders, hmode] at hcount
    cases hcount
  | write =>
    have hu' := (h.writer u).mpr hmode
    rw [hwriter] at hu'
    exact absurd (Option.some.inj hu').symm hu

theorem HeldAs.rdlock (h : HeldAs lock mode) (ht : mode t = .free)
    (hlock : rdlock lock t = some lock') : HeldAs lock' (Function.update mode t .read) := by
  unfold RwLock.rdlock at hlock
  split_ifs at hlock with hwriter
  obtain rfl := Option.some.inj hlock
  refine ⟨fun u => ?_, fun u => ?_⟩
  · by_cases hu : u = t
    · subst hu
      have hcount := h.readers u
      rw [ht] at hcount
      simpa using hcount
    · rw [Function.update_of_ne hu, List.count_cons_of_ne (Ne.symm hu)]
      exact h.readers u
  · have hnone := h.writer u
    rw [hwriter] at hnone
    by_cases hu : u = t
    · subst hu
      simp
    · rw [Function.update_of_ne hu]
      exact hnone

theorem HeldAs.wrlock (h : HeldAs lock mode) (hlock : wrlock lock t = some lock') :
    HeldAs lock' (Function.update mode t .write) := by
  unfold RwLock.wrlock at hlock
  split_ifs at hlock with hfree
  obtain rfl := Option.some.inj hlock
  obtain ⟨hwriter, hreaders⟩ := hfree
  refine ⟨fun u => ?_, fun u => ?_⟩
  · by_cases hu : u = t
    · subst hu
      simp
    · have hcount := h.readers u
      rw [hreaders] at hcount
      rw [Function.update_of_ne hu]
      exact hcount
  · by_cases hu : u = t
    · subst hu
      simp
    · have hnone := h.writer u
      rw [hwriter] at hnone
      rw [Function.update_of_ne hu]
      exact iff_of_false (fun heq => hu (Option.some.inj heq).symm) fun hw => by
        cases hnone.mpr hw

theorem HeldAs.unlock_read (h : HeldAs lock mode) (ht : mode t = .read) :
    HeldAs (unlock lock t) (Function.update mode t .free) := by
  have hnot : ¬lock.writer = some t := fun hw => by
    rw [h.writer, ht] at hw
    cases hw
  unfold unlock
  rw [if_neg hnot]
  refine ⟨fun u => ?_, fun u => ?_⟩
  · have hcount := h.readers u
    by_cases hu : u = t
    · subst hu
      rw [ht, if_pos rfl] at hcount
      rw [List.count_erase_self, hcount, Function.update_self, if_neg (by decide)]
    · rw [List.count_erase_of_ne hu, Function.update_of_ne hu]
      exact hcount
  · by_cases hu : u = t
    · subst hu
      rw [Function.update_self]
      exact iff_of_false hnot (by decide)
    · rw [Function.update_of_ne hu]
      exact h.writer u

theorem HeldAs.unlock_write (h : HeldAs lock mode) (ht : mode t = .write) :
    HeldAs (unlock lock t) (Function.update mode t .free) := by
  unfold unlock
  rw [if_pos ((h.writer t).mpr ht)]
  have hall : Function.update mode t .free = fun _ => .free := by
    funext u
    by_cases hu : u = t
    · rw [hu, Function.update_self]
    · rw [Function.update_of_ne hu, h.exclusive ht hu]
  rw [hall]
  exact heldAs_free

end RwLock
