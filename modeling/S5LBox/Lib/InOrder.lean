import Mathlib.Data.BitVec

/-!
# A stream cut into numbered segments

The octets of a stream are numbered by a counter that wraps. An opening segment says which number
comes before that of the first octet, and every other segment carries some octets and the number
of the first of them. A receiver that keeps no segment for later takes a segment whose first octet
is the one that comes next, and passes over all others.

## Main definitions

* `Stream`: the number of the first octet, and the octets so far.
* `reassemble`: the stream that a list of segments brings to such a receiver.

## Main results

* `reassemble_snoc`: what one more segment does.
-/

namespace InOrder

variable {w : Nat} {α : Type}

/-- A segment of a stream. -/
structure Segment (w : Nat) (α : Type) where
  seq : BitVec w
  opens : Bool
  data : List α

/-- A stream, as far as it is known. -/
@[ext]
structure Stream (w : Nat) (α : Type) where
  first : BitVec w
  octets : List α
  deriving DecidableEq

/-- The number of the octet that comes next. -/
def Stream.next (s : Stream w α) : BitVec w := s.first + BitVec.ofNat w s.octets.length

/-- A stream that goes on with more octets. -/
def Stream.extend (s : Stream w α) (data : List α) : Stream w α :=
  { s with octets := s.octets ++ data }

@[simp]
theorem Stream.extend_nil (s : Stream w α) : s.extend [] = s := by
  simp [Stream.extend]

theorem Stream.next_extend (s : Stream w α) (data : List α) :
    (s.extend data).next = s.next + BitVec.ofNat w data.length := by
  simp only [Stream.next, Stream.extend, List.length_append, BitVec.ofNat_add, BitVec.add_assoc]

/-- What a segment does to the receiver. -/
def take (r : Option (Stream w α)) (g : Segment w α) : Option (Stream w α) :=
  if g.opens then some ⟨g.seq + 1, []⟩
  else r.map fun s => if g.seq = s.next then s.extend g.data else s

/-- The stream that reaches the receiver. -/
def reassemble (gs : List (Segment w α)) : Option (Stream w α) := gs.foldl take none

variable {gs : List (Segment w α)} {g : Segment w α} {s : Stream w α}

@[simp]
theorem reassemble_nil : reassemble ([] : List (Segment w α)) = none := rfl

theorem reassemble_snoc : reassemble (gs ++ [g]) = take (reassemble gs) g := by
  rw [reassemble, List.foldl_append]
  rfl

end InOrder
