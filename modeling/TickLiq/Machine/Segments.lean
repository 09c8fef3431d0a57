import Mathlib.Algebra.BigOperators.Group.List.Basic

/-!
# Amounts that start anew

A segment is worth an amount at every point of a stream. Some points close the segment
that is open and `restart` the next one there. What the stream is worth is the sum of
the closed segments, each at the point that closed it, and the open one at the last point.
-/
namespace Machine

variable {σ π K : Type*} (restart : σ → π → σ)

/-- The segments closed along the stream, with the points that closed them. -/
def closedSegments : σ → List (π × Bool) → List (σ × π)
  | _, [] => []
  | segment, (point, true) :: stream =>
    (segment, point) :: closedSegments (restart segment point) stream
  | segment, (_, false) :: stream => closedSegments segment stream

/-- The segment that is open after the stream. -/
def openSegment : σ → List (π × Bool) → σ
  | segment, [] => segment
  | segment, (point, true) :: stream => openSegment (restart segment point) stream
  | segment, (_, false) :: stream => openSegment segment stream

theorem closedSegments_append (segment : σ) (xs ys : List (π × Bool)) :
    closedSegments restart segment (xs ++ ys) = closedSegments restart segment xs ++
      closedSegments restart (openSegment restart segment xs) ys := by
  induction xs generalizing segment with
  | nil => rfl
  | cons x xs ih =>
    obtain ⟨point, closes⟩ := x
    cases closes with
    | false => exact ih segment
    | true =>
      rw [List.cons_append, closedSegments, ih]
      rfl

theorem openSegment_append (segment : σ) (xs ys : List (π × Bool)) :
    openSegment restart segment (xs ++ ys) =
      openSegment restart (openSegment restart segment xs) ys := by
  induction xs generalizing segment with
  | nil => rfl
  | cons x xs ih =>
    obtain ⟨point, closes⟩ := x
    cases closes with
    | false => exact ih segment
    | true => exact ih (restart segment point)

variable [AddMonoid K] (amount : σ → π → K)

def closedAmount (segment : σ) (stream : List (π × Bool)) : K :=
  ((closedSegments restart segment stream).map fun closed => amount closed.1 closed.2).sum

/-- Nothing where the last point has just closed a segment. -/
def openAmount (segment : σ) (stream : List (π × Bool)) : K :=
  match stream.getLast? with
  | some (point, false) => amount (openSegment restart segment stream) point
  | _ => 0

def totalAmount (segment : σ) (stream : List (π × Bool)) : K :=
  closedAmount restart amount segment stream + openAmount restart amount segment stream

variable {restart amount} {segment : σ} {stream : List (π × Bool)} {point : π}

theorem totalAmount_nil : totalAmount restart amount segment [] = 0 := add_zero 0

theorem closedAmount_true : closedAmount restart amount segment (stream ++ [(point, true)]) =
    closedAmount restart amount segment stream +
      amount (openSegment restart segment stream) point := by
  simp only [closedAmount, closedSegments_append, closedSegments, List.map_append, List.sum_append,
    List.map_cons, List.map_nil, List.sum_cons, List.sum_nil, add_zero]

theorem closedAmount_false : closedAmount restart amount segment (stream ++ [(point, false)]) =
    closedAmount restart amount segment stream := by
  simp only [closedAmount, closedSegments_append, closedSegments, List.append_nil]

theorem openSegment_true : openSegment restart segment (stream ++ [(point, true)]) =
    restart (openSegment restart segment stream) point := by
  rw [openSegment_append]
  rfl

theorem openSegment_false : openSegment restart segment (stream ++ [(point, false)]) =
    openSegment restart segment stream := by
  rw [openSegment_append]
  rfl

theorem openAmount_true : openAmount restart amount segment (stream ++ [(point, true)]) = 0 := by
  simp only [openAmount, List.getLast?_concat]

theorem openAmount_false : openAmount restart amount segment (stream ++ [(point, false)]) =
    amount (openSegment restart segment stream) point := by
  simp only [openAmount, List.getLast?_concat, openSegment_false]

/-- Closing a segment moves its amount and creates none. -/
theorem totalAmount_concat {closes : Bool} :
    totalAmount restart amount segment (stream ++ [(point, closes)]) =
      closedAmount restart amount segment stream +
        amount (openSegment restart segment stream) point := by
  cases closes with
  | false => rw [totalAmount, closedAmount_false, openAmount_false]
  | true => rw [totalAmount, closedAmount_true, openAmount_true, add_zero]

end Machine
