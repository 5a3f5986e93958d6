import Mathlib.Data.List.Basic

namespace CoreJpeg

/-!
# Framed streams

A framed stream is a list of beats: each beat carries some cells, and the last
beat of a frame is marked.  How the cells are spread over the beats does not
matter to the receiver of frames; this module forgets it and says how a beat
may be cut in two.
-/

namespace Framing

variable {Cell : Type}

/-- One transfer of a framed stream. -/
structure Beat (Cell : Type) where
  cells : List Cell
  last : Bool
  deriving Repr, DecidableEq

/-- The frames that a stream closed, and the cells behind the last of them. -/
structure Frames (Cell : Type) where
  closed : List (List Cell)
  current : List Cell
  deriving Repr, DecidableEq

/-- The frames after one further beat. -/
def Frames.add (frames : Frames Cell) (beat : Beat Cell) : Frames Cell :=
  if beat.last then ⟨frames.closed ++ [frames.current ++ beat.cells], []⟩
  else ⟨frames.closed, frames.current ++ beat.cells⟩

/-- The frames of a stream. -/
def framesOf (beats : List (Beat Cell)) : Frames Cell :=
  beats.foldl Frames.add ⟨[], []⟩

/-- The cells of a stream. -/
def cellsOf (beats : List (Beat Cell)) : List Cell :=
  beats.flatMap Beat.cells

/-- All cells of some frames, in their order. -/
def Frames.cells (frames : Frames Cell) : List Cell :=
  frames.closed.flatten ++ frames.current

@[simp] theorem framesOf_nil :
    framesOf ([] : List (Beat Cell)) = ⟨[], []⟩ := rfl

@[simp] theorem cellsOf_append (first second : List (Beat Cell)) :
    cellsOf (first ++ second) = cellsOf first ++ cellsOf second :=
  List.flatMap_append

@[simp] theorem cellsOf_singleton (beat : Beat Cell) :
    cellsOf [beat] = beat.cells := by
  simp [cellsOf]

/-- A beat without cells and mark changes nothing. -/
@[simp] theorem Frames.add_empty (frames : Frames Cell) :
    frames.add ⟨[], false⟩ = frames := by
  simp [Frames.add]

/-- A beat may be cut in two; the mark stays at the second part. -/
theorem Frames.add_add
    (frames : Frames Cell)
    (first second : List Cell)
    (last : Bool) :
    (frames.add ⟨first, false⟩).add ⟨second, last⟩ =
      frames.add ⟨first ++ second, last⟩ := by
  cases last <;> simp [Frames.add]

theorem Frames.cells_add
    (frames : Frames Cell)
    (beat : Beat Cell) :
    (frames.add beat).cells = frames.cells ++ beat.cells := by
  unfold Frames.add
  split <;> simp [Frames.cells]

/-- Grouping a stream into frames keeps its cells and their order. -/
theorem cells_framesOf (beats : List (Beat Cell)) :
    (framesOf beats).cells = cellsOf beats := by
  have grouped (frames : Frames Cell) :
      (beats.foldl Frames.add frames).cells =
        frames.cells ++ cellsOf beats := by
    induction beats generalizing frames with
    | nil =>
        simp [cellsOf]
    | cons beat rest inductionHypothesis =>
        rw [List.foldl_cons, inductionHypothesis, Frames.cells_add,
          List.append_assoc]
        rfl
  exact grouped ⟨[], []⟩

/-! ## The first frame -/

/-- The beats of the first frame, all beats if no frame ends. -/
def firstFrame : List (Beat Cell) → List (Beat Cell)
  | [] => []
  | beat :: rest =>
      if beat.last then [beat] else beat :: firstFrame rest

theorem firstFrame_leads (beats : List (Beat Cell)) :
    firstFrame beats <+: beats := by
  induction beats with
  | nil =>
      exact List.prefix_rfl
  | cons beat rest inductionHypothesis =>
      unfold firstFrame
      split
      · exact ⟨rest, rfl⟩
      · exact (List.prefix_cons_inj beat).mpr inductionHypothesis

/-- Without a mark all beats belong to the first frame. -/
theorem firstFrame_unmarked
    {beats : List (Beat Cell)}
    (unmarked : beats.any Beat.last = false) :
    firstFrame beats = beats := by
  induction beats with
  | nil =>
      rfl
  | cons beat rest inductionHypothesis =>
      rw [List.any_cons, Bool.or_eq_false_iff] at unmarked
      simp [firstFrame, unmarked.1, inductionHypothesis unmarked.2]

/-- The first frame has as many beats as there are marks up to the first set one. -/
theorem length_firstFrame
    {beats : List (Beat Cell)}
    {marks : List Bool}
    (marked : beats.map Beat.last <+: marks) :
    (firstFrame beats).length ≤ marks.findIdx id + 1 ∧
      (beats.any Beat.last = true →
        (firstFrame beats).length = marks.findIdx id + 1) := by
  induction beats generalizing marks with
  | nil =>
      simp [firstFrame]
  | cons beat rest inductionHypothesis =>
      obtain ⟨more, rfl⟩ := marked
      cases isLast : beat.last with
      | true =>
          simp [firstFrame, isLast, List.findIdx_cons]
      | false =>
          have later := inductionHypothesis (List.prefix_append _ more)
          simpa [firstFrame, isLast, List.findIdx_cons] using later

/-- The first closed frame has the cells of the first frame's beats. -/
theorem head_closed (beats : List (Beat Cell)) :
    (framesOf beats).closed.head? =
      if beats.any Beat.last then some (cellsOf (firstFrame beats))
      else none := by
  have grouped (frames : Frames Cell) :
      (beats.foldl Frames.add frames).closed.head? =
        frames.closed.head?.or
          (if beats.any Beat.last then
            some (frames.current ++ cellsOf (firstFrame beats))
          else none) := by
    induction beats generalizing frames with
    | nil =>
        simp
    | cons beat rest inductionHypothesis =>
        rw [List.foldl_cons, inductionHypothesis]
        cases isLast : beat.last <;>
          simp [Frames.add, firstFrame, cellsOf, isLast]
  exact grouped ⟨[], []⟩

/--
Of two streams that differ by a pending beat, the coarse one stays within the
first frame of the fine one or cuts it off at a beat of its own.
-/
theorem firstFrame_of_add
    {coarse fine : List (Beat Cell)}
    {pending : Beat Cell}
    (same : framesOf fine = (framesOf coarse).add pending) :
    (cellsOf coarse).length ≤ (cellsOf (firstFrame fine)).length ∨
      (fine.any Beat.last = true ∧
        cellsOf (firstFrame coarse) = cellsOf (firstFrame fine)) := by
  have fineHead := head_closed fine
  have coarseHead := head_closed coarse
  have coarseCells := cells_framesOf coarse
  cases fineMarked : fine.any Beat.last with
  | false =>
      left
      have cells := congrArg Frames.cells same
      rw [cells_framesOf, Frames.cells_add, coarseCells] at cells
      rw [firstFrame_unmarked fineMarked, cells, List.length_append]
      exact Nat.le_add_right _ _
  | true =>
      rw [same, fineMarked, if_pos rfl, Frames.add] at fineHead
      cases coarseMarked : coarse.any Beat.last with
      | true =>
          right
          rw [coarseMarked, if_pos rfl] at coarseHead
          refine ⟨rfl, ?_⟩
          split at fineHead
          · rw [List.head?_append, coarseHead, Option.some_or] at fineHead
            exact Option.some.inj fineHead
          · rw [coarseHead] at fineHead
            exact Option.some.inj fineHead
      | false =>
          left
          rw [coarseMarked, if_neg Bool.false_ne_true,
            List.head?_eq_none_iff] at coarseHead
          rw [Frames.cells, coarseHead, List.flatten_nil,
            List.nil_append] at coarseCells
          rw [coarseHead, coarseCells] at fineHead
          split at fineHead
          · rw [← Option.some.inj fineHead, List.length_append]
            exact Nat.le_add_right _ _
          · cases fineHead

end Framing

end CoreJpeg
