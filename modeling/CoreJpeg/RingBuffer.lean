import Mathlib.Algebra.Group.Nat.Defs
import Mathlib.Data.List.Basic

namespace CoreJpeg

/-!
# Queues kept in circular memories

A circular memory of `2 ^ width` cells with a read pointer and a count keeps a
queue: the cells from the read pointer on, wrapping at the end of the memory.
Reading advances the pointer past the front; writing behind the last cell adds
to the back as long as the memory is not full.
-/

namespace RingBuffer

variable {Cell : Type} {width : Nat}

/-- The queue a circular memory keeps. -/
def contents
    (memory : BitVec width → Cell)
    (readPointer : BitVec width)
    (count : Nat) : List Cell :=
  (List.range count).map fun offset =>
    memory (readPointer + BitVec.ofNat width offset)

@[simp] theorem length_contents
    (memory : BitVec width → Cell)
    (readPointer : BitVec width)
    (count : Nat) :
    (contents memory readPointer count).length = count := by
  simp [contents]

@[simp] theorem contents_zero
    (memory : BitVec width → Cell)
    (readPointer : BitVec width) :
    contents memory readPointer 0 = [] := rfl

/-- The queue's entries are the cells from the read pointer on. -/
@[simp] theorem getElem_contents
    (memory : BitVec width → Cell)
    (readPointer : BitVec width)
    (count index : Nat)
    (inQueue : index < (contents memory readPointer count).length) :
    (contents memory readPointer count)[index] =
      memory (readPointer + BitVec.ofNat width index) := by
  simp [contents]

/-- A queue that is not empty starts with the cell at the read pointer. -/
theorem contents_head
    {memory : BitVec width → Cell}
    {readPointer : BitVec width}
    {count : Nat}
    (nonempty : 0 < count) :
    ∃ rest,
      contents memory readPointer count = memory readPointer :: rest := by
  cases count with
  | zero => exact absurd nonempty (Nat.lt_irrefl 0)
  | succ left =>
      rw [contents, List.range_succ_eq_map, List.map_cons, BitVec.add_zero]
      exact ⟨_, rfl⟩

/-- Advancing the read pointer drops the front of the queue. -/
theorem contents_advance
    (memory : BitVec width → Cell)
    (readPointer : BitVec width)
    (count popped : Nat) :
    contents memory (readPointer + BitVec.ofNat width popped)
        (count - popped) =
      (contents memory readPointer count).drop popped := by
  apply List.ext_getElem
  · simp
  · intro index left right
    rw [getElem_contents, List.getElem_drop, getElem_contents,
      BitVec.add_assoc, BitVec.ofNat_add]

/-- Offsets below the size of the memory reach different cells. -/
theorem offset_injective
    {readPointer : BitVec width}
    {first second : Nat}
    (firstSmall : first < 2 ^ width)
    (secondSmall : second < 2 ^ width)
    (same :
      readPointer + BitVec.ofNat width first =
        readPointer + BitVec.ofNat width second) :
    first = second := by
  have offsets :=
    congrArg BitVec.toNat ((BitVec.add_right_inj readPointer).mp same)
  rwa [BitVec.toNat_ofNat, BitVec.toNat_ofNat, Nat.mod_eq_of_lt firstSmall,
    Nat.mod_eq_of_lt secondSmall] at offsets

/--
A memory that keeps the queue's cells and holds further items behind them keeps
the queue extended by these items.
-/
theorem contents_append
    {before after : BitVec width → Cell}
    {readPointer : BitVec width}
    {count : Nat}
    {items : List Cell}
    (kept :
      ∀ offset < count,
        after (readPointer + BitVec.ofNat width offset) =
          before (readPointer + BitVec.ofNat width offset))
    (written :
      ∀ (index : Nat) (inItems : index < items.length),
        after (readPointer + BitVec.ofNat width (count + index)) =
          items[index]) :
    contents after readPointer (count + items.length) =
      contents before readPointer count ++ items := by
  apply List.ext_getElem
  · simp
  · intro index left right
    rw [getElem_contents]
    rcases Nat.lt_or_ge index count with old | new
    · rw [List.getElem_append_left (by simpa using old), getElem_contents]
      exact kept index old
    · have inItems : index - count < items.length := by
        simp only [length_contents] at left
        omega
      have here := written (index - count) inItems
      rw [Nat.add_sub_cancel' new] at here
      rw [List.getElem_append_right (by simpa using new)]
      simpa using here

/-- Writing the cell behind the queue adds one item to its back. -/
theorem contents_push
    {memory : BitVec width → Cell}
    {readPointer : BitVec width}
    {count : Nat}
    (item : Cell)
    (notFull : count < 2 ^ width) :
    contents
        (fun address =>
          if address = readPointer + BitVec.ofNat width count then item
          else memory address)
        readPointer (count + 1) =
      contents memory readPointer count ++ [item] := by
  have one : count + 1 = count + [item].length := rfl
  rw [one]
  apply contents_append
  · intro offset inQueue
    apply if_neg
    intro same
    have sameOffset := offset_injective (by omega) notFull same
    omega
  · intro index inItems
    have first : index = 0 := by
      simpa using inItems
    subst first
    simp

/-! ## One clock cycle -/

/-- The count after one cycle in which an item may be pushed and popped. -/
def recount (count : BitVec (width + 1)) (pushed popped : Bool) :
    BitVec (width + 1) :=
  match pushed, popped with
  | true, false => count + 1
  | false, true => count - 1
  | _, _ => count

/-- The memory is full when the count has reached its size. -/
theorem count_full_iff {count : BitVec (width + 1)} :
    (count == BitVec.ofNat _ (2 ^ width)) = true ↔
      count.toNat = 2 ^ width := by
  have small : 2 ^ width < 2 ^ (width + 1) :=
    Nat.pow_lt_pow_right (by decide) (Nat.lt_succ_self _)
  rw [beq_iff_eq, ← BitVec.toNat_inj, BitVec.toNat_ofNat,
    Nat.mod_eq_of_lt small]

/-- The memory is not empty when the count is not zero. -/
theorem count_empty_eq_false {count : BitVec (width + 1)} :
    (count == 0) = false ↔ 0 < count.toNat := by
  have zero : count = 0 ↔ count.toNat = 0 := by
    rw [← BitVec.toNat_inj]
    simp
  rw [beq_eq_false_iff_ne, ne_eq, zero, Nat.pos_iff_ne_zero]

/-- The write pointer stands behind the queue, which fits the memory. -/
structure Consistent
    (writePointer readPointer : BitVec width)
    (count : BitVec (width + 1)) : Prop where
  fits : count.toNat ≤ 2 ^ width
  behind :
    writePointer = readPointer + BitVec.ofNat width count.toNat

/-- An empty queue is consistent. -/
theorem consistent_empty :
    Consistent (0 : BitVec width) 0 0 where
  fits := Nat.zero_le _
  behind := by simp

section Cycle

variable {writePointer readPointer : BitVec width}
variable {count : BitVec (width + 1)}
variable {pushed : Option Cell} {popped : Bool}

/-- The count keeps track of the items pushed and popped. -/
theorem toNat_recount
    (room : pushed.isSome = true → count.toNat < 2 ^ width)
    (present : popped = true → 0 < count.toNat) :
    (recount count pushed.isSome popped).toNat =
      count.toNat - popped.toNat + pushed.toList.length := by
  have double : 2 ^ (width + 1) = 2 * 2 ^ width := Nat.pow_succ'
  have positive : 0 < 2 ^ width := Nat.two_pow_pos width
  have one : (1 : BitVec (width + 1)).toNat = 1 := by
    simp [BitVec.toNat_ofNat]
  rcases pushed with _ | item <;> cases popped
  · simp [recount]
  · have nonempty := present rfl
    have le : (1 : BitVec (width + 1)) ≤ count := by
      rw [BitVec.le_def, one]
      exact nonempty
    simpa [recount] using BitVec.toNat_sub_of_le le
  · have space := room rfl
    have small : count.toNat + 1 < 2 ^ (width + 1) := by omega
    simp only [recount, Option.isSome_some, BitVec.toNat_add, one,
      Nat.mod_eq_of_lt small]
    rfl
  · have nonempty := present rfl
    simp only [recount, Option.isSome_some, Bool.toNat_true,
      Option.toList_some, List.length_singleton,
      Nat.sub_add_cancel nonempty]

/-- One cycle keeps the pointers consistent with the count. -/
theorem Consistent.next
    (consistent : Consistent writePointer readPointer count)
    (room : pushed.isSome = true → count.toNat < 2 ^ width)
    (present : popped = true → 0 < count.toNat) :
    Consistent
      (if pushed.isSome then writePointer + 1 else writePointer)
      (if popped then readPointer + 1 else readPointer)
      (recount count pushed.isSome popped) := by
  have size := toNat_recount room present
  have fits := consistent.fits
  refine ⟨?_, ?_⟩
  · rw [size]
    rcases pushed with _ | item
    · simp only [Option.toList_none, List.length_nil]
      exact Nat.le_trans (Nat.sub_le _ _) fits
    · have space := room rfl
      simp only [Option.toList_some, List.length_singleton]
      exact Nat.le_trans
        (Nat.add_le_add_right (Nat.sub_le _ _) 1) space
  · have moved (pointer : BitVec width) (moves : Bool) :
        (if moves = true then pointer + 1 else pointer) =
          pointer + BitVec.ofNat width moves.toNat := by
      cases moves <;> simp
    have pushes : pushed.toList.length = pushed.isSome.toNat := by
      cases pushed <;> rfl
    rw [moved, moved, size, consistent.behind, BitVec.add_assoc,
      BitVec.add_assoc, ← BitVec.ofNat_add, ← BitVec.ofNat_add, pushes]
    congr 2
    cases popped with
    | false => simp
    | true =>
        have nonempty := present rfl
        simp only [Bool.toNat_true]
        omega

/-- One cycle drops a popped item from the front and adds a pushed one. -/
theorem contents_next
    (memory : BitVec width → Cell)
    (consistent : Consistent writePointer readPointer count)
    (room : pushed.isSome = true → count.toNat < 2 ^ width)
    (present : popped = true → 0 < count.toNat) :
    contents
        (fun address =>
          if address = writePointer then pushed.getD (memory address)
          else memory address)
        (if popped then readPointer + 1 else readPointer)
        (recount count pushed.isSome popped).toNat =
      (contents memory readPointer count.toNat).drop popped.toNat ++
        pushed.toList := by
  have moved :
      (if popped = true then readPointer + 1 else readPointer) =
        readPointer + BitVec.ofNat width popped.toNat := by
    cases popped <;> simp
  rw [moved, toNat_recount room present]
  rcases pushed with _ | item
  · have same :
        (fun address =>
          if address = writePointer then
            (none : Option Cell).getD (memory address)
          else memory address) = memory := by
      funext address
      simp
    rw [same, Option.toList_none, List.append_nil, List.length_nil,
      Nat.add_zero, contents_advance]
  · have space := room rfl
    have behind :
        writePointer =
          readPointer + BitVec.ofNat width popped.toNat +
            BitVec.ofNat width (count.toNat - popped.toNat) := by
      have le : popped.toNat ≤ count.toNat := by
        cases popped with
        | false => exact Nat.zero_le _
        | true => exact present rfl
      rw [consistent.behind, BitVec.add_assoc, ← BitVec.ofNat_add,
        Nat.add_sub_cancel' le]
    rw [behind, Option.toList_some, List.length_singleton]
    rw [show (fun address =>
        if address = readPointer + BitVec.ofNat width popped.toNat +
            BitVec.ofNat width (count.toNat - popped.toNat) then
          (some item).getD (memory address)
        else memory address) = (fun address =>
        if address = readPointer + BitVec.ofNat width popped.toNat +
            BitVec.ofNat width (count.toNat - popped.toNat) then item
        else memory address) from rfl]
    rw [contents_push item (Nat.lt_of_le_of_lt (Nat.sub_le _ _) space),
      contents_advance]

end Cycle

end RingBuffer

end CoreJpeg
