import Mathlib.Data.List.Perm.Basic
import Mathlib.Data.List.Count

namespace CoreJpeg

/-!
# Holders of a shared pool

A list of holders takes resources out of a free list and puts them back, and
queues list the indices of the holders that wait for something.  Both kinds of
bookkeeping change one holder at a time.  This module says what such a change
must balance so that no resource is lost or held twice, and so that a queue
keeps listing exactly the holders it is meant for, each once.
-/

namespace Holders

variable {Holder Resource : Type}

/-- Everything the holders hold. -/
def held
    (resource : Holder → Option Resource)
    (holders : List Holder) : List Resource :=
  holders.filterMap resource

/-- The free resources and the held ones are all there are, each once. -/
def Conserved
    (resource : Holder → Option Resource)
    (total free : List Resource)
    (holders : List Holder) : Prop :=
  (free ++ held resource holders).Perm total

/-- A queue lists the indices of the selected holders, each once. -/
def Lists
    (selected : Holder → Bool)
    (queue : List Nat)
    (holders : List Holder) : Prop :=
  ∀ index, queue.count index = (holders[index]?.any selected).toNat

/-- An index, if a condition holds. -/
def only (condition : Bool) (index : Nat) : List Nat :=
  if condition then [index] else []

section Exchange

variable {resource : Holder → Option Resource}
variable {selected : Holder → Bool}
variable {total free free' : List Resource}
variable {queue queue' : List Nat}
variable {holders : List Holder}
variable {index : Nat}
variable {old new : Holder}

@[simp] theorem only_true (index : Nat) : only true index = [index] := rfl

@[simp] theorem only_false (index : Nat) : only false index = [] := rfl

@[simp] theorem count_only (condition : Bool) (index other : Nat) :
    (only condition index).count other =
      if index = other then condition.toNat else 0 := by
  cases condition <;> by_cases same : index = other <;> simp [same]

/-- Replacing one holder exchanges what it held for what it holds now. -/
theorem held_set
    (present : holders[index]? = some old) :
    ((resource old).toList ++ held resource (holders.set index new)).Perm
      ((resource new).toList ++ held resource holders) := by
  induction holders generalizing index with
  | nil =>
      simp at present
  | cons head rest inductionHypothesis =>
      cases index with
      | zero =>
          simp only [List.getElem?_cons_zero, Option.some.injEq] at present
          subst present
          cases was : resource head <;> cases becomes : resource new <;>
            simp [held, was, becomes, List.Perm.swap]
      | succ earlier =>
          simp only [List.getElem?_cons_succ] at present
          have tail := inductionHypothesis present
          cases kept : resource head with
          | none =>
              simpa [held, kept] using tail
          | some item =>
              have swapped := tail.cons item
              simp only [held, List.set_cons_succ, List.filterMap_cons,
                kept]
              exact (List.perm_middle.trans swapped).trans
                List.perm_middle.symm

/-- A change that balances the free list keeps the pool complete. -/
theorem Conserved.exchange
    (conserved : Conserved resource total free holders)
    (present : holders[index]? = some old)
    (balanced :
      (free' ++ (resource new).toList).Perm
        (free ++ (resource old).toList)) :
    Conserved resource total free' (holders.set index new) := by
  have gathered :
      ((resource old).toList ++
          (free' ++ held resource (holders.set index new))).Perm
        (free' ++ ((resource old).toList ++
          held resource (holders.set index new))) := by
    simp only [← List.append_assoc]
    exact List.perm_append_comm.append_right _
  have exchanged :
      (free' ++ ((resource old).toList ++
          held resource (holders.set index new))).Perm
        (free' ++ ((resource new).toList ++ held resource holders)) :=
    (held_set present).append_left free'
  have settled :
      (free' ++ ((resource new).toList ++ held resource holders)).Perm
        ((resource old).toList ++ (free ++ held resource holders)) := by
    simp only [← List.append_assoc]
    exact (balanced.trans List.perm_append_comm).append_right _
  have moved := (gathered.trans exchanged).trans settled
  exact ((List.perm_append_left_iff _).mp moved).trans conserved

/-- No resource is held by two holders. -/
theorem Conserved.holder_unique
    (conserved : Conserved resource total free holders)
    (distinct : total.Nodup)
    {first second : Nat}
    {one other : Holder}
    {item : Resource}
    (atFirst : holders[first]? = some one)
    (atSecond : holders[second]? = some other)
    (holdsFirst : resource one = some item)
    (holdsSecond : resource other = some item) :
    first = second := by
  have nodup : (held resource holders).Nodup :=
    (List.nodup_append.mp (conserved.nodup_iff.mpr distinct)).2.1
  clear conserved
  induction holders generalizing first second with
  | nil =>
      simp at atFirst
  | cons head rest inductionHypothesis =>
      have member : ∀ {place : Nat} {holder : Holder},
          rest[place]? = some holder → resource holder = some item →
            item ∈ held resource rest := fun found holds =>
        List.mem_filterMap.mpr ⟨_, List.mem_of_getElem? found, holds⟩
      have tail : (held resource rest).Nodup := by
        cases holds : resource head <;>
          simp_all [held]
      have alone : resource head = some item →
          item ∉ held resource rest := by
        intro holds
        simp only [held, List.filterMap_cons, holds, List.nodup_cons]
          at nodup
        exact nodup.1
      cases first <;> cases second
      · rfl
      · simp only [List.getElem?_cons_zero, Option.some.injEq,
          List.getElem?_cons_succ] at atFirst atSecond
        subst atFirst
        exact absurd (member atSecond holdsSecond) (alone holdsFirst)
      · simp only [List.getElem?_cons_zero, Option.some.injEq,
          List.getElem?_cons_succ] at atFirst atSecond
        subst atSecond
        exact absurd (member atFirst holdsFirst) (alone holdsSecond)
      · simp only [List.getElem?_cons_succ] at atFirst atSecond
        exact congrArg _ (inductionHypothesis atFirst atSecond tail)

/-- A change that balances a queue keeps it listing the selected holders. -/
theorem Lists.exchange
    (lists : Lists selected queue holders)
    (present : holders[index]? = some old)
    (balanced :
      (queue' ++ only (selected old) index).Perm
        (queue ++ only (selected new) index)) :
    Lists selected queue' (holders.set index new) := by
  intro other
  obtain ⟨inside, is⟩ := List.getElem?_eq_some_iff.mp present
  have counts := balanced.count_eq other
  have before := lists other
  rw [List.count_append, List.count_append, count_only, count_only,
    before] at counts
  rw [List.getElem?_set]
  by_cases same : index = other
  · subst same
    simpa [inside, is, Nat.add_comm] using counts
  · simpa [same] using counts

/-- An index at the front of a queue belongs to a selected holder. -/
theorem Lists.selected_of_mem
    (lists : Lists selected queue holders)
    (queued : index ∈ queue) :
    ∃ holder, holders[index]? = some holder ∧ selected holder = true := by
  have positive := List.count_pos_iff.mpr queued
  rw [lists index] at positive
  cases found : holders[index]? with
  | none =>
      simp [found] at positive
  | some holder =>
      refine ⟨holder, rfl, ?_⟩
      cases chosen : selected holder <;> simp_all

/-- A selected holder is queued. -/
theorem Lists.mem_of_selected
    (lists : Lists selected queue holders)
    (present : holders[index]? = some old)
    (chosen : selected old = true) :
    index ∈ queue := by
  refine List.count_pos_iff.mp ?_
  rw [lists index]
  simp [present, chosen]

end Exchange

end Holders

end CoreJpeg
