import Mathlib.Data.Nat.Count
import Mathlib.Order.Basic

namespace CoreJpeg

/-!
# Bursts on a port without back-pressure

A stage that cannot be stalled passes on items in bursts of a fixed length,
one item a cycle, with a least number of pauses between two bursts.  What it
receives and what it passes on are two histories of the same shape, one later
than the other by the latency of the stage.  This module fixes that shape and
the place of every cycle in its burst, for histories over any times.
-/

/-- A history seen a number of cycles later, and what is shown before it. -/
def delayed {Item : Type} (latency : Nat) (idle : Item)
    (history : Nat → Item) (n : Nat) : Item :=
  if n < latency then idle else history (n - latency)

section Delayed

variable {Item : Type} {latency : Nat} {idle : Item} {history : Nat → Item}

@[simp] theorem delayed_add (n : Nat) :
    delayed latency idle history (n + latency) = history n := by
  simp [delayed]

theorem delayed_early
    {n : Nat}
    (early : n < latency) :
    delayed latency idle history n = idle := by
  simp [delayed, early]

/-- Latencies add up. -/
theorem delayed_delayed
    (first second : Nat) :
    delayed second idle (delayed first idle history) =
      delayed (first + second) idle history := by
  funext n
  simp only [delayed]
  split_ifs <;> first | rfl | omega | (congr 1; omega)

/-- A register shows what it was given a cycle earlier. -/
theorem eq_delayed_succ
    (register : Nat → Item)
    (initially : register 0 = idle)
    (next :
      ∀ n, register (n + 1) = delayed latency idle history n)
    (n : Nat) :
    register n = delayed (latency + 1) idle history n := by
  cases n with
  | zero => rw [initially, delayed_early (Nat.succ_pos latency)]
  | succ n =>
      rw [next]
      simp only [delayed, Nat.add_lt_add_iff_right, Nat.add_sub_add_right]

end Delayed

/--
Items in bursts of one length: a burst goes on in every cycle from its first
place to its last, and at least `gap` cycles without an item follow.
-/
structure Bursts (length gap : Nat) (valid : Nat → Bool)
    (place : Nat → Nat) : Prop where
  first : place 0 = 0
  inside : ∀ n, place n < length
  quiet : ∀ n, valid n = false → place n = 0 ∧ place (n + 1) = 0
  goes :
    ∀ n, valid n = true → place n + 1 < length →
      valid (n + 1) = true ∧ place (n + 1) = place n + 1
  rests :
    ∀ n, valid n = true → place n + 1 = length →
      place (n + 1) = 0 ∧ ∀ k < gap, valid (n + 1 + k) = false

namespace Bursts

variable {length gap : Nat} {valid : Nat → Bool} {place : Nat → Nat}

/-- A burst starts in a cycle. -/
def Starts (valid : Nat → Bool) (place : Nat → Nat) (n : Nat) : Prop :=
  valid n = true ∧ place n = 0

/-- A burst started between so many and so many cycles ago. -/
def Within (valid : Nat → Bool) (place : Nat → Nat)
    (lower upper n : Nat) : Prop :=
  ∃ start, Starts valid place start ∧
    start + lower ≤ n ∧ n < start + upper

/-- The place of the next cycle, as a counter of the items computes it. -/
theorem place_succ
    (bursts : Bursts length gap valid place)
    (n : Nat) :
    place (n + 1) =
      if valid n then (place n + 1) % length else place n := by
  cases now : valid n with
  | false =>
      obtain ⟨here, next⟩ := bursts.quiet n now
      simp [here, next]
  | true =>
      have inside := bursts.inside n
      by_cases last : place n + 1 = length
      · simp [(bursts.rests n now last).1, last]
      · have more : place n + 1 < length := by omega
        simp [(bursts.goes n now more).2, Nat.mod_eq_of_lt more]

/-- A burst goes on to its end. -/
theorem goes_on
    (bursts : Bursts length gap valid place)
    {n k : Nat}
    (now : valid n = true)
    (inside : place n + k < length) :
    valid (n + k) = true ∧ place (n + k) = place n + k := by
  induction k with
  | zero =>
      exact ⟨now, rfl⟩
  | succ k inductionHypothesis =>
      obtain ⟨still, here⟩ := inductionHypothesis (by omega)
      have next := bursts.goes (n + k) still (by omega)
      exact ⟨next.1, by rw [← Nat.add_assoc, next.2, here, Nat.add_assoc]⟩

/-- A started burst goes on to its end. -/
theorem of_starts
    (bursts : Bursts length gap valid place)
    {start : Nat}
    (starts : Starts valid place start)
    {k : Nat}
    (inside : k < length) :
    valid (start + k) = true ∧ place (start + k) = k := by
  obtain ⟨now, fresh⟩ := starts
  have here := bursts.goes_on now (k := k) (by omega)
  rwa [fresh, Nat.zero_add] at here

/-- An item belongs to a burst that started as many cycles ago as its place. -/
theorem started
    (bursts : Bursts length gap valid place)
    (hasGap : 0 < gap)
    {n : Nat}
    (now : valid n = true) :
    place n ≤ n ∧ Starts valid place (n - place n) := by
  induction n with
  | zero =>
      rw [bursts.first]
      exact ⟨Nat.le_refl 0, now, bursts.first⟩
  | succ n inductionHypothesis =>
      cases before : valid n with
      | false =>
          have fresh := (bursts.quiet n before).2
          rw [fresh]
          exact ⟨Nat.zero_le _, now, fresh⟩
      | true =>
          obtain ⟨reaches, starts⟩ := inductionHypothesis before
          have inside := bursts.inside n
          have notLast : place n + 1 ≠ length := by
            intro last
            have rest := (bursts.rests n before last).2 0 hasGap
            rw [Nat.add_zero, now] at rest
            cases rest
          have next := (bursts.goes n before (by omega)).2
          rw [next, Nat.add_sub_add_right]
          exact ⟨Nat.add_le_add_right reaches 1, starts⟩

/-- Behind a burst nothing is shown during the gap. -/
theorem silent
    (bursts : Bursts length gap valid place)
    {start k : Nat}
    (starts : Starts valid place start)
    (behind : length ≤ k)
    (near : k < length + gap) :
    valid (start + k) = false := by
  have insideBurst := bursts.inside start
  have last := bursts.of_starts starts (k := length - 1) (by omega)
  have rest := (bursts.rests (start + (length - 1)) last.1 (by omega)).2
    (k - length) (by omega)
  have same : start + (length - 1) + 1 + (k - length) = start + k := by
    omega
  rwa [same] at rest

/-- Two bursts are a burst and a gap apart. -/
theorem apart
    (bursts : Bursts length gap valid place)
    {start other : Nat}
    (starts : Starts valid place start)
    (startsToo : Starts valid place other)
    (later : start < other) :
    start + length + gap ≤ other := by
  by_contra near
  have same : start + (other - start) = other := by omega
  by_cases inside : other - start < length
  · have here := (bursts.of_starts starts inside).2
    rw [same, startsToo.2] at here
    omega
  · have rest := bursts.silent starts (k := other - start) (by omega)
      (by omega)
    rw [same, startsToo.1] at rest
    cases rest

/-- Every cycle of an item is one of the first of a burst's. -/
theorem valid_iff
    (bursts : Bursts length gap valid place)
    (hasGap : 0 < gap)
    (n : Nat) :
    valid n = true ↔ Within valid place 0 length n := by
  constructor
  · intro now
    obtain ⟨reaches, starts⟩ := bursts.started hasGap now
    have inside := bursts.inside n
    exact ⟨n - place n, starts, by omega, by omega⟩
  · rintro ⟨start, starts, after, before⟩
    have here := bursts.of_starts starts (k := n - start) (by omega)
    rw [show start + (n - start) = n by omega] at here
    exact here.1

/-- Near one burst a window over bursts tells how long ago that one started. -/
theorem within_iff
    (bursts : Bursts length gap valid place)
    {start lower upper n : Nat}
    (low : Nat)
    (starts : Starts valid place start)
    (after : start + low ≤ n)
    (before : n < start + low + length + gap)
    (above : low ≤ lower)
    (below : upper ≤ low + length + gap) :
    Within valid place lower upper n ↔
      start + lower ≤ n ∧ n < start + upper := by
  constructor
  · rintro ⟨other, startsToo, afterToo, beforeToo⟩
    rcases lt_trichotomy start other with earlier | rfl | later
    · have apart := bursts.apart starts startsToo earlier
      omega
    · exact ⟨afterToo, beforeToo⟩
    · have apart := bursts.apart startsToo starts later
      omega
  · rintro ⟨afterToo, beforeToo⟩
    exact ⟨start, starts, afterToo, beforeToo⟩

/-- A window over a burst moves on by one cycle. -/
theorem within_succ
    (bursts : Bursts length gap valid place)
    {lower upper : Nat}
    (wide : lower + 1 < upper)
    (narrow : upper ≤ lower + 1 + length + gap)
    (n : Nat) :
    Within valid place (lower + 1) upper (n + 1) ↔
      Within valid place lower (lower + 1) n ∨
        (Within valid place (lower + 1) upper n ∧
          ¬ Within valid place (upper - 1) upper n) := by
  constructor
  · rintro ⟨start, starts, after, before⟩
    rcases Nat.lt_or_ge n (start + lower + 1) with now | later
    · exact .inl ⟨start, starts, by omega, by omega⟩
    · refine .inr ⟨⟨start, starts, by omega, by omega⟩, ?_⟩
      rintro ⟨other, startsToo, afterToo, beforeToo⟩
      have apart := bursts.apart startsToo starts (by omega)
      omega
  · rintro (⟨start, starts, after, before⟩ |
      ⟨⟨start, starts, after, before⟩, notLast⟩)
    · exact ⟨start, starts, by omega, by omega⟩
    · refine ⟨start, starts, by omega, ?_⟩
      by_contra last
      exact notLast ⟨start, starts, by omega, by omega⟩

/-- A window of one cycle moves on with it. -/
theorem within_one_succ
    (lower n : Nat) :
    Within valid place (lower + 1) (lower + 2) (n + 1) ↔
      Within valid place lower (lower + 1) n := by
  constructor <;>
  · rintro ⟨start, starts, after, before⟩
    exact ⟨start, starts, by omega, by omega⟩

/--
Behind a line of a burst the places in a line grow no faster than the time,
whether the next line belongs to the same burst or to a later one.
-/
theorem next_line
    (bursts : Bursts length gap valid place)
    (hasGap : 0 < gap)
    {width : Nat}
    (divides : width ∣ length)
    {first k : Nat}
    (now : valid first = true)
    (aligned : width ∣ place first)
    (near : k < width)
    (later : valid (first + width + k) = true) :
    place (first + width + k) % width ≤ k := by
  obtain ⟨reaches, starts⟩ := bursts.started hasGap now
  obtain ⟨reachesToo, startsToo⟩ := bursts.started hasGap later
  have inside := bursts.inside (first + width + k)
  have room : place first + width ≤ length := by
    obtain ⟨lines, rfl⟩ := divides
    obtain ⟨before, isBefore⟩ := aligned
    have below := bursts.inside first
    rw [isBefore] at below ⊢
    rw [← Nat.mul_succ]
    exact Nat.mul_le_mul_left width
      (Nat.lt_of_mul_lt_mul_left below)
  rcases lt_trichotomy (first - place first)
      (first + width + k - place (first + width + k)) with
    earlier | same | behind
  · -- a later burst, which started behind the line
    have apart := bursts.apart starts startsToo earlier
    exact (Nat.mod_le _ _).trans (by omega)
  · -- the same burst
    have here : place (first + width + k) = k + width + place first := by
      omega
    obtain ⟨before, isBefore⟩ := aligned
    rw [here, isBefore, Nat.add_mul_mod_self_left, Nat.add_mod_right,
      Nat.mod_eq_of_lt near]
  · have apart := bursts.apart startsToo starts behind
    omega

/-- The same bursts, a number of cycles later. -/
theorem delayed
    (bursts : Bursts length gap valid place)
    (latency : Nat) :
    Bursts length gap (delayed latency false valid)
      (delayed latency 0 place) where
  first := by
    simp only [CoreJpeg.delayed]
    split_ifs with early
    · rfl
    · simp [bursts.first]
  inside n := by
    have insideBurst := bursts.inside 0
    simp only [CoreJpeg.delayed]
    split_ifs
    · omega
    · exact bursts.inside _
  quiet n silent := by
    simp only [CoreJpeg.delayed] at silent ⊢
    by_cases early : n < latency
    · rw [if_pos early]
      refine ⟨rfl, ?_⟩
      by_cases still : n + 1 < latency
      · rw [if_pos still]
      · rw [if_neg still, show n + 1 - latency = 0 by omega, bursts.first]
    · rw [if_neg early] at silent ⊢
      rw [if_neg (by omega), show n + 1 - latency = n - latency + 1 by omega]
      exact bursts.quiet _ silent
  goes n now more := by
    simp only [CoreJpeg.delayed] at now more ⊢
    by_cases early : n < latency
    · simp [early] at now
    · rw [if_neg early] at now more ⊢
      rw [if_neg (by omega), if_neg (by omega),
        show n + 1 - latency = n - latency + 1 by omega]
      exact bursts.goes _ now more
  rests n now last := by
    simp only [CoreJpeg.delayed] at now last ⊢
    by_cases early : n < latency
    · simp [early] at now
    · rw [if_neg early] at now last
      obtain ⟨fresh, silent⟩ := bursts.rests _ now last
      rw [if_neg (by omega), show n + 1 - latency = n - latency + 1 by omega]
      refine ⟨fresh, fun k near => ?_⟩
      rw [if_neg (by omega),
        show n + 1 + k - latency = n - latency + 1 + k by omega]
      exact silent k near

/-- A delayed burst starts when the burst itself started earlier. -/
theorem starts_delayed
    {n : Nat}
    (latency : Nat) :
    Starts (CoreJpeg.delayed latency false valid)
        (CoreJpeg.delayed latency 0 place) (n + latency) ↔
      Starts valid place n := by
  simp [Starts]

end Bursts

end CoreJpeg
