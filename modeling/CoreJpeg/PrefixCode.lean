import Mathlib.Data.List.Infix

namespace CoreJpeg

/-!
# Prefix-free codes

A prefix-free code lists code words with the symbols they stand for.  At most
one of its code words starts a given bit string, so looking the string up, in
any order, yields the symbol that was written.
-/

/-- A list of code words of which none starts another. -/
structure PrefixCode (Symbol : Type) where
  entries : List (List Bool × Symbol)
  prefixFree :
    ∀ first ∈ entries, ∀ second ∈ entries,
      first.1 <+: second.1 → first = second

namespace PrefixCode

variable {Symbol : Type}

/-- A code word stands for a symbol. -/
def Codes (code : PrefixCode Symbol) (word : List Bool) (symbol : Symbol) :
    Prop :=
  (word, symbol) ∈ code.entries

instance
    [DecidableEq Symbol]
    (code : PrefixCode Symbol)
    (word : List Bool)
    (symbol : Symbol) :
    Decidable (code.Codes word symbol) :=
  inferInstanceAs (Decidable ((word, symbol) ∈ code.entries))

/-- The first entry whose code word starts a bit string. -/
def lookup (code : PrefixCode Symbol) (stream : List Bool) :
    Option (List Bool × Symbol) :=
  code.entries.find? fun entry => entry.1.isPrefixOf stream

/-- Two entries that start one bit string are the same entry. -/
theorem entry_unique
    {code : PrefixCode Symbol}
    {stream : List Bool}
    {first second : List Bool × Symbol}
    (firstEntry : first ∈ code.entries)
    (secondEntry : second ∈ code.entries)
    (firstStarts : first.1 <+: stream)
    (secondStarts : second.1 <+: stream) :
    first = second := by
  rcases List.prefix_or_prefix_of_prefix firstStarts secondStarts with
    firstShorter | secondShorter
  · exact code.prefixFree first firstEntry second secondEntry firstShorter
  · exact
      (code.prefixFree second secondEntry first firstEntry secondShorter).symm

/-- A found entry belongs to the code and starts the bit string. -/
theorem lookup_sound
    {code : PrefixCode Symbol}
    {stream : List Bool}
    {entry : List Bool × Symbol}
    (found : code.lookup stream = some entry) :
    entry ∈ code.entries ∧ entry.1 <+: stream := by
  refine ⟨List.mem_of_find?_eq_some found, ?_⟩
  have starts := List.find?_some found
  simpa using starts

/-- The code word that starts a bit string is found. -/
theorem lookup_of_codes
    {code : PrefixCode Symbol}
    {word stream : List Bool}
    {symbol : Symbol}
    (codes : code.Codes word symbol)
    (starts : word <+: stream) :
    code.lookup stream = some (word, symbol) := by
  cases found : code.lookup stream with
  | none =>
      have refused := List.find?_eq_none.mp found (word, symbol) codes
      exact absurd (List.isPrefixOf_iff_prefix.mpr starts) (by simpa using refused)
  | some entry =>
      have sound := lookup_sound found
      rw [entry_unique sound.1 codes sound.2 starts]

end PrefixCode

end CoreJpeg
