import ShaderLoom.WordSum

/-!
# Searching for a free row

A row is looked for in turns. Each turn tries one base, from 0 upwards, and the search ends when none
of the numbers of the row there is taken. Nothing in a turn says that the search will end, and the
numbers are machine words, so a row may end where there is no number any more.
-/

namespace ShaderLoom.Reading

/-- The search for a row of `span` numbers from `base` on, which finds none when its turns are over
before a row is free. -/
def searchRow (taken : List Nat) (span : Nat) :
    (turns base : Nat) → Except WordOverflow (Option Nat)
  | 0, _ => pure none
  | turns + 1, base => do
    let stop ← wordSum base span
    if (List.range' base (stop - base)).any (· ∈ taken) then do
      let next ← wordSum base 1
      searchRow taken span turns next
    else pure (some base)

end ShaderLoom.Reading
