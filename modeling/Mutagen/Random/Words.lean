import Mutagen.Config.Basic

set_option autoImplicit false

namespace Mutagen

structure Words where
  word : Nat → UInt32
  taken : Nat

namespace Words

def ofList (words : List UInt32) : Words := ⟨fun i => words.getD i 0, 0⟩

end Words

abbrev Draw := StateM Words

namespace Draw

def word : Draw UInt32 := fun words => (words.word words.taken, { words with taken := words.taken + 1 })

def doubleWord : Draw Nat := do
  let low ← word
  let high ← word
  return high.toNat * 2 ^ 32 + low.toNat

/-- A number below `n`: the integer part of `n` times a fraction of 32 bits. Where the product's
own fraction is so large that further bits could carry, a second word supplies them. -/
def index (n : Nat) : Draw Nat := do
  let product := (← word).toNat * n
  let fraction := product % 2 ^ 32
  if 2 ^ 32 - n < fraction then
    let more := (← word).toNat * n / 2 ^ 32
    return product / 2 ^ 32 + (if 2 ^ 32 ≤ fraction + more then 1 else 0)
  else return product / 2 ^ 32

def choose {α : Type} (options : List α) : Draw (Option α) :=
  if options.isEmpty then return none else return options[← index options.length]?

/-- Holds with probability `p`. Certainty takes no word. -/
def coin (p : Probability) : Draw Bool :=
  if p.value.magnitude = Binary64.unit then return true
  else return (← doubleWord) < Binary64.scaled64 p.value.magnitude

end Draw

end Mutagen
