import Mutagen.Proofs.Grammar.Compound
import Mutagen.Proofs.Grammar.Operand
import Mutagen.Proofs.Grammar.Scan

set_option autoImplicit false

namespace Mutagen.Grammar

open Node

def Params.leaves (params : Params) : List Leaf := paramLeaves params.names (leavesAll params.defaults)

theorem params_leaves_name {params : Params} (required : params.defaults.isEmpty = true) (id : String) :
    (Params.mk (params.names ++ [id]) params.defaults).leaves = params.leaves ++ [.name id] := by
  simp [Params.leaves, List.isEmpty_iff.mp required, leavesAll, param_leaves_none]

theorem params_leaves_default {params : Params} (fit : params.defaults.length ≤ params.names.length) (id : String)
    (value : Node) :
    (Params.mk (params.names ++ [id]) (params.defaults ++ [value])).leaves =
      params.leaves ++ [.name id] ++ value.leaves := by
  have fit' : (leavesAll params.defaults).length ≤ params.names.length := by
    rw [leaves_all_eq, List.length_map]
    exact fit
  rw [Params.leaves, leaves_all_eq, List.map_append, List.map_singleton, ← leaves_all_eq,
    param_leaves_snoc fit', Params.leaves, List.append_assoc, List.singleton_append]

def Arguments.leaves (arguments : Arguments) : List Leaf :=
  allLeaves arguments.positional ++ leavesKeywords arguments.keywords

def entryLeaves (entries : List (Node × Node)) : List Leaf :=
  interleave (leavesAll (entries.map (·.1))) (leavesAll (entries.map (·.2)))

theorem entry_leaves_single (key value : Node) : entryLeaves [(key, value)] = leaves key ++ leaves value := by
  simp [entryLeaves, leavesAll, interleave]

theorem entry_leaves_snoc (entries : List (Node × Node)) (key value : Node) :
    entryLeaves (entries ++ [(key, value)]) = entryLeaves entries ++ (leaves key ++ leaves value) := by
  have same : ((entries.map (·.1)).map leaves).length = ((entries.map (·.2)).map leaves).length := by simp
  simp only [entryLeaves, leaves_all_eq, List.map_append, List.map_singleton]
  exact interleave_snoc same _ _

def pairLeaves (pairs : List (ComparisonOp × Node)) : List Leaf := allLeaves (pairs.map (·.2))

def assignedLeaves (lists : List Node × Node) : List Leaf := allLeaves lists.1 ++ leaves lists.2

-- Where a token says nothing about what is open and spells nothing.
def IsBare (kind : Token.Kind) : Prop := kind.isPlain = true ∧ kind.leaf? = none

theorem sign_bare {first : Token.Kind} {op : PrefixOp} (signed : sign? first = some op) : IsBare first := by
  unfold sign? at signed
  split at signed <;> first | exact ⟨rfl, rfl⟩ | cases signed

theorem op_bare {first : Token.Kind} {level : Precedence} {op : ArithmeticOp} (found : opAt? level first = some op) : IsBare first := by
  cases first with
  | mark m => cases m <;> first | exact ⟨rfl, rfl⟩ | (cases level <;> cases found)
  | _ => cases level <;> cases found

-- Both tokens of a comparison, where it is spelled with two.
theorem comparison_bare {first second : Token.Kind} {op : ComparisonOp} (linked : comparisonOp? first second = some op) :
    IsBare first ∧ (op = .notIn ∨ op = .isNot → IsBare second) := by
  unfold comparisonOp? at linked
  split at linked
  all_goals cases linked
  all_goals exact ⟨⟨rfl, rfl⟩, fun two => by first | exact ⟨rfl, rfl⟩ | (cases two <;> contradiction)⟩

end Mutagen.Grammar
