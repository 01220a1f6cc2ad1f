import Mutagen.Mutation.Candidate
import Mutagen.Mutation.Event
import Mutagen.Tree

set_option autoImplicit false

namespace Mutagen

structure Mutation where
  path : Path
  kind : Node.Kind
deriving DecidableEq, Repr

namespace Mutation

structure Outcome where
  mutation : Option Mutation
  tree : Tree
  log : List Event

/-- Changes the node at the end of a path; the table of identifiers stays as it is. -/
def modifyAt (tree : Tree) (path : Path) (f : Node → Node) : Tree :=
  { tree with root := tree.root.modifyAt f path }

def identifierAt? (tree : Tree) (path : Path) : Option String :=
  (tree.root.at? path).bind Node.identifier?

def rename (id : String) : Node → Node
  | .name _ ctx => .name id ctx
  | node => node

def mutableAt? (tree : Tree) (path : Path) :
    Option (Node × Node.Kind × (Config → Node → Draw Node)) := do
  let node ← tree.root.at? path
  let kind ← node.kind?
  let operator ← operator? kind
  return (node, kind, operator)

def adjustExpression (config : Config) (tree : Tree) (candidates : List Path) : Draw Outcome := do
  match ← Draw.choose candidates with
  | none => return ⟨none, tree, []⟩
  | some path =>
      match mutableAt? tree path with
      | none => return ⟨none, tree, []⟩
      | some (node, kind, operator) =>
          let changed ← operator config node
          return ⟨some ⟨path, kind⟩, modifyAt tree path fun _ => changed, [.mutated kind]⟩

def replaceVariable (tree : Tree) (candidates : List Path) : Draw Outcome := do
  match ← Draw.choose candidates with
  | none => return ⟨none, tree, []⟩
  | some path =>
      match identifierAt? tree path with
      | none => return ⟨none, tree, []⟩
      | some current =>
          let others := (candidates.filterMap (identifierAt? tree)).filter (· != current)
          match ← Draw.choose others with
          | none => return ⟨none, tree, [.noOtherIdentifier current]⟩
          | some id =>
              return ⟨some ⟨path, .name⟩, modifyAt tree path (rename id), [.renamed current id]⟩

def applyOperator (config : Config) (tree : Tree) (kind : Node.Kind) (path : Path) :
    Draw (Option Tree) :=
  match operator? kind, tree.root.at? path with
  | some operator, some node => do
      let changed ← operator config node
      return some (modifyAt tree path fun _ => changed)
  | _, _ => return none

end Mutation

end Mutagen
