import Mutagen.Node.Basic

set_option autoImplicit false

namespace Mutagen

abbrev Path := List Nat

namespace Node

def at? : Node → Path → Option Node
  | node, [] => some node
  | node, i :: path => node.children[i]?.bind fun child => child.at? path

def modifyAt (f : Node → Node) : Path → Node → Node
  | [], node => f node
  | i :: path, node => node.mapChildren fun j child => if j = i then modifyAt f path child else child

structure Occurrence where
  path : Path
  node : Node
deriving Inhabited

def Occurrence.children (o : Occurrence) : List Occurrence :=
  o.node.children.mapIdx fun i child => ⟨o.path ++ [i], child⟩

-- As in `children_size`.
attribute [local instance (2000)] Zero.ofOfNat0

theorem occurrence_children_size (o : Occurrence) :
    (o.children.map fun c => sizeOf c.node).sum < sizeOf o.node := by
  have same : o.children.map (fun c => sizeOf c.node) = o.node.children.map sizeOf := by
    apply List.ext_getElem <;> simp [Occurrence.children]
  exact same ▸ children_size o.node

def walkFrom (queue : List Occurrence) : List Occurrence :=
  match queue with
  | [] => []
  | o :: rest => o :: walkFrom (rest ++ o.children)
termination_by (queue.map fun o => sizeOf o.node).sum
decreasing_by
  have := occurrence_children_size o
  simp only [List.map_cons, List.sum_cons, List.map_append, List.sum_append]
  omega

def walk (root : Node) : List Occurrence := walkFrom [⟨[], root⟩]

def deepestLevel (deepest : Nat) (stack : List (Node × Nat)) : Nat :=
  match stack with
  | [] => deepest
  | (node, level) :: rest =>
      deepestLevel (max deepest level) (node.children.map (·, level + 1) ++ rest)
termination_by (stack.map fun entry => sizeOf entry.1).sum
decreasing_by
  have smaller : (node.children.map fun child => sizeOf child).sum < sizeOf node :=
    children_size node
  simp only [List.map_cons, List.sum_cons, List.map_append, List.sum_append, List.map_map,
    Function.comp_def]
  omega

def depth (node : Node) : Nat := deepestLevel 0 [(node, 1)]

end Node

end Mutagen
