import Mutagen.Proofs.Node.Walk
import Mutagen.Proofs.Node.Fill

set_option autoImplicit false

namespace Mutagen.Node

def Alike (a b : Node) : Prop := a.mapChildren (fun _ _ => .passStmt) = b.mapChildren (fun _ _ => .passStmt)

variable {f : Nat → Node → Node}

theorem map_children_alike (f : Nat → Node → Node) (node : Node) : Alike node (node.mapChildren f) := by
  cases node <;> simp [Alike, mapChildren, Option.map_map, Function.comp_def]

-- The same tree but for the node at the end of a path.
structure DiffersAt (path : Path) (before after : Node) (old new : Node) : Prop where
  was : before.at? path = some old
  becomes : after.at? path = some new
  others : ∀ other, other ≠ path → Option.Rel Alike (before.at? other) (after.at? other)

theorem alike_refl (node : Option Node) : Option.Rel Alike node node := by
  cases node with
  | none => exact .none
  | some node => exact .some rfl

theorem at_map_children (node : Node) (i : Nat) (path : Path) :
    (node.mapChildren f).at? (i :: path) = node.children[i]?.bind fun child => (f i child).at? path := by
  rw [at_cons, children_map, List.getElem?_mapIdx, Option.bind_map]
  rfl

theorem modify_cons (f : Node → Node) (i : Nat) (path : Path) (root : Node) :
    root.modifyAt f (i :: path) = root.mapChildren fun j child => if j = i then child.modifyAt f path else child := rfl

-- The same tree above the end of a path, but for what stands below, and the same nodes beside it.
structure ChangesAt (path : Path) (before after : Node) (old new : Node) : Prop where
  was : before.at? path = some old
  becomes : after.at? path = some new
  others : ∀ other, ¬ path <+: other → Option.Rel Alike (before.at? other) (after.at? other)
  beside : ∀ other, ¬ path <+: other → ¬ other <+: path → after.at? other = before.at? other

theorem modify_changes {root old : Node} {path : Path} (found : root.at? path = some old) (new : Node) :
    ChangesAt path root (root.modifyAt (fun _ => new) path) old new := by
  induction path generalizing root with
  | nil =>
      cases found
      exact ⟨rfl, rfl, fun other apart => absurd List.nil_prefix apart, fun other apart => absurd List.nil_prefix apart⟩
  | cons i path ih =>
      have whole := found
      rw [at_cons, Option.bind_eq_some_iff] at found
      obtain ⟨child, place, inner⟩ := found
      have below := ih inner
      have deeper {rest : Path} (apart : ¬ i :: path <+: i :: rest) : ¬ path <+: rest :=
        fun inside => apart (List.cons_prefix_cons.mpr ⟨rfl, inside⟩)
      refine ⟨whole, ?_, fun other apart => ?_, fun other apart apart' => ?_⟩
      · rw [modify_cons, at_map_children, place, Option.bind_some, if_pos rfl]
        exact below.becomes
      · cases other with
        | nil => exact .some (map_children_alike _ root)
        | cons j rest =>
            rw [modify_cons, at_map_children, at_cons]
            by_cases same : j = i
            · subst same
              rw [place, Option.bind_some, Option.bind_some, if_pos rfl]
              exact below.others rest (deeper apart)
            · simp only [if_neg same]
              exact alike_refl _
      · cases other with
        | nil => exact absurd List.nil_prefix apart'
        | cons j rest =>
            rw [modify_cons, at_map_children, at_cons]
            by_cases same : j = i
            · subst same
              rw [place, Option.bind_some, Option.bind_some, if_pos rfl]
              exact below.beside rest (deeper apart) fun inside => apart' (List.cons_prefix_cons.mpr ⟨rfl, inside⟩)
            · simp only [if_neg same]

theorem leaf_at {node : Node} (leaf : node.children = []) (i : Nat) (path : Path) : node.at? (i :: path) = none := by
  rw [at_cons, leaf]
  rfl

theorem modify_differs {root old new : Node} {path : Path} (found : root.at? path = some old)
    (leaf : old.children = []) (leaf' : new.children = []) :
    DiffersAt path root (root.modifyAt (fun _ => new) path) old new := by
  have changes := modify_changes found new
  refine ⟨changes.was, changes.becomes, fun other different => ?_⟩
  by_cases below : path <+: other
  · obtain ⟨rest, rfl⟩ := below
    cases rest with
    | nil => exact absurd (List.append_nil path) different
    | cons i rest =>
        rw [at_append, at_append, changes.was, changes.becomes, Option.bind_some, Option.bind_some, leaf_at leaf, leaf_at leaf']
        exact .none
  · exact changes.others other below

theorem map_children_filled {node : Node} (h : Filled node) : Filled (node.mapChildren f) := by
  cases node with
  | functionDef | forStmt | whileStmt | ifStmt => exact map_ne_nil h
  | _ => trivial

theorem modify_filled {root new : Node} {path : Path} (h : Everywhere Filled root) (filled : Everywhere Filled new) :
    Everywhere Filled (root.modifyAt (fun _ => new) path) := by
  induction path generalizing root with
  | nil => exact filled
  | cons i path ih =>
      refine .node (map_children_filled h.here) fun child member => ?_
      rw [modify_cons, children_map] at member
      obtain ⟨j, inside, rfl⟩ := List.mem_mapIdx.mp member
      have kept := h.child _ (List.getElem_mem inside)
      split
      · exact ih kept
      · exact kept

end Mutagen.Node
