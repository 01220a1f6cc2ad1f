import Mutagen.Proofs.Node.Depth
import Mutagen.Proofs.Node.Walk

set_option autoImplicit false

namespace Mutagen.Node

def level (root : Node) : Nat → List Occurrence
  | 0 => [⟨[], root⟩]
  | n + 1 => (root.level n).flatMap (·.children)

variable {root : Node} {o parent child : Occurrence} {n : Nat}

-- The queue: the nodes in front are visited before anything below them.
theorem walk_from_append (front back : List Occurrence) :
    walkFrom (front ++ back) = front ++ walkFrom (back ++ front.flatMap (·.children)) := by
  induction front generalizing back with
  | nil => rw [List.nil_append, List.nil_append, List.flatMap_nil, List.append_nil]
  | cons o rest ih =>
      rw [List.cons_append, walkFrom, List.append_assoc, ih, List.append_assoc, List.flatMap_cons]
      rfl

theorem walk_from_level (root : Node) (n : Nat) :
    walkFrom (root.level n) = root.level n ++ walkFrom (root.level (n + 1)) := by
  have behind := walk_from_append (root.level n) []
  rw [List.append_nil, List.nil_append] at behind
  exact behind

theorem walk_first_levels (root : Node) (n : Nat) :
    root.walk = (List.range n).flatMap root.level ++ walkFrom (root.level n) := by
  induction n with
  | zero => rfl
  | succ n ih =>
      rw [ih, walk_from_level, List.range_succ, List.flatMap_append, List.flatMap_singleton, List.append_assoc]

theorem at_child (found : root.at? parent.path = some parent.node) (below : child ∈ parent.children) :
    root.at? child.path = some child.node := by
  obtain ⟨i, inside, place⟩ := mem_children_iff.mp below
  rw [place, at_append, found, Option.bind_some, at_cons, inside]
  rfl

theorem at_parent {path : Path} {i : Nat} (place : o.path = path ++ [i]) (found : root.at? o.path = some o.node) :
    ∃ node, root.at? path = some node ∧ o ∈ (⟨path, node⟩ : Occurrence).children := by
  rw [place, at_append, Option.bind_eq_some_iff] at found
  obtain ⟨node, above, below⟩ := found
  rw [at_cons, Option.bind_eq_some_iff] at below
  obtain ⟨_, inside, same⟩ := below
  cases same
  exact ⟨node, above, mem_children_iff.mpr ⟨i, inside, place⟩⟩

theorem mem_level_iff : o ∈ root.level n ↔ o.path.length = n ∧ root.at? o.path = some o.node := by
  induction n generalizing o with
  | zero =>
      rw [level, List.mem_singleton]
      constructor
      · rintro rfl
        exact ⟨rfl, rfl⟩
      · rintro ⟨here, found⟩
        obtain ⟨path, node⟩ := o
        cases List.eq_nil_of_length_eq_zero here
        cases found
        rfl
  | succ n ih =>
      rw [level, List.mem_flatMap]
      constructor
      · rintro ⟨parent, above, below⟩
        obtain ⟨distance, found⟩ := ih.mp above
        obtain ⟨i, _, place⟩ := mem_children_iff.mp below
        exact ⟨by rw [place, List.length_append, distance]; rfl, at_child found below⟩
      · rintro ⟨distance, found⟩
        obtain ⟨path, i, place⟩ : ∃ path i, o.path = path ++ [i] := by
          rcases List.eq_nil_or_concat' o.path with none | ⟨path, i, last⟩
          · rw [none] at distance
            cases distance
          · exact ⟨path, i, last⟩
        obtain ⟨node, above, below⟩ := at_parent place found
        rw [place, List.length_append] at distance
        exact ⟨⟨path, node⟩, ih.mpr ⟨Nat.succ.inj distance, above⟩, below⟩

theorem at_height {node : Node} {path : Path} (found : root.at? path = some node) : path.length < height root := by
  induction path generalizing root with
  | nil => exact height_pos root
  | cons i path ih =>
      rw [at_cons, Option.bind_eq_some_iff] at found
      obtain ⟨child, inside, deeper⟩ := found
      have below := height_child (List.mem_of_getElem? inside)
      have inner := ih deeper
      rw [List.length_cons]
      omega

theorem height_reached (deep : n < height root) : ∃ path node, path.length = n ∧ root.at? path = some node := by
  induction n generalizing root with
  | zero => exact ⟨[], root, rfl, rfl⟩
  | succ n ih =>
      by_cases high : ∃ child ∈ root.children, n < height child
      · obtain ⟨child, member, deeper⟩ := high
        obtain ⟨i, inside, same⟩ := List.getElem_of_mem member
        obtain ⟨path, node, distance, found⟩ := ih deeper
        refine ⟨i :: path, node, congrArg Nat.succ distance, ?_⟩
        rw [at_cons, List.getElem?_eq_getElem inside, same]
        exact found
      · have low : height root ≤ 1 + n := (height_le root n).mpr fun child member =>
          Nat.le_of_not_lt fun deeper => high ⟨child, member, deeper⟩
        omega

theorem walk_levels (root : Node) : root.walk = (List.range root.depth).flatMap root.level := by
  have last : root.level (height root) = [] := by
    refine List.eq_nil_iff_forall_not_mem.mpr fun o member => ?_
    obtain ⟨distance, found⟩ := mem_level_iff.mp member
    exact absurd (at_height found) (by omega)
  rw [depth_eq, walk_first_levels root (height root), last, walkFrom, List.append_nil]

end Mutagen.Node
