import Mutagen.Node.Walk
import Mutagen.Proofs.Node.Shape

set_option autoImplicit false

namespace Mutagen.Node

variable {f g : Nat → Node → Node} {nodes : List Node}

theorem at_everywhere {P : Node → Prop} {path : Path} {root node : Node} (h : Everywhere P root)
    (found : root.at? path = some node) : Everywhere P node := by
  induction path generalizing root with
  | nil =>
      cases found
      exact h
  | cons i path ih =>
      rw [at?, Option.bind_eq_some_iff] at found
      obtain ⟨child, place, found⟩ := found
      exact ih (h.child child (List.mem_of_getElem? place)) found

theorem map_idx_congr (same : ∀ i node, nodes[i]? = some node → f i node = g i node) :
    nodes.mapIdx f = nodes.mapIdx g := by
  apply List.ext_getElem?
  intro i
  rw [List.getElem?_mapIdx, List.getElem?_mapIdx]
  cases found : nodes[i]? with
  | none => rfl
  | some node => rw [Option.map_some, Option.map_some, same i node found]

theorem option_map_congr {f g : Node → Node} {value : Option Node}
    (same : ∀ node, value = some node → f node = g node) : value.map f = value.map g := by
  cases value with
  | none => rfl
  | some node => rw [Option.map_some, Option.map_some, same node rfl]

theorem left_at {nodes others : List Node} {i : Nat} {node : Node} (found : nodes[i]? = some node) :
    (nodes ++ others)[i]? = some node := by
  obtain ⟨inside, _⟩ := List.getElem?_eq_some_iff.mp found
  rw [List.getElem?_append_left inside]
  exact found

theorem right_at {nodes others : List Node} {i : Nat} {node : Node} (found : others[i]? = some node) :
    (nodes ++ others)[nodes.length + i]? = some node := by
  rw [List.getElem?_append_right (Nat.le_add_right _ _), Nat.add_sub_cancel_left]
  exact found

theorem option_at {value : Option Node} {node : Node} (found : value = some node) :
    value.toList[0]? = some node := by
  rw [found]
  rfl

theorem map_children_congr (node : Node) (same : ∀ i child, node.children[i]? = some child → f i child = g i child) :
    node.mapChildren f = node.mapChildren g := by
  cases node with
  | program nodes | boolOp _ nodes | set nodes | list nodes _ | tuple nodes _ =>
      have all : nodes.mapIdx f = nodes.mapIdx g := map_idx_congr same
      rw [mapChildren, mapChildren, all]
  | functionDef _ _ nodes more | dict nodes more =>
      rw [mapChildren, mapChildren, map_idx_congr fun i child found => same i child (left_at found),
        map_idx_congr fun i child found => same (nodes.length + i) child (right_at found)]
  | returnStmt value | raiseStmt value =>
      rw [mapChildren, mapChildren, option_map_congr fun child found => same 0 child (option_at found)]
  | assign nodes value | lambda _ nodes value =>
      rw [mapChildren, mapChildren, map_idx_congr fun i child found => same i child (left_at found),
        same nodes.length value (right_at (i := 0) rfl)]
  | augAssign first _ second | binOp first _ second | subscript first second _ =>
      rw [mapChildren, mapChildren, same 0 first rfl, same 1 second rfl]
  | forStmt first second nodes =>
      rw [mapChildren, mapChildren, same 0 first rfl, same 1 second rfl,
        map_idx_congr fun i child found => same (i + 2) child found]
  | whileStmt first nodes | compare first _ nodes =>
      rw [mapChildren, mapChildren, same 0 first rfl, map_idx_congr fun i child found => same (i + 1) child found]
  | ifStmt first nodes more =>
      rw [mapChildren, mapChildren, same 0 first rfl,
        map_idx_congr fun i child found => same (i + 1) child (left_at found),
        map_idx_congr fun i child found => same (nodes.length + i + 1) child (right_at found)]
  | assertStmt first value =>
      rw [mapChildren, mapChildren, same 0 first rfl,
        option_map_congr fun child found => same 1 child (option_at found)]
  | exprStmt first | unaryOp _ first | attr first _ _ => rw [mapChildren, mapChildren, same 0 first rfl]
  | ifExp first second third =>
      rw [mapChildren, mapChildren, same 0 first rfl, same 1 second rfl, same 2 third rfl]
  | call first nodes keywords =>
      have keyword : keywords.mapIdx (fun i keyword => (keyword.1, f (nodes.length + i + 1) keyword.2)) =
          keywords.mapIdx (fun i keyword => (keyword.1, g (nodes.length + i + 1) keyword.2)) := by
        apply List.ext_getElem?
        intro i
        rw [List.getElem?_mapIdx, List.getElem?_mapIdx]
        cases found : keywords[i]? with
        | none => rfl
        | some keyword =>
            have value : (keywords.map (·.2))[i]? = some keyword.2 := by rw [List.getElem?_map, found]; rfl
            rw [Option.map_some, Option.map_some, same (nodes.length + i + 1) keyword.2 (right_at value)]
      rw [mapChildren, mapChildren, same 0 first rfl,
        map_idx_congr fun i child found => same (i + 1) child (left_at found), keyword]
  | slice lower upper step =>
      rw [mapChildren, mapChildren,
        option_map_congr fun child found => same 0 child (left_at (left_at (option_at found))),
        option_map_congr fun child found =>
          same lower.toList.length child (left_at (right_at (i := 0) (option_at found))),
        option_map_congr fun child found => same (lower.toList.length + upper.toList.length) child
          (by
            rw [children, ← List.length_append]
            exact right_at (i := 0) (option_at found))]
  | _ => rfl

theorem modify_congr {f g : Node → Node} {path : Path} {root : Node}
    (same : ∀ node, root.at? path = some node → f node = g node) :
    root.modifyAt f path = root.modifyAt g path := by
  induction path generalizing root with
  | nil => exact same root rfl
  | cons i path ih =>
      refine map_children_congr root fun j child found => ?_
      by_cases here : j = i
      · rw [if_pos here, if_pos here]
        refine ih fun node inside => same node ?_
        rw [at?, ← here, found]
        exact inside
      · rw [if_neg here, if_neg here]

-- Children that all keep their places.
def KeepsPlace (f : Nat → Node → Node) : Prop := ∀ i node, (f i node).place = node.place

theorem all_in_map {places : List Place} (keeps : KeepsPlace f) (h : AllIn places nodes) :
    AllIn places (nodes.mapIdx f) := by
  intro node member
  obtain ⟨i, inside, rfl⟩ := List.mem_mapIdx.mp member
  rw [keeps i]
  exact h _ (List.getElem_mem inside)

theorem option_in_map {places : List Place} {f : Node → Node} {value : Option Node}
    (keeps : ∀ node, (f node).place = node.place) (h : AllIn places value.toList) :
    AllIn places (value.map f).toList := by
  cases value with
  | none => exact h
  | some node =>
      intro child member
      rw [List.mem_singleton.mp member, keeps node]
      exact h node (by simp)

theorem any_slice_map (keeps : KeepsPlace f) : (nodes.mapIdx f).any isSlice = nodes.any isSlice := by
  have same (i : Nat) (node : Node) : (f i node).isSlice = node.isSlice := by
    rw [Bool.eq_iff_iff, ← slice_place, ← slice_place, keeps i node]
  rw [Bool.eq_iff_iff, List.any_eq_true, List.any_eq_true]
  constructor
  · rintro ⟨node, member, slice⟩
    obtain ⟨i, inside, rfl⟩ := List.mem_mapIdx.mp member
    exact ⟨_, List.getElem_mem inside, by rw [← same i]; exact slice⟩
  · rintro ⟨node, member, slice⟩
    obtain ⟨i, inside, rfl⟩ := List.mem_iff_getElem.mp member
    exact ⟨f i nodes[i], List.mem_mapIdx.mpr ⟨i, inside, rfl⟩, by rw [same i]; exact slice⟩

theorem map_children_place (keeps : KeepsPlace f) (node : Node) : (node.mapChildren f).place = node.place := by
  cases node with
  | tuple elements ctx =>
      cases ctx with
      | load => rw [mapChildren, place, place, any_slice_map keeps]
      | store => rfl
  | list _ ctx | attr _ _ ctx | subscript _ _ ctx | name _ ctx => cases ctx <;> rfl
  | _ => rfl

theorem params_map {params : List String} (keeps : KeepsPlace f) (h : ParamsShaped params nodes) :
    ParamsShaped params (nodes.mapIdx f) :=
  ⟨h.identifiers, h.distinct, by rw [List.length_mapIdx]; exact h.fit, all_in_map keeps h.values⟩

theorem map_ne_nil (h : nodes ≠ []) : nodes.mapIdx f ≠ [] := by
  intro none
  exact h (List.mapIdx_eq_nil_iff.mp none)

theorem keywords_map {keywords : List (String × Node)} (keeps : KeepsPlace f) (h : KeywordsShaped keywords) :
    KeywordsShaped (keywords.mapIdx fun i keyword => (keyword.1, f i keyword.2)) := by
  have names : (keywords.mapIdx fun i keyword => (keyword.1, f i keyword.2)).map (·.1) = keywords.map (·.1) := by
    apply List.ext_getElem?
    intro i
    rw [List.getElem?_map, List.getElem?_map, List.getElem?_mapIdx, Option.map_map]
    rfl
  refine ⟨fun keyword member => ?_, by rw [names]; exact h.distinct, fun node member => ?_⟩
  · obtain ⟨i, inside, rfl⟩ := List.mem_mapIdx.mp member
    exact h.identifiers keywords[i] (List.getElem_mem inside)
  · obtain ⟨keyword, listed, rfl⟩ := List.mem_map.mp member
    obtain ⟨i, inside, rfl⟩ := List.mem_mapIdx.mp listed
    rw [keeps i]
    exact h.values _ (List.mem_map_of_mem (List.getElem_mem inside))

theorem map_children_shaped (keeps : KeepsPlace f) {node : Node} (h : Shaped node) :
    Shaped (node.mapChildren f) := by
  have shifted (k : Nat) : KeepsPlace fun i => f (i + k) := fun i => keeps (i + k)
  have behind (k : Nat) : KeepsPlace fun i => f (k + i) := fun i => keeps (k + i)
  cases node with
  | program body => exact all_in_map keeps h
  | functionDef id params defaults body =>
      exact ⟨h.1, params_map keeps h.2.1, all_in_map (behind _) h.2.2⟩
  | returnStmt value => exact option_in_map (keeps 0) h
  | assign targets value =>
      exact ⟨map_ne_nil h.1, all_in_map keeps h.2.1, (keeps _ value).trans h.2.2⟩
  | augAssign target op value => exact ⟨(keeps 0 target).trans h.1, (keeps 1 value).trans h.2⟩
  | forStmt target iterable body =>
      refine ⟨?_, (keeps 1 iterable).trans h.2.1, all_in_map (shifted 2) h.2.2⟩
      rw [keeps 0 target]
      exact h.1
  | whileStmt test body => exact ⟨(keeps 0 test).trans h.1, all_in_map (shifted 1) h.2⟩
  | ifStmt test body orelse =>
      have last : KeepsPlace fun i => f (body.length + i + 1) := fun i => keeps (body.length + i + 1)
      exact ⟨(keeps 0 test).trans h.1, all_in_map (shifted 1) h.2.1, all_in_map last h.2.2⟩
  | assertStmt test message => exact ⟨(keeps 0 test).trans h.1, option_in_map (keeps 1) h.2⟩
  | raiseStmt exception => exact option_in_map (keeps 0) h
  | exprStmt value => exact (keeps 0 value).trans h
  | passStmt | breakStmt | continueStmt | constant _ | name _ _ => exact h
  | boolOp op values => exact ⟨by rw [List.length_mapIdx]; exact h.1, all_in_map keeps h.2⟩
  | binOp left op right => exact ⟨(keeps 0 left).trans h.1, (keeps 1 right).trans h.2⟩
  | unaryOp op operand => exact (keeps 0 operand).trans h
  | lambda params defaults body => exact ⟨params_map keeps h.1, (keeps _ body).trans h.2⟩
  | ifExp test body orelse =>
      exact ⟨(keeps 0 test).trans h.1, (keeps 1 body).trans h.2.1, (keeps 2 orelse).trans h.2.2⟩
  | dict keys values =>
      refine ⟨?_, all_in_map keeps h.2.1, all_in_map (behind _) h.2.2⟩
      rw [List.length_mapIdx, List.length_mapIdx]
      exact h.1
  | set elements => exact ⟨map_ne_nil h.1, all_in_map keeps h.2⟩
  | compare left ops comparators =>
      refine ⟨h.1, ?_, (keeps 0 left).trans h.2.2.1, all_in_map (shifted 1) h.2.2.2⟩
      rw [List.length_mapIdx]
      exact h.2.1
  | call function args keywords =>
      have last : KeepsPlace fun i => f (args.length + i + 1) := fun i => keeps (args.length + i + 1)
      exact ⟨(keeps 0 function).trans h.1, all_in_map (shifted 1) h.2.1, keywords_map last h.2.2⟩
  | attr value id ctx => exact ⟨(keeps 0 value).trans h.1, h.2⟩
  | subscript value index ctx =>
      refine ⟨(keeps 0 value).trans h.1, ?_⟩
      rw [keeps 1 index]
      exact h.2
  | list elements ctx => cases ctx <;> exact all_in_map keeps h
  | tuple elements ctx => cases ctx <;> exact all_in_map keeps h
  | slice lower upper step =>
      obtain ⟨front, last⟩ := List.forall_mem_append.mp h
      obtain ⟨first, second⟩ := List.forall_mem_append.mp front
      exact List.forall_mem_append.mpr ⟨List.forall_mem_append.mpr
        ⟨option_in_map (keeps 0) first, option_in_map (keeps _) second⟩, option_in_map (keeps _) last⟩

theorem map_idx_append (nodes others : List Node) :
    (nodes ++ others).mapIdx f = nodes.mapIdx f ++ others.mapIdx fun i => f (nodes.length + i) := by
  rw [List.mapIdx_append]
  simp only [Nat.add_comm]

theorem children_map (node : Node) : (node.mapChildren f).children = node.children.mapIdx f := by
  cases node with
  | functionDef | lambda | dict | assign => simp [mapChildren, children, map_idx_append]
  | forStmt | whileStmt | compare => simp [mapChildren, children, List.mapIdx_cons]
  | returnStmt value | raiseStmt value => cases value <;> rfl
  | assertStmt test message => cases message <;> rfl
  | ifStmt test body orelse =>
      simp only [mapChildren, children, List.mapIdx_cons, List.mapIdx_append, Nat.add_assoc, Nat.add_comm]
  | call function args keywords =>
      have values : (keywords.mapIdx fun i keyword => (keyword.1, f (args.length + i + 1) keyword.2)).map (·.2) =
          (keywords.map (·.2)).mapIdx fun i => f (args.length + i + 1) := by
        apply List.ext_getElem?
        intro i
        rw [List.getElem?_map, List.getElem?_mapIdx, List.getElem?_mapIdx, List.getElem?_map, Option.map_map,
          Option.map_map]
        rfl
      simp only [mapChildren, children, List.mapIdx_cons, values, map_idx_append (f := fun i => f (i + 1))]
  | slice lower upper step =>
      cases lower <;> cases upper <;> cases step <;> rfl
  | _ => rfl

theorem map_children_everywhere (keeps : KeepsPlace f) {node : Node} (h : Shaped node)
    (below : ∀ i, ∀ child ∈ node.children, Everywhere Shaped (f i child)) :
    Everywhere Shaped (node.mapChildren f) := by
  refine .node (map_children_shaped keeps h) fun child member => ?_
  rw [children_map] at member
  obtain ⟨i, inside, rfl⟩ := List.mem_mapIdx.mp member
  exact below i _ (List.getElem_mem inside)

theorem modify_place {f : Node → Node} (keeps : ∀ node, (f node).place = node.place) (path : Path) (root : Node) :
    (root.modifyAt f path).place = root.place := by
  induction path generalizing root with
  | nil => exact keeps root
  | cons i path ih =>
      refine map_children_place (fun j child => ?_) root
      split
      · exact ih child
      · rfl

theorem modify_everywhere {f : Node → Node} (keeps : ∀ node, (f node).place = node.place)
    (shaped : ∀ node, Everywhere Shaped node → Everywhere Shaped (f node)) (path : Path) {root : Node}
    (h : Everywhere Shaped root) : Everywhere Shaped (root.modifyAt f path) := by
  induction path generalizing root with
  | nil => exact shaped root h
  | cons i path ih =>
      refine map_children_everywhere (fun j child => ?_) h.here fun j child member => ?_
      · split
        · exact modify_place keeps path child
        · rfl
      · split
        · exact ih (h.child child member)
        · exact h.child child member

-- Another node in place of one that stands in the same place.
def exchange (changed other : Node) : Node := if other.place = changed.place then changed else other

theorem exchange_place (changed other : Node) : (exchange changed other).place = other.place := by
  rw [exchange]
  split
  · rename_i alike
    exact alike.symm
  · rfl

theorem exchange_shaped {changed : Node} (shaped : Everywhere Shaped changed) (other : Node)
    (h : Everywhere Shaped other) : Everywhere Shaped (exchange changed other) := by
  rw [exchange]
  split
  · exact shaped
  · exact h

theorem modify_shaped {root node changed : Node} {path : Path} (h : WellShaped root)
    (found : root.at? path = some node) (shaped : Everywhere Shaped changed) (same : changed.place = node.place) :
    WellShaped (root.modifyAt (fun _ => changed) path) := by
  have agrees : root.modifyAt (fun _ => changed) path = root.modifyAt (exchange changed) path := by
    refine modify_congr fun other found' => ?_
    rw [found] at found'
    cases found'
    exact (if_pos same.symm).symm
  rw [agrees]
  exact ⟨(modify_place (exchange_place changed) path root).trans h.program,
    modify_everywhere (exchange_place changed) (exchange_shaped shaped) path h.shaped⟩

end Mutagen.Node
