import Mutagen.Proofs.Arena.Frame
import Mutagen.Proofs.Arena.Walk
import Mutagen.Proofs.Node.Change

set_option autoImplicit false

namespace Mutagen.Arena

variable {a b : Arena} {id start : NodeId} {ids below : List NodeId} {node node' root : Node} {nodes : List Node} {cell : Cell}
  {path : Path} {i : Nat}

theorem like_map_children {name? : Symbol → Option String} (like : cell.Like name? node) (f : Nat → Node → Node) :
    cell.Like name? (node.mapChildren f) := by
  cases cell <;> cases node <;>
    first
    | exact like.elim
    | exact like
    | simpa [Node.mapChildren, Cell.Like] using like
    | skip
  rename_i args keywords _ args' keywords'
  have names : (keywords'.mapIdx fun i keyword => (keyword.1, f (args'.length + i + 1) keyword.2)).map (·.1) =
      keywords'.map (·.1) := by
    apply List.ext_getElem <;> simp
  exact ⟨like.1.trans List.length_mapIdx.symm, names ▸ like.2⟩

structure Renews (a : Arena) (below below' : List NodeId) : Prop where
  distinct : below'.Nodup
  known : ∀ id ∈ below', id ∈ below ∨ a.cells.size ≤ id

theorem renews_within (front back : List NodeId) {below below' : List NodeId} (distinct : (front ++ (below ++ back)).Nodup)
    (inside : ∀ id ∈ front ++ (below ++ back), id < a.cells.size) (renews : Renews a below below') :
    Renews a (front ++ (below ++ back)) (front ++ (below' ++ back)) := by
  obtain ⟨distinctFront, distinctRest, apart⟩ := List.nodup_append.mp distinct
  obtain ⟨_, distinctBack, apart'⟩ := List.nodup_append.mp distinctRest
  have old {id : NodeId} (member : id ∈ below') (small : id < a.cells.size) : id ∈ below :=
    (renews.known id member).resolve_right (Nat.not_le.mpr small)
  constructor
  · refine List.nodup_append.mpr ⟨distinctFront, List.nodup_append.mpr ⟨renews.distinct, distinctBack, ?_⟩, ?_⟩
    · rintro id first _ second rfl
      have small := inside id (List.mem_append_right _ (List.mem_append_right _ second))
      exact apart' id (old first small) id second rfl
    · rintro id first _ second rfl
      have small := inside id (List.mem_append_left _ first)
      rcases List.mem_append.mp second with changed | behind
      · exact apart id first id (List.mem_append_left _ (old changed small)) rfl
      · exact apart id first id (List.mem_append_right _ behind) rfl
  · intro id member
    simp only [List.mem_append] at member ⊢
    rcases member with first | changed | behind
    · exact .inl (.inl first)
    · exact (renews.known id changed).imp_left fun member => .inr (.inl member)
    · exact .inl (.inr (.inr behind))

structure Becomes (a b : Arena) (id : NodeId) (node node' : Node) : Prop where
  others : ∀ other cell, other ≠ id → a.cell? other = some cell → b.cell? other = some cell
  names : ∀ symbol name, a.symbols.name? symbol = some name → b.symbols.name? symbol = some name
  turned : ∀ cell below, a.cell? id = some cell → a.Holds cell.children node.children below → below.Nodup → id ∉ below →
    ∃ changed below', b.cell? id = some changed ∧ changed.Like b.symbols.name? node' ∧
      b.Holds changed.children node'.children below' ∧ Renews a below below'

theorem holds_inside (held : a.Holds ids nodes below) (member : id ∈ below) : id < a.cells.size := by
  obtain ⟨cell, found⟩ := holds_mem held member
  exact cell_size found

theorem becomes_apart (becomes : Becomes a b id node node') (held : a.Holds ids nodes below) (apart : id ∉ below) :
    b.Holds ids nodes below :=
  holds_mono held (fun other member cell found => becomes.others other cell (fun same => apart (same ▸ member)) found)
    becomes.names

def placed (i : Nat) (path : Path) (node' : Node) (nodes : List Node) : List Node :=
  nodes.mapIdx fun j child => if j = i then child.modifyAt (fun _ => node') path else child

theorem placed_zero (path : Path) (node' : Node) (node : Node) (nodes : List Node) :
    placed 0 path node' (node :: nodes) = node.modifyAt (fun _ => node') path :: nodes := by
  have same : nodes.mapIdx (fun _ child => child) = nodes := List.ext_getElem (by simp) (by simp)
  simp [placed, List.mapIdx_cons, same]

theorem placed_succ (i : Nat) (path : Path) (node' : Node) (node : Node) (nodes : List Node) :
    placed (i + 1) path node' (node :: nodes) = node :: placed i path node' nodes := by
  simp [placed, List.mapIdx_cons]

theorem holds_becomes (becomes : Becomes a b id node node') (held : a.Holds ids nodes below) (distinct : below.Nodup)
    (first : ids[i]? = some start) (leads : a.follow start path = some id)
    (place : (nodes[i]?.bind fun start => start.at? path) = some node) :
    ∃ below', b.Holds ids (placed i path node' nodes) below' ∧ Renews a below below' := by
  induction held generalizing i start path with
  | nil => cases first
  | @cons head cell tree ids below rest nodes found like under others ih ih' =>
      have inside (id : NodeId) (member : id ∈ head :: (below ++ rest)) : id < a.cells.size :=
        holds_inside (.cons found like under others) member
      obtain ⟨apart, distinctRest⟩ := List.nodup_cons.mp distinct
      obtain ⟨distinctUnder, distinctOthers, disjoint⟩ := List.nodup_append.mp distinctRest
      have same (other : head ≠ id) : b.cell? head = some cell := becomes.others head cell other found
      cases i with
      | succ i =>
          rw [List.getElem?_cons_succ] at first place
          have member : id ∈ rest := (mem_below_iff others).mpr ⟨start, List.mem_of_getElem? first, path, leads⟩
          have other : head ≠ id := fun same => apart (List.mem_append_right _ (same ▸ member))
          have kept := becomes_apart becomes under fun inside => disjoint id inside id member rfl
          obtain ⟨rest', held', renews⟩ := ih' distinctOthers first leads place
          rw [placed_succ]
          refine ⟨head :: (below ++ rest'), .cons (same other) (like_mono like becomes.names) kept held', ?_⟩
          have whole := renews_within (head :: below) [] (by simpa using distinct) (by simpa using inside) renews
          simpa using whole
      | zero =>
          obtain rfl : head = start := Option.some.inj first
          rw [List.getElem?_cons_zero, Option.bind_some] at place
          rw [placed_zero]
          have around {below' : List NodeId} (renews : Renews a below below') :
              Renews a (head :: (below ++ rest)) (head :: (below' ++ rest)) :=
            renews_within [head] rest distinct inside renews
          cases path with
          | nil =>
              cases leads
              cases place
              have kept := becomes_apart becomes others fun member => apart (List.mem_append_right _ member)
              obtain ⟨changed, below', here, like', held', renews⟩ :=
                becomes.turned cell below found under distinctUnder fun member => apart (List.mem_append_left _ member)
              exact ⟨id :: (below' ++ rest), .cons here like' held' kept, around renews⟩
          | cons k path =>
              rw [follow_cons found, Option.bind_eq_some_iff] at leads
              obtain ⟨child, childPlace, leads⟩ := leads
              rw [Node.at_cons] at place
              have member : id ∈ below := (mem_below_iff under).mpr ⟨child, List.mem_of_getElem? childPlace, path, leads⟩
              have other : head ≠ id := fun same => apart (List.mem_append_left _ (same ▸ member))
              have kept := becomes_apart becomes others fun inside => disjoint id member id inside rfl
              obtain ⟨below', held', renews⟩ := ih distinctUnder childPlace leads place
              refine ⟨head :: (below' ++ rest), .cons (same other) ?_ ?_ kept, around renews⟩
              · exact like_map_children (like_mono like becomes.names) _
              · rw [Node.modify_cons, Node.children_map]
                exact held'

section framed

variable {changed : Cell}

theorem holds_framed (framed : Framed a b id cell changed) (held : a.Holds ids nodes below) (apart : id ∉ below) :
    b.Holds ids nodes below :=
  holds_mono held (fun _ member _ found => framed_other framed (fun same => apart (same ▸ member)) found)
    fun _ _ found => framed.symbols ▸ found

theorem becomes_framed (framed : Framed a b id cell changed) (like : changed.Like a.symbols.name? node')
    (turned : ∀ below, b.Holds cell.children node.children below → below.Nodup → (∀ id ∈ below, id < a.cells.size) →
      ∃ below', b.Holds changed.children node'.children below' ∧ Renews a below below') : Becomes a b id node node' := by
  refine ⟨fun _ _ other found => framed_other framed other found, fun _ _ found => framed.symbols ▸ found, ?_⟩
  intro cell' below found held distinct apart
  cases found.symm.trans framed.was
  obtain ⟨below', held', renews⟩ := turned below (holds_framed framed held apart) distinct fun _ => holds_inside held
  exact ⟨changed, below', framed_here framed, framed.symbols ▸ like, held', renews⟩

theorem becomes_same (framed : Framed a b id cell changed) (like : changed.Like a.symbols.name? node')
    (same : changed.children = cell.children) (same' : node'.children = node.children) : Becomes a b id node node' := by
  refine becomes_framed framed like fun below held distinct _ => ⟨below, ?_, distinct, fun _ member => .inl member⟩
  rw [same, same']
  exact held

theorem becomes_swapped {test body orelse : NodeId} {test' body' orelse' : Node}
    (framed : Framed a b id (.ifExp test body orelse) (.ifExp test orelse body)) :
    Becomes a b id (.ifExp test' body' orelse') (.ifExp test' orelse' body') := by
  refine becomes_framed framed trivial fun below held distinct _ => ?_
  obtain ⟨below', held', moved⟩ :=
    @holds_swap b below [test] [body] [orelse] [] [test'] [body'] [orelse'] [] rfl rfl rfl held
  exact ⟨below', held', moved.nodup_iff.mpr distinct, fun _ member => .inl (moved.mem_iff.mp member)⟩

theorem becomes_cleared {keys values : List NodeId} {node : Node} (framed : Framed a b id (.dict keys values) (.dict [] [])) :
    Becomes a b id node (.dict [] []) :=
  becomes_framed framed rfl fun _ _ _ _ => ⟨[], .nil, List.nodup_nil, fun _ member => nomatch member⟩

theorem becomes_nullified {params : List Symbol} {defaults : List NodeId} {body : NodeId} {params' : List String}
    {defaults' : List Node} {body' : Node}
    (framed : Framed a b id (.lambda params defaults body) (.lambda params defaults a.cells.size))
    (like : (Cell.lambda params defaults body).Like a.symbols.name? (.lambda params' defaults' body')) :
    Becomes a b id (.lambda params' defaults' body') (.lambda params' defaults' (.constant .none)) := by
  refine becomes_framed framed like fun below held distinct inside => ?_
  obtain ⟨front, back, first, last, same, rfl, heldDefaults, heldBody⟩ := holds_split held
  obtain ⟨rfl, rfl⟩ := List.append_inj' same (holds_length heldBody)
  have fresh : b.Holds [a.cells.size] [.constant .none] (a.cells.size :: ([] ++ [])) :=
    .cons (framed_new framed 0) rfl .nil .nil
  refine ⟨first ++ [a.cells.size], holds_append heldDefaults fresh, ?_, fun other member => ?_⟩
  · refine List.nodup_append.mpr ⟨(List.nodup_append.mp distinct).1, List.nodup_singleton _, fun other member last single => ?_⟩
    rw [List.mem_singleton.mp single]
    exact Nat.ne_of_lt (inside other (List.mem_append_left _ member))
  · rcases List.mem_append.mp member with old | new
    · exact .inl (List.mem_append_left _ old)
    · exact .inr (Nat.le_of_eq (List.mem_singleton.mp new).symm)

end framed

end Mutagen.Arena
