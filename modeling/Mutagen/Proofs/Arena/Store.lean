import Mutagen.Node.Target
import Mutagen.Proofs.Arena.Holds

set_option autoImplicit false

namespace Mutagen.Arena

variable {a b c : Arena} {id : NodeId} {ids ids' below : List NodeId} {node target : Node} {nodes nodes' targets : List Node}
  {cell : Cell}

structure Within (a b : Arena) (ids : List NodeId) : Prop where
  root : b.root = a.root
  size : b.cells.size = a.cells.size
  symbols : b.symbols = a.symbols
  cells : ∀ id, id ∉ ids → b.cell? id = a.cell? id

theorem cell_update_same (found : a.cell? id = some cell) (changed : Cell) : (a.update id changed).cell? id = some changed := by
  simp [cell?, update, cell_size found]

theorem cell_update_other {other : NodeId} (different : other ≠ id) (changed : Cell) :
    (a.update id changed).cell? other = a.cell? other := by
  simp [cell?, update, Array.getElem?_setIfInBounds_ne (Ne.symm different)]

theorem within_update (a : Arena) (id : NodeId) (changed : Cell) : Within a (a.update id changed) [id] := by
  refine ⟨rfl, Array.size_setIfInBounds, rfl, fun other outside => ?_⟩
  exact cell_update_other (fun same => outside (List.mem_singleton.mpr same)) changed

theorem within_trans {front back : List NodeId} (first : Within a b front) (second : Within b c back) :
    Within a c (front ++ back) := by
  refine ⟨second.root.trans first.root, second.size.trans first.size, second.symbols.trans first.symbols, fun id outside => ?_⟩
  rw [List.mem_append, not_or] at outside
  exact (second.cells id outside.2).trans (first.cells id outside.1)

theorem within_subset {more : List NodeId} (within : Within a b ids) (subset : ids ⊆ more) : Within a b more :=
  ⟨within.root, within.size, within.symbols, fun id outside => within.cells id fun member => outside (subset member)⟩

theorem holds_within (held : Holds a ids nodes below) (within : Within a b ids') (apart : ∀ id ∈ below, id ∉ ids') :
    Holds b ids nodes below :=
  holds_mono held (fun id member _ found => (within.cells id (apart id member)).trans found)
    fun _ _ found => within.symbols ▸ found

def Marks (a : Arena) (marked : Option Arena) (ids : List NodeId) (bound : Option (List Node)) (below : List NodeId) : Prop :=
  match bound with
  | none => marked = none
  | some targets => ∃ b, marked = some b ∧ Holds b ids targets below ∧ Within a b below

theorem marks_leaf {changed : Cell} (found : a.cell? id = some cell) (run : a.store? id = some (a.update id changed))
    (like : changed.Like a.symbols.name? target) (under : Holds a changed.children target.children below)
    (apart : id ∉ below) : Marks a (a.store? id) [id] (some [target]) (id :: below) := by
  have within := within_update a id changed
  have under' := holds_within under within fun other member inside =>
    apart (List.mem_singleton.mp inside ▸ member)
  have held := Holds.cons (cell_update_same found changed) like under' .nil
  rw [List.append_nil] at held
  exact ⟨_, run, held, within_subset within (List.cons_subset_cons _ (List.nil_subset _))⟩

-- A tuple or a list is marked before its elements are.
theorem marks_elements {changed : Cell} {elements : List NodeId} (bind : List Node → Node) (found : a.cell? id = some cell)
    (run : a.store? id = elements.foldlM store? (a.update id changed)) (children : changed.children = elements)
    (like : ∀ targets, changed.Like a.symbols.name? (bind targets) ∧ (bind targets).children = targets) (apart : id ∉ below)
    (further : Marks (a.update id changed) (elements.foldlM store? (a.update id changed)) elements (Node.targets? nodes) below) :
    Marks a (a.store? id) [id] ((Node.targets? nodes).map fun targets => [bind targets]) (id :: below) := by
  cases bound : Node.targets? nodes with
  | none =>
      rw [bound] at further
      exact run.trans further
  | some targets =>
      rw [bound] at further
      obtain ⟨b, marked, held, within⟩ := further
      have here : b.cell? id = some changed := (within.cells id apart).trans (cell_update_same found changed)
      have whole : Holds b [id] [bind targets] (id :: (below ++ [])) := by
        refine .cons here ?_ ?_ .nil
        · rw [within.symbols]
          exact (like targets).1
        · rwa [children, (like targets).2]
      rw [List.append_nil] at whole
      exact ⟨b, run.trans marked, whole, within_trans (within_update a id changed) within⟩

theorem marks_one (found : a.cell? id = some cell) (like : cell.Like a.symbols.name? node)
    (under : Holds a cell.children node.children below) (apart : id ∉ below)
    (further : ∀ b, Within a b [id] →
      Marks b (cell.children.foldlM store? b) cell.children (Node.targets? node.children) below) :
    Marks a (a.store? id) [id] (node.target?.map ([·])) (id :: below) := by
  have run := store?.eq_1 a id
  rw [found] at run
  cases node with
  | name | attr =>
      cases cell <;> try exact like.elim
      exact marks_leaf found run ⟨like.1, rfl⟩ under apart
  | subscript =>
      cases cell <;> try exact like.elim
      exact marks_leaf found run rfl under apart
  | tuple elements ctx =>
      cases cell <;> try exact like.elim
      have marked := marks_elements (.tuple · .store) found run rfl (fun _ => ⟨rfl, rfl⟩) apart
        (further _ (within_update a id _))
      rwa [Node.target?, Option.map_map]
  | list elements ctx =>
      cases cell <;> try exact like.elim
      have marked := marks_elements (.list · .store) found run rfl (fun _ => ⟨rfl, rfl⟩) apart
        (further _ (within_update a id _))
      rwa [Node.target?, Option.map_map]
  | _ => cases cell <;> first | exact like.elim | exact run

theorem marks_all (held : Holds a ids nodes below) (distinct : below.Nodup) :
    ∀ b, (∀ id ∈ below, b.cell? id = a.cell? id) → b.symbols = a.symbols →
      Marks b (ids.foldlM store? b) ids (Node.targets? nodes) below := by
  induction held with
  | nil => exact fun b _ _ => ⟨b, rfl, .nil, rfl, rfl, rfl, fun _ _ => rfl⟩
  | @cons id cell node ids below rest nodes found like under others ih ih' =>
      intro b agree names
      obtain ⟨apart, distinct⟩ := List.nodup_cons.mp distinct
      obtain ⟨distinctUnder, distinctOthers, disjoint⟩ := List.nodup_append.mp distinct
      have first : Marks b (b.store? id) [id] (node.target?.map ([·])) (id :: below) := by
        refine marks_one ((agree id (by simp)).trans found) (names ▸ like) ?_ ?_ ?_
        · exact holds_mono under (fun other member cell found => (agree other (by simp [member])).trans found)
            fun _ _ found => names ▸ found
        · exact fun member => apart (List.mem_append_left _ member)
        · intro c within
          refine ih distinctUnder c (fun other member => ?_) (within.symbols.trans names)
          have elsewhere : other ≠ id := fun same => apart (List.mem_append_left _ (same ▸ member))
          exact (within.cells other (by simpa using elsewhere)).trans (agree other (by simp [member]))
      rw [List.foldlM_cons, Node.targets?]
      cases bound : node.target? with
      | none =>
          rw [bound] at first
          rw [show b.store? id = none from first]
          rfl
      | some target =>
          rw [bound] at first
          obtain ⟨c, marked, held, within⟩ := first
          have beside : ∀ other ∈ rest, other ∉ id :: below := by
            intro other member inside
            rcases List.mem_cons.mp inside with rfl | inUnder
            · exact apart (List.mem_append_right _ member)
            · exact disjoint other inUnder other member rfl
          have second := ih' distinctOthers c (fun other member => (within.cells other (beside other member)).trans
            (agree other (by simp [member]))) (within.symbols.trans names)
          rw [marked, Option.bind_eq_bind, Option.bind_some]
          cases further : Node.targets? nodes with
          | none =>
              rw [further] at second
              exact second
          | some targets =>
              rw [further] at second
              obtain ⟨d, marked', held', within'⟩ := second
              have kept := holds_within held within' fun other inside member => beside other member inside
              exact ⟨d, marked', holds_append kept held', within_trans within within'⟩

theorem grown_store (grown : Grown a b (ids ++ ids') (nodes ++ nodes')) (length : ids.length = nodes.length) :
    match Node.targets? nodes with
    | none => ids.foldlM store? b = none
    | some targets => ∃ c, ids.foldlM store? b = some c ∧ Grown a c (ids ++ ids') (targets ++ nodes') ∧ c.symbols = b.symbols := by
  obtain ⟨below, held, distinct, fresh⟩ := grown.held
  obtain ⟨_, _, front, back, same, rfl, heldFront, heldBack⟩ := holds_split held
  obtain ⟨rfl, rfl⟩ := List.append_inj same (length.symm.trans (holds_length heldFront))
  obtain ⟨distinctFront, _, disjoint⟩ := List.nodup_append.mp distinct
  have marks := marks_all heldFront distinctFront b (fun _ _ => rfl) rfl
  cases bound : Node.targets? nodes with
  | none => rwa [bound] at marks
  | some targets =>
      rw [bound] at marks
      obtain ⟨c, marked, heldTargets, within⟩ := marks
      have kept := holds_within heldBack within fun id inBack inFront => disjoint id inFront id inBack rfl
      refine ⟨c, marked, ⟨?_, front ++ back, holds_append heldTargets kept, distinct, fresh⟩, within.symbols⟩
      refine ⟨within.root.trans grown.grows.root, fun id cell found => ?_, fun symbol name found => ?_,
        fun id symbol outside used => ?_⟩
      · have old : id ∉ front := fun inFront =>
          absurd (cell_size found) (Nat.not_lt.mpr (fresh id (List.mem_append_left _ inFront)))
        exact (within.cells id old).trans (grown.grows.cells id cell found)
      · rw [within.symbols]
        exact grown.grows.names symbol name found
      · by_cases inFront : id ∈ front
        · exact holds_known heldTargets inFront used
        · rw [identifier?, within.cells id inFront] at used
          rw [within.symbols]
          exact grown.grows.known id symbol outside used

end Mutagen.Arena
