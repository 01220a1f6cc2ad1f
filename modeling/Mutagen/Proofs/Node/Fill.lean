import Mutagen.Node.Render
import Mutagen.Proofs.Node.Paths

set_option autoImplicit false

namespace Mutagen.Node

def orPass : List Node → List Node
  | [] => [.passStmt]
  | body => body

mutual
-- The statement with a `pass` in its empty blocks; expressions have none.
def fill : Node → Node
  | .program body => .program (fillAll body)
  | .functionDef id params defaults body => .functionDef id params defaults (orPass (fillAll body))
  | .forStmt target iterable body => .forStmt target iterable (orPass (fillAll body))
  | .whileStmt test body => .whileStmt test (orPass (fillAll body))
  | .ifStmt test body orelse => .ifStmt test (orPass (fillAll body)) (fillAll orelse)
  | node => node

def fillAll : List Node → List Node
  | [] => []
  | node :: rest => fill node :: fillAll rest
end

theorem fill_all_eq (nodes : List Node) : fillAll nodes = nodes.map fill := by
  induction nodes with
  | nil => rfl
  | cons node rest ih => rw [fillAll, ih, List.map_cons]

theorem lines_all_fill {nodes : List Node} (same : ∀ node ∈ nodes, lines (fill node) = lines node) :
    linesAll (fillAll nodes) = linesAll nodes := by
  rw [fill_all_eq, lines_all_eq, lines_all_eq, List.flatMap_map]
  exact List.flatMap_congr same

theorem block_fill {body : List Node} (same : ∀ node ∈ body, lines (fill node) = lines node) :
    block (orPass (fillAll body)) (linesAll (orPass (fillAll body))) = block body (linesAll body) := by
  cases body with
  | nil => rfl
  | cons node rest =>
      have kept := lines_all_fill same
      have filled : orPass (fillAll (node :: rest)) = fillAll (node :: rest) := rfl
      rw [filled, kept]
      rfl

theorem else_fill {orelse : List Node} (same : ∀ node ∈ orelse, lines (fill node) = lines node) :
    elseBranch (fillAll orelse) (linesAll (fillAll orelse)) = elseBranch orelse (linesAll orelse) := by
  rw [lines_all_fill same]
  match orelse with
  | [] => rfl
  | first :: second :: rest => cases first <;> rfl
  | [only] => cases only <;> rfl

theorem lines_fill (node : Node) : lines (fill node) = lines node := by
  induction node using node_induction with
  | step node ih =>
      cases node with
      | program body => exact lines_all_fill ih
      | functionDef id params defaults body =>
          have kept := block_fill fun node member => ih node (List.mem_append_right defaults member)
          rw [fill, lines, kept, lines]
      | forStmt target iterable body =>
          have kept := block_fill fun node member => ih node (.tail _ (.tail _ member))
          rw [fill, lines, kept, lines]
      | whileStmt test body =>
          have kept := block_fill fun node member => ih node (.tail _ member)
          rw [fill, lines, kept, lines]
      | ifStmt test body orelse =>
          have kept := block_fill fun node member => ih node (.tail _ (List.mem_append_left orelse member))
          have others := else_fill fun node member => ih node (.tail _ (List.mem_append_right body member))
          rw [fill, lines, kept, others, lines]
      | _ => rfl

theorem render_fill (root : Node) : render (fill root) = render root := by
  rw [render, lines_fill, render]

theorem fill_place (node : Node) : (fill node).place = node.place := by
  cases node <;> rfl

theorem fill_all_statements {nodes : List Node} (h : AreStatements nodes) : AreStatements (fillAll nodes) := by
  rw [fill_all_eq, AreStatements, AllIn, List.forall_mem_map]
  intro node member
  rw [fill_place]
  exact h node member

theorem or_pass_in {P : Node → Prop} {body : List Node} (pass : P .passStmt) (h : ∀ node ∈ body, P node) :
    ∀ node ∈ orPass body, P node := by
  cases body with
  | nil => exact List.forall_mem_singleton.mpr pass
  | cons node rest => exact h

theorem fill_all_in {P : Node → Prop} {nodes : List Node} (h : ∀ node ∈ nodes, P (fill node)) :
    ∀ node ∈ fillAll nodes, P node := by
  rw [fill_all_eq, List.forall_mem_map]
  exact h

theorem block_statements {body : List Node} (h : AreStatements body) : AreStatements (orPass (fillAll body)) :=
  or_pass_in (List.mem_singleton.mpr rfl) (fill_all_statements h)

theorem pass_shaped : Everywhere Shaped .passStmt := .leaf trivial rfl

theorem fill_shaped {node : Node} (h : Everywhere Shaped node) : Everywhere Shaped (fill node) := by
  induction h with
  | @node node here below ih =>
      cases node with
      | program body => exact .node (fill_all_statements here) (fill_all_in ih)
      | functionDef id params defaults body =>
          refine .node ⟨here.1, here.2.1, block_statements here.2.2⟩ (List.forall_mem_append.mpr ⟨?_, ?_⟩)
          · exact (List.forall_mem_append.mp below).1
          · exact or_pass_in pass_shaped (fill_all_in (List.forall_mem_append.mp ih).2)
      | forStmt target iterable body =>
          obtain ⟨first, second, rest⟩ := here
          refine .node ⟨first, second, block_statements rest⟩ ?_
          have parts := List.forall_mem_cons.mp below
          have inner := fun node member => ih node (.tail _ (.tail _ member))
          exact List.forall_mem_cons.mpr ⟨parts.1, List.forall_mem_cons.mpr
            ⟨(List.forall_mem_cons.mp parts.2).1, or_pass_in pass_shaped (fill_all_in inner)⟩⟩
      | whileStmt test body =>
          refine .node ⟨here.1, block_statements here.2⟩ (List.forall_mem_cons.mpr ⟨below _ (.head _), ?_⟩)
          exact or_pass_in pass_shaped (fill_all_in fun node member => ih node (.tail _ member))
      | ifStmt test body orelse =>
          refine .node ⟨here.1, block_statements here.2.1, fill_all_statements here.2.2⟩
            (List.forall_mem_cons.mpr ⟨below _ (.head _), List.forall_mem_append.mpr ⟨?_, ?_⟩⟩)
          · exact or_pass_in pass_shaped
              (fill_all_in fun node member => ih node (.tail _ (List.mem_append_left orelse member)))
          · exact fill_all_in fun node member => ih node (.tail _ (List.mem_append_right body member))
      | _ => exact .node here below

-- Below a node without blocks only expressions stand, and these have no blocks either.
def expressionPlaces : List Place := [.value, .slice, .index, .target, .single]

def hasBlocks : Node → Bool
  | .program _ | .functionDef .. | .forStmt .. | .whileStmt .. | .ifStmt .. => true
  | _ => false

section
variable {places : List Place} {nodes : List Node} {node : Node}

theorem inside_value (h : node.place = .value) : node.place ∈ expressionPlaces := by
  rw [h]
  decide

theorem inside_values (h : AreValues nodes) : AllIn expressionPlaces nodes :=
  fun node member => inside_value (List.mem_singleton.mp (h node member))

theorem inside_places (h : AllIn places nodes) (part : ∀ place ∈ places, place ∈ expressionPlaces) :
    AllIn expressionPlaces nodes :=
  fun node member => part node.place (h node member)

theorem inside_cons (first : node.place ∈ expressionPlaces) (rest : AllIn expressionPlaces nodes) :
    AllIn expressionPlaces (node :: nodes) :=
  List.forall_mem_cons.mpr ⟨first, rest⟩

theorem inside_append {more : List Node} (first : AllIn expressionPlaces nodes) (rest : AllIn expressionPlaces more) :
    AllIn expressionPlaces (nodes ++ more) :=
  List.forall_mem_append.mpr ⟨first, rest⟩

theorem inside_single (h : node.place = .value) : AllIn expressionPlaces [node] :=
  List.forall_mem_singleton.mpr (inside_value h)

theorem inside_nil : AllIn expressionPlaces [] := fun node none => by cases none

theorem below_plain (h : Shaped node) (plain : node.hasBlocks = false) : AllIn expressionPlaces node.children := by
  cases node with
  | program | functionDef | forStmt | whileStmt | ifStmt => cases plain
  | passStmt | breakStmt | continueStmt | constant _ | name _ _ => exact inside_nil
  | returnStmt value | raiseStmt value => exact inside_values h
  | assign targets value => exact inside_append (inside_places h.2.1 (by decide)) (inside_single h.2.2)
  | augAssign target op value =>
      have first : target.place ∈ expressionPlaces := by
        rw [h.1]
        decide
      exact inside_cons first (inside_single h.2)
  | assertStmt test message => exact inside_cons (inside_value h.1) (inside_values h.2)
  | exprStmt value | unaryOp op value => exact inside_single h
  | boolOp op values => exact inside_values h.2
  | binOp left op right => exact inside_cons (inside_value h.1) (inside_single h.2)
  | lambda params defaults body => exact inside_append (inside_values h.1.values) (inside_single h.2)
  | ifExp test body orelse =>
      exact inside_cons (inside_value h.1) (inside_cons (inside_value h.2.1) (inside_single h.2.2))
  | dict keys values => exact inside_append (inside_values h.2.1) (inside_values h.2.2)
  | set elements => exact inside_values h.2
  | compare left ops comparators => exact inside_cons (inside_value h.2.2.1) (inside_values h.2.2.2)
  | call function args keywords =>
      exact inside_cons (inside_value h.1) (inside_append (inside_values h.2.1) (inside_values h.2.2.values))
  | attr value id ctx => exact inside_single h.1
  | subscript value index ctx =>
      have part : ∀ place ∈ indexPlaces, place ∈ expressionPlaces := by decide
      exact inside_cons (inside_value h.1) (inside_cons (part _ h.2) inside_nil)
  | list elements ctx =>
      cases ctx with
      | load => exact inside_values h
      | store => exact inside_places h (by decide)
  | tuple elements ctx =>
      cases ctx with
      | load => exact inside_places h (by decide)
      | store => exact inside_places h (by decide)
  | slice lower upper step => exact inside_values h

theorem statement_outside : Place.statement ∉ expressionPlaces := by decide

theorem root_outside : Place.root ∉ expressionPlaces := by decide

theorem inside_plain (h : node.place ∈ expressionPlaces) : node.hasBlocks = false := by
  cases node with
  | program => exact absurd h root_outside
  | functionDef | forStmt | whileStmt | ifStmt => exact absurd h statement_outside
  | _ => rfl

theorem plain_filled (plain : node.hasBlocks = false) : Filled node := by
  cases node with
  | program | functionDef | forStmt | whileStmt | ifStmt => cases plain
  | _ => trivial

theorem expression_filled (h : Everywhere Shaped node) (inside : node.place ∈ expressionPlaces) :
    Everywhere Filled node := by
  induction h with
  | node here below ih =>
      have plain := inside_plain inside
      exact .node (plain_filled plain) fun child member => ih child member (below_plain here plain child member)

theorem plain_everywhere (h : Everywhere Shaped node) (plain : node.hasBlocks = false) : Everywhere Filled node :=
  .node (plain_filled plain) fun child member => expression_filled (h.child child member) (below_plain h.here plain child member)

theorem values_filled (h : ∀ node ∈ nodes, Everywhere Shaped node) (values : AreValues nodes) :
    ∀ node ∈ nodes, Everywhere Filled node :=
  fun node member => expression_filled (h node member) (inside_values values node member)

theorem or_pass_ne_nil (body : List Node) : orPass body ≠ [] := by
  cases body <;> exact List.cons_ne_nil _ _

theorem pass_filled : Everywhere Filled .passStmt := .leaf trivial rfl

theorem fill_filled (h : Everywhere Shaped node) : Everywhere Filled (fill node) := by
  induction h with
  | @node node here below ih =>
      cases node with
      | program body => exact .node trivial (fill_all_in ih)
      | functionDef id params defaults body =>
          obtain ⟨first, _⟩ := List.forall_mem_append.mp below
          have inner := (List.forall_mem_append.mp ih).2
          exact .node (or_pass_ne_nil _) (List.forall_mem_append.mpr
            ⟨values_filled first here.2.1.values, or_pass_in pass_filled (fill_all_in inner)⟩)
      | forStmt target iterable body =>
          have part : ∀ place ∈ targetPlaces, place ∈ expressionPlaces := by decide
          have first := expression_filled (below target (.head _)) (part _ here.1)
          have second := expression_filled (below iterable (.tail _ (.head _))) (inside_value here.2.1)
          have inner := fun node member => ih node (.tail _ (.tail _ member))
          exact .node (or_pass_ne_nil _) (List.forall_mem_cons.mpr
            ⟨first, List.forall_mem_cons.mpr ⟨second, or_pass_in pass_filled (fill_all_in inner)⟩⟩)
      | whileStmt test body =>
          have first := expression_filled (below test (.head _)) (inside_value here.1)
          have inner := fun node member => ih node (.tail _ member)
          exact .node (or_pass_ne_nil _) (List.forall_mem_cons.mpr
            ⟨first, or_pass_in pass_filled (fill_all_in inner)⟩)
      | ifStmt test body orelse =>
          have first := expression_filled (below test (.head _)) (inside_value here.1)
          obtain ⟨inner, others⟩ := List.forall_mem_append.mp fun node member => ih node (.tail _ member)
          exact .node (or_pass_ne_nil _) (List.forall_mem_cons.mpr ⟨first, List.forall_mem_append.mpr
            ⟨or_pass_in pass_filled (fill_all_in inner), fill_all_in others⟩⟩)
      | _ => exact plain_everywhere (.node here below) rfl

theorem fill_all_self (same : ∀ node ∈ nodes, fill node = node) : fillAll nodes = nodes := by
  have kept : nodes.map fill = nodes.map id := List.map_congr_left same
  rw [fill_all_eq, kept, List.map_id]

theorem or_pass_self (filled : nodes ≠ []) : orPass nodes = nodes := by
  cases nodes with
  | nil => exact absurd rfl filled
  | cons => rfl

theorem fill_self (h : Everywhere Filled node) : fill node = node := by
  induction h with
  | @node node here below ih =>
      cases node with
      | program body =>
          have inner : ∀ node ∈ body, fill node = node := ih
          rw [fill, fill_all_self inner]
      | functionDef id params defaults body =>
          rw [fill, fill_all_self (List.forall_mem_append.mp ih).2, or_pass_self here]
      | forStmt target iterable body =>
          rw [fill, fill_all_self fun node member => ih node (.tail _ (.tail _ member)), or_pass_self here]
      | whileStmt test body =>
          rw [fill, fill_all_self fun node member => ih node (.tail _ member), or_pass_self here]
      | ifStmt test body orelse =>
          obtain ⟨inner, others⟩ := List.forall_mem_append.mp fun node member => ih node (.tail _ member)
          rw [fill, fill_all_self inner, fill_all_self others, or_pass_self here]
      | _ => rfl

end

end Mutagen.Node
