import Mathlib.Algebra.Order.BigOperators.Group.List
import Mathlib.Algebra.Order.Group.Nat
import Mutagen.Node.Basic
import Mutagen.Proofs.Token.Spelling

set_option autoImplicit false

namespace Mutagen

-- Integers that the lexer reads, and floats that have a spelling.
def Constant.IsWritable : Constant → Prop
  | .int value => value < Number.bound
  | .float value => value.isNaN = false ∧ value.isNegative = false
  | _ => True

instance : DecidablePred Constant.IsWritable
  | .int value => inferInstanceAs (Decidable (value < Number.bound))
  | .float value => inferInstanceAs (Decidable (value.isNaN = false ∧ value.isNegative = false))
  | .none | .bool _ | .str _ => isTrue trivial

namespace Node

theorem child_size {node child : Node} (h : child ∈ node.children) : sizeOf child < sizeOf node := by
  have member : sizeOf child ∈ node.children.map sizeOf := List.mem_map_of_mem h
  have part := List.le_sum_of_mem member
  have whole := children_size node
  omega

theorem node_induction {motive : Node → Prop}
    (step : ∀ node, (∀ child ∈ node.children, motive child) → motive node) (node : Node) : motive node := by
  induction size : sizeOf node using Nat.strongRecOn generalizing node with
  | _ n ih =>
      subst size
      exact step node fun child member => ih (sizeOf child) (child_size member) child rfl

-- `P` of a node and of every node below it.
inductive Everywhere (P : Node → Prop) : Node → Prop where
  | node {node : Node} (here : P node) (below : ∀ child ∈ node.children, Everywhere P child) :
      Everywhere P node

namespace Everywhere

variable {P Q : Node → Prop} {node : Node}

theorem here (h : Everywhere P node) : P node := by
  cases h with
  | node here _ => exact here

theorem child (h : Everywhere P node) : ∀ child ∈ node.children, Everywhere P child := by
  cases h with
  | node _ below => exact below

theorem leaf (here : P node) (none : node.children = []) : Everywhere P node :=
  .node here fun child member => by rw [none] at member; cases member

theorem only {child : Node} (here : P node) (single : node.children = [child]) (below : Everywhere P child) :
    Everywhere P node :=
  .node here fun other member => by
    rw [single] at member
    exact List.mem_singleton.mp member ▸ below

theorem imp (h : Everywhere P node) (step : ∀ node, P node → Q node) : Everywhere Q node := by
  induction h with
  | node here _ ih => exact .node (step _ here) ih

end Everywhere

def everywhere (p : Node → Bool) (node : Node) : Bool :=
  p node && node.children.attach.all fun child => everywhere p child.1
termination_by sizeOf node
decreasing_by exact child_size child.2

theorem everywhere_iff {P : Node → Prop} [DecidablePred P] (node : Node) :
    everywhere (fun node => decide (P node)) node = true ↔ Everywhere P node := by
  induction node using node_induction with
  | step node ih =>
      rw [everywhere, Bool.and_eq_true, decide_eq_true_iff, List.all_eq_true]
      constructor
      · rintro ⟨here, below⟩
        exact .node here fun child member => (ih child member).mp (below ⟨child, member⟩ (List.mem_attach _ _))
      · exact fun h => ⟨h.here, fun child _ => (ih child.1 child.2).mpr (h.child child.1 child.2)⟩

instance {P : Node → Prop} [DecidablePred P] : DecidablePred (Everywhere P) :=
  fun node => decidable_of_iff _ (everywhere_iff node)

-- Where a node of this form can stand. `index` is a tuple that only an index may be, since one of
-- its elements is a slice; `single` is a target that an augmented assignment takes.
inductive Place where
  | root
  | statement
  | slice
  | index
  | value
  | target
  | single
deriving DecidableEq, Repr

def isSlice : Node → Bool
  | .slice .. => true
  | _ => false

def place : Node → Place
  | .program _ => .root
  | .functionDef .. | .returnStmt _ | .assign .. | .augAssign .. | .forStmt .. | .whileStmt ..
  | .ifStmt .. | .assertStmt .. | .raiseStmt _ | .exprStmt _ | .passStmt | .breakStmt
  | .continueStmt => .statement
  | .slice .. => .slice
  | .tuple elements .load => if elements.any isSlice then .index else .value
  | .tuple _ .store | .list _ .store => .target
  | .attr _ _ .store | .subscript _ _ .store | .name _ .store => .single
  | _ => .value

def isStatement : Node → Bool
  | .functionDef .. | .returnStmt _ | .assign .. | .augAssign .. | .forStmt .. | .whileStmt ..
  | .ifStmt .. | .assertStmt .. | .raiseStmt _ | .exprStmt _ | .passStmt | .breakStmt
  | .continueStmt => true
  | _ => false

-- An expression never stands as a statement, in whichever context it is.
theorem statement_form {node : Node} (h : node.place = .statement) : node.isStatement = true := by
  cases node with
  | tuple elements ctx =>
      cases ctx with
      | load => rw [place] at h; split at h <;> cases h
      | store => cases h
  | attr _ _ ctx | subscript _ _ ctx | name _ ctx | list _ ctx => cases ctx <;> cases h
  | program | boolOp | binOp | unaryOp | lambda | ifExp | dict | set | compare | call | constant | slice => cases h
  | _ => rfl

theorem slice_place (node : Node) : node.place = .slice ↔ node.isSlice = true := by
  cases node with
  | tuple elements ctx =>
      cases ctx with
      | load =>
          rw [place]
          split <;> simp [isSlice]
      | store => simp [place, isSlice]
  | list _ ctx | attr _ _ ctx | subscript _ _ ctx | name _ ctx => cases ctx <;> simp [place, isSlice]
  | _ => simp [place, isSlice]

theorem whole_value {node : Node} (h : node.place = .value) : node.isSlice = false := by
  cases part : node.isSlice with
  | false => rfl
  | true =>
      rw [(slice_place node).mpr part] at h
      cases h

def targetPlaces : List Place := [.target, .single]

def indexPlaces : List Place := [.value, .slice, .index]

def AllIn (places : List Place) (nodes : List Node) : Prop := ∀ node ∈ nodes, node.place ∈ places

def AreValues (nodes : List Node) : Prop := AllIn [.value] nodes

def AreStatements (nodes : List Node) : Prop := AllIn [.statement] nodes

instance (places : List Place) : DecidablePred (AllIn places) :=
  fun nodes => inferInstanceAs (Decidable (∀ node ∈ nodes, node.place ∈ places))

instance : DecidablePred AreValues := inferInstanceAs (DecidablePred (AllIn [.value]))

instance : DecidablePred AreStatements := inferInstanceAs (DecidablePred (AllIn [.statement]))

structure ParamsShaped (params : List String) (defaults : List Node) : Prop where
  identifiers : ∀ id ∈ params, isIdentifier id = true
  distinct : params.Nodup
  fit : defaults.length ≤ params.length
  values : AreValues defaults

instance (params : List String) (defaults : List Node) : Decidable (ParamsShaped params defaults) :=
  decidable_of_iff ((∀ id ∈ params, isIdentifier id = true) ∧ params.Nodup ∧ defaults.length ≤ params.length ∧
      AreValues defaults)
    ⟨fun ⟨identifiers, distinct, fit, values⟩ => ⟨identifiers, distinct, fit, values⟩,
      fun h => ⟨h.identifiers, h.distinct, h.fit, h.values⟩⟩

structure KeywordsShaped (keywords : List (String × Node)) : Prop where
  identifiers : ∀ keyword ∈ keywords, isIdentifier keyword.1 = true
  distinct : (keywords.map (·.1)).Nodup
  values : AreValues (keywords.map (·.2))

instance (keywords : List (String × Node)) : Decidable (KeywordsShaped keywords) :=
  decidable_of_iff ((∀ keyword ∈ keywords, isIdentifier keyword.1 = true) ∧ (keywords.map (·.1)).Nodup ∧
      AreValues (keywords.map (·.2)))
    ⟨fun ⟨identifiers, distinct, values⟩ => ⟨identifiers, distinct, values⟩,
      fun h => ⟨h.identifiers, h.distinct, h.values⟩⟩

def Shaped : Node → Prop
  | .program body => AreStatements body
  | .functionDef id params defaults body =>
      isIdentifier id = true ∧ ParamsShaped params defaults ∧ AreStatements body
  | .returnStmt value => AreValues value.toList
  | .assign targets value => targets ≠ [] ∧ AllIn targetPlaces targets ∧ value.place = .value
  | .augAssign target _ value => target.place = .single ∧ value.place = .value
  | .forStmt target iterable body =>
      target.place ∈ targetPlaces ∧ iterable.place = .value ∧ AreStatements body
  | .whileStmt test body => test.place = .value ∧ AreStatements body
  | .ifStmt test body orelse => test.place = .value ∧ AreStatements body ∧ AreStatements orelse
  | .assertStmt test message => test.place = .value ∧ AreValues message.toList
  | .raiseStmt exception => AreValues exception.toList
  | .exprStmt value => value.place = .value
  | .passStmt | .breakStmt | .continueStmt => True
  | .boolOp _ values => 2 ≤ values.length ∧ AreValues values
  | .binOp left _ right => left.place = .value ∧ right.place = .value
  | .unaryOp _ operand => operand.place = .value
  | .lambda params defaults body => ParamsShaped params defaults ∧ body.place = .value
  | .ifExp test body orelse => test.place = .value ∧ body.place = .value ∧ orelse.place = .value
  | .dict keys values => keys.length = values.length ∧ AreValues keys ∧ AreValues values
  | .set elements => elements ≠ [] ∧ AreValues elements
  | .compare left ops comparators =>
      ops ≠ [] ∧ ops.length = comparators.length ∧ left.place = .value ∧ AreValues comparators
  | .call function args keywords =>
      function.place = .value ∧ AreValues args ∧ KeywordsShaped keywords
  | .constant value => value.IsWritable
  | .attr value id _ => value.place = .value ∧ isIdentifier id = true
  | .subscript value index _ => value.place = .value ∧ index.place ∈ indexPlaces
  | .name id _ => isIdentifier id = true
  | .list elements .load => AreValues elements
  | .tuple elements .load => AllIn [.value, .slice] elements
  | .list elements .store | .tuple elements .store => AllIn targetPlaces elements
  | .slice lower upper step => AreValues (lower.toList ++ upper.toList ++ step.toList)

instance : DecidablePred Shaped := fun node => by
  cases node with
  | list _ ctx | tuple _ ctx => cases ctx <;> dsimp only [Shaped] <;> infer_instance
  | _ => dsimp only [Shaped]; infer_instance

theorem root_program {root : Node} (h : root.place = .root) : ∃ body, root = .program body := by
  cases root with
  | program body => exact ⟨body, rfl⟩
  | tuple elements ctx =>
      cases ctx with
      | load => rw [place] at h; split at h <;> cases h
      | store => cases h
  | attr _ _ ctx | subscript _ _ ctx | name _ ctx | list _ ctx => cases ctx <;> cases h
  | _ => cases h

-- A parsed block may be empty, but a block without statements has no spelling of its own.
def Filled : Node → Prop
  | .functionDef _ _ _ body | .forStmt _ _ body | .whileStmt _ body | .ifStmt _ body _ => body ≠ []
  | _ => True

instance : DecidablePred Filled := fun node => by
  cases node <;> dsimp only [Filled] <;> infer_instance

structure WellShaped (root : Node) : Prop where
  program : root.place = .root
  shaped : Everywhere Shaped root

structure WellFormed (root : Node) : Prop extends WellShaped root where
  filled : Everywhere Filled root

instance : DecidablePred WellFormed := fun root =>
  decidable_of_iff (root.place = .root ∧ Everywhere Shaped root ∧ Everywhere Filled root)
    ⟨fun ⟨top, shaped, filled⟩ => ⟨⟨top, shaped⟩, filled⟩, fun h => ⟨h.program, h.shaped, h.filled⟩⟩

end Node

end Mutagen
