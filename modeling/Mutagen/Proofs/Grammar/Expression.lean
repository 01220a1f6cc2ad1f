import Mutagen.Proofs.Grammar.Operators

set_option autoImplicit false

namespace Mutagen.Grammar

open Mutagen.Parser Mutagen.Node

theorem opens_starts {level : Precedence} {text : List Char} {kinds : List Token.Kind} (h : Opens level text kinds) :
    Starts level kinds := by
  obtain ⟨first, _, more, _, same, begins⟩ := h
  exact ⟨first, more, same, begins⟩

-- What the induction carries: how a node is read where it may stand.
structure Reading (node : Node) : Prop where
  value : node.place = .value → Readable node
  item : node.place ∈ [Place.value, .slice] → Indexable node
  index : node.place ∈ indexPlaces → ReadsIndex node

variable {node : Node}

theorem reading_value (shaped : Everywhere Shaped node) (ih : ∀ child ∈ node.children, child.place = .value → Readable child)
    (index : ∀ child ∈ node.children, child.place ∈ indexPlaces → ReadsIndex child) (stands : node.place = .value) :
    Readable node := by
  have starts := opens_starts (spell_opens node shaped (by rw [stands]; decide))
  have here := shaped.here
  cases node with
  | boolOp op values =>
      exact readable_bool starts here.1 fun x member => ih x member (by simpa using here.2 x member)
  | binOp left op right =>
      have first := ih left (by simp [children]) here.1
      have second := ih right (by simp [children]) here.2
      by_cases power : op = .pow
      · subst power
        exact readable_power starts first second
      · exact readable_grouped power starts first second
  | unaryOp op operand => exact readable_unary starts (ih operand (by simp [children]) here)
  | lambda params defaults body =>
      obtain ⟨shape, result⟩ := here
      refine readable_lambda starts shape.fit shape.distinct (fun x member => ?_) (ih body (by simp [children]) result)
      exact ih x (by simp [children, member]) (by simpa using shape.values x member)
  | ifExp test body orelse =>
      exact readable_if starts (ih test (by simp [children]) here.1) (ih body (by simp [children]) here.2.1)
        (ih orelse (by simp [children]) here.2.2)
  | dict keys values =>
      refine readable_atom starts rfl fun m rest _ => reads_dict here.1 (fun x member => ih x member ?_) m rest
      rcases List.mem_append.mp member with key | value
      · simpa using here.2.1 x key
      · simpa using here.2.2 x value
  | set elements =>
      cases elements with
      | nil => exact absurd rfl here.1
      | cons first others =>
          refine readable_atom starts rfl fun m rest _ => reads_set (fun x member => ih x member ?_) m rest
          simpa using here.2 x member
  | compare left ops comparators =>
      obtain ⟨some, same, first, others⟩ := here
      refine readable_compare starts some same fun x member => ih x member ?_
      rcases List.mem_cons.mp member with rfl | member
      · exact first
      · simpa using others x member
  | call function args keywords =>
      obtain ⟨callee, values, shape⟩ := here
      refine readable_call starts (ih function (by simp [children]) callee) shape.distinct fun x member => ?_
      refine ih x (List.mem_cons_of_mem _ member) ?_
      rcases List.mem_append.mp member with value | keyword
      · simpa using values x value
      · simpa using shape.values x keyword
  | constant value => exact readable_atom starts rfl fun m rest stops => reads_constant value m stops
  | attr value id ctx =>
      cases ctx with
      | load => exact readable_attr starts (ih value (by simp [children]) here.1)
      | store => cases stands
  | subscript value index' ctx =>
      cases ctx with
      | load =>
          exact readable_subscript starts (ih value (by simp [children]) here.1) (index index' (by simp [children]) here.2)
      | store => cases stands
  | name id ctx =>
      cases ctx with
      | load => exact readable_atom starts rfl fun m rest _ => reads_name_atom id m rest
      | store => cases stands
  | list elements ctx =>
      cases ctx with
      | load =>
          refine readable_atom starts rfl fun m rest _ => reads_list (fun x member => ih x member ?_) m rest
          simpa using here x member
      | store => cases stands
  | tuple elements ctx =>
      cases ctx with
      | load =>
          refine readable_atom starts rfl fun m rest _ => reads_tuple (fun x member => ih x member ?_) m rest
          have kept := here x member
          simp only [List.mem_cons, List.not_mem_nil, or_false] at kept
          rcases kept with value | part
          · exact value
          · have some : elements.any isSlice = true := List.any_eq_true.mpr ⟨x, member, (slice_place x).mp part⟩
            rw [place, if_pos some] at stands
            cases stands
      | store => cases stands
  | slice | program | functionDef | returnStmt | assign | augAssign | forStmt | whileStmt | ifStmt | assertStmt
  | raiseStmt | exprStmt | passStmt | breakStmt | continueStmt => cases stands

theorem reads_plain_index (h : Indexable node) (plain : indexTokens node = tokens node) (edge : indexEdges node = [item node]) :
    ReadsIndex node := by
  intro m rest
  rw [plain, edge]
  exact reads_iff (reads_single_index h m rest) (by simp [item])

theorem reading (node : Node) (shaped : Everywhere Shaped node) : Reading node := by
  induction node using node_induction with
  | step node ih =>
  have below := fun child member => ih child member (shaped.child child member)
  have value : node.place = .value → Readable node :=
    reading_value shaped (fun child member => (below child member).value) fun child member => (below child member).index
  have item : node.place ∈ [Place.value, .slice] → Indexable node := by
    intro stands
    simp only [List.mem_cons, List.not_mem_nil, or_false] at stands
    rcases stands with stands | stands
    · exact indexable_value (value stands) (whole_value stands)
    · have part := (slice_place node).mp stands
      cases node with
      | slice lower upper step =>
          refine indexable_slice lower upper step fun x member => (below x member).value ?_
          simpa using shaped.here x member
      | _ => cases part
  refine ⟨value, item, fun stands => ?_⟩
  by_cases tuple : ∃ first others ctx, node = .tuple (first :: others) ctx
  · obtain ⟨first, others, ctx, rfl⟩ := tuple
    cases ctx with
    | store => exact absurd stands (by simp [place, indexPlaces])
    | load =>
        intro m rest
        have parts : ∀ x ∈ first :: others, Indexable x := fun x member => (below x member).item (shaped.here x member)
        exact reads_iff (reads_tuple_index parts m rest) (by simp only [indexEdges, List.forall_mem_map]; rfl)
  · have plain : indexTokens node = tokens node ∧ indexEdges node = [node.item] := by
      cases node with
      | tuple elements ctx =>
          cases elements with
          | nil => exact ⟨rfl, rfl⟩
          | cons first others => exact absurd ⟨first, others, ctx, rfl⟩ tuple
      | _ => exact ⟨tokens_at_tuple _, rfl⟩
    refine reads_plain_index (item ?_) plain.1 plain.2
    by_cases index : node.place = .index
    · cases node with
      | tuple elements ctx =>
          cases elements with
          | nil => cases ctx <;> cases index
          | cons first others => exact absurd ⟨first, others, ctx, rfl⟩ tuple
      | list _ ctx | attr _ _ ctx | subscript _ _ ctx | name _ ctx => cases ctx <;> cases index
      | _ => cases index
    · simpa [indexPlaces, index] using stands

theorem readable_value (node : Node) (shaped : Everywhere Shaped node) (stands : node.place = .value) : Readable node :=
  (reading node shaped).value stands

end Mutagen.Grammar
