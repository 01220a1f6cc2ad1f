import Mutagen.Grammar.Statement
import Mutagen.Proofs.Node.Fill
import Mutagen.Proofs.Node.Stands

set_option autoImplicit false

namespace Mutagen.Grammar

open Node

def AllOf {α : Type} (P : α → Prop) (items : List α) : Prop := ∀ item ∈ items, P item

theorem all_of_nil {α : Type} {P : α → Prop} : AllOf P [] := List.forall_mem_nil P

theorem all_of_single {α : Type} {P : α → Prop} {item : α} (h : P item) : AllOf P [item] := List.forall_mem_singleton.mpr h

theorem all_of_snoc {α : Type} {P : α → Prop} {items : List α} {item : α} (h : AllOf P items) (last : P item) :
    AllOf P (items ++ [item]) :=
  List.forall_mem_append.mpr ⟨h, List.forall_mem_singleton.mpr last⟩

theorem nodup_snoc {ids : List String} {id : String} (distinct : ids.Nodup) (fresh : id ∉ ids) :
    (ids ++ [id]).Nodup := by
  refine List.nodup_append.mpr ⟨distinct, by simp, fun other member last same => ?_⟩
  intro equal
  rw [equal, List.mem_singleton.mp same] at member
  exact fresh member

theorem constant_value {value : Constant} (h : value.IsWritable) : IsValue (.constant value) :=
  value_stands h rfl fun _ member => nomatch member

theorem name_stands {id : String} (h : isIdentifier id = true) : IsValue (.name id .load) :=
  value_stands h rfl fun _ member => nomatch member

theorem unary_stands {operand : Node} {op : PrefixOp} (h : IsValue operand) : IsValue (.unaryOp op operand) :=
  value_stands (value_place h) rfl (List.forall_mem_singleton.mpr h.shaped)

theorem binary_stands {left right : Node} {op : ArithmeticOp} (h : IsValue left) (h' : IsValue right) :
    IsValue (.binOp left op right) :=
  value_stands ⟨value_place h, value_place h'⟩ rfl
    (List.forall_mem_cons.mpr ⟨h.shaped, List.forall_mem_singleton.mpr h'.shaped⟩)

theorem conditional_stands {test body orelse : Node} (h : IsValue test) (h' : IsValue body) (h'' : IsValue orelse) :
    IsValue (.ifExp test body orelse) :=
  value_stands ⟨value_place h, value_place h', value_place h''⟩ rfl
    (List.forall_mem_cons.mpr ⟨h.shaped, List.forall_mem_cons.mpr ⟨h'.shaped, List.forall_mem_singleton.mpr h''.shaped⟩⟩)

theorem list_stands {elements : List Node} (h : AllOf IsValue elements) : IsValue (.list elements .load) :=
  value_stands (all_places h) rfl (all_shaped h)

theorem set_stands {first : Node} {others : List Node} (h : IsValue first) (h' : AllOf IsValue others) :
    IsValue (.set (first :: others)) := by
  have all : AllOf IsValue (first :: others) := List.forall_mem_cons.mpr ⟨h, h'⟩
  exact value_stands ⟨List.cons_ne_nil _ _, all_places all⟩ rfl (all_shaped all)

def IsEntry (entry : Node × Node) : Prop := IsValue entry.1 ∧ IsValue entry.2

theorem entries_stand {entries : List (Node × Node)} (h : AllOf IsEntry entries) :
    IsValue (.dict (entries.map (·.1)) (entries.map (·.2))) := by
  have keys : AllOf IsValue (entries.map (·.1)) := List.forall_mem_map.mpr fun entry member => (h entry member).1
  have values : AllOf IsValue (entries.map (·.2)) := List.forall_mem_map.mpr fun entry member => (h entry member).2
  refine value_stands ⟨by simp, all_places keys, all_places values⟩ rfl ?_
  exact List.forall_mem_append.mpr ⟨all_shaped keys, all_shaped values⟩

theorem dict_stands : IsValue (.dict [] []) := by
  have none : AllOf IsEntry [] := all_of_nil
  exact entries_stand none

theorem comparison_stands {left : Node} {pairs : List (ComparisonOp × Node)} (h : IsValue left)
    (h' : AllOf (fun pair => IsValue pair.2) pairs) (some : pairs ≠ []) :
    IsValue (.compare left (pairs.map (·.1)) (pairs.map (·.2))) := by
  have others : AllOf IsValue (pairs.map (·.2)) := List.forall_mem_map.mpr h'
  refine value_stands ⟨by simpa using some, by simp, value_place h, all_places others⟩ rfl ?_
  exact List.forall_mem_cons.mpr ⟨h.shaped, all_shaped others⟩

def AreOperands (values : List Node) : Prop := 2 ≤ values.length ∧ AllOf IsValue values

theorem operands_snoc {values : List Node} {value : Node} (enough : 1 ≤ values.length) (h : AllOf IsValue values)
    (h' : IsValue value) : AreOperands (values ++ [value]) := by
  refine ⟨?_, all_of_snoc h h'⟩
  rw [List.length_append, List.length_singleton]
  omega

theorem logical_stands {op : LogicalOp} {values : List Node} (h : AreOperands values) : IsValue (.boolOp op values) :=
  value_stands ⟨h.1, all_places h.2⟩ rfl (all_shaped h.2)

structure Fits (params : Params) : Prop where
  shaped : ParamsShaped params.names params.defaults
  defaults : AllOf IsValue params.defaults

theorem fits_none : Fits {} := by
  have names : ParamsShaped [] [] :=
    ⟨fun _ member => (nomatch member), List.nodup_nil, Nat.le_refl _, fun _ member => nomatch member⟩
  exact ⟨names, all_of_nil⟩

theorem fits_name {params : Params} {id : String} (h : Fits params) (identifier : isIdentifier id = true)
    (fresh : id ∉ params.names) : ParamsShaped (params.names ++ [id]) params.defaults where
  identifiers := List.forall_mem_append.mpr ⟨h.shaped.identifiers, List.forall_mem_singleton.mpr identifier⟩
  distinct := nodup_snoc h.shaped.distinct fresh
  fit := by
    have := h.shaped.fit
    rw [List.length_append, List.length_singleton]
    omega
  values := h.shaped.values

theorem fits_default {params : Params} {id : String} {value : Node} (h : Fits params)
    (identifier : isIdentifier id = true) (fresh : id ∉ params.names) (stands : IsValue value) :
    Fits ⟨params.names ++ [id], params.defaults ++ [value]⟩ where
  shaped := {
    fits_name h identifier fresh with
    fit := by
      have := h.shaped.fit
      simp only [List.length_append, List.length_singleton]
      omega
    values := List.forall_mem_append.mpr ⟨h.shaped.values, List.forall_mem_singleton.mpr stands.place⟩ }
  defaults := all_of_snoc h.defaults stands

theorem lambda_stands {params : Params} {body : Node} (h : Fits params) (h' : IsValue body) :
    IsValue (.lambda params.names params.defaults body) :=
  value_stands ⟨h.shaped, value_place h'⟩ rfl
    (List.forall_mem_append.mpr ⟨all_shaped h.defaults, List.forall_mem_singleton.mpr h'.shaped⟩)

structure Passes (arguments : Arguments) : Prop where
  positional : AllOf IsValue arguments.positional
  keywords : AllOf IsValue (arguments.keywords.map (·.2))
  identifiers : ∀ keyword ∈ arguments.keywords, isIdentifier keyword.1 = true
  distinct : (arguments.keywords.map (·.1)).Nodup

theorem passes_none : Passes {} := ⟨all_of_nil, all_of_nil, fun _ member => (nomatch member), List.nodup_nil⟩

theorem passes_keyword {arguments : Arguments} {id : String} {value : Node} (h : Passes arguments)
    (identifier : isIdentifier id = true) (fresh : id ∉ arguments.keywords.map (·.1)) (stands : IsValue value) :
    Passes { arguments with keywords := arguments.keywords ++ [(id, value)] } where
  positional := h.positional
  keywords := by
    rw [List.map_append]
    exact all_of_snoc h.keywords stands
  identifiers := List.forall_mem_append.mpr ⟨h.identifiers, List.forall_mem_singleton.mpr identifier⟩
  distinct := by
    rw [List.map_append]
    exact nodup_snoc h.distinct fresh

theorem call_stands {function : Node} {arguments : Arguments} (h : IsValue function) (h' : Passes arguments) :
    IsValue (.call function arguments.positional arguments.keywords) := by
  have keywords := all_places h'.keywords
  refine value_stands ⟨value_place h, all_places h'.positional, h'.identifiers, h'.distinct, keywords⟩ rfl ?_
  exact List.forall_mem_cons.mpr
    ⟨h.shaped, List.forall_mem_append.mpr ⟨all_shaped h'.positional, all_shaped h'.keywords⟩⟩

theorem attr_stands {value : Node} {id : String} (h : IsValue value) (identifier : isIdentifier id = true) :
    IsValue (.attr value id .load) :=
  value_stands ⟨value_place h, identifier⟩ rfl (List.forall_mem_singleton.mpr h.shaped)

def IsIndex : Node → Prop := Stands indexPlaces

def IsItem : Node → Prop := Stands [.value, .slice]

theorem item_of_value {node : Node} (h : IsValue node) : IsItem node :=
  ⟨h.shaped, by rw [value_place h]; decide⟩

theorem index_of_item {node : Node} (h : IsItem node) : IsIndex node := by
  refine ⟨h.shaped, ?_⟩
  rcases List.mem_cons.mp h.place with value | slice
  · rw [value]
    decide
  · rw [List.mem_singleton.mp slice]
    decide

theorem items_index {elements : List Node} (h : AllOf IsItem elements) : IsIndex (.tuple elements .load) := by
  refine ⟨.node (all_places h) (all_shaped h), ?_⟩
  rw [Node.place]
  split <;> decide

theorem slice_item {lower upper step : Option Node} (hl : AllOf IsValue lower.toList)
    (hu : AllOf IsValue upper.toList) (hs : AllOf IsValue step.toList) : IsItem (.slice lower upper step) := by
  have all : AllOf IsValue (lower.toList ++ upper.toList ++ step.toList) :=
    List.forall_mem_append.mpr ⟨List.forall_mem_append.mpr ⟨hl, hu⟩, hs⟩
  exact ⟨.node (all_places all) (all_shaped all), by rw [Node.place]; decide⟩

theorem subscript_stands {value index : Node} (h : IsValue value) (h' : IsIndex index) : IsValue (.subscript value index .load) :=
  value_stands ⟨value_place h, h'.place⟩ rfl
    (List.forall_mem_cons.mpr ⟨h.shaped, List.forall_mem_singleton.mpr h'.shaped⟩)

-- A statement of one line has no blocks.
def IsSmall (statement : Node) : Prop := IsStatement statement ∧ statement.hasBlocks = false

theorem word_stands {statement : Node} (here : Shaped statement) (place : statement.place = .statement)
    (none : statement.children = []) : IsStatement statement :=
  statement_stands here place (by rw [none]; exact fun _ member => nomatch member)

theorem expression_stands {value : Node} (h : IsValue value) : IsSmall (.exprStmt value) :=
  ⟨statement_stands (value_place h) rfl (List.forall_mem_singleton.mpr h.shaped), rfl⟩

theorem return_stands {value : Option Node} (h : AllOf IsValue value.toList) : IsSmall (.returnStmt value) :=
  ⟨statement_stands (all_places h) rfl (all_shaped h), rfl⟩

theorem raise_stands {value : Option Node} (h : AllOf IsValue value.toList) : IsSmall (.raiseStmt value) :=
  ⟨statement_stands (all_places h) rfl (all_shaped h), rfl⟩

theorem assert_stands {test : Node} {message : Option Node} (h : IsValue test) (h' : AllOf IsValue message.toList) :
    IsSmall (.assertStmt test message) :=
  ⟨statement_stands ⟨value_place h, all_places h'⟩ rfl (List.forall_mem_cons.mpr ⟨h.shaped, all_shaped h'⟩), rfl⟩

theorem augmented_stands {first target value : Node} {op : ArithmeticOp} (h : IsValue first)
    (bound : first.singleTarget? = some target) (h' : IsValue value) : IsSmall (.augAssign target op value) := by
  obtain ⟨shaped, single⟩ := single_stands h bound
  exact ⟨statement_stands ⟨single, value_place h'⟩ rfl
    (List.forall_mem_cons.mpr ⟨shaped, List.forall_mem_singleton.mpr h'.shaped⟩), rfl⟩

structure Assigns (lists : List Node × Node) : Prop where
  some : lists.1 ≠ []
  targets : AllOf IsValue lists.1
  value : IsValue lists.2

theorem assign_stands {lists targets : List Node} {value : Node} (h : Assigns (lists, value))
    (bound : targets? lists = some targets) : IsSmall (.assign targets value) := by
  obtain ⟨length, all⟩ := targets_stand (fun node member => target_stands node (h.targets node member)) bound
  have some : targets ≠ [] := by
    rintro rfl
    exact h.some (List.length_eq_zero_iff.mp length.symm)
  exact ⟨statement_stands ⟨some, all_places all, value_place h.value⟩ rfl
    (List.forall_mem_append.mpr ⟨all_shaped all, List.forall_mem_singleton.mpr h.value.shaped⟩), rfl⟩

theorem value_filled {node : Node} (h : IsValue node) : Everywhere Filled node :=
  expression_filled h.shaped (inside_value (value_place h))

-- A statement, and if no block closes as it opens, one without empty blocks.
def Fine (opens : Prop) (statement : Node) : Prop := IsStatement statement ∧ (opens → Everywhere Filled statement)

def Body (opens : Prop) (body : List Node) : Prop := AllOf (Fine opens) body ∧ (opens → body ≠ [])

variable {opens : Prop} {body orelse : List Node}

theorem all_statements (h : AllOf (Fine opens) body) : AllOf IsStatement body := fun node member => (h node member).1

theorem all_filled (h : AllOf (Fine opens) body) (known : opens) : AllOf (Everywhere Filled) body :=
  fun node member => (h node member).2 known

theorem small_fine {statement : Node} (h : IsSmall statement) : Fine opens statement :=
  ⟨h.1, fun _ => plain_everywhere h.1.shaped h.2⟩

theorem if_fine {test : Node} (h : IsValue test) (h' : Body opens body) (h'' : AllOf (Fine opens) orelse) :
    Fine opens (.ifStmt test body orelse) := by
  refine ⟨statement_stands ⟨value_place h, all_places (all_statements h'.1), all_places (all_statements h'')⟩ rfl ?_, fun known => ?_⟩
  · exact List.forall_mem_cons.mpr ⟨h.shaped, List.forall_mem_append.mpr
      ⟨all_shaped (all_statements h'.1), all_shaped (all_statements h'')⟩⟩
  · exact .node (h'.2 known) (List.forall_mem_cons.mpr ⟨value_filled h, List.forall_mem_append.mpr
      ⟨all_filled h'.1 known, all_filled h'' known⟩⟩)

theorem while_fine {test : Node} (h : IsValue test) (h' : Body opens body) : Fine opens (.whileStmt test body) := by
  refine ⟨statement_stands ⟨value_place h, all_places (all_statements h'.1)⟩ rfl ?_, fun known => ?_⟩
  · exact List.forall_mem_cons.mpr ⟨h.shaped, all_shaped (all_statements h'.1)⟩
  · exact .node (h'.2 known) (List.forall_mem_cons.mpr ⟨value_filled h, all_filled h'.1 known⟩)

theorem for_fine {target iterable : Node} (h : IsTarget target) (h' : IsValue iterable) (h'' : Body opens body) :
    Fine opens (.forStmt target iterable body) := by
  have part : ∀ place ∈ targetPlaces, place ∈ expressionPlaces := by decide
  refine ⟨statement_stands ⟨h.place, value_place h', all_places (all_statements h''.1)⟩ rfl ?_, fun known => ?_⟩
  · exact List.forall_mem_cons.mpr ⟨h.shaped, List.forall_mem_cons.mpr ⟨h'.shaped, all_shaped (all_statements h''.1)⟩⟩
  · exact .node (h''.2 known) (List.forall_mem_cons.mpr ⟨expression_filled h.shaped (part _ h.place),
      List.forall_mem_cons.mpr ⟨value_filled h', all_filled h''.1 known⟩⟩)

theorem function_fine {id : String} {params : Params} (identifier : isIdentifier id = true) (h : Fits params)
    (h' : Body opens body) : Fine opens (.functionDef id params.names params.defaults body) := by
  refine ⟨statement_stands ⟨identifier, h.shaped, all_places (all_statements h'.1)⟩ rfl ?_, fun known => ?_⟩
  · exact List.forall_mem_append.mpr ⟨all_shaped h.defaults, all_shaped (all_statements h'.1)⟩
  · exact .node (h'.2 known) (List.forall_mem_append.mpr
      ⟨fun node member => value_filled (h.defaults node member), all_filled h'.1 known⟩)

end Mutagen.Grammar
