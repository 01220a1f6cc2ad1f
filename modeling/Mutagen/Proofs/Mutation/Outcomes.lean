import Mathlib.Data.Set.Lattice
import Mutagen.Mutant
import Mutagen.Proofs.Mutation.Actions
import Mutagen.Proofs.Node.Walk
import Mutagen.Proofs.RoundTrip

set_option autoImplicit false

namespace Mutagen

open Node

namespace Mutation

section
variable {few : Prop}

theorem exactly_change {α : Type} {node : Node} {make : α → Node} (current : α) (options : List α)
    (all : ∀ a, a ∈ options) (small : options.length ≤ 2 ^ 32) (every : ∀ a, Rewritten node (make a))
    (only : ∀ {changed}, Rewritten node changed → ∃ a, changed = make a) :
    Exactly few (do return make (← pick current options)) (Rewritten node) := by
  have chosen := exactly_choose (List.ne_nil_of_mem (all current))
  have picked : Exactly few (pick current options) fun _ => True := by
    refine exactly_congr (exactly_map (exactly_fewer chosen fun _ => small) (Option.getD · current)) fun a => ?_
    exact ⟨fun _ => trivial, fun _ => ⟨some a, ⟨a, all a, rfl⟩, rfl⟩⟩
  refine exactly_congr (exactly_map picked make) fun changed => ⟨?_, fun rewritten => ?_⟩
  · rintro ⟨a, _, rfl⟩
    exact every a
  · obtain ⟨a, same⟩ := only rewritten
    exact ⟨a, trivial, same⟩

theorem exactly_either {α : Type} (a b : α) :
    Exactly few (do if ← Draw.coin .half then return a else return b) fun c => c = a ∨ c = b := by
  refine exactly_congr (exactly_bind exactly_coin (Q := fun heads c => c = if heads then a else b) ?_) fun c => ?_
  · intro heads _
    cases heads <;> exact exactly_pure _
  · constructor
    · rintro ⟨heads, _, rfl⟩
      cases heads
      · exact .inr rfl
      · exact .inl rfl
    · rintro (rfl | rfl)
      · exact ⟨true, trivial, rfl⟩
      · exact ⟨false, trivial, rfl⟩

theorem exactly_logical (op : LogicalOp) (values : List Node) :
    Exactly few (replaceLogical (.boolOp op values)) (Rewritten (.boolOp op values)) := by
  refine exactly_change op LogicalOp.all (fun a => by cases a <;> decide) (by decide) (.boolOp op · values) ?_
  intro changed rewritten
  cases rewritten with
  | boolOp _ op' _ => exact ⟨op', rfl⟩

theorem exactly_arithmetic (left : Node) (op : ArithmeticOp) (right : Node) :
    Exactly few (replaceArithmetic (.binOp left op right)) (Rewritten (.binOp left op right)) := by
  refine exactly_change op ArithmeticOp.all (fun a => by cases a <;> decide) (by decide) (.binOp left op · right) ?_
  intro changed rewritten
  cases rewritten with
  | binOp _ _ op' _ => exact ⟨op', rfl⟩

theorem exactly_augmented (target : Node) (op : ArithmeticOp) (value : Node) :
    Exactly few (replaceAugmented (.augAssign target op value)) (Rewritten (.augAssign target op value)) := by
  refine exactly_change op ArithmeticOp.all (fun a => by cases a <;> decide) (by decide) (.augAssign target op · value) ?_
  intro changed rewritten
  cases rewritten with
  | augAssign _ _ op' _ => exact ⟨op', rfl⟩

theorem exactly_prefix (op : PrefixOp) (operand : Node) :
    Exactly few (replacePrefix (.unaryOp op operand)) (Rewritten (.unaryOp op operand)) := by
  refine exactly_change op PrefixOp.all (fun a => by cases a <;> decide) (by decide) (.unaryOp op · operand) ?_
  intro changed rewritten
  cases rewritten with
  | unaryOp _ op' _ => exact ⟨op', rfl⟩

theorem exactly_branches (test body orelse : Node) :
    Exactly few (swapBranches {} (.ifExp test body orelse)) (Rewritten (.ifExp test body orelse)) := by
  have even : ({} : Config).pSwapBranches = .half := rfl
  have either : Exactly few _ _ := exactly_either (Node.ifExp test orelse body) (.ifExp test body orelse)
  rw [swapBranches, even]
  refine exactly_congr either fun changed => ?_
  constructor
  · rintro (rfl | rfl)
    · exact .branchesSwapped test body orelse
    · exact .branchesKept test body orelse
  · intro rewritten
    cases rewritten with
    | branchesKept => exact .inr rfl
    | branchesSwapped => exact .inl rfl

theorem exactly_lambda (params : List String) (defaults : List Node) (body : Node) :
    Exactly few (nullifyLambda (.lambda params defaults body)) (Rewritten (.lambda params defaults body)) := by
  refine exactly_congr (exactly_pure (Node.lambda params defaults (.constant .none))) fun changed => ?_
  constructor
  · rintro rfl
    exact .lambda params defaults body
  · intro rewritten
    cases rewritten with
    | lambda => rfl

theorem exactly_dict (keys values : List Node) :
    Exactly few (clearDict {} (.dict keys values)) (Rewritten (.dict keys values)) := by
  have even : ({} : Config).pClearDict = .half := rfl
  have either : Exactly few _ _ := exactly_either (Node.dict [] []) (.dict keys values)
  rw [clearDict, even]
  refine exactly_congr either fun changed => ?_
  constructor
  · rintro (rfl | rfl)
    · exact .dictCleared keys values
    · exact .dictKept keys values
  · intro rewritten
    cases rewritten with
    | dictKept => exact .inr rfl
    | dictCleared => exact .inl rfl

theorem exactly_operator {kind : Kind} {operator : Config → Node → Draw Node} {node : Node}
    (hasKind : node.kind? = some kind) (registered : operator? kind = some operator) :
    Exactly few (operator {} node) (Rewritten node) := by
  cases node <;> cases hasKind <;> cases registered
  · exact exactly_augmented _ _ _
  · exact exactly_logical _ _
  · exact exactly_arithmetic _ _ _
  · exact exactly_prefix _ _
  · exact exactly_lambda _ _ _
  · exact exactly_branches _ _ _
  · exact exactly_dict _ _

def HasExpression (root : Node) : Prop := ∃ path node changed, root.at? path = some node ∧ Rewritten node changed

def IsRead (root : Node) (id : String) : Prop := ∃ path, root.at? path = some (.name id .load)

def ReadsTwo (root : Node) : Prop := ∃ a b, IsRead root a ∧ IsRead root b ∧ a ≠ b

theorem rewritten_kind {node changed : Node} (h : Rewritten node changed) :
    ∃ kind operator, node.kind? = some kind ∧ operator? kind = some operator := by
  cases h <;> exact ⟨_, _, rfl, rfl⟩

theorem expression_paths_empty {root : Node} : root.expressionPaths = [] ↔ ¬ HasExpression root := by
  rw [List.eq_nil_iff_forall_not_mem, HasExpression]
  constructor
  · rintro none ⟨path, node, changed, found, rewritten⟩
    obtain ⟨kind, operator, hasKind, registered⟩ := rewritten_kind rewritten
    exact none path (mem_expression_paths_iff.mpr ⟨node, kind, operator, found, hasKind, registered⟩)
  · intro none path member
    obtain ⟨node, kind, operator, found, hasKind, registered⟩ := mem_expression_paths_iff.mp member
    have rewritten : Exactly True _ _ := exactly_operator hasKind registered
    exact none ⟨path, node, _, found, rewritten.1 (.ofList [])⟩

theorem variable_paths_empty {root : Node} : root.variablePaths = [] ↔ ∀ id, ¬ IsRead root id := by
  rw [List.eq_nil_iff_forall_not_mem]
  constructor
  · rintro none id ⟨path, found⟩
    exact none path (mem_variable_paths_iff.mpr ⟨id, found⟩)
  · intro none path member
    obtain ⟨id, found⟩ := mem_variable_paths_iff.mp member
    exact none id ⟨path, found⟩

variable {tree : Tree}

theorem mutable_found {path : Path} {node : Node} {kind : Kind} {operator : Config → Node → Draw Node}
    (found : tree.root.at? path = some node) (hasKind : node.kind? = some kind)
    (registered : operator? kind = some operator) : mutableAt? tree path = some (node, kind, operator) := by
  rw [mutableAt?, found, Option.bind_eq_bind, Option.bind_some, hasKind, Option.bind_eq_bind, Option.bind_some,
    registered]
  rfl

-- What an adjustment can come to.
def Adjusts (tree : Tree) (outcome : Outcome) : Prop :=
  ∃ path node changed kind, tree.root.at? path = some node ∧ node.kind? = some kind ∧ Rewritten node changed ∧
    outcome = ⟨some ⟨path, kind⟩, modifyAt tree path fun _ => changed, [.mutated kind]⟩

theorem exactly_adjust (some : HasExpression tree.root) :
    Exactly (tree.root.expressionPaths.length ≤ 2 ^ 32) (adjustExpression {} tree tree.root.expressionPaths)
      (Adjusts tree) := by
  have filled : tree.root.expressionPaths ≠ [] := fun none => expression_paths_empty.mp none some
  refine exactly_congr (exactly_with_chosen filled id (Q := fun path outcome =>
    ∃ node changed kind, tree.root.at? path = .some node ∧ node.kind? = .some kind ∧ Rewritten node changed ∧
      outcome = ⟨.some ⟨path, kind⟩, modifyAt tree path fun _ => changed, [.mutated kind]⟩) ?_) fun outcome => ?_
  · intro path member
    obtain ⟨node, kind, operator, found, hasKind, registered⟩ := mem_expression_paths_iff.mp member
    simp only [mutable_found found hasKind registered]
    refine exactly_congr (exactly_map (exactly_operator hasKind registered)
      fun changed => (⟨.some ⟨path, kind⟩, modifyAt tree path fun _ => changed, [.mutated kind]⟩ : Outcome)) ?_
    intro outcome
    constructor
    · rintro ⟨changed, rewritten, rfl⟩
      exact ⟨node, changed, kind, found, hasKind, rewritten, rfl⟩
    · rintro ⟨node', changed, kind', found', hasKind', rewritten, rfl⟩
      rw [found] at found'
      cases found'
      rw [hasKind] at hasKind'
      cases hasKind'
      exact ⟨changed, rewritten, rfl⟩
  · constructor
    · rintro ⟨path, _, result⟩
      exact ⟨path, result⟩
    · rintro ⟨path, node, changed, kind, found, hasKind, rewritten, same⟩
      obtain ⟨kind', operator, hasKind', registered⟩ := rewritten_kind rewritten
      have member := mem_expression_paths_iff.mpr ⟨node, kind', operator, found, hasKind', registered⟩
      exact ⟨path, member, node, changed, kind, found, hasKind, rewritten, same⟩

theorem identifier_read {path : Path} {id : String} (found : tree.root.at? path = some (.name id .load)) :
    identifierAt? tree path = some id := by
  rw [identifierAt?, found]
  rfl

theorem mem_others_iff {old new : String} :
    new ∈ (tree.root.variablePaths.filterMap (identifierAt? tree)).filter (· != old) ↔
      IsRead tree.root new ∧ new ≠ old := by
  rw [List.mem_filter, List.mem_filterMap, bne_iff_ne]
  refine and_congr_left' ?_
  constructor
  · rintro ⟨path, member, named⟩
    obtain ⟨id, found⟩ := mem_variable_paths_iff.mp member
    rw [identifier_read found] at named
    cases named
    exact ⟨path, found⟩
  · rintro ⟨path, found⟩
    exact ⟨path, mem_variable_paths_iff.mpr ⟨new, found⟩, identifier_read found⟩

-- What a renaming can come to.
def Renames (tree : Tree) (outcome : Outcome) : Prop :=
  ∃ path old new, tree.root.at? path = some (.name old .load) ∧ IsRead tree.root new ∧ new ≠ old ∧
    outcome = ⟨some ⟨path, .name⟩, modifyAt tree path fun _ => .name new .load, [.renamed old new]⟩

theorem exactly_replace (two : ReadsTwo tree.root) :
    Exactly (tree.root.variablePaths.length ≤ 2 ^ 32) (replaceVariable tree tree.root.variablePaths)
      (Renames tree) := by
  obtain ⟨a, b, readA, readB, apart⟩ := two
  have filled : tree.root.variablePaths ≠ [] := fun none => variable_paths_empty.mp none a readA
  refine exactly_congr (exactly_with_chosen filled id (Q := fun path outcome =>
    ∃ old new, tree.root.at? path = .some (.name old .load) ∧ IsRead tree.root new ∧ new ≠ old ∧
      outcome = ⟨.some ⟨path, .name⟩, modifyAt tree path fun _ => .name new .load, [.renamed old new]⟩) ?_)
    fun outcome => ?_
  · intro path member
    obtain ⟨old, found⟩ := mem_variable_paths_iff.mp member
    simp only [identifier_read found]
    have other : ∃ id, IsRead tree.root id ∧ id ≠ old := by
      by_cases same : a = old
      · exact ⟨b, readB, fun again => apart (same.trans again.symm)⟩
      · exact ⟨a, readA, same⟩
    obtain ⟨id, isRead, different⟩ := other
    refine exactly_congr (exactly_with_chosen (List.ne_nil_of_mem (mem_others_iff.mpr ⟨isRead, different⟩))
      (fun few => ?_) fun new _ => exactly_pure _) fun outcome => ?_
    · exact (List.length_filter_le _ _).trans ((List.length_filterMap_le _ _).trans few)
    · constructor
      · rintro ⟨new, member, rfl⟩
        obtain ⟨isRead, different⟩ := mem_others_iff.mp member
        exact ⟨old, new, found, isRead, different, by rw [modify_renames found]⟩
      · rintro ⟨old', new, found', isRead, different, rfl⟩
        rw [found] at found'
        cases found'
        exact ⟨new, mem_others_iff.mpr ⟨isRead, different⟩, by rw [modify_renames found]⟩
  · constructor
    · rintro ⟨path, _, result⟩
      exact ⟨path, result⟩
    · rintro ⟨path, old, new, found, result⟩
      exact ⟨path, mem_variable_paths_iff.mpr ⟨old, found⟩, old, new, found, result⟩

-- Where a single identifier is read, or none, nothing is renamed.
def Keeps (tree : Tree) (outcome : Outcome) : Prop :=
  (∀ id, ¬ IsRead tree.root id) ∧ outcome = ⟨none, tree, []⟩ ∨
    ∃ id, IsRead tree.root id ∧ outcome = ⟨none, tree, [.noOtherIdentifier id]⟩

theorem exactly_keep (single : ¬ ReadsTwo tree.root) :
    Exactly (tree.root.variablePaths.length ≤ 2 ^ 32) (replaceVariable tree tree.root.variablePaths) (Keeps tree) := by
  by_cases empty : tree.root.variablePaths = []
  · rw [empty]
    have unread := variable_paths_empty.mp empty
    refine exactly_congr (exactly_pure (⟨none, tree, []⟩ : Outcome)) fun outcome => ?_
    constructor
    · exact fun same => .inl ⟨unread, same⟩
    · rintro (⟨_, same⟩ | ⟨id, isRead, _⟩)
      · exact same
      · exact absurd isRead (unread id)
  · refine exactly_congr (exactly_with_chosen empty id (Q := fun path outcome =>
      ∃ old, tree.root.at? path = some (.name old .load) ∧ outcome = ⟨none, tree, [.noOtherIdentifier old]⟩) ?_)
      fun outcome => ?_
    · intro path member
      obtain ⟨old, found⟩ := mem_variable_paths_iff.mp member
      have others : (tree.root.variablePaths.filterMap (identifierAt? tree)).filter (· != old) = [] := by
        rw [List.eq_nil_iff_forall_not_mem]
        intro new listed
        obtain ⟨isRead, different⟩ := mem_others_iff.mp listed
        exact single ⟨new, old, isRead, ⟨path, found⟩, different⟩
      simp only [identifier_read found, others]
      refine exactly_congr (exactly_pure (⟨none, tree, [.noOtherIdentifier old]⟩ : Outcome)) fun outcome => ?_
      constructor
      · exact fun same => ⟨old, found, same⟩
      · rintro ⟨old', found', same⟩
        rw [found] at found'
        cases found'
        exact same
    · constructor
      · rintro ⟨path, _, old, found, same⟩
        exact .inr ⟨old, ⟨path, found⟩, same⟩
      · rintro (⟨unread, _⟩ | ⟨id, ⟨path, found⟩, same⟩)
        · exact absurd (variable_paths_empty.mpr unread) empty
        · exact ⟨path, mem_variable_paths_iff.mpr ⟨id, found⟩, id, found, same⟩

def Varies (tree : Tree) (outcome : Outcome) : Prop :=
  ReadsTwo tree.root ∧ Renames tree outcome ∨ ¬ ReadsTwo tree.root ∧ Keeps tree outcome

def Adapts (tree : Tree) (outcome : Outcome) : Prop :=
  HasExpression tree.root ∧ Adjusts tree outcome ∨ ¬ HasExpression tree.root ∧ outcome = ⟨none, tree, []⟩

theorem exactly_vary :
    Exactly (tree.root.variablePaths.length ≤ 2 ^ 32) (replaceVariable tree tree.root.variablePaths) (Varies tree) := by
  by_cases two : ReadsTwo tree.root
  · refine exactly_congr (exactly_replace two) fun outcome => ?_
    rw [Varies, and_iff_right two, or_iff_left (fun h => h.1 two)]
  · refine exactly_congr (exactly_keep two) fun outcome => ?_
    rw [Varies, and_iff_right two, or_iff_right (fun h => two h.1)]

theorem exactly_adapt :
    Exactly (tree.root.expressionPaths.length ≤ 2 ^ 32) (adjustExpression {} tree tree.root.expressionPaths)
      (Adapts tree) := by
  by_cases some : HasExpression tree.root
  · refine exactly_congr (exactly_adjust some) fun outcome => ?_
    rw [Adapts, and_iff_right some, or_iff_left (fun h => h.1 some)]
  · rw [expression_paths_empty.mpr some]
    refine exactly_congr (exactly_pure (⟨none, tree, []⟩ : Outcome)) fun outcome => ?_
    rw [Adapts, and_iff_right some, or_iff_right (fun h => some h.1)]

end

end Mutation

open Mutation

variable {code : String} {tree : Tree}

theorem two_variable_paths (two : ReadsTwo tree.root) : ¬ tree.root.variablePaths.length < 2 := by
  obtain ⟨a, b, ⟨path, found⟩, ⟨path', found'⟩, apart⟩ := two
  have first := mem_variable_paths_iff.mpr ⟨a, found⟩
  have second := mem_variable_paths_iff.mpr ⟨b, found'⟩
  intro few
  have same : path = path' := by
    generalize tree.root.variablePaths = paths at *
    match paths with
    | [] => cases first
    | [only] => rw [List.mem_singleton.mp first, List.mem_singleton.mp second]
    | _ :: _ :: _ =>
        rw [List.length_cons, List.length_cons] at few
        omega
  rw [same, found'] at found
  cases found
  exact apart rfl

theorem exactly_mutate_expression (parsed : Tree.parse code = .ok tree) (some : HasExpression tree.root) :
    Exactly (tree.root.expressionPaths.length ≤ 2 ^ 32) (mutateExpression {} code) fun report =>
      ∃ outcome, Adjusts tree outcome ∧ report =
        ⟨.ok outcome.tree.render, .collectedExpressions tree.root.expressionPaths.length :: outcome.log⟩ := by
  rw [mutateExpression, parsed]
  refine exactly_bind (exactly_adjust some) ?_
  rintro outcome ⟨path, node, changed, kind, found, hasKind, rewritten, rfl⟩
  exact exactly_pure _

theorem exactly_mutate_variable (parsed : Tree.parse code = .ok tree) (two : ReadsTwo tree.root) :
    Exactly (tree.root.variablePaths.length ≤ 2 ^ 32) (mutateVariable code) fun report =>
      ∃ outcome, Renames tree outcome ∧ report =
        ⟨.ok outcome.tree.render, .collectedVariables tree.root.variablePaths.length :: outcome.log⟩ := by
  rw [mutateVariable, parsed]
  simp only [if_neg (two_variable_paths two)]
  refine exactly_bind (exactly_replace two) ?_
  rintro outcome ⟨path, old, new, found, isRead, different, rfl⟩
  exact exactly_pure _

-- What is reported of a mutation whose category a coin decides.
def reportOf (tree : Tree) (forVariable : Bool) (outcome : Outcome) : Report :=
  ⟨.ok outcome.tree.render,
    [.collected tree.root.variablePaths.length tree.root.expressionPaths.length,
      if forVariable then .choseVariable else .choseExpression] ++ outcome.log ++
      (if outcome.mutation.isNone then [.noMutation] else [])⟩

def Mutates (tree : Tree) : Bool × Outcome → Prop
  | (true, outcome) => Varies tree outcome
  | (false, outcome) => Adapts tree outcome

theorem exactly_mutate (parsed : Tree.parse code = .ok tree) :
    Exactly (tree.root.variablePaths.length ≤ 2 ^ 32 ∧ tree.root.expressionPaths.length ≤ 2 ^ 32) (mutate {} code)
      fun report => ∃ choice, Mutates tree choice ∧ report = reportOf tree choice.1 choice.2 := by
  rw [mutate, parsed]
  refine exactly_congr (exactly_bind exactly_coin (Q := fun forVariable report =>
    ∃ outcome, Mutates tree (forVariable, outcome) ∧ report = reportOf tree forVariable outcome) ?_) fun report => ?_
  · intro forVariable _
    cases forVariable with
    | true => exact exactly_map (exactly_fewer exactly_vary And.left) (reportOf tree true)
    | false => exact exactly_map (exactly_fewer exactly_adapt And.right) (reportOf tree false)
  · constructor
    · rintro ⟨forVariable, _, outcome, result⟩
      exact ⟨(forVariable, outcome), result⟩
    · rintro ⟨⟨forVariable, outcome⟩, result⟩
      exact ⟨forVariable, trivial, outcome, result⟩

-- The results of a draw over all lists of words, each with zeros behind it.
def outcomes (d : Draw Report) : Set (Except ParseError String) :=
  {result | ∃ words : List UInt32, (d (.ofList words)).1.result = result}

theorem outcomes_eq {γ : Type} {few : Prop} {d : Draw Report} {P : γ → Prop} {f : γ → Report} {t : γ → String}
    (h : Exactly few d fun report => ∃ c, P c ∧ report = f c) (enough : few)
    (texts : ∀ c, (f c).result = .ok (t c)) : outcomes d = Except.ok '' {text | ∃ c, P c ∧ text = t c} := by
  ext result
  constructor
  · rintro ⟨words, rfl⟩
    obtain ⟨c, holds, same⟩ := h.1 (.ofList words)
    exact ⟨t c, ⟨c, holds, rfl⟩, by rw [same, texts]⟩
  · rintro ⟨text, ⟨c, holds, rfl⟩, rfl⟩
    obtain ⟨words, drawn⟩ := (exactly_of_list h enough (f c)).mpr ⟨c, holds, rfl⟩
    exact ⟨words, by rw [drawn, texts]⟩

def rewritings (tree : Tree) : Set String :=
  {text | ∃ path node changed, tree.root.at? path = some node ∧ Rewritten node changed ∧
    text = (modifyAt tree path fun _ => changed).render}

def renamings (tree : Tree) : Set String :=
  {text | ∃ path old new, tree.root.at? path = some (.name old .load) ∧ IsRead tree.root new ∧ new ≠ old ∧
    text = (modifyAt tree path fun _ => .name new .load).render}

-- The texts of a category, or the text of the tree where the category does not apply.
def orUnchanged (tree : Tree) (applies : Prop) (texts : Set String) : Set String :=
  {text | applies ∧ text ∈ texts ∨ ¬ applies ∧ text = tree.render}

theorem adjusted_texts : {text | ∃ outcome, Adjusts tree outcome ∧ text = outcome.tree.render} = rewritings tree := by
  ext text
  constructor
  · rintro ⟨outcome, ⟨path, node, changed, kind, found, _, rewritten, rfl⟩, rfl⟩
    exact ⟨path, node, changed, found, rewritten, rfl⟩
  · rintro ⟨path, node, changed, found, rewritten, rfl⟩
    obtain ⟨kind, operator, hasKind, registered⟩ := rewritten_kind rewritten
    exact ⟨_, ⟨path, node, changed, kind, found, hasKind, rewritten, rfl⟩, rfl⟩

theorem renamed_texts : {text | ∃ outcome, Renames tree outcome ∧ text = outcome.tree.render} = renamings tree := by
  ext text
  constructor
  · rintro ⟨outcome, ⟨path, old, new, found, isRead, different, rfl⟩, rfl⟩
    exact ⟨path, old, new, found, isRead, different, rfl⟩
  · rintro ⟨path, old, new, found, isRead, different, rfl⟩
    exact ⟨_, ⟨path, old, new, found, isRead, different, rfl⟩, rfl⟩

theorem keeps_exist (single : ¬ ReadsTwo tree.root) : ∃ outcome, Keeps tree outcome :=
  ⟨_, (exactly_keep single).1 (.ofList [])⟩

theorem keeps_tree {outcome : Outcome} (h : Keeps tree outcome) : outcome.mutation = none ∧ outcome.tree = tree := by
  rcases h with ⟨_, rfl⟩ | ⟨id, _, rfl⟩ <;> exact ⟨rfl, rfl⟩

theorem varied_texts : {text | ∃ outcome, Varies tree outcome ∧ text = outcome.tree.render} =
    orUnchanged tree (ReadsTwo tree.root) (renamings tree) := by
  ext text
  rw [← renamed_texts]
  constructor
  · rintro ⟨outcome, ⟨two, renames⟩ | ⟨single, keeps⟩, rfl⟩
    · exact .inl ⟨two, outcome, renames, rfl⟩
    · exact .inr ⟨single, by rw [(keeps_tree keeps).2]⟩
  · rintro (⟨two, outcome, renames, rfl⟩ | ⟨single, rfl⟩)
    · exact ⟨outcome, .inl ⟨two, renames⟩, rfl⟩
    · obtain ⟨outcome, keeps⟩ := keeps_exist single
      exact ⟨outcome, .inr ⟨single, keeps⟩, by rw [(keeps_tree keeps).2]⟩

theorem adapted_texts : {text | ∃ outcome, Adapts tree outcome ∧ text = outcome.tree.render} =
    orUnchanged tree (HasExpression tree.root) (rewritings tree) := by
  ext text
  rw [← adjusted_texts]
  constructor
  · rintro ⟨outcome, ⟨some, adjusts⟩ | ⟨none, rfl⟩, rfl⟩
    · exact .inl ⟨some, outcome, adjusts, rfl⟩
    · exact .inr ⟨none, rfl⟩
  · rintro (⟨some, outcome, adjusts, rfl⟩ | ⟨none, rfl⟩)
    · exact ⟨outcome, .inl ⟨some, adjusts⟩, rfl⟩
    · exact ⟨_, .inr ⟨none, rfl⟩, rfl⟩

/-- With even chances and any words, the mutants of a program are the texts of its rewritings and of its renamings, and
each of them comes about. -/
theorem mutants_exact (parsed : Tree.parse code = .ok tree) (fewNames : tree.root.variablePaths.length < 2 ^ 32)
    (fewExpressions : tree.root.expressionPaths.length < 2 ^ 32) :
    (HasExpression tree.root → outcomes (mutateExpression {} code) = Except.ok '' rewritings tree) ∧
      (ReadsTwo tree.root → outcomes (mutateVariable code) = Except.ok '' renamings tree) ∧
      outcomes (mutate {} code) = Except.ok ''
        (orUnchanged tree (ReadsTwo tree.root) (renamings tree) ∪
          orUnchanged tree (HasExpression tree.root) (rewritings tree)) := by
  refine ⟨fun some => ?_, fun two => ?_, ?_⟩
  · rw [← adjusted_texts]
    exact outcomes_eq (exactly_mutate_expression parsed some) fewExpressions.le fun outcome => rfl
  · rw [← renamed_texts]
    exact outcomes_eq (exactly_mutate_variable parsed two) fewNames.le fun outcome => rfl
  · rw [← varied_texts, ← adapted_texts,
      outcomes_eq (exactly_mutate parsed) ⟨fewNames.le, fewExpressions.le⟩ fun choice => rfl]
    congr 1
    ext text
    constructor
    · rintro ⟨⟨forVariable, outcome⟩, mutates, rfl⟩
      cases forVariable with
      | true => exact .inl ⟨outcome, mutates, rfl⟩
      | false => exact .inr ⟨outcome, mutates, rfl⟩
    · rintro (⟨outcome, varies, rfl⟩ | ⟨outcome, adapts, rfl⟩)
      · exact ⟨(true, outcome), varies, rfl⟩
      · exact ⟨(false, outcome), adapts, rfl⟩

-- A sum of two names, where every mutation applies.
def sumTree : Tree := .ofBody [.exprStmt (.binOp (.name "x" .load) .add (.name "y" .load))]

theorem sum_formed : WellFormed sumTree.root := by
  have x : isIdentifier "x" = true := by decide +kernel
  have y : isIdentifier "y" = true := by decide +kernel
  have statements : Shaped sumTree.root := fun s member => by simp_all [place]
  refine ⟨⟨rfl, .only statements rfl (.only rfl rfl (.node ⟨rfl, rfl⟩ ?_))⟩,
    .only trivial rfl (.only trivial rfl (.node trivial ?_))⟩
  · exact List.forall_mem_cons.mpr ⟨.leaf x rfl, List.forall_mem_singleton.mpr (.leaf y rfl)⟩
  · exact List.forall_mem_cons.mpr ⟨.leaf trivial rfl, List.forall_mem_singleton.mpr (.leaf trivial rfl)⟩

theorem sum_parse : Tree.parse sumTree.render = .ok sumTree := by
  refine parse_render sum_formed fun s member => ?_
  rw [List.mem_singleton.mp member]
  exact ⟨by decide +kernel, by decide +kernel⟩

theorem sum_reads_two : ReadsTwo sumTree.root :=
  ⟨"x", "y", ⟨[0, 0, 0], rfl⟩, ⟨[0, 0, 1], rfl⟩, by decide⟩

theorem mutants_exact_sum : ReadsTwo sumTree.root ∧ HasExpression sumTree.root ∧
    outcomes (mutateVariable sumTree.render) = Except.ok '' renamings sumTree ∧
    outcomes (mutate {} sumTree.render) = Except.ok '' (orUnchanged sumTree (ReadsTwo sumTree.root) (renamings sumTree) ∪
      orUnchanged sumTree (HasExpression sumTree.root) (rewritings sumTree)) := by
  have some : HasExpression sumTree.root := ⟨[0, 0], _, _, rfl, .binOp _ .add .sub _⟩
  obtain ⟨_, renames, mutates⟩ := mutants_exact sum_parse (by decide +kernel) (by decide +kernel)
  exact ⟨sum_reads_two, some, renames sum_reads_two, mutates⟩

end Mutagen
