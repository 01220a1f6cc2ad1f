import Mutagen.Arena.Mutant
import Mutagen.Proofs.Arena.Change
import Mutagen.Proofs.Arena.Program
import Mutagen.Proofs.Mutation.Actions

set_option autoImplicit false

namespace Mutagen.Arena

variable {a b : Arena} {tree : Tree} {id : NodeId} {ids : List NodeId} {path : Path} {paths : List Path} {node node' : Node}
  {cell changed : Cell} {kind : Node.Kind} {operator : Operator} {operator' : Config → Node → Draw Node}

theorem kind_like {name? : Symbol → Option String} (like : cell.Like name? node) : cell.kind? = node.kind? := by
  cases cell <;> cases node <;> first | rfl | exact like.elim

theorem operator_becomes (registered : operator? kind = some operator) (registered' : Mutation.operator? kind = some operator')
    (found : a.cell? id = some cell) (like : cell.Like a.symbols.name? node) (hasKind : cell.kind? = some kind)
    (config : Config) : Alongside (operator config a id) (operator' config node) fun result node' => Becomes a result.2 id node node' := by
  cases cell <;> cases hasKind <;> cases registered <;> cases registered' <;> cases node <;> try exact like.elim
  · obtain rfl := like
    simp only [replaceAugmented, found]
    exact alongside_self fun op' => alongside_pure (becomes_same (framed_update found rfl _) rfl rfl rfl)
  · obtain rfl := like
    simp only [replaceLogical, found]
    exact alongside_self fun op' => alongside_pure (becomes_same (framed_update found rfl _) rfl rfl rfl)
  · obtain rfl := like
    simp only [replaceArithmetic, found]
    exact alongside_self fun op' => alongside_pure (becomes_same (framed_update found rfl _) rfl rfl rfl)
  · obtain rfl := like
    simp only [replacePrefix, found]
    exact alongside_self fun op' => alongside_pure (becomes_same (framed_update found rfl _) rfl rfl rfl)
  · simp only [nullifyLambda, found]
    exact alongside_pure (becomes_nullified (framed_lambda found _) like)
  · simp only [swapBranches, found]
    refine alongside_self fun swapped => ?_
    cases swapped
    · exact alongside_pure (becomes_same (framed_self found rfl) like rfl rfl)
    · exact alongside_pure (becomes_swapped (framed_update found rfl _))
  · simp only [clearDict, found]
    refine alongside_self fun cleared => ?_
    cases cleared
    · exact alongside_pure (becomes_same (framed_self found rfl) like rfl rfl)
    · exact alongside_pure (becomes_cleared (framed_update found rfl _))

theorem known_framed (known : a.Known) (framed : Framed a b id cell changed)
    (used : ∀ symbol, changed.identifier? = some symbol → ∃ name, a.symbols.name? symbol = some name) : b.Known := by
  intro other symbol named
  rw [framed.symbols]
  by_cases here : other = id
  · rw [here, identifier?, framed_here framed] at named
    exact used symbol named
  · by_cases old : other < a.cells.size
    · obtain ⟨kept, found⟩ := cell_inside old
      refine known other symbol ?_
      rw [← named, identifier?, identifier?, found, framed_other framed here found]
    · obtain ⟨i, rfl⟩ := Nat.exists_eq_add_of_le (Nat.le_of_not_lt old)
      obtain ⟨ctx, found⟩ := identifier_cell named
      rw [framed_new framed] at found
      cases cell with
      | lambda =>
          cases i <;> cases found
      | _ => cases found

theorem rewritten_unnamed {fresh : NodeId} (rewritten : Rewritten fresh cell changed) : changed.identifier? = none := by
  cases rewritten <;> rfl

theorem has_becomes (has : a.Has tree) (leads : a.follow a.root path = some id) (place : tree.root.at? path = some node)
    (becomes : Becomes a b id node node') (root : b.root = a.root) (symbols : b.symbols = a.symbols) (known : b.Known) :
    b.Has (Mutation.modifyAt tree path fun _ => node') := by
  obtain ⟨below, held, distinct⟩ := has.rooted
  have first : [a.root][0]? = some a.root := rfl
  obtain ⟨below', held', renews⟩ := holds_becomes becomes held distinct first leads place
  rw [placed_zero] at held'
  exact ⟨⟨below', root ▸ held', renews.distinct⟩, symbols.trans has.symbols, symbols ▸ has.inverse, known⟩

def Candidates (a : Arena) (ids : List NodeId) (paths : List Path) : Prop :=
  List.Forall₂ (fun id path => a.follow a.root path = some id) ids paths

structure SameOutcome (a : Arena) (outcome : Outcome) (outcome' : Mutation.Outcome) : Prop where
  has : outcome.arena.Has outcome'.tree
  mutation : Option.Rel (fun mutation mutation' => a.follow a.root mutation'.path = some mutation.node ∧
    mutation.kind = mutation'.kind) outcome.mutation outcome'.mutation
  log : outcome.log = outcome'.log

theorem same_nothing (has : a.Has tree) (log : List Event) : SameOutcome a ⟨none, a, log⟩ ⟨none, tree, log⟩ :=
  ⟨has, .none, rfl⟩

theorem kind_at (has : a.Has tree) (leads : a.follow a.root path = some id) :
    ∃ node cell, tree.root.at? path = some node ∧ a.cell? id = some cell ∧ cell.Like a.symbols.name? node := by
  obtain ⟨node, place, is⟩ := follow_node (rooted_is has.rooted) leads
  obtain ⟨cell, found, like, _⟩ := is_cell is
  exact ⟨node, cell, place, found, like⟩

theorem registered_same (kind : Node.Kind) : (operator? kind).isSome = (Mutation.operator? kind).isSome := by
  cases kind <;> rfl

theorem adjust_alongside (has : a.Has tree) (candidates : a.Candidates ids paths) (config : Config) :
    Alongside (adjustExpression config a ids) (Mutation.adjustExpression config tree paths) (SameOutcome a) := by
  refine alongside_bind (alongside_choose candidates) fun chosen chosen' same => ?_
  cases same with
  | none => exact alongside_pure (same_nothing has [])
  | @some id path leads =>
      obtain ⟨node, cell, place, found, like⟩ := kind_at has leads
      have kinds : a.kind? id = node.kind? := by rw [kind?, found, Option.bind_some, kind_like like]
      simp only [Mutation.mutableAt?, kinds, place, Option.bind_eq_bind, Option.bind_some]
      cases hasKind : node.kind? with
      | none => exact alongside_pure (same_nothing has [])
      | some kind =>
          have registered := registered_same kind
          simp only [Option.bind_some]
          cases entry : operator? kind with
          | none =>
              cases entry' : Mutation.operator? kind with
              | none => exact alongside_pure (same_nothing has [])
              | some operator' =>
                  rw [entry, entry'] at registered
                  cases registered
          | some operator =>
              cases entry' : Mutation.operator? kind with
              | none =>
                  rw [entry, entry'] at registered
                  cases registered
              | some operator' =>
                  have cellKind := (kind_like like).trans hasKind
                  refine alongside_bind (alongside_draws (operator_becomes entry entry' found like cellKind config)
                    (operator_frames entry found cellKind config)) fun result node' related => alongside_pure ?_
                  obtain ⟨becomes, same, changed, rewritten, framed⟩ := related
                  have known := known_framed has.known framed fun symbol used => by
                    rw [rewritten_unnamed rewritten] at used
                    cases used
                  refine ⟨has_becomes has leads place becomes framed.root framed.symbols known, .some ⟨?_, rfl⟩, rfl⟩
                  rw [same]
                  exact leads

theorem identifier_alongside (has : a.Has tree) (leads : a.follow a.root path = some id) :
    Option.Rel (fun symbol name => a.symbols.name? symbol = some name) (a.identifier? id) (Mutation.identifierAt? tree path) := by
  obtain ⟨node, cell, place, found, like⟩ := kind_at has leads
  rw [identifier?, Mutation.identifierAt?, found, place, Option.bind_some, Option.bind_some]
  cases cell <;> cases node <;> first | exact .none | exact .some like.1 | exact like.elim

theorem others_alongside (has : a.Has tree) (candidates : a.Candidates ids paths) {current : Symbol} {name : String}
    (here : a.symbols.name? current = some name) :
    List.Forall₂ (fun id name => ∃ symbol, a.identifier? id = some symbol ∧ a.symbols.name? symbol = some name)
      (a.others ids current) ((paths.filterMap (Mutation.identifierAt? tree)).filter (· != name)) := by
  induction candidates with
  | nil => exact .nil
  | @cons id path ids paths leads _ ih =>
      have front : a.others (id :: ids) current =
          if (a.identifier? id).any (· != current) then id :: a.others ids current else a.others ids current :=
        List.filter_cons
      rw [front]
      rcases rel_cases (identifier_alongside has leads) with ⟨none, none'⟩ | ⟨symbol, other, named, named', stands⟩
      · rw [none, List.filterMap_cons_none none']
        exact ih
      · rw [named, List.filterMap_cons_some named']
        have same : symbol = current ↔ other = name := SymbolTable.inverse_agree has.inverse stands here
        by_cases equal : symbol = current
        · simpa [equal, same.mp equal] using ih
        · have different : ¬ other = name := fun equal' => equal (same.mpr equal')
          simpa [equal, different] using And.intro ⟨symbol, named, stands⟩ ih

theorem replace_alongside (has : a.Has tree) (candidates : a.Candidates ids paths) :
    Alongside (replaceVariable a ids) (Mutation.replaceVariable tree paths) (SameOutcome a) := by
  refine alongside_bind (alongside_choose candidates) fun chosen chosen' same => ?_
  cases same with
  | none => exact alongside_pure (same_nothing has [])
  | @some id path leads =>
      simp only
      rcases rel_cases (identifier_alongside has leads) with ⟨none, none'⟩ | ⟨current, name, named, named', stands⟩
      · rw [none, none']
        exact alongside_pure (same_nothing has [])
      · rw [named, named']
        refine alongside_bind (alongside_choose (others_alongside has candidates stands)) fun source source' same => ?_
        cases same with
        | none =>
            rw [text_stands stands]
            exact alongside_pure (same_nothing has _)
        | @some source other used =>
            obtain ⟨replacement, used, stands'⟩ := used
            obtain ⟨node, cell, place, found, like⟩ := kind_at has leads
            obtain ⟨ctx, place'⟩ := Mutation.identifier_at named'
            obtain ⟨ctx', found'⟩ := identifier_cell named
            cases place.symm.trans place'
            cases found.symm.trans found'
            obtain ⟨_, rfl⟩ := like
            have framed := framed_update found rfl (.name replacement ctx')
            have becomes : Becomes a _ id (.name name ctx') (.name other ctx') := becomes_same framed ⟨stands', rfl⟩ rfl rfl
            have known := known_framed has.known framed fun symbol used => by
              cases used
              exact ⟨other, stands'⟩
            simp only [used]
            rw [rename, found, Mutation.modify_renames place, text_stands stands, text_stands stands']
            exact alongside_pure ⟨has_becomes has leads place becomes rfl rfl known, .some ⟨leads, rfl⟩, rfl⟩

theorem walk_candidates (has : a.Has tree) {p : Cell → Bool} {q : Node → Bool}
    (same : ∀ cell node, cell.Like a.symbols.name? node → p cell = q node) :
    a.Candidates (a.collect p) (tree.root.pathsWhere q) := by
  obtain ⟨ids, walked, all⟩ := walk_at (rooted_is has.rooted)
  rw [collect, walked, Option.getD_some, Node.pathsWhere, Candidates, List.forall₂_map_right_iff]
  refine (List.rel_filter (R := a.At) (fun {id o} here => ?_) all).imp fun id o here => here.leads
  obtain ⟨cell, found, like, _⟩ := is_cell here.is
  show (a.cell? id).any p = true ↔ q o.node = true
  rw [found, Option.any_some, same cell o.node like]

theorem expression_candidates (has : a.Has tree) : a.Candidates a.expressions tree.root.expressionPaths := by
  refine walk_candidates has fun cell node like => ?_
  rw [kind_like like]
  cases node.kind? with
  | none => rfl
  | some kind => exact registered_same kind

theorem variable_candidates (has : a.Has tree) : a.Candidates a.variableIds tree.root.variablePaths := by
  refine walk_candidates has fun cell node like => ?_
  cases cell with
  | name id ctx =>
      cases node with
      | name id' ctx' =>
          obtain rfl := like.2
          cases ctx <;> rfl
      | _ => exact like.elim
  | _ => cases node <;> first | rfl | exact like.elim

theorem render_has (has : a.Has tree) : a.render = tree.render := by
  rw [render, node_of_rooted has.rooted]
  rfl

theorem dump_has (has : a.Has tree) : a.dump = tree.dump := by
  rw [dump, node_of_rooted has.rooted]
  rfl

theorem outcome_none {outcome : Outcome} {outcome' : Mutation.Outcome} (same : SameOutcome a outcome outcome') :
    outcome.mutation.isNone = outcome'.mutation.isNone := by
  rcases rel_cases same.mutation with ⟨none, none'⟩ | ⟨_, _, some, some', _⟩
  · rw [none, none']
    rfl
  · rw [some, some']
    rfl

theorem parse_cases (source : String) :
    (∃ e, Arena.parse source = .error e ∧ Tree.parse source = .error e) ∨
      ∃ a tree, Arena.parse source = .ok a ∧ Tree.parse source = .ok tree ∧ a.Has tree := by
  have parsed := parse_has source
  cases made : Tree.parse source with
  | error e =>
      rw [made] at parsed
      exact .inl ⟨e, parsed, rfl⟩
  | ok tree =>
      rw [made] at parsed
      obtain ⟨_, a, _, built, has, _⟩ := parsed
      exact .inr ⟨a, tree, built, rfl, has⟩

/-- The mutants are those of the trees. -/
theorem mutate_eq (config : Config) (code : String) : mutate config code = Mutagen.mutate config code := by
  unfold mutate Mutagen.mutate
  obtain ⟨e, built, made⟩ | ⟨a, tree, built, made, has⟩ := parse_cases code
  · rw [built, made]
  · rw [built, made]
    have names := variable_candidates has
    have expressions := expression_candidates has
    apply alongside_eq
    refine alongside_self fun forVariable => ?_
    cases forVariable
    · refine alongside_bind (adjust_alongside has expressions config) fun outcome outcome' same => alongside_pure ?_
      rw [render_has same.has, names.length_eq, expressions.length_eq, same.log, outcome_none same]
    · refine alongside_bind (replace_alongside has names) fun outcome outcome' same => alongside_pure ?_
      rw [render_has same.has, names.length_eq, expressions.length_eq, same.log, outcome_none same]

theorem mutate_expression_eq (config : Config) (code : String) :
    mutateExpression config code = Mutagen.mutateExpression config code := by
  unfold mutateExpression Mutagen.mutateExpression
  obtain ⟨e, built, made⟩ | ⟨a, tree, built, made, has⟩ := parse_cases code
  · rw [built, made]
  · rw [built, made]
    have expressions := expression_candidates has
    apply alongside_eq
    refine alongside_bind (adjust_alongside has expressions config) fun outcome outcome' same => ?_
    simp only [render_has same.has, expressions.length_eq, same.log, outcome_none same]
    split
    · exact alongside_pure rfl
    · exact alongside_pure rfl

theorem mutate_variable_eq (code : String) : mutateVariable code = Mutagen.mutateVariable code := by
  unfold mutateVariable Mutagen.mutateVariable
  obtain ⟨e, built, made⟩ | ⟨a, tree, built, made, has⟩ := parse_cases code
  · rw [built, made]
  · rw [built, made]
    have names := variable_candidates has
    simp only [names.length_eq]
    split
    · rfl
    · apply alongside_eq
      refine alongside_bind (replace_alongside has names) fun outcome outcome' same => ?_
      simp only [render_has same.has, same.log, outcome_none same]
      split
      · exact alongside_pure rfl
      · exact alongside_pure rfl

theorem parse_dump (source : String) : (Arena.parse source).map dump = (Tree.parse source).map Tree.dump := by
  obtain ⟨e, built, made⟩ | ⟨a, tree, built, made, has⟩ := parse_cases source
  · rw [built, made]
    rfl
  · rw [built, made]
    exact congrArg Except.ok (dump_has has)

theorem trees_equal_eq (code code' : String) : treesEqual code code' = Mutagen.treesEqual code code' := by
  have arenas : treesEqual code code' = (do
      return (← (Arena.parse code).map dump) == (← (Arena.parse code').map dump)) := by
    rw [treesEqual]
    cases Arena.parse code <;> cases Arena.parse code' <;> rfl
  have trees : Mutagen.treesEqual code code' = (do
      return (← (Tree.parse code).map Tree.dump) == (← (Tree.parse code').map Tree.dump)) := by
    rw [Mutagen.treesEqual]
    cases Tree.parse code <;> cases Tree.parse code' <;> rfl
  rw [arenas, trees, parse_dump, parse_dump]

end Mutagen.Arena
