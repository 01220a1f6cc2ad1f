import Mutagen.Proofs.Mutation.Shape
import Mutagen.Proofs.Node.Contexts

set_option autoImplicit false

namespace Mutagen

open Node

namespace Node

def Bare : Node → Prop := Everywhere (·.ctx? = none)

-- The new node comes from the old one: it has its form and its context, and each of its children comes
-- from a child of the old node, not from the same as another one, or is bare.
inductive KeepsContexts : Node → Node → Prop where
  | node {old new : Node} (origin : Nat → Option Nat) (form : new.label = old.label)
      (context : new.ctx? = old.ctx?) (distinct : ∀ i j k, origin i = some k → origin j = some k → i = j)
      (inside : ∀ i k, i < new.children.length → origin i = some k → k < old.children.length)
      (below : ∀ i k child was, new.children[i]? = some child → origin i = some k → old.children[k]? = some was →
        KeepsContexts was child)
      (fresh : ∀ i child, new.children[i]? = some child → origin i = none → Bare child) :
      KeepsContexts old new

theorem keeps_listed {old new : Node} (origins : List Nat) (form : new.label = old.label) (context : new.ctx? = old.ctx?)
    (distinct : origins.Nodup) (inside : ∀ k ∈ origins, k < old.children.length)
    (below : ∀ (i k : Nat) child was, new.children[i]? = some child → origins[i]? = some k → old.children[k]? = some was →
      KeepsContexts was child)
    (fresh : ∀ (i : Nat) child, new.children[i]? = some child → origins.length ≤ i → Bare child) :
    KeepsContexts old new := by
  refine .node (fun i => origins[i]?) form context ?_ ?_ below ?_
  · intro i j k first second
    have short := (List.getElem?_eq_some_iff.mp first).choose
    exact (List.getElem?_inj short distinct).mp (first.trans second.symm)
  · exact fun i k _ source => inside k (List.mem_of_getElem? source)
  · exact fun i child found none => fresh i child found (List.getElem?_eq_none_iff.mp none)

theorem range_at {n i k : Nat} (h : (List.range n)[i]? = some k) : i = k ∧ k < n := by
  obtain ⟨inside, same⟩ := List.getElem?_eq_some_iff.mp h
  rw [List.getElem_range] at same
  rw [List.length_range] at inside
  exact ⟨same, same ▸ inside⟩

theorem keeps_in_place {old new : Node} (form : new.label = old.label) (context : new.ctx? = old.ctx?)
    (same : new.children.length = old.children.length)
    (below : ∀ (i : Nat) child was, new.children[i]? = some child → old.children[i]? = some was → KeepsContexts was child) :
    KeepsContexts old new := by
  refine keeps_listed (List.range old.children.length) form context List.nodup_range ?_ ?_ ?_
  · exact fun k => List.mem_range.mp
  · intro i k child was found source found'
    obtain ⟨rfl, _⟩ := range_at source
    exact below i child was found found'
  · intro i child found beyond
    rw [List.length_range, ← same] at beyond
    rw [List.getElem?_eq_none beyond] at found
    cases found

theorem keeps_children {old new : Node} (form : new.label = old.label) (context : new.ctx? = old.ctx?)
    (same : new.children = old.children) (all : ∀ child ∈ old.children, KeepsContexts child child) :
    KeepsContexts old new := by
  refine keeps_in_place form context (by rw [same]) fun i child before found found' => ?_
  rw [same, found'] at found
  cases found
  exact all child (List.mem_of_getElem? found')

theorem keeps_refl (node : Node) : KeepsContexts node node := by
  induction node using node_induction with
  | step node ih => exact keeps_children rfl rfl rfl ih

theorem keeps_alike {old new : Node} (form : new.label = old.label) (context : new.ctx? = old.ctx?)
    (same : new.children = old.children) : KeepsContexts old new :=
  keeps_children form context same fun child _ => keeps_refl child

theorem bare_kept {old new : Node} (h : KeepsContexts old new) (bare : Bare old) : Bare new := by
  induction h with
  | @node old new origin form context distinct inside below fresh ih =>
      refine .node (context.trans bare.here) fun child member => ?_
      obtain ⟨i, short, found⟩ := List.mem_iff_getElem.mp member
      have placed : new.children[i]? = some child := List.getElem?_eq_some_iff.mpr ⟨short, found⟩
      cases source : origin i with
      | none => exact fresh i child placed source
      | some k =>
          have long := inside i k short source
          have was : old.children[k]? = some old.children[k] := List.getElem?_eq_getElem long
          exact ih i k child _ placed source was (bare.child _ (List.getElem_mem long))

theorem keeps_trans {first second third : Node} (h : KeepsContexts first second) (h' : KeepsContexts second third) :
    KeepsContexts first third := by
  induction h' generalizing first with
  | @node second third origin' form' context' distinct' inside' below' fresh' ih =>
      cases h with
      | node origin form context distinct inside below fresh =>
          refine .node (fun i => (origin' i).bind origin) (form'.trans form) (context'.trans context) ?_ ?_ ?_ ?_
          · intro i j k one two
            obtain ⟨i', source, again⟩ := Option.bind_eq_some_iff.mp one
            obtain ⟨j', source', again'⟩ := Option.bind_eq_some_iff.mp two
            rw [distinct i' j' k again again'] at source
            exact distinct' i j j' source source'
          · intro i k short both
            obtain ⟨i', source, again⟩ := Option.bind_eq_some_iff.mp both
            exact inside i' k (inside' i i' short source) again
          · intro i k child was found both found'
            obtain ⟨i', source, again⟩ := Option.bind_eq_some_iff.mp both
            have short := (List.getElem?_eq_some_iff.mp found).choose
            have middle := List.getElem?_eq_getElem (inside' i i' short source)
            exact ih i i' child _ found source middle (below i' k _ was middle again found')
          · intro i child found none
            cases source : origin' i with
            | none => exact fresh' i child found source
            | some i' =>
                rw [source, Option.bind_some] at none
                have short := (List.getElem?_eq_some_iff.mp found).choose
                have middle := List.getElem?_eq_getElem (inside' i i' short source)
                exact bare_kept (below' i i' child _ found source middle) (fresh i' _ middle none)

theorem map_children_label (f : Nat → Node → Node) (node : Node) : (node.mapChildren f).label = node.label := by
  cases node <;> rfl

theorem map_children_ctx (f : Nat → Node → Node) (node : Node) : (node.mapChildren f).ctx? = node.ctx? := by
  cases node <;> rfl

theorem modify_keeps_contexts {root node changed : Node} {path : Path} (found : root.at? path = some node)
    (keeps : KeepsContexts node changed) : KeepsContexts root (root.modifyAt (fun _ => changed) path) := by
  induction path generalizing root with
  | nil =>
      cases found
      exact keeps
  | cons i path ih =>
      refine keeps_in_place (map_children_label _ root) (map_children_ctx _ root) ?_ ?_
      · rw [modifyAt, children_map, List.length_mapIdx]
      · intro j child was found' found''
        rw [modifyAt, children_map, List.getElem?_mapIdx, found''] at found'
        cases found'
        split
        · rename_i same
          subst same
          rw [at_cons, found'', Option.bind_some] at found
          exact ih found
        · exact keeps_refl was

end Node

namespace Mutation

-- The branches of a conditional expression change places behind the test.
theorem swapped_keeps (test body orelse : Node) :
    KeepsContexts (.ifExp test body orelse) (.ifExp test orelse body) := by
  refine keeps_listed [0, 2, 1] rfl rfl (by decide) (by simp [children]) ?_ ?_
  · intro i k child was found source found'
    have same : child = was := by
      rcases i with _ | _ | _ | i
      all_goals cases source
      all_goals cases found
      all_goals cases found'
      all_goals rfl
    rw [same]
    exact keeps_refl was
  · intro i child found beyond
    have none : (Node.ifExp test orelse body).children[i]? = .none := List.getElem?_eq_none beyond
    rw [none] at found
    cases found

theorem nullified_keeps (params : List String) (defaults : List Node) (body : Node) :
    KeepsContexts (.lambda params defaults body) (.lambda params defaults (.constant .none)) := by
  refine keeps_listed (List.range defaults.length) rfl rfl List.nodup_range ?_ ?_ ?_
  · intro k member
    rw [children, List.length_append]
    exact Nat.lt_add_right _ (List.mem_range.mp member)
  · intro i k child was found source found'
    obtain ⟨rfl, inside⟩ := range_at source
    rw [children, List.getElem?_append_left inside] at found found'
    rw [found] at found'
    cases found'
    exact keeps_refl child
  · intro i child found beyond
    rw [List.length_range] at beyond
    rw [children, List.getElem?_append_right beyond] at found
    rw [List.mem_singleton.mp (List.mem_of_getElem? found)]
    exact .leaf rfl rfl

theorem rewritten_keeps {node changed : Node} (rewritten : Rewritten node changed) : KeepsContexts node changed := by
  cases rewritten with
  | boolOp | binOp | augAssign | unaryOp | branchesKept | dictKept => exact keeps_alike rfl rfl rfl
  | branchesSwapped test body orelse => exact swapped_keeps test body orelse
  | lambda params defaults body => exact nullified_keeps params defaults body
  | dictCleared => exact keeps_listed [] rfl rfl List.nodup_nil (by simp) (by simp) (by simp [children])

theorem changes_keep {offered : String → Prop} {tree changed : Tree} (changes : Changes offered tree changed) :
    KeepsContexts tree.root changed.root := by
  cases changes with
  | nothing => exact keeps_refl _
  | rewritten found rewrites =>
      refine modify_keeps_contexts found ?_
      rcases rewrites with rfl | rewritten
      · exact keeps_refl _
      · exact rewritten_keeps rewritten
  | renamed found _ => exact modify_keeps_contexts found (keeps_alike rfl rfl rfl)

theorem leads_keep {first last : Tree} (leads : Leads first last) : KeepsContexts first.root last.root := by
  induction leads with
  | start => exact keeps_refl _
  | step before action words ih => exact keeps_trans ih (changes_keep (action_changes action words))

/-- Names are bound exactly where a statement binds them, before and after any mutations, and the walk collects the others. -/
theorem contexts_exact {source : String} {tree last : Tree} (parsed : Tree.parse source = .ok tree)
    (leads : Leads tree last) :
    ExactContexts last.root ∧ KeepsContexts tree.root last.root ∧ last.root.variablePaths.Nodup ∧
      ∀ path, path ∈ last.root.variablePaths ↔
        ∃ id ctx, last.root.at? path = some (.name id ctx) ∧ ¬ Targeted last.root path := by
  have shaped := leads_shaped (Grammar.parse_shaped parsed) leads
  exact ⟨shaped_exact_contexts shaped, leads_keep leads, paths_nodup _ _, fun path => variable_paths_exact shaped⟩

-- The targets of the assignment are not among the names that are read, before and after a renaming.
theorem contexts_exact_pair :
    (Tree.parse "a, b.c = d").toOption.map (·.root.variablePaths) = some [[0, 1], [0, 0, 1, 0]] ∧
      ∃ tree last, Tree.parse "a, b.c = d" = .ok tree ∧ Leads tree last ∧ ExactContexts last.root ∧
        KeepsContexts tree.root last.root := by
  have read : (Tree.parse "a, b.c = d").toOption.map (·.root.variablePaths) = some [[0, 1], [0, 0, 1, 0]] := by
    decide +kernel
  obtain ⟨tree, parsed, _⟩ := Option.map_eq_some_iff.mp read
  have source : Tree.parse "a, b.c = d" = .ok tree := ok_of_option parsed
  have leads : Leads tree _ := Leads.start.step (.replace tree.root.variablePaths) (.ofList [])
  obtain ⟨exact, keeps, _⟩ := contexts_exact source leads
  exact ⟨read, tree, _, source, leads, exact, keeps⟩

end Mutation

end Mutagen
