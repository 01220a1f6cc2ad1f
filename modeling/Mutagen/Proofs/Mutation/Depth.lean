import Mutagen.Proofs.Mutation.Shape
import Mutagen.Proofs.Node.Change
import Mutagen.Proofs.Node.Depth

set_option autoImplicit false

namespace Mutagen

open Node

namespace Mutation

open Grammar

theorem rewritten_height {node changed : Node} (rewritten : Rewritten node changed) : height changed ≤ height node := by
  have pos := height_pos node
  have low : height changed ≤ 1 + (height node - 1) := by
    rw [height_le]
    intro child member
    have below {old : Node} (inside : old ∈ node.children) : height old ≤ height node - 1 := by
      have := height_child inside
      omega
    cases rewritten with
    | boolOp | binOp | augAssign | unaryOp | branchesKept | dictKept => exact below member
    | branchesSwapped test body orelse =>
        apply below
        simp only [children, List.mem_cons, List.not_mem_nil, or_false] at member ⊢
        tauto
    | lambda params defaults body =>
        rcases List.mem_append.mp member with initial | fresh
        · exact below (List.mem_append_left _ initial)
        · -- The new constant is a leaf, and the body that it replaces is at least that high.
          rw [List.mem_singleton.mp fresh, height_leaf rfl]
          exact (height_pos body).trans (below (List.mem_append_right _ (.head _)))
    | dictCleared => cases member
  omega

theorem rewrites_height {node changed : Node} (rewrites : Rewrites node changed) : height changed ≤ height node := by
  rcases rewrites with rfl | rewritten
  · exact Nat.le_refl _
  · exact rewritten_height rewritten

-- The statements of the program, one by one.
def Shrinks (before after : Node) : Prop :=
  List.Forall₂ (fun s s' => depth s' ≤ depth s) before.children after.children

theorem shrinks_refl (root : Node) : Shrinks root root := List.forall₂_same.mpr fun _ _ => Nat.le_refl _

theorem map_children_shrinks {f : Nat → Node → Node} {root : Node}
    (h : ∀ i child, root.children[i]? = some child → height (f i child) ≤ height child) :
    Shrinks root (root.mapChildren f) := by
  rw [Shrinks, children_map, List.forall₂_iff_get]
  refine ⟨by rw [List.length_mapIdx], fun i before after => ?_⟩
  simp only [List.get_eq_getElem, List.getElem_mapIdx, depth_eq]
  exact h i _ (List.getElem?_eq_getElem before)

theorem modify_shrinks {root node new : Node} {i : Nat} {path : Path} (found : root.at? (i :: path) = some node)
    (low : height new ≤ height node) : Shrinks root (root.modifyAt (fun _ => new) (i :: path)) := by
  rw [modify_cons]
  apply map_children_shrinks
  intro j child there
  by_cases here : j = i
  · subst here
    rw [at_cons, there, Option.bind_some] at found
    rw [if_pos rfl]
    exact modify_height found low
  · rw [if_neg here]

theorem changes_shrink {offered : String → Prop} {tree changed : Tree} (h : ShapedTree tree)
    (changes : Changes offered tree changed) :
    Shrinks tree.root changed.root := by
  obtain ⟨body, program⟩ := root_program h.program
  cases changes with
  | nothing => exact shrinks_refl _
  | @rewritten path node changed found rewrites =>
      cases path with
      | nil =>
          -- No operator is registered for the program itself.
          cases found
          rcases rewrites with rfl | rewritten
          · exact shrinks_refl _
          · rw [program] at rewritten
            cases rewritten
      | cons i path => exact modify_shrinks found (rewrites_height rewrites)
  | @renamed path old new ctx found used =>
      cases path with
      | nil =>
          rw [program] at found
          cases found
      | cons i path =>
          apply modify_shrinks found
          rw [height_leaf rfl, height_leaf rfl]

theorem stays_low {before after : List Node} {bound : Nat} (shrinks : List.Forall₂ (fun s s' => depth s' ≤ depth s) before after)
    (low : ∀ s ∈ before, depth s ≤ bound) : ∀ s ∈ after, depth s ≤ bound := by
  induction shrinks with
  | nil => exact fun s member => nomatch member
  | cons smaller _ ih =>
      obtain ⟨first, others⟩ := List.forall_mem_cons.mp low
      exact List.forall_mem_cons.mpr ⟨smaller.trans first, ih others⟩

/-- The loop over a stack finds the height of a tree, parsed statements keep to the limit, and no mutation makes one deeper. -/
theorem mutations_keep_depth {source : String} {tree last : Tree} (parsed : Tree.parse source = .ok tree)
    (leads : Leads tree last) :
    (∀ node, depth node = height node) ∧ (∀ s ∈ last.root.children, depth s ≤ maxDepth) ∧
      ∀ (action : Action) (words : Words),
        List.Forall₂ (fun s s' => depth s' ≤ depth s) last.root.children (action.run last words).1.root.children := by
  have next {before : Tree} (leads : Leads tree before) (action : Action) (words : Words) :
      Shrinks before.root (action.run before words).1.root :=
    changes_shrink (leads_shaped (parse_shaped parsed) leads) (action_changes action words)
  refine ⟨depth_eq, ?_, next leads⟩
  induction leads with
  | start => exact parse_shallow parsed
  | step before action words ih => exact stays_low (next before action words) ih

theorem mutations_keep_depth_lambda : ∃ tree last, Tree.parse lambdaCall = .ok tree ∧ Leads tree last ∧
    tree.root.children.map depth = [5] ∧ last.root.children.map depth = [4] ∧ ∀ s ∈ last.root.children, depth s ≤ maxDepth := by
  have read : (Tree.parse lambdaCall).toOption.map (fun tree =>
      (tree.root.children.map height, (lambdaSteps tree).root.children.map height)) = some ([5], [4]) := by decide +kernel
  obtain ⟨tree, parsed, heights⟩ := Option.map_eq_some_iff.mp read
  obtain ⟨before, after⟩ := Prod.mk.inj heights
  have source : Tree.parse lambdaCall = .ok tree := ok_of_option parsed
  obtain ⟨same, low, _⟩ := mutations_keep_depth source (lambda_leads tree)
  rw [← funext same] at before after
  exact ⟨tree, _, source, lambda_leads tree, before, after, low⟩

end Mutation

end Mutagen
