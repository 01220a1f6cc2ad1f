import Mutagen.Proofs.Grammar.Program
import Mutagen.Proofs.Mutation.Actions
import Mutagen.Proofs.RoundTrip

set_option autoImplicit false

namespace Mutagen

open Node

namespace Mutation

-- A node that may stand for another.
def Stays (node changed : Node) : Prop := Everywhere Shaped changed ∧ changed.place = node.place

theorem rewritten_stays {node changed : Node} (rewritten : Rewritten node changed) (h : Everywhere Shaped node) :
    Stays node changed := by
  have here := h.here
  have below := h.child
  cases rewritten with
  | boolOp | binOp | augAssign | unaryOp | branchesKept | dictKept => exact ⟨.node here below, rfl⟩
  | branchesSwapped test body orelse =>
      refine ⟨.node ⟨here.1, here.2.2, here.2.1⟩ ?_, rfl⟩
      simp_all [children]
  | lambda params defaults body =>
      have nothing : Everywhere Shaped (.constant .none) := .leaf trivial rfl
      exact ⟨.node ⟨here.1, rfl⟩ (List.forall_mem_append.mpr
        ⟨(List.forall_mem_append.mp below).1, List.forall_mem_singleton.mpr nothing⟩), rfl⟩
  | dictCleared =>
      have none : AreValues [] := fun _ member => by cases member
      exact ⟨.leaf ⟨rfl, none, none⟩ rfl, rfl⟩

theorem rewrites_stay {node changed : Node} (rewrites : Rewrites node changed) (h : Everywhere Shaped node) :
    Stays node changed := by
  rcases rewrites with rfl | rewritten
  · exact ⟨h, rfl⟩
  · exact rewritten_stays rewritten h

def ShapedTree (tree : Tree) : Prop := WellShaped tree.root

variable {tree : Tree} {offered : String → Prop}

theorem modify_keeps (h : ShapedTree tree) {path : Path} {node changed : Node}
    (found : tree.root.at? path = some node) (stays : Stays node changed) :
    ShapedTree (modifyAt tree path fun _ => changed) :=
  modify_shaped h found stays.1 stays.2

theorem changes_shaped (h : ShapedTree tree) (identifiers : ∀ id, offered id → isIdentifier id = true) {changed : Tree}
    (changes : Changes offered tree changed) : ShapedTree changed := by
  cases changes with
  | nothing => exact h
  | rewritten found rewrites => exact modify_keeps h found (rewrites_stay rewrites (at_everywhere h.shaped found))
  | @renamed _ _ new ctx found used =>
      exact modify_keeps h found ⟨.leaf (identifiers new used) rfl, by cases ctx <;> rfl⟩

theorem uses_identifier (h : ShapedTree tree) {id : String} (uses : Uses tree id) : isIdentifier id = true := by
  obtain ⟨path, ctx, found⟩ := uses
  exact (at_everywhere h.shaped found).here

theorem leads_shaped {first last : Tree} (h : ShapedTree first) (leads : Leads first last) : ShapedTree last := by
  induction leads with
  | start => exact h
  | step before action words ih => exact changes_shaped ih (fun _ => uses_identifier ih) (action_changes action words)

/-- Whatever mutations lead to from a parsed program keeps the shape of a program. -/
theorem mutations_shaped {source : String} {tree last : Tree} (parsed : Tree.parse source = .ok tree)
    (leads : Leads tree last) : WellShaped last.root :=
  leads_shaped (Grammar.parse_shaped parsed) leads

def lambdaCall : String := "f(lambda x: x + y, {k: v})"

-- `f` takes the name `y`, the lambda loses its body, and the dictionary its entries.
def lambdaSteps (tree : Tree) : Tree :=
  let renamed := ((Action.replace [[0, 0, 0], [0, 0, 1, 0, 1]]).run tree (.ofList [0])).1
  let nullified := ((Action.adjust {} [[0, 0, 2], [0, 0, 1]]).run renamed (.ofList [2147483648])).1
  ((Action.apply {} .dict [0, 0, 2]).run nullified (.ofList [0])).1

theorem lambda_leads (tree : Tree) : Leads tree (lambdaSteps tree) :=
  ((Leads.start.step (.replace _) _).step (.adjust {} _) _).step (.apply {} .dict _) _

theorem mutations_shaped_lambda : ∃ tree last, Tree.parse lambdaCall = .ok tree ∧ Leads tree last ∧
    last.root.render = "y(lambda x: None, {})".toList ∧ WellShaped last.root := by
  have read : (Tree.parse lambdaCall).toOption.map (fun tree => (lambdaSteps tree).root.render) =
      some "y(lambda x: None, {})".toList := by decide +kernel
  obtain ⟨tree, parsed, text⟩ := Option.map_eq_some_iff.mp read
  have source : Tree.parse lambdaCall = .ok tree := ok_of_option parsed
  exact ⟨tree, _, source, lambda_leads tree, text, mutations_shaped source (lambda_leads tree)⟩

end Mutation

end Mutagen
