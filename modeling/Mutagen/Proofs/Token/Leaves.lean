import Mutagen.Node.Leaves
import Mutagen.Proofs.Token.Sound

set_option autoImplicit false

namespace Mutagen

open Token (Kind)

namespace Token

-- The identifier or the constant that a token spells.
def Kind.leaf? : Kind → Option Leaf
  | .name id => some (.name id)
  | .int value => some (.constant (.int value))
  | .float value => some (.constant (.float value))
  | .str text => some (.constant (.str text))
  | .keyword .kwNone => some (.constant .none)
  | .keyword .kwTrue => some (.constant (.bool true))
  | .keyword .kwFalse => some (.constant (.bool false))
  | _ => none

def Kind.name? : Kind → Option String
  | .name id => some id
  | _ => none

def Kind.isStr : Kind → Bool
  | .str _ => true
  | _ => false

def joinStrings : List Kind → List Kind
  | [] => []
  | .str text :: rest =>
      match joinStrings rest with
      | .str next :: others => .str (text ++ next) :: others
      | others => .str text :: others
  | kind :: rest => kind :: joinStrings rest

def leavesOf (kinds : List Kind) : List Leaf := (joinStrings kinds).filterMap Kind.leaf?

variable {kind : Kind} {rest : List Kind}

theorem join_plain (plain : kind.isStr = false) (rest : List Kind) :
    joinStrings (kind :: rest) = kind :: joinStrings rest := by
  cases kind with
  | str text => cases plain
  | _ => rfl

theorem leaves_plain {leaf : Leaf} (plain : kind.isStr = false) (spells : kind.leaf? = some leaf) :
    leavesOf (kind :: rest) = leaf :: leavesOf rest := by
  rw [leavesOf, join_plain plain, List.filterMap_cons_some spells, leavesOf]

theorem leaves_silent (silent : kind.leaf? = none) : leavesOf (kind :: rest) = leavesOf rest := by
  have plain : kind.isStr = false := by
    cases kind with
    | str text => cases silent
    | _ => rfl
  rw [leavesOf, join_plain plain, List.filterMap_cons_none silent, leavesOf]

-- A string in front of another one, and in front of anything else.
theorem join_strings (text next : String) (rest : List Kind) :
    joinStrings (.str text :: .str next :: rest) = joinStrings (.str (text ++ next) :: rest) := by
  simp only [joinStrings]
  cases joinStrings rest with
  | nil => rfl
  | cons first others =>
      cases first with
      | str last => simp only [String.append_assoc]
      | _ => rfl

theorem join_leaves (text next : String) (rest : List Kind) :
    leavesOf (.str text :: .str next :: rest) = leavesOf (.str (text ++ next) :: rest) := by
  rw [leavesOf, join_strings, leavesOf]

theorem leaves_string {text : String} (last : ∀ next more, rest ≠ .str next :: more) :
    leavesOf (.str text :: rest) = .constant (.str text) :: leavesOf rest := by
  have alone : joinStrings (.str text :: rest) = .str text :: joinStrings rest := by
    cases rest with
    | nil => rfl
    | cons first more =>
        have plain : first.isStr = false := by
          cases first with
          | str next => exact absurd rfl (last next more)
          | _ => rfl
        rw [join_plain plain, joinStrings, join_plain plain]
        cases first with
        | str next => cases plain
        | _ => rfl
  rw [leavesOf, alone]
  rfl

theorem join_names (kinds : List Kind) : (joinStrings kinds).filterMap Kind.name? = kinds.filterMap Kind.name? := by
  induction kinds with
  | nil => rfl
  | cons kind rest ih =>
      by_cases plain : kind.isStr = false
      · rw [join_plain plain, List.filterMap_cons, List.filterMap_cons, ih]
      · cases kind with
        | str text =>
            have silent : (Kind.str text).name? = none := rfl
            rw [List.filterMap_cons_none silent, ← ih, joinStrings]
            split
            · rename_i next others joined
              rw [joined]
              rfl
            · rfl
        | _ => exact absurd rfl plain

end Token

def Leaf.name? : Leaf → Option String
  | .name id => some id
  | .constant _ => none

theorem identifiers_eq (root : Node) : root.identifiers = root.leaves.filterMap Leaf.name? := by
  refine congrArg (fun f => root.leaves.filterMap f) (funext fun leaf => ?_)
  cases leaf <;> rfl

theorem leaves_names (kinds : List Kind) :
    (Token.leavesOf kinds).filterMap Leaf.name? = kinds.filterMap Kind.name? := by
  have same : (fun kind : Kind => kind.leaf?.bind Leaf.name?) = Kind.name? := by
    funext kind
    cases kind with
    | keyword word => cases word <;> rfl
    | _ => rfl
  rw [Token.leavesOf, List.filterMap_filterMap, same, Token.join_names]

namespace Lexer

theorem steps_no_end {tab : Nat} {s s' : State} {tokens : List Token} (h : Steps tab s tokens (some s')) :
    ∀ token ∈ tokens, token.kind ≠ .eof := by
  cases h with
  | margin _ block =>
      intro token member
      obtain ⟨kind, listed, rfl⟩ := List.mem_map.mp member
      rcases block with ⟨rfl, _⟩ | ⟨n, rfl⟩
      · rw [List.mem_singleton.mp listed]
        exact Kind.noConfusion
      · rw [List.eq_of_mem_replicate listed]
        exact Kind.noConfusion
  | newline => exact List.forall_mem_singleton.mpr Kind.noConfusion
  | visible _ _ reads =>
      refine List.forall_mem_singleton.mpr ?_
      rintro rfl
      cases (visible_text reads).visible

-- The tokens up to the end, and the end.
def Ends (tokens : List Token) : Prop :=
  ∃ front last, tokens = front ++ [last] ∧ last.kind = .eof ∧ ∀ token ∈ front, token.kind ≠ .eof

theorem closing_ends (s : State) (here : Position) : Ends (closing s here) := by
  refine ⟨_, ⟨.eof, .empty here⟩, List.map_append, rfl, fun token member => ?_⟩
  obtain ⟨kind, listed, rfl⟩ := List.mem_map.mp member
  rcases List.mem_append.mp listed with line | blocks
  · split at line
    · rw [List.mem_singleton.mp line]
      exact Kind.noConfusion
    · cases line
  · rw [List.eq_of_mem_replicate blocks]
    exact Kind.noConfusion

theorem runs_end {tab : Nat} {s : State} {tokens : List Token} (h : Runs tab s tokens) : Ends tokens := by
  induction h with
  | last stepped =>
      cases stepped with
      | ending => exact closing_ends _ _
  | more stepped _ ih =>
      obtain ⟨front, last, rfl, ends, none⟩ := ih
      refine ⟨_, last, (List.append_assoc _ _ _).symm, ends, ?_⟩
      exact List.forall_mem_append.mpr ⟨steps_no_end stepped, none⟩

end Lexer

theorem tokenize_ends {source : String} {tokens : List Token} (h : tokenize source = .ok tokens) : Lexer.Ends tokens :=
  Lexer.runs_end (Lexer.run_runs h)

end Mutagen
