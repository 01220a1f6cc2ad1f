import Mathlib.Algebra.Ring.Int.Defs
import Mutagen.Proofs.Node.Blocks
import Mutagen.Proofs.Node.Depth

set_option autoImplicit false

namespace Mutagen.Node

open Lexer (Row laid bracketsBehind? maxBrackets countBrackets? Balanced brackets_behind_cons)

def weight : Token.Kind → Int
  | .mark m => if m.isOpening then 1 else if m.isClosing then -1 else 0
  | _ => 0

-- How many more brackets the tokens open than they close.
def nesting (kinds : List Token.Kind) : Int := (kinds.map weight).sum

@[simp] theorem nesting_nil : nesting [] = 0 := rfl

@[simp] theorem nesting_cons (kind : Token.Kind) (kinds : List Token.Kind) :
    nesting (kind :: kinds) = weight kind + nesting kinds := by
  rw [nesting, List.map_cons, List.sum_cons, nesting]

@[simp] theorem nesting_append (kinds kinds' : List Token.Kind) : nesting (kinds ++ kinds') = nesting kinds + nesting kinds' := by
  rw [nesting, List.map_append, List.sum_append, nesting, nesting]

-- The tokens close what they open, and at most `bound` brackets are open at once.
structure Within (kinds : List Token.Kind) (bound : Nat) : Prop where
  closed : nesting kinds = 0
  low : ∀ front, front <+: kinds → 0 ≤ nesting front
  few : ∀ front, front <+: kinds → nesting front ≤ bound

variable {kinds kinds' : List Token.Kind} {bound bound' : Nat}

theorem within_mono (h : Within kinds bound) (le : bound ≤ bound') : Within kinds bound' where
  closed := h.closed
  low := h.low
  few front inside := (h.few front inside).trans (Int.ofNat_le.mpr le)

theorem within_nil : Within [] bound where
  closed := rfl
  low front inside := by
    rw [List.prefix_nil.mp inside]
    exact Int.le_refl 0
  few front inside := by
    rw [List.prefix_nil.mp inside]
    exact Int.natCast_nonneg bound

theorem prefix_cases {front : List Token.Kind} (h : front <+: kinds ++ kinds') :
    front <+: kinds ∨ ∃ part, part <+: kinds' ∧ front = kinds ++ part := by
  obtain ⟨back, same⟩ := h
  rcases List.append_eq_append_iff.mp same with ⟨more, rfl, _⟩ | ⟨part, rfl, rfl⟩
  · exact .inl (List.prefix_append front more)
  · exact .inr ⟨part, List.prefix_append part back, rfl⟩

theorem within_append (h : Within kinds bound) (h' : Within kinds' bound) : Within (kinds ++ kinds') bound where
  closed := by rw [nesting_append, h.closed, h'.closed, Int.add_zero]
  low front inside := by
    rcases prefix_cases inside with first | ⟨part, second, rfl⟩
    · exact h.low front first
    · rw [nesting_append, h.closed, Int.zero_add]
      exact h'.low part second
  few front inside := by
    rcases prefix_cases inside with first | ⟨part, second, rfl⟩
    · exact h.few front first
    · rw [nesting_append, h.closed, Int.zero_add]
      exact h'.few part second

def isBracket : Token.Kind → Bool
  | .mark m => m.isOpening || m.isClosing
  | _ => false

theorem weight_plain {kind : Token.Kind} (plain : isBracket kind = false) : weight kind = 0 := by
  cases kind with
  | mark m =>
      obtain ⟨noOpening, noClosing⟩ := Bool.or_eq_false_iff.mp plain
      simp [weight, noOpening, noClosing]
  | _ => rfl

theorem within_single {kind : Token.Kind} (plain : isBracket kind = false) : Within [kind] bound := by
  have nothing : ∀ front, front <+: [kind] → nesting front = 0 := by
    intro front inside
    rcases List.prefix_cons_iff.mp inside with rfl | ⟨part, rfl, rest⟩
    · rfl
    · rw [List.prefix_nil.mp rest, nesting_cons, weight_plain plain, nesting_nil, Int.add_zero]
  refine ⟨nothing _ (List.prefix_refl _), fun front inside => ?_, fun front inside => ?_⟩
  · rw [nothing front inside]
  · rw [nothing front inside]
    exact Int.natCast_nonneg bound

theorem within_cons {kind : Token.Kind} (plain : isBracket kind = false) (h : Within kinds bound) :
    Within (kind :: kinds) bound :=
  within_append (within_single plain) h

theorem within_plain (plain : ∀ kind ∈ kinds, isBracket kind = false) : Within kinds bound := by
  induction kinds with
  | nil => exact within_nil
  | cons kind kinds ih => exact within_cons (plain kind (by simp)) (ih fun x member => plain x (by simp [member]))

theorem within_tail {kind : Token.Kind} (plain : isBracket kind = false) (h : Within (kind :: kinds) bound) :
    Within kinds bound := by
  have same (front : List Token.Kind) : nesting front = nesting (kind :: front) := by
    rw [nesting_cons, weight_plain plain, Int.zero_add]
  have longer {front : List Token.Kind} (inside : front <+: kinds) : kind :: front <+: kind :: kinds :=
    List.cons_prefix_cons.mpr ⟨rfl, inside⟩
  refine ⟨(same kinds).trans h.closed, fun front inside => ?_, fun front inside => ?_⟩
  · rw [same]
    exact h.low _ (longer inside)
  · rw [same]
    exact h.few _ (longer inside)

theorem within_front {kind : Token.Kind} (plain : isBracket kind = false) (h : Within (kinds ++ [kind]) bound) :
    Within kinds bound where
  closed := by simpa [weight_plain plain] using h.closed
  low front inside := h.low front (inside.trans (List.prefix_append kinds [kind]))
  few front inside := h.few front (inside.trans (List.prefix_append kinds [kind]))

theorem within_between {m m' : Mark} (opens : m.isOpening = true) (closes : m'.isClosing = true)
    (noOpening : m'.isOpening = false) (h : Within kinds bound) :
    Within (.mark m :: kinds ++ [.mark m']) (bound + 1) := by
  have up : weight (.mark m) = 1 := by simp [weight, opens]
  have down : weight (.mark m') = -1 := by simp [weight, closes, noOpening]
  -- Nothing is read, some of what stands between, or everything.
  have parts : ∀ front, front <+: .mark m :: kinds ++ [.mark m'] →
      nesting front = 0 ∨ ∃ part, part <+: kinds ∧ nesting front = 1 + nesting part := by
    intro front inside
    rw [List.cons_append] at inside
    rcases List.prefix_cons_iff.mp inside with rfl | ⟨more, rfl, rest⟩
    · exact .inl rfl
    · rcases prefix_cases rest with part | ⟨last, ends, rfl⟩
      · exact .inr ⟨more, part, by rw [nesting_cons, up]⟩
      · rcases List.prefix_cons_iff.mp ends with rfl | ⟨nothing, rfl, empty⟩
        · exact .inr ⟨kinds, List.prefix_refl _, by rw [List.append_nil, nesting_cons, up]⟩
        · left
          rw [List.prefix_nil.mp empty]
          simp [up, down, h.closed]
  refine ⟨by simp [up, down, h.closed], fun front inside => ?_, fun front inside => ?_⟩
  · rcases parts front inside with none | ⟨part, within, same⟩
    · rw [none]
    · have := h.low part within
      omega
  · rcases parts front inside with none | ⟨part, within, same⟩
    · omega
    · have := h.few part within
      push_cast
      omega

theorem within_enclosed (h : Within kinds bound) : Within (enclosed kinds) (bound + 1) :=
  within_between rfl rfl rfl h

theorem within_joined {separator : Token.Kind} {items : List (List Token.Kind)} (plain : isBracket separator = false)
    (h : ∀ item ∈ items, Within item bound) : Within (joined separator items) bound := by
  have tail : ∀ others : List (List Token.Kind), (∀ item ∈ others, Within item bound) →
      Within (others.flatMap (separator :: ·)) bound := by
    intro others all
    induction others with
    | nil => exact within_nil
    | cons item others ih =>
        rw [List.flatMap_cons]
        exact within_append (within_cons plain (all item (by simp))) (ih fun x member => all x (by simp [member]))
  cases items with
  | nil => exact within_nil
  | cons first others => exact within_append (h first (by simp)) (tail others fun x member => h x (by simp [member]))

theorem within_elements {items : List (List Token.Kind)} (h : ∀ item ∈ items, Within item bound) :
    Within (elementTokens items) bound := by
  refine within_append (within_joined rfl h) ?_
  split
  · exact within_single rfl
  · exact within_nil

theorem within_zip {α : Type} {items : List α} {lists : List (List Token.Kind)} {f : α → List Token.Kind → List Token.Kind}
    (h : ∀ list ∈ lists, Within list bound)
    (step : ∀ item ∈ items, ∀ list, Within list bound → Within (f item list) bound) :
    ∀ entry ∈ List.zipWith f items lists, Within entry bound := by
  induction lists generalizing items with
  | nil => simp
  | cons list lists ih =>
      cases items with
      | nil => simp
      | cons item items =>
          intro entry member
          rcases List.mem_cons.mp member with rfl | inside
          · exact step item (by simp) list (h list (by simp))
          · exact ih (fun x member => h x (by simp [member])) (fun x member => step x (by simp [member])) entry inside

theorem within_params {params : List String} {items : List (List Token.Kind)} (h : ∀ item ∈ items, Within item bound) :
    Within (paramTokens params items) bound := by
  refine within_joined rfl fun item member => ?_
  rcases List.mem_append.mp member with plain | withDefault
  · obtain ⟨id, _, rfl⟩ := List.mem_map.mp plain
    exact within_single rfl
  · exact within_zip h (fun id _ list within => within_cons rfl (within_cons rfl within)) item withDefault

theorem within_flatten {lists : List (List Token.Kind)} (h : ∀ list ∈ lists, Within list bound) :
    Within lists.flatten bound := by
  induction lists with
  | nil => exact within_nil
  | cons list lists ih => exact within_append (h list (by simp)) (ih fun x member => h x (by simp [member]))

theorem constant_plain (value : Constant) : isBracket value.kind = false := by
  cases value with
  | bool value => cases value <;> rfl
  | _ => rfl

theorem within_comparison (op : ComparisonOp) (h : Within kinds bound) : Within (op.kinds ++ kinds) bound := by
  cases op with
  | isNot | notIn => exact within_cons rfl (within_cons rfl h)
  | _ => exact within_cons rfl h

theorem within_option {part : Option Node} {mark : List Token.Kind} (plain : ∀ kind ∈ mark, isBracket kind = false)
    (h : ∀ node ∈ part.toList, Within (tokensAt .test node) bound) : Within (tokensOption mark part) bound := by
  cases part with
  | none => exact within_nil
  | some node => exact within_append (within_plain plain) (h node (by simp))

theorem within_keywords {keywords : List (String × Node)}
    (h : ∀ keyword ∈ keywords, Within (tokensAt .test keyword.2) bound) :
    ∀ item ∈ tokensKeywords keywords, Within item bound := by
  induction keywords with
  | nil => simp [tokensKeywords]
  | cons keyword keywords ih =>
      intro item member
      rcases List.mem_cons.mp member with rfl | inside
      · exact within_cons rfl (within_cons rfl (h keyword (by simp)))
      · exact ih (fun x inside => h x (by simp [inside])) item inside

-- A form that may need parentheses has no brackets of its own.
def bare (node : Node) : Nat := if node.precedence = .atom then height node else height node - 1

theorem within_at {node : Node} (h : Within (tokens node) (bare node)) (level : Precedence) :
    Within (tokensAt level node) (height node) := by
  have pos := height_pos node
  rw [bare] at h
  rw [tokensAt, guarded]
  split
  · rename_i looser
    have open_form : node.precedence ≠ .atom := by
      intro atom
      rw [atom] at looser
      cases level <;> exact absurd looser (by decide)
    rw [if_neg open_form] at h
    exact within_mono (within_enclosed h) (by omega)
  · exact within_mono h (by split <;> omega)

theorem tokens_listed {nodes : List Node} {level : Precedence} (h : ∀ node ∈ nodes, Within (tokensAt level node) bound) :
    ∀ list ∈ tokensAll level nodes, Within list bound := by
  rw [tokens_all_eq]
  exact List.forall_mem_map.mpr h

structure PartsWithin (node : Node) : Prop where
  parts : ∀ child ∈ node.children, ∀ level, Within (tokensAt level child) (height node - 1)
  indices : ∀ child ∈ node.children, Within (indexTokens child) (height node - 1)

theorem PartsWithin.listed {node : Node} (h : PartsWithin node) (nodes : List Node)
    (below : ∀ child ∈ nodes, child ∈ node.children) (level : Precedence) :
    ∀ list ∈ tokensAll level nodes, Within list (height node - 1) :=
  tokens_listed fun child inside => h.parts child (below child inside) level

theorem loose_within {node : Node} (h : Within kinds (height node - 1)) : Within kinds (bare node) := by
  apply within_mono h
  rw [bare]
  split <;> omega

theorem atomic_within {node : Node} (atom : node.precedence = .atom) (h : Within kinds (height node - 1 + 1)) :
    Within kinds (bare node) := by
  have pos := height_pos node
  rw [bare, if_pos atom]
  exact within_mono h (by omega)

theorem own_within {node : Node} (h : PartsWithin node) : Within (tokens node) (bare node) := by
  have parts := h.parts
  cases node with
  | boolOp op values =>
      exact loose_within (within_joined rfl (h.listed values (fun child inside => inside) op.precedence.next))
  | binOp left op right =>
      have first := parts left (by simp [children]) op.operands.1
      have second := parts right (by simp [children]) op.operands.2
      exact loose_within (within_append first (within_cons (by cases op <;> rfl) second))
  | unaryOp op operand =>
      exact loose_within (within_cons (by cases op <;> rfl) (parts operand (by simp [children]) op.precedence))
  | lambda params defaults body =>
      have inner := parts body (by simp [children]) .test
      have listed := @within_params _ params _ (h.listed defaults (by simp_all [children]) .test)
      exact loose_within (within_append (within_cons rfl listed) (within_cons rfl inner))
  | ifExp condition body orelse =>
      have branch := parts body (by simp [children]) .or
      have middle := parts condition (by simp [children]) .or
      have last := parts orelse (by simp [children]) .test
      exact loose_within (within_append (within_append branch (within_cons rfl middle)) (within_cons rfl last))
  | dict keys vals =>
      have first := h.listed keys (by simp_all [children]) .test
      have second := h.listed vals (by simp_all [children]) .test
      exact atomic_within rfl (within_between rfl rfl rfl (within_joined rfl (within_zip second fun key member value within =>
        within_append (first key member) (within_cons rfl within))))
  | set elements | list elements _ =>
      exact atomic_within rfl (within_between rfl rfl rfl (within_joined rfl (h.listed elements (fun child inside => inside) .test)))
  | tuple elements _ =>
      exact atomic_within rfl (within_enclosed (within_elements (h.listed elements (fun child inside => inside) .test)))
  | compare left ops comparators =>
      have first := parts left (by simp [children]) .bitOr
      have others := h.listed comparators (by simp_all [children]) .bitOr
      exact loose_within (within_append first
        (within_flatten (within_zip others fun op _ list within => within_comparison op within)))
  | call function args keywords =>
      have first := parts function (by simp [children]) .atom
      have positional := h.listed args (by simp_all [children]) .test
      have named := within_keywords fun keyword member =>
        parts keyword.2 (by simp [children]; exact .inr (.inr ⟨_, member⟩)) .test
      have listed : Within (commaTokens (tokensAll .test args ++ tokensKeywords keywords)) _ :=
        within_joined rfl (List.forall_mem_append.mpr ⟨positional, named⟩)
      exact within_append (loose_within first) (atomic_within rfl (within_enclosed listed))
  | constant value => exact within_single (constant_plain value)
  | attr value id ctx =>
      rw [tokens_attr]
      refine within_append ?_ (within_cons rfl (within_single rfl))
      cases number : value.isNumber with
      | false => exact loose_within (parts value (by simp [children]) .atom)
      | true =>
          cases value with
          | constant value =>
              have alone : Within [value.kind] 0 := within_single (constant_plain value)
              exact atomic_within rfl (within_mono (within_enclosed alone) (Nat.le_add_left _ _))
          | _ => cases number
  | subscript value index ctx =>
      rw [tokens_subscript, List.append_assoc]
      have inner := h.indices index (by simp [children])
      exact within_append (loose_within (parts value (by simp [children]) .atom)) (atomic_within rfl (within_between rfl rfl rfl inner))
  | name id ctx => exact within_single rfl
  | slice lower upper step =>
      have all : ∀ child ∈ lower.toList ++ upper.toList ++ step.toList, Within (tokensAt .test child) (bare (.slice lower upper step)) :=
        fun child member => loose_within (parts child member .test)
      have first := @within_option _ lower [] (by simp) fun child member => all child (by simp_all)
      have second := @within_option _ upper [] (by simp) fun child member => all child (by simp_all)
      have third := @within_option _ step [.mark .colon] (by simp [isBracket, Mark.isOpening, Mark.isClosing])
        fun child member => all child (by simp_all)
      exact within_append (within_append first (within_cons rfl second)) third
  | _ => exact within_nil

-- An index is a tuple without its parentheses, or any other expression.
theorem index_within {node : Node} (h : PartsWithin node) (placed : ∀ level, Within (tokensAt level node) (height node)) :
    Within (indexTokens node) (height node) := by
  cases node with
  | tuple elements ctx =>
      rw [indexTokens]
      split
      · exact within_mono (within_enclosed (@within_nil 0)) (height_pos _)
      · exact within_mono (within_elements (h.listed elements (fun child inside => inside) .test)) (Nat.sub_le _ _)
  | _ => exact placed .tuple

structure NodeWithin (node : Node) : Prop where
  placed : ∀ level, Within (tokensAt level node) (height node)
  index : Within (indexTokens node) (height node)

theorem parts_within {node : Node} (h : ∀ child ∈ node.children, NodeWithin child) : PartsWithin node := by
  have lower : ∀ child ∈ node.children, height child ≤ height node - 1 := by
    intro child member
    have := height_child member
    omega
  exact ⟨fun child member level => within_mono ((h child member).placed level) (lower child member),
    fun child member => within_mono (h child member).index (lower child member)⟩

theorem node_within (node : Node) : NodeWithin node := by
  induction node using node_induction with
  | step node ih =>
      have parts := parts_within ih
      have placed := within_at (own_within parts)
      exact ⟨placed, index_within parts placed⟩

theorem header_within (node : Node) : Within (header node) (height node) := by
  have pos := height_pos node
  have whole : PartsWithin node := parts_within fun child _ => node_within child
  have part := whole.parts
  have loose {kinds : List Token.Kind} (h : Within kinds (height node - 1)) : Within kinds (height node) :=
    within_mono h (Nat.sub_le _ _)
  have colon : Within [.mark .colon] (height node - 1) := within_single rfl
  cases node with
  | functionDef id params defaults body =>
      have defaulted := whole.listed defaults (fun child member => List.mem_append_left _ member) .test
      have listed := @within_params _ params _ defaulted
      have wrapped := within_mono (within_enclosed listed) (show _ ≤ height (.functionDef id params defaults body) by omega)
      exact within_cons rfl (within_append (within_cons rfl wrapped) (loose colon))
  | returnStmt child? =>
      cases child? with
      | none => exact within_single rfl
      | some child => exact loose (within_cons rfl (part child (by simp [children]) .tuple))
  | raiseStmt child? =>
      cases child? with
      | none => exact within_single rfl
      | some child => exact loose (within_cons rfl (part child (by simp [children]) .test))
  | assertStmt condition child? =>
      have first := part condition (by simp [children]) .test
      cases child? with
      | none => exact loose (within_cons rfl first)
      | some child =>
          have second := part child (by simp [children]) .test
          exact loose (within_cons rfl (within_append first (within_cons rfl second)))
  | assign targets child =>
      refine loose (within_append (within_flatten fun list member => ?_) (part child (by simp [children]) .tuple))
      obtain ⟨target, inside, rfl⟩ := List.mem_map.mp member
      exact within_append (part target (by simp [children, inside]) .tuple) (within_single rfl)
  | augAssign target op child =>
      have first := part target (by simp [children]) .tuple
      have second := part child (by simp [children]) .tuple
      exact loose (within_append first (within_cons rfl second))
  | forStmt target iterable body =>
      have first := part target (by simp [children]) .tuple
      have second := part iterable (by simp [children]) .tuple
      exact loose (within_cons rfl (within_append (within_append first (within_cons rfl second)) colon))
  | whileStmt condition body | ifStmt condition body orelse =>
      exact loose (within_cons rfl (within_append (part condition (by simp [children]) .test) colon))
  | exprStmt child => exact loose (part child (by simp [children]) .tuple)
  | passStmt | breakStmt | continueStmt => exact within_single rfl
  | _ => exact within_nil

structure LinesWithin (s : Node) (bound : Nat) : Prop where
  line : Within (header s) bound
  blocks : ∀ depth, ∀ row ∈ deeper depth s, Within row.kinds bound

theorem lines_mono {s : Node} (h : LinesWithin s bound) (less : bound ≤ bound') : LinesWithin s bound' :=
  ⟨within_mono h.line less, fun depth row deep => within_mono (h.blocks depth row deep) less⟩

theorem body_lines_within {body : List Node} (h : ∀ s ∈ body, LinesWithin s bound) (depth : Nat) :
    ∀ row ∈ rowsAll depth body, Within row.kinds bound := by
  induction body with
  | nil => simp [rowsAll]
  | cons s body ih =>
      obtain ⟨first, others⟩ := List.forall_mem_cons.mp h
      intro row inside
      simp only [rowsAll, List.cons_append, List.mem_cons, List.mem_append] at inside
      rcases inside with rfl | deep | more
      · exact first.line
      · exact first.blocks depth row deep
      · exact ih others row more

theorem else_lines_within {orelse : List Node} (h : ∀ s ∈ orelse, LinesWithin s bound) (depth : Nat) :
    ∀ row ∈ elseRows depth orelse, Within row.kinds bound := by
  cases orelse with
  | nil => simp [elseRows]
  | cons s rest =>
      have first := h s (.head _)
      by_cases chained : (s.isIf && rest.isEmpty) = true
      · rw [elseRows, if_pos chained]
        refine List.forall_mem_cons.mpr ⟨?_, first.blocks depth⟩
        cases s with
        | ifStmt condition body orelse => exact within_cons rfl (within_tail rfl first.line)
        | _ => cases chained
      · rw [else_rows_cons depth s rest (Bool.eq_false_iff.mpr chained)]
        exact List.forall_mem_cons.mpr ⟨within_cons rfl (within_single rfl), body_lines_within h (depth + 1)⟩

theorem lines_within (s : Node) : LinesWithin s (height s) := by
  induction s using node_induction with
  | step s ih =>
      have below (body : List Node) (inside : ∀ child ∈ body, child ∈ s.children) :
          ∀ child ∈ body, LinesWithin child (height s) := by
        intro child member
        have lower := height_child (inside child member)
        exact lines_mono (ih child (inside child member)) (by omega)
      refine ⟨header_within s, fun depth => ?_⟩
      cases s with
      | functionDef _ _ _ body | whileStmt _ body | forStmt _ _ body =>
          exact body_lines_within (below body fun child member => by simp_all [children]) (depth + 1)
      | ifStmt condition body orelse =>
          have chosen := body_lines_within (below body fun child member => by simp_all [children]) (depth + 1)
          have other := else_lines_within (below orelse fun child member => by simp_all [children]) depth
          exact List.forall_mem_append.mpr ⟨chosen, other⟩
      | _ => simp [deeper]

theorem program_rows_within {body : List Node} (low : ∀ s ∈ body, height s ≤ bound) :
    ∀ row ∈ rowsAll 0 body, Within row.kinds bound :=
  body_lines_within (fun s member => lines_mono (lines_within s) (low s member)) 0

theorem laid_within {rows : List Row} (h : ∀ row ∈ rows, Within row.kinds bound) (depth : Nat) :
    Within (laid depth rows) bound := by
  induction rows generalizing depth with
  | nil =>
      rw [laid]
      exact within_append (within_plain fun kind member => by rw [List.eq_of_mem_replicate member]; rfl) (within_single rfl)
  | cons row rows ih =>
      obtain ⟨first, others⟩ := List.forall_mem_cons.mp h
      have start : Within (if row.depth = depth + 1 then [.indent] else List.replicate (depth - row.depth) .dedent) bound := by
        split
        · exact within_single rfl
        · exact within_plain fun kind member => by rw [List.eq_of_mem_replicate member]; rfl
      exact within_append (within_append start first) (within_cons rfl (ih others row.depth))

theorem statement_within {s : Node} (filled : Everywhere Filled s) : Within (header s ++ .newline :: behind s) (height s) := by
  have rows := program_rows_within (List.forall_mem_singleton.mpr (Nat.le_refl (height s)))
  have laid := @laid_rows [] [s] 0 (fun _ head => by cases head) (List.forall_mem_singleton.mpr (laid_deeper s filled 0))
  rw [List.append_nil] at laid
  have whole := laid_within rows 0
  rw [laid] at whole
  have alone : bodyTokens [s] = header s ++ .newline :: behind s := by simp [bodyTokens]
  rw [alone] at whole
  exact within_front rfl whole

-- The lexer counts the same, unless it comes to its limit.
theorem count_weight {brackets : Nat} {kind : Token.Kind} (low : 0 ≤ brackets + weight kind) :
    (∀ n, countBrackets? brackets kind = some n → (n : Int) = brackets + weight kind) ∧
      (brackets + weight kind ≤ maxBrackets → ∃ n, countBrackets? brackets kind = some n) := by
  cases kind with
  | mark m =>
      by_cases opens : m.isOpening = true
      · simp only [countBrackets?, weight, if_pos opens]
        by_cases full : maxBrackets ≤ brackets
        · rw [if_pos full]
          exact ⟨fun n counted => (by cases counted), fun few => absurd few (by omega)⟩
        · rw [if_neg full]
          exact ⟨fun n counted => (by cases counted; rfl), fun _ => ⟨_, rfl⟩⟩
      · by_cases closes : m.isClosing = true
        · simp only [weight, if_neg opens, if_pos closes] at low
          simp only [countBrackets?, weight, if_neg opens, if_pos closes]
          exact ⟨fun n counted => (by cases counted; omega), fun _ => ⟨_, rfl⟩⟩
        · simp only [countBrackets?, weight, if_neg opens, if_neg closes]
          exact ⟨fun n counted => (by cases counted; omega), fun _ => ⟨_, rfl⟩⟩
  | _ => exact ⟨fun n counted => (by cases counted; exact (Int.add_zero _).symm), fun _ => ⟨_, rfl⟩⟩

theorem brackets_behind_nesting {brackets : Nat} (low : ∀ front, front <+: kinds → 0 ≤ brackets + nesting front) :
    (∀ n, bracketsBehind? brackets kinds = some n → (n : Int) = brackets + nesting kinds) ∧
      ((∀ front, front <+: kinds → brackets + nesting front ≤ maxBrackets) → ∃ n, bracketsBehind? brackets kinds = some n) := by
  induction kinds generalizing brackets with
  | nil => exact ⟨fun n counted => (by cases counted; exact (Int.add_zero _).symm), fun _ => ⟨brackets, rfl⟩⟩
  | cons kind kinds ih =>
      have one : [kind] <+: kind :: kinds := List.cons_prefix_cons.mpr ⟨rfl, List.nil_prefix⟩
      have first := low [kind] one
      rw [nesting_cons, nesting_nil, Int.add_zero] at first
      obtain ⟨exact_count, counts⟩ := count_weight first
      rw [brackets_behind_cons]
      cases stepped : countBrackets? brackets kind with
      | none =>
          refine ⟨fun n counted => (by cases counted), fun few => ?_⟩
          have fits := few [kind] one
          rw [nesting_cons, nesting_nil, Int.add_zero] at fits
          obtain ⟨n, counted⟩ := counts fits
          rw [stepped] at counted
          cases counted
      | some next =>
          have same := exact_count next stepped
          have longer {front : List Token.Kind} : brackets + nesting (kind :: front) = next + nesting front := by
            rw [nesting_cons, same]
            omega
          have behind {front : List Token.Kind} (inside : front <+: kinds) : kind :: front <+: kind :: kinds :=
            List.cons_prefix_cons.mpr ⟨rfl, inside⟩
          obtain ⟨rest_count, rest_counts⟩ := ih fun front inside => longer ▸ low _ (behind inside)
          rw [longer, Option.bind_some]
          exact ⟨rest_count, fun few => rest_counts fun front inside => longer ▸ few _ (behind inside)⟩

theorem within_counts (h : Within kinds bound) :
    (∀ n, bracketsBehind? 0 kinds = some n → n = 0) ∧ (bound ≤ maxBrackets → ∃ n, bracketsBehind? 0 kinds = some n) := by
  have zero (front : List Token.Kind) : ((0 : Nat) : Int) + nesting front = nesting front := Int.zero_add _
  obtain ⟨exact_count, counts⟩ := @brackets_behind_nesting kinds 0 fun front inside => (zero front).symm ▸ h.low front inside
  constructor
  · intro n counted
    have same := exact_count n counted
    rw [zero, h.closed] at same
    omega
  · intro low
    apply counts
    intro front inside
    have few := h.few front inside
    rw [zero]
    omega

theorem within_balanced (h : Within kinds bound) : Balanced kinds := (within_counts h).1

theorem within_fits (h : Within kinds bound) (low : bound ≤ maxBrackets) : bracketsBehind? 0 kinds = some 0 := by
  obtain ⟨closes, counts⟩ := within_counts h
  obtain ⟨n, counted⟩ := counts low
  rw [counted, closes n counted]

end Mutagen.Node
