import Mutagen.Proofs.Grammar.Trailers

set_option autoImplicit false

namespace Mutagen.Grammar

open Mutagen.Parser Mutagen.Node

variable {level : Precedence} {kinds rest : List Token.Kind} {fits fits' : Prop} {node left right value : Node} {m : Nat}

theorem starts_at (h : Readable node) (level : Precedence) : Starts level (tokensAt level node) := by
  rw [tokensAt, guarded]
  split
  · exact ⟨_, _, rfl, .atom, rfl, rank_le_atom level⟩
  · exact starts_mono h.starts (by omega)

theorem operand_parens (h : Readable node) (level : Precedence) (m : Nat) :
    Operand m level (levels node + 1 ≤ m) (enclosed (tokens node)) node := by
  have atom : Operand m .atom (levels node + 1 ≤ m) (enclosed (tokens node)) node :=
    operand_closed (by decide) fun _ => reads_parens h m _
  exact operand_climb atom ⟨_, _, rfl, .atom, rfl, Nat.le_refl _⟩ (rank_le_atom level)

theorem operand_at (h : Readable node) (m : Nat) (low : level.rank ≤ Precedence.primary.rank) :
    Operand m level (levelsAt level node ≤ m) (tokensAt level node) node := by
  rw [tokensAt, guarded, levelsAt, parens]
  split
  · exact operand_parens h level m
  · rw [Nat.add_zero]
    exact h.reads m level (by omega) low

theorem readable_from (top : Precedence) (starts : Starts node.precedence (tokens node))
    (below : top.rank ≤ node.precedence.rank) (above : min node.precedence.rank Precedence.primary.rank ≤ top.rank)
    (h : ∀ m, Operand m top (levels node ≤ m) (tokens node) node) : Readable node :=
  ⟨starts, fun m _ low primary => operand_climb (h m) (starts_mono starts below) (by omega)⟩

theorem readable_atom (starts : Starts node.precedence (tokens node)) (atomic : node.precedence = .atom)
    (h : ∀ m rest, Stops .atom rest → Reads (atom (nested m)) (levels node ≤ m) (tokens node ++ rest) node rest) :
    Readable node := by
  refine readable_from .atom starts (by rw [atomic]) (by rw [atomic]; decide) fun m => ?_
  exact operand_closed (by decide) fun stops => h m _ stops

theorem guard_atom (node : Node) :
    tokensAt .atom node = tokensAt .primary node ∧ levelsAt .atom node = levelsAt .primary node := by
  have same : node.precedence.rank < Precedence.atom.rank ↔ node.precedence.rank < Precedence.primary.rank := by
    have all : ∀ p : Precedence, p ≠ .primary → (p.rank < Precedence.atom.rank ↔ p.rank < Precedence.primary.rank) := by
      intro p
      cases p <;> decide
    refine all _ fun primary => ?_
    cases node with
    | boolOp op _ | binOp _ op _ | unaryOp op _ => cases op <;> cases primary
    | _ => cases primary
  simp only [tokensAt, guarded, levelsAt, parens, same, and_self]

theorem operand_primary (h : Readable node) (m : Nat) :
    Operand m .primary (levelsAt .atom node ≤ m) (tokensAt .atom node) node := by
  rw [(guard_atom node).1, (guard_atom node).2]
  exact operand_at h m (Nat.le_refl _)

theorem operand_trailer (h : Operand m .primary fits kinds value) (next : Trailer) (first : Token.Kind) (more : List Token.Kind)
    (links : ∀ second, trailer? first second = some next)
    (reads : ∀ rest, Reads (trailer (nested m) value next) fits' (more ++ rest) node rest) :
    Operand m .primary (fits ∧ fits') (kinds ++ first :: more) node := by
  have behind : ∀ rest, Stops .atom (first :: rest) := by
    intro rest p same
    rw [show firstOf (first :: rest) = first from rfl, trailer_continues (links first)] at same
    cases same
    decide
  refine operand_loop (by decide) fun {after rest fits'' result} _ goesOn => ?_
  rw [List.append_assoc, List.cons_append]
  have turn := reads_chain_again (links _) (reads_return (reads after) Step.again) goesOn
  exact reads_iff (h.opened (by decide) (behind _) turn) and_assoc.symm

theorem operand_iff (h : Operand m level fits kinds node) (same : fits ↔ fits') : Operand m level fits' kinds node :=
  propext same ▸ h

theorem readable_primary (starts : Starts node.precedence (tokens node)) (atomic : node.precedence = .atom)
    (h : ∀ m, Operand m .primary (levels node ≤ m) (tokens node) node) : Readable node :=
  readable_from .primary starts (by rw [atomic]; decide) (by rw [atomic]; decide) h

theorem readable_call {function : Node} {args : List Node} {keywords : List (String × Node)}
    (starts : Starts .atom (tokens (.call function args keywords))) (callee : Readable function)
    (distinct : (keywords.map (·.1)).Nodup) (all : ∀ x ∈ args ++ keywords.map (·.2), Readable x) :
    Readable (.call function args keywords) := by
  refine readable_primary starts rfl fun m => ?_
  have values : (callItems args keywords).map (·.2) = args ++ keywords.map (·.2) := by
    simp [callItems, Function.comp_def]
  rw [← values, List.forall_mem_map] at all
  have inside : ∀ rest, Reads (trailer (nested m) function .call) (∀ x ∈ callItems args keywords, levels x.2 + 1 ≤ m)
      (commaTokens (tokensAll .test args ++ tokensKeywords keywords) ++ [.mark .rightParen] ++ rest)
      (.call function args keywords) rest := by
    intro rest
    have reads := reads_arguments (call_items_arranged args distinct) all m rest
    rw [call_items_tokens, (call_items_parts args keywords).1, (call_items_parts args keywords).2] at reads
    rw [List.append_assoc]
    exact reads_first reads (reads_expect (reads_pure _ rest))
  refine operand_iff (operand_trailer (operand_primary callee m) .call (.mark .leftParen) _ (fun _ => rfl) inside) ?_
  rw [levels_le, edges, List.forall_mem_cons, List.forall_mem_map, ← values, List.forall_mem_map]
  rfl

theorem readable_attr {id : String} (starts : Starts .atom (tokens (.attr value id .load))) (h : Readable value) :
    Readable (.attr value id .load) := by
  refine readable_primary starts rfl fun m => ?_
  have behind : ∀ rest, Reads (trailer (nested m) value .attr) True ([.name id] ++ rest) (.attr value id .load) rest :=
    fun rest => reads_name (reads_pure _ rest)
  rw [tokens_attr]
  cases number : value.isNumber with
  | true =>
      have whole := operand_trailer (operand_parens h .primary m) .attr (.mark .dot) [.name id] (fun _ => rfl) behind
      refine operand_iff whole ?_
      rw [levels_le]
      simp [edges, number]
  | false =>
      have whole := operand_trailer (operand_primary h m) .attr (.mark .dot) [.name id] (fun _ => rfl) behind
      refine operand_iff whole ?_
      rw [levels_le]
      simp [edges, number, levelsAt]

-- What stands between the brackets of a subscript.
def ReadsIndex (index : Node) : Prop :=
  ∀ m rest, Reads (sliceList (nested m)) (∀ edge ∈ indexEdges index, levels edge.1 + edge.2 ≤ m)
    (indexTokens index ++ .mark .rightBracket :: rest) index (.mark .rightBracket :: rest)

theorem readable_subscript {index : Node} (starts : Starts .atom (tokens (.subscript value index .load)))
    (h : Readable value) (inner : ReadsIndex index) : Readable (.subscript value index .load) := by
  refine readable_primary starts rfl fun m => ?_
  have inside : ∀ rest, Reads (trailer (nested m) value .index) (∀ edge ∈ indexEdges index, levels edge.1 + edge.2 ≤ m)
      (indexTokens index ++ [.mark .rightBracket] ++ rest) (.subscript value index .load) rest := by
    intro rest
    rw [List.append_assoc]
    exact reads_first (inner m rest) (reads_expect (reads_pure _ rest))
  rw [tokens_subscript, List.append_assoc, List.cons_append]
  refine operand_iff (operand_trailer (operand_primary h m) .index (.mark .leftBracket) _ (fun _ => rfl) inside) ?_
  rw [levels_le, edges, List.forall_mem_cons]
  rfl

theorem reads_nested (level : Precedence) {pick : Nested → Parser Node} {deep : Nat} (top : pick (nested 0) = refuse .nestedTooDeeply)
    (below : ∀ m, pick (nested (m + 1)) = parserAt level (nested m))
    (h : ∀ m, Reads (parserAt level (nested m)) (deep ≤ m) kinds node rest) (m : Nat) :
    Reads (pick (nested m)) (deep + 1 ≤ m) kinds node rest := by
  cases m with
  | zero =>
      rw [top]
      exact refuse_fails rfl (by omega)
  | succ m =>
      rw [below]
      exact reads_iff (h m) (by omega)

theorem reads_factor (h : Readable node) (level : Precedence) (tight : Precedence.factor.rank ≤ level.rank)
    (low : level.rank ≤ Precedence.primary.rank) (m : Nat) (stops : Stops .factor rest) :
    Reads (nested m).factor (levelsAt level node + 1 ≤ m) (tokensAt level node ++ rest) node rest := by
  refine reads_nested .factor rfl (fun _ => rfl) (fun m => ?_) m
  exact (operand_climb (operand_at h m low) (starts_at h level) tight).closed stops

theorem reads_negation (h : Readable node) (m : Nat) (stops : Stops .not rest) :
    Reads (nested m).negation (levelsAt .not node + 1 ≤ m) (tokensAt .not node ++ rest) node rest :=
  reads_nested .not rfl (fun _ => rfl) (fun m => (operand_at h m (by decide)).closed stops) m

theorem readable_unary {op : PrefixOp} (starts : Starts op.precedence (tokens (.unaryOp op node))) (h : Readable node) :
    Readable (.unaryOp op node) := by
  have fits : ∀ m, levels (.unaryOp op node) ≤ m ↔ levelsAt op.precedence node + 1 ≤ m := by
    intro m
    rw [levels_le]
    simp [edges, levelsAt, Nat.add_assoc]
  cases op with
  | not =>
      refine readable_from .not starts (Nat.le_refl _) (Nat.min_le_left _ _) fun m => operand_closed (by decide) fun stops => ?_
      have inner := reads_negation h m stops
      exact reads_iff (reads_kind (reads_pos rfl (reads_skip (reads_return inner _)))) (fits m).symm
  | invert | uadd | usub =>
      refine readable_from .factor starts (Nat.le_refl _) (Nat.min_le_left _ _) fun m => operand_closed (by decide) fun stops => ?_
      have inner := reads_factor h .factor (Nat.le_refl _) (by decide) m stops
      exact reads_iff (reads_kind (reads_skip (reads_return inner _))) (fits m).symm

theorem grouped_op {op : ArithmeticOp} (h : op ≠ .pow) :
    op.precedence ∈ loops ∧ op.precedence.rank ≤ Precedence.term.rank ∧ op.operands = (op.precedence, op.precedence.next) ∧
      continues? (.mark op.mark) = some op.precedence ∧ opAt? op.precedence (.mark op.mark) = some op := by
  cases op <;> first | exact absurd rfl h | exact ⟨by decide, by decide, rfl, rfl, rfl⟩

theorem loop_arith (loop : level ∈ loops) (low : level.rank ≤ Precedence.term.rank) (inner : Nested) (node : Node) :
    loopAt level inner node = chain (fun first _ => opAt? level first)
      (fun left op => do return .again (.binOp left op (← parserAt level.next inner))) node := by
  cases level <;> first | rfl | exact absurd low (by decide)

theorem readable_grouped {op : ArithmeticOp} (grouped : op ≠ .pow)
    (starts : Starts op.precedence (tokens (.binOp left op right))) (hl : Readable left) (hr : Readable right) :
    Readable (.binOp left op right) := by
  obtain ⟨loop, low, operands, binds, links⟩ := grouped_op grouped
  refine readable_from op.precedence starts (Nat.le_refl _) (Nat.min_le_left _ _) fun m => ?_
  have shape : tokens (.binOp left op right) =
      tokensAt op.precedence left ++ .mark op.mark :: tokensAt op.precedence.next right := by
    have same : tokens (.binOp left op right) = tokensAt op.operands.1 left ++ .mark op.mark :: tokensAt op.operands.2 right := rfl
    rw [same, operands]
  have fits : levels (.binOp left op right) ≤ m ↔ levelsAt op.precedence left ≤ m ∧ levelsAt op.precedence.next right ≤ m := by
    rw [levels_le]
    simp [edges, levelsAt, operands, grouped]
  have term : Precedence.term.rank = 11 ∧ Precedence.primary.rank = 14 ∧ Precedence.atom.rank = 15 := ⟨rfl, rfl, rfl⟩
  have next := rank_step op.precedence (by omega)
  rw [shape]
  refine operand_loop loop fun {more rest fits' result} stops goesOn => ?_
  have behind : ∀ more, Stops op.precedence.next (.mark op.mark :: more) := by
    intro more p same
    rw [show firstOf (.mark op.mark :: more) = .mark op.mark from rfl, binds] at same
    cases same
    omega
  have second := (operand_at hr m (show op.precedence.next.rank ≤ _ by omega)).closed stops
  have turn : Reads (loopAt op.precedence (nested m) left) (levelsAt op.precedence.next right ≤ m ∧ fits')
      (.mark op.mark :: (tokensAt op.precedence.next right ++ more)) result rest := by
    rw [loop_arith loop low] at goesOn ⊢
    exact reads_chain_again links (reads_return second fun right => Step.again (Node.binOp left op right)) goesOn
  rw [List.append_assoc, List.cons_append]
  refine reads_iff ((operand_at hl m (by omega)).opened loop (behind _) turn) ?_
  rw [fits, and_assoc]

theorem readable_power (starts : Starts .power (tokens (.binOp left .pow right))) (hl : Readable left) (hr : Readable right) :
    Readable (.binOp left .pow right) := by
  refine readable_from .power starts (Nat.le_refl _) (Nat.min_le_left _ _) fun m => operand_closed (by decide) fun {rest} stops => ?_
  have shape : tokens (.binOp left .pow right) ++ rest =
      tokensAt .primary left ++ .mark .doubleStar :: (tokensAt .power right ++ rest) := by
    have same : tokens (.binOp left .pow right) = tokensAt .primary left ++ .mark .doubleStar :: tokensAt .power right := rfl
    rw [same, List.append_assoc, List.cons_append]
  have behind : ∀ more, Stops .primary (.mark .doubleStar :: more) := by
    rintro more p ⟨⟩
    decide
  have base := (operand_at hl m (Nat.le_refl _)).closed (behind (tokensAt .power right ++ rest))
  have exponent := reads_factor hr .power (by decide) (by decide) m (stops_factor stops)
  rw [shape]
  refine reads_iff (reads_bind base (reads_accept (reads_return exponent _))) ?_
  rw [levels_le]
  simp [edges, levelsAt, ArithmeticOp.operands, ArithmeticOp.precedence, Precedence.next, Nat.add_assoc]

def pairTokens (pair : ComparisonOp × Node) : List Token.Kind := pair.1.kinds ++ tokensAt .bitOr pair.2

theorem is_links {second : Token.Kind} (other : second ≠ .keyword .kwNot) :
    comparisonOp? (.keyword .kwIs) second = some .is := by
  unfold comparisonOp?
  split <;> simp_all

theorem pair_links (op : ComparisonOp) (h : Readable node) (rest : List Token.Kind) :
    ∃ first more, op.kinds ++ (tokensAt .bitOr node ++ rest) = first :: more ∧ comparisonOp? first (firstOf more) = some op ∧
      Reads (finishComparison op) True more () (tokensAt .bitOr node ++ rest) := by
  have noNot : firstOf (tokensAt .bitOr node ++ rest) ≠ .keyword .kwNot :=
    begins_other (starts_append (starts_at h .bitOr) rest) (by rintro p ⟨⟩; decide)
  have single : Reads (pure () : Parser Unit) True (tokensAt .bitOr node ++ rest) () (tokensAt .bitOr node ++ rest) :=
    reads_pure () _
  cases op with
  | is => exact ⟨_, _, rfl, is_links noNot, single⟩
  | isNot | notIn => exact ⟨_, _, rfl, rfl, reads_skipped _ _⟩
  | _ => exact ⟨_, _, rfl, rfl, single⟩

theorem stops_pairs (pairs : List (ComparisonOp × Node)) (stops : Stops .comparison rest) :
    Stops .bitOr (pairs.flatMap pairTokens ++ rest) := by
  cases pairs with
  | nil => exact stops_next stops
  | cons pair pairs =>
      obtain ⟨op, node⟩ := pair
      intro p same
      have binds : continues? (firstOf ((⟨op, node⟩ :: pairs).flatMap pairTokens ++ rest)) = some .comparison := by
        cases op <;> rfl
      rw [binds] at same
      cases same
      decide

theorem reads_pairs (pairs front : List (ComparisonOp × Node)) (all : ∀ pair ∈ pairs, Readable pair.2) (m : Nat)
    (stops : Stops .comparison rest) :
    Reads (chain comparisonOp? (fun pairs op => do
        finishComparison op
        return .again (pairs ++ [(op, ← bitOr (nested m))])) front) (∀ pair ∈ pairs, levelsAt .bitOr pair.2 ≤ m)
      (pairs.flatMap pairTokens ++ rest) (front ++ pairs) rest := by
  induction pairs generalizing front with
  | nil =>
      rw [List.append_nil]
      exact reads_iff (comparisons_stop stops front) (by simp)
  | cons pair pairs ih =>
      obtain ⟨op, node⟩ := pair
      have readable := all ⟨op, node⟩ (by simp)
      obtain ⟨first, more, shape, links, finishes⟩ := pair_links op readable (pairs.flatMap pairTokens ++ rest)
      have operand := (operand_at readable m (show Precedence.bitOr.rank ≤ _ by decide)).closed (stops_pairs pairs stops)
      have others := ih (front ++ [(op, node)]) fun pair member => all pair (List.mem_cons_of_mem _ member)
      rw [List.append_assoc] at others
      rw [List.flatMap_cons, pairTokens, List.append_assoc, List.append_assoc, shape]
      refine reads_iff (reads_chain_again links (reads_then finishes (reads_return operand _)) others) ?_
      rw [List.forall_mem_cons]

theorem readable_compare {ops : List ComparisonOp} {comparators : List Node}
    (starts : Starts .comparison (tokens (.compare left ops comparators))) (some : ops ≠ [])
    (same : ops.length = comparators.length) (all : ∀ x ∈ left :: comparators, Readable x) :
    Readable (.compare left ops comparators) := by
  obtain ⟨pairs, rfl, rfl⟩ : ∃ pairs : List (ComparisonOp × Node), ops = pairs.map (·.1) ∧ comparators = pairs.map (·.2) :=
    ⟨ops.zip comparators, (List.map_fst_zip same.le).symm, (List.map_snd_zip same.ge).symm⟩
  refine readable_from .comparison starts (Nat.le_refl _) (Nat.min_le_left _ _) fun m => operand_closed (by decide) fun {rest} stops => ?_
  have shape : tokens (.compare left (pairs.map (·.1)) (pairs.map (·.2))) ++ rest =
      tokensAt .bitOr left ++ (pairs.flatMap pairTokens ++ rest) := by
    have split : tokens (.compare left (pairs.map (·.1)) (pairs.map (·.2))) = tokensAt .bitOr left ++
      (List.zipWith (fun op kinds => ComparisonOp.kinds op ++ kinds) (pairs.map (·.1))
        (tokensAll .bitOr (pairs.map (·.2)))).flatten := rfl
    rw [split, tokens_all_eq, List.map_map, List.zipWith_map, List.zipWith_self, List.append_assoc]
    rfl
  have first := (operand_at (all left (by simp)) m (show Precedence.bitOr.rank ≤ _ by decide)).closed
    (stops_pairs pairs stops)
  have others := reads_pairs pairs [] (fun pair member => all _ (List.mem_cons_of_mem _ (List.mem_map_of_mem member))) m stops
  rw [shape]
  refine reads_iff (reads_bind first (reads_first others (reads_neg ?_ (reads_pure _ rest)))) ?_
  · simpa using some
  · rw [levels_le, edges, List.forall_mem_map, List.forall_mem_cons, List.forall_mem_map]
    rfl

theorem reads_values (word : Keyword) (level : Precedence) (low : level.rank ≤ Precedence.primary.rank)
    (links : ∀ more, Stops level (.keyword word :: more)) (values front : List Node) (all : ∀ x ∈ values, Readable x) (m : Nat)
    (stops : Stops level rest) (other : firstOf rest ≠ .keyword word) :
    Reads (chain (linkedBy (.keyword word)) (fun values _ => do return .again (← append (parserAt level (nested m)) values)) front)
      (∀ x ∈ values, levelsAt level x ≤ m) (values.flatMap (fun x => .keyword word :: tokensAt level x) ++ rest)
      (front ++ values) rest := by
  induction values generalizing front with
  | nil =>
      rw [List.append_nil]
      exact reads_iff (reads_chain_stop front (not_linked other)) (by simp)
  | cons value values ih =>
      have behind : Stops level (values.flatMap (fun x => .keyword word :: tokensAt level x) ++ rest) := by
        cases values with
        | nil => exact stops
        | cons value values => exact links _
      have first := (operand_at (all value (by simp)) m low).closed behind
      have others := ih (front ++ [value]) fun x member => all x (List.mem_cons_of_mem _ member)
      rw [List.append_assoc] at others
      rw [List.flatMap_cons, List.cons_append, List.cons_append, List.append_assoc]
      refine reads_iff (reads_chain_again (linked_by _ _) (reads_return (reads_return first _) _) others) ?_
      rw [List.forall_mem_cons]

theorem reads_logical {op : LogicalOp} {word : Keyword} {first : Node} {others : List Node} (some : others ≠ [])
    (low : level.rank ≤ Precedence.primary.rank) (links : ∀ more, Stops level (.keyword word :: more))
    (all : ∀ x ∈ first :: others, Readable x) (m : Nat) (stops : Stops level rest) (other : firstOf rest ≠ .keyword word) :
    Reads (logical op word (parserAt level (nested m))) (∀ x ∈ first :: others, levelsAt level x ≤ m)
      (tokensAt level first ++ (others.flatMap (fun x => .keyword word :: tokensAt level x) ++ rest))
      (.boolOp op (first :: others)) rest := by
  obtain ⟨second, more, rfl⟩ := List.exists_cons_of_ne_nil some
  have tail := reads_values word level low links (second :: more) [first] (fun x member => all x (List.mem_cons_of_mem _ member))
    m stops other
  have head := (operand_at (all first (by simp)) m low).closed (links (tokensAt level second ++
    (more.flatMap (fun x => .keyword word :: tokensAt level x) ++ rest)))
  rw [List.flatMap_cons, List.cons_append, List.cons_append, List.append_assoc] at tail ⊢
  refine reads_iff (reads_bind head (reads_kind (reads_pos rfl (reads_return tail _)))) ?_
  simp only [List.forall_mem_cons]

theorem logical_op (op : LogicalOp) :
    op.precedence ∉ loops ∧ op.precedence.next.rank ≤ Precedence.primary.rank ∧
      continues? (.keyword op.word) = some op.precedence ∧ op.precedence.rank < op.precedence.next.rank ∧
      ∀ inner, parserAt op.precedence inner = logical op op.word (parserAt op.precedence.next inner) := by
  cases op <;> exact ⟨by decide, by decide, rfl, by decide, fun _ => rfl⟩

theorem readable_bool {op : LogicalOp} {values : List Node} (starts : Starts op.precedence (tokens (.boolOp op values)))
    (many : 2 ≤ values.length) (all : ∀ x ∈ values, Readable x) : Readable (.boolOp op values) := by
  match values, many with
  | first :: second :: more, _ =>
  have fits : ∀ m, levels (.boolOp op (first :: second :: more)) ≤ m ↔
      ∀ x ∈ first :: second :: more, levelsAt op.precedence.next x ≤ m := by
    intro m
    rw [levels_le, edges, List.forall_mem_map]
    rfl
  have shape : ∀ rest, tokens (.boolOp op (first :: second :: more)) ++ rest = tokensAt op.precedence.next first ++
      ((second :: more).flatMap (fun x => .keyword op.word :: tokensAt op.precedence.next x) ++ rest) := by
    intro rest
    rw [show tokens (.boolOp op (first :: second :: more)) =
      joined (.keyword op.word) (tokensAll op.precedence.next (first :: second :: more)) from rfl, tokens_all_eq,
      List.map_cons, joined_cons, List.flatMap_map, List.append_assoc]
  obtain ⟨single, low, binds, tighter, parser⟩ := logical_op op
  have links : ∀ more, Stops op.precedence.next (.keyword op.word :: more) := by
    intro more p same
    rw [show firstOf (.keyword op.word :: more) = .keyword op.word from rfl, binds] at same
    cases same
    exact tighter
  refine readable_from op.precedence starts (Nat.le_refl _) (Nat.min_le_left _ _) fun m => operand_closed single fun {rest} stops => ?_
  rw [shape, parser]
  have other := not_continued stops binds (Nat.le_refl _)
  exact reads_iff (reads_logical (by simp) low links all m (stops_next stops) other) (fits m).symm

theorem readable_if {test body orelse : Node} (starts : Starts .test (tokens (.ifExp test body orelse)))
    (ht : Readable test) (hb : Readable body) (ho : Readable orelse) : Readable (.ifExp test body orelse) := by
  refine readable_from .test starts (Nat.le_refl _) (Nat.min_le_left _ _) fun m => operand_closed (by decide) fun {rest} stops => ?_
  have shape : tokens (.ifExp test body orelse) ++ rest = tokensAt .or body ++ .keyword .kwIf ::
      (tokensAt .or test ++ .keyword .kwElse :: (tokens orelse ++ rest)) := by
    rw [← tokens_at_test orelse]
    show tokensAt .or body ++ .keyword .kwIf :: tokensAt .or test ++ .keyword .kwElse :: tokensAt .test orelse ++ rest = _
    simp
  have noLambda : firstOf (tokensAt .or body ++ .keyword .kwIf :: (tokensAt .or test ++ .keyword .kwElse ::
      (tokens orelse ++ rest))) ≠ .keyword .kwLambda :=
    begins_other (starts_append (starts_at hb .or) _) (by rintro p ⟨⟩; decide)
  have before : ∀ more, Stops .or (.keyword .kwIf :: more) := by
    rintro more p ⟨⟩
    decide
  have between : ∀ more, Stops .or (.keyword .kwElse :: more) := fun more => stops_none rfl
  rw [shape]
  refine reads_iff (reads_kind (reads_neg noLambda (reads_bind ((operand_at hb m (by decide)).closed (before _)) (reads_accept
    (reads_bind ((operand_at ht m (by decide)).closed (between _)) (reads_expect (reads_return (reads_test ho m stops) _))))))) ?_
  rw [levels_le]
  simp [edges, levelsAt, and_left_comm]

theorem readable_lambda {params : List String} {defaults : List Node} {body : Node}
    (starts : Starts .test (tokens (.lambda params defaults body))) (fit : defaults.length ≤ params.length)
    (distinct : params.Nodup) (all : ∀ x ∈ defaults, Readable x) (hb : Readable body) :
    Readable (.lambda params defaults body) := by
  refine readable_from .test starts (Nat.le_refl _) (Nat.min_le_left _ _) fun m => operand_closed (by decide) fun {rest} stops => ?_
  have shape : tokens (.lambda params defaults body) ++ rest = .keyword .kwLambda ::
      (paramTokens params (tokensAll .test defaults) ++ .mark .colon :: (tokens body ++ rest)) := by
    rw [← tokens_at_test body]
    show .keyword .kwLambda :: paramTokens params (tokensAll .test defaults) ++ .mark .colon :: tokensAt .test body ++ rest = _
    simp
  have params := reads_params fit distinct all m (show Mark.colon ∈ listClosings by decide) (tokens body ++ rest)
  rw [shape]
  refine reads_iff (reads_kind (reads_pos rfl (reads_skip (reads_bind params (reads_expect
    (reads_return (reads_test hb m stops) _)))))) ?_
  rw [levels_le, edges, List.map_append, List.forall_mem_append, List.forall_mem_map]
  simp

end Mutagen.Grammar
