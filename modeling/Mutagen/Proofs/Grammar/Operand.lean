import Mutagen.Grammar.Expression
import Mutagen.Proofs.Grammar.Reads
import Mutagen.Proofs.Node.Levels
import Mutagen.Proofs.Node.Opening

set_option autoImplicit false

namespace Mutagen.Grammar

open Mutagen.Parser Mutagen.Node

def opAt? : Precedence → Token.Kind → Option ArithmeticOp
  | .bitOr => bitOrOp?
  | .bitXor => bitXorOp?
  | .bitAnd => bitAndOp?
  | .shift => shiftOp?
  | .arith => arithOp?
  | .term => termOp?
  | _ => fun _ => none

def parserAt (level : Precedence) (inner : Nested) : Parser Node :=
  match level with
  | .tuple | .test => conditional inner
  | .or => orTest inner
  | .and => andTest inner
  | .not => negation inner
  | .comparison => comparison inner
  | .bitOr => bitOr inner
  | .bitXor => bitXor inner
  | .bitAnd => bitAnd inner
  | .shift => shift inner
  | .arith => arith inner
  | .term => term inner
  | .factor => factor inner
  | .power => power inner
  | .primary => primary inner
  | .atom => atom inner

-- The precedences whose parsers go on, from the left, behind what they have read.
def loops : List Precedence := [.bitOr, .bitXor, .bitAnd, .shift, .arith, .term, .primary]

def loopAt (level : Precedence) (inner : Nested) (node : Node) : Parser Node :=
  match level with
  | .primary => chain trailer? (fun value next => do return .again (← trailer inner value next)) node
  | _ =>
      chain (fun first _ => opAt? level first)
        (fun left op => do return .again (.binOp left op (← parserAt level.next inner))) node

theorem parser_loop {level : Precedence} (loop : level ∈ loops) (inner : Nested) :
    parserAt level inner = parserAt level.next inner >>= loopAt level inner := by
  cases level <;> first | rfl | exact absurd loop (by decide)

def continues? : Token.Kind → Option Precedence
  | .mark .comma => some .tuple
  | .keyword .kwIf => some .test
  | .keyword .kwOr => some .or
  | .keyword .kwAnd => some .and
  | .keyword .kwNot | .keyword .kwIn | .keyword .kwIs => some .comparison
  | .mark .equalEqual | .mark .notEqual | .mark .less | .mark .lessEqual | .mark .greater
  | .mark .greaterEqual => some .comparison
  | .mark .pipe => some .bitOr
  | .mark .caret => some .bitXor
  | .mark .ampersand => some .bitAnd
  | .mark .leftShift | .mark .rightShift => some .shift
  | .mark .plus | .mark .minus => some .arith
  | .mark .star | .mark .slash | .mark .doubleSlash | .mark .percent => some .term
  | .mark .doubleStar => some .power
  | .mark .leftParen | .mark .leftBracket | .mark .dot => some .primary
  | .str _ => some .atom
  | _ => none

-- Nothing that binds as tightly as `level` goes on here.
def Stops (level : Precedence) (kinds : List Token.Kind) : Prop :=
  ∀ p, continues? (firstOf kinds) = some p → p.rank < level.rank

variable {level level' : Precedence} {kinds rest : List Token.Kind} {fits : Prop} {node : Node} {inner : Nested} {m : Nat}

theorem stops_mono (h : Stops level kinds) (tighter : level.rank ≤ level'.rank) : Stops level' kinds :=
  fun p same => Nat.lt_of_lt_of_le (h p same) tighter

theorem stops_next (h : Stops level kinds) : Stops level.next kinds := stops_mono h (rank_next level)

theorem stops_none (h : continues? (firstOf kinds) = none) : Stops level kinds := by
  intro p same
  rw [h] at same
  cases same

theorem not_continued {kind : Token.Kind} {p : Precedence} (h : Stops level kinds) (binds : continues? kind = some p)
    (tight : level.rank ≤ p.rank) : firstOf kinds ≠ kind := by
  intro same
  have := h p (by rw [same, binds])
  omega

-- No token goes on with a sign.
theorem stops_factor (h : Stops .power kinds) : Stops .factor kinds := by
  intro p same
  have loose := h p same
  have never : p ≠ .factor := by
    rintro rfl
    revert same
    unfold continues?
    split <;> simp
  revert loose never
  cases p <;> decide

theorem op_continues {kind : Token.Kind} {op : ArithmeticOp} (h : opAt? level kind = some op) :
    continues? kind = some level := by
  cases level <;>
    simp only [opAt?, bitOrOp?, bitXorOp?, bitAndOp?, shiftOp?, arithOp?, termOp?] at h <;>
    (try split at h) <;> first | rfl | cases h

theorem trailer_continues {first second : Token.Kind} {next : Trailer} (h : trailer? first second = some next) :
    continues? first = some .primary := by
  unfold trailer? at h
  split at h <;> first | rfl | cases h

theorem comparison_continues {first second : Token.Kind} {op : ComparisonOp} (h : comparisonOp? first second = some op) :
    continues? first = some .comparison := by
  unfold comparisonOp? at h
  split at h <;> first | rfl | cases h

theorem stops_unlinked {γ : Type} {link : Token.Kind → Token.Kind → Option γ} (h : Stops level kinds)
    (continued : ∀ {first second g}, link first second = some g → continues? first = some level) :
    ∀ first more, kinds = first :: more → link first (firstOf more) = none := by
  intro first more same
  cases linked : link first (firstOf more) with
  | none => rfl
  | some g =>
      rw [same] at h
      exact absurd (h level (continued linked)) (Nat.lt_irrefl _)

theorem loop_stops (loop : level ∈ loops) (h : Stops level kinds) (node : Node) :
    Reads (loopAt level inner node) True kinds node kinds := by
  cases level with
  | primary => exact reads_chain_stop node (stops_unlinked h trailer_continues)
  | bitOr | bitXor | bitAnd | shift | arith | term => exact reads_chain_stop node (stops_unlinked h op_continues)
  | _ => exact absurd loop (by decide)

theorem comparisons_stop {σ : Type} {body : σ → ComparisonOp → Parser (Step σ)} (h : Stops .comparison kinds) (state : σ) :
    Reads (chain comparisonOp? body state) True kinds state kinds :=
  reads_chain_stop state (stops_unlinked h comparison_continues)

-- The parser of `level` reads `kinds` as the operand `node`. A loop reads it in front of whatever it goes on with.
structure Operand (m : Nat) (level : Precedence) (fits : Prop) (kinds : List Token.Kind) (node : Node) : Prop where
  closed : ∀ {rest : List Token.Kind}, Stops level rest →
    Reads (parserAt level (nested m)) fits (kinds ++ rest) node rest
  opened : level ∈ loops → ∀ {more rest : List Token.Kind} {fits' : Prop} {result : Node}, Stops level.next more →
    Reads (loopAt level (nested m) node) fits' more result rest →
    Reads (parserAt level (nested m)) (fits ∧ fits') (kinds ++ more) result rest

theorem operand_loop (loop : level ∈ loops)
    (h : ∀ {more rest : List Token.Kind} {fits' : Prop} {result : Node}, Stops level.next more →
      Reads (loopAt level (nested m) node) fits' more result rest →
      Reads (parserAt level (nested m)) (fits ∧ fits') (kinds ++ more) result rest) :
    Operand m level fits kinds node :=
  ⟨fun stops => reads_iff (h (stops_next stops) (loop_stops loop stops node)) (Iff.of_eq (and_true _)),
    fun _ => h⟩

theorem operand_closed (single : level ∉ loops)
    (h : ∀ {rest : List Token.Kind}, Stops level rest → Reads (parserAt level (nested m)) fits (kinds ++ rest) node rest) :
    Operand m level fits kinds node := ⟨h, fun loop => absurd loop single⟩

-- The first token begins an expression that binds as tightly as `level`.
def Starts (level : Precedence) (kinds : List Token.Kind) : Prop := ∃ first more, kinds = first :: more ∧ Begins level first

theorem starts_mono (h : Starts level' kinds) (looser : level.rank ≤ level'.rank) : Starts level kinds := by
  obtain ⟨first, more, same, begins⟩ := h
  exact ⟨first, more, same, begins_mono begins looser⟩

theorem starts_append (h : Starts level kinds) (rest : List Token.Kind) : Begins level (firstOf (kinds ++ rest)) := by
  obtain ⟨first, more, rfl, begins⟩ := h
  exact begins

theorem begins_other {kind other : Token.Kind} (h : Begins level kind) (loose : ∀ p, opening? other = some p → p.rank < level.rank) :
    kind ≠ other := by
  rintro rfl
  obtain ⟨p, opens, tight⟩ := h
  have := loose p opens
  omega

theorem begins_no_sign {kind : Token.Kind} (h : Begins .power kind) : sign? kind = none := by
  obtain ⟨p, opens, tight⟩ := h
  unfold sign?
  split <;> first | rfl | (cases opens; exact absurd tight (by decide))

-- Each parser takes what the next tighter one reads for its own, if the first token is not a word of its own.
theorem operand_loosen (starts : Starts level.next kinds) (h : Operand m level.next fits kinds node) :
    Operand m level fits kinds node := by
  by_cases loop : level ∈ loops
  · refine operand_loop loop fun stops more => ?_
    rw [parser_loop loop]
    exact reads_bind (h.closed stops) more
  refine operand_closed loop fun {rest} stops => ?_
  have first := starts_append starts rest
  have inside := h.closed (stops_next stops)
  cases level with
  | tuple => exact inside
  | test =>
      have word : firstOf (kinds ++ rest) ≠ .keyword .kwLambda := begins_other first (by rintro p ⟨⟩; decide)
      exact reads_kind (reads_neg word
        (reads_first inside (reads_decline (not_continued stops rfl (Nat.le_refl _)) (reads_pure _ _))))
  | or | and =>
      exact reads_first inside (reads_kind (reads_neg (not_continued stops rfl (Nat.le_refl _)) (reads_pure _ _)))
  | not =>
      have word : firstOf (kinds ++ rest) ≠ .keyword .kwNot := begins_other first (by rintro p ⟨⟩; decide)
      exact reads_kind (reads_neg word inside)
  | comparison =>
      exact reads_first inside (reads_then (comparisons_stop stops []) (reads_pure _ _))
  | factor =>
      refine reads_kind ?_
      rw [begins_no_sign first]
      exact inside
  | power => exact reads_first inside (reads_decline (not_continued stops rfl (Nat.le_refl _)) (reads_pure _ _))
  | atom => exact h.closed stops
  | _ => exact absurd (by decide) loop

theorem rank_step (level : Precedence) (inner : level.rank < Precedence.atom.rank) :
    level.next.rank = level.rank + 1 := by
  revert inner
  cases level <;> decide

theorem operand_climb (h : Operand m level fits kinds node) (starts : Starts level kinds)
    (looser : level'.rank ≤ level.rank) : Operand m level' fits kinds node := by
  induction gap : level.rank - level'.rank generalizing level' with
  | zero =>
      have same : level' = level := by
        have ranks : level'.rank = level.rank := by omega
        clear h starts looser gap
        revert ranks
        cases level' <;> cases level <;> decide
      exact same ▸ h
  | succ gap ih =>
      have below : level'.rank < level.rank := by omega
      have next := rank_step level' (Nat.lt_of_lt_of_le below (rank_le_atom level))
      have close : level'.next.rank ≤ level.rank := by omega
      exact operand_loosen (starts_mono starts close) (ih close (by omega))

end Mutagen.Grammar
