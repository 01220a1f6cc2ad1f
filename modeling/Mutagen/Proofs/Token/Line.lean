import Mathlib.Data.List.Forall2
import Mutagen.Proofs.Token.Spelling

set_option autoImplicit false

namespace Mutagen

open Token (Kind)

-- `text` spells the tokens `kinds`, each behind any number of blanks.
inductive Spells : List Char → List Kind → Prop where
  | done : Spells [] []
  | blank {text : List Char} {kinds : List Kind} : Spells text kinds → Spells (' ' :: text) kinds
  | token {kind : Kind} {text : List Char} {kinds : List Kind} (readable : kind.IsReadable)
      (ends : kind.Allows text) : Spells text kinds → Spells (kind.spelling ++ text) (kind :: kinds)

theorem each_char {p : Char → Prop} [DecidablePred p] {chars : List Char}
    (all : (chars.all fun c => decide (p c)) = true) : ∀ c ∈ chars, p c :=
  fun c member => of_decide_eq_true (List.all_eq_true.mp all c member)

def followers : List Char := [' ', '\n', ')', ']', '\x7d', ',', ':', '(', '[']

theorem allows_follower (kind : Kind) : ∀ c ∈ followers, kind.allows c = true := by
  cases kind with
  | str value =>
      rw [Kind.allows]
      rcases Quoted.is_quote_for value.toList with quote | quote
      · rw [quote]; exact each_char (by decide)
      · rw [quote]; exact each_char (by decide)
  | int _ | float _ =>
      have all : ∀ c ∈ followers, (!Text.continuesWord c && c != '.') = true := each_char (by decide)
      exact all
  | mark m => cases m <;> exact each_char (by decide)
  | augAssign _ =>
      have all : ∀ c ∈ followers, (!(['=', '*', '/', '<', '>'].contains c)) = true := each_char (by decide)
      exact all
  | _ =>
      have all : ∀ c ∈ followers, (!Text.continuesWord c && !Word.isQuote c) = true := each_char (by decide)
      exact all

def separators : List Char := [' ', '\t', '\x0c', '\r', '\n', '#', '\\', '\ufeff']

theorem starts_word_visible {c : Char} (h : Text.startsWord c = true) : c ∉ separators := by
  have none : ∀ d ∈ separators, Text.startsWord d = false := each_char (by decide +kernel)
  intro member
  rw [none c member] at h
  cases h

theorem digit_visible {c : Char} (h : c.isDigit = true) : c ∉ separators := by
  have none : ∀ d ∈ separators, d.isDigit = false := each_char (by decide)
  intro member
  rw [none c member] at h
  cases h

theorem word_visible {text : List Char} (h : isWord text = true) :
    ∃ c tail, text = c :: tail ∧ c ∉ separators := by
  obtain ⟨c, tail, shape, starts, _⟩ := word_cons h
  exact ⟨c, tail, shape, starts_word_visible starts⟩

theorem int_cons (value : Nat) : ∃ c tail, (Kind.int value).spelling = c :: tail ∧ c.isDigit = true := by
  obtain ⟨c, tail, shape, digit⟩ := to_digits_cons value
  exact ⟨c, tail, by simp [Kind.spelling, shape], digit⟩

theorem float_cons {value : Binary64} (readable : (Kind.float value).IsReadable) :
    ∃ c tail, (Kind.float value).spelling = c :: tail ∧ c.isDigit = true := by
  rw [Kind.spelling]
  split
  · exact ⟨'1', "e309".toList, rfl, rfl⟩
  · rename_i finite
    obtain ⟨number, positive⟩ := readable
    have bounded : value.magnitude ≤ Binary64.infinite := by simpa [Binary64.isNaN] using number
    obtain ⟨c, tail, shape, digit⟩ := finite_text_cons value.magnitude bounded
    exact ⟨c, tail, by simp [Binary64.text, number, positive, finite, shape], digit⟩

theorem spelling_visible {kind : Kind} (readable : kind.IsReadable) :
    ∃ c tail, kind.spelling = c :: tail ∧ c ∉ separators := by
  cases kind with
  | name id =>
      simp only [Kind.IsReadable, isIdentifier, Bool.and_eq_true] at readable
      exact word_visible readable.1.1
  | keyword word => exact word_visible (keyword_is_word word)
  | int value =>
      obtain ⟨c, tail, shape, digit⟩ := int_cons value
      exact ⟨c, tail, shape, digit_visible digit⟩
  | float value =>
      obtain ⟨c, tail, shape, digit⟩ := float_cons readable
      exact ⟨c, tail, shape, digit_visible digit⟩
  | str value =>
      refine ⟨Quoted.quoteFor value.toList, _, rfl, ?_⟩
      rcases Quoted.is_quote_for value.toList with quote | quote
      · rw [quote]; decide
      · rw [quote]; decide
  | mark m => cases m <;> exact ⟨_, _, rfl, by decide⟩
  | augAssign op => cases op <;> exact ⟨_, _, rfl, by decide⟩
  | reserved _ | newline | indent | dedent | eof => exact readable.elim

namespace Lexer

-- The number of open brackets behind a run of tokens, if their nesting stays within its limit.
def bracketsBehind? (brackets : Nat) (kinds : List Kind) : Option Nat :=
  kinds.foldlM countBrackets? brackets

theorem brackets_behind_cons (brackets : Nat) (kind : Kind) (kinds : List Kind) :
    bracketsBehind? brackets (kind :: kinds) =
      (countBrackets? brackets kind).bind (bracketsBehind? · kinds) := rfl

variable {tab : Nat} {s s' s'' : State} {kinds more : List Kind}

theorem run_eq (tab : Nat) (s : State) :
    run tab s = match step tab s with
      | .error e => .error e
      | .ok (tokens, none) => .ok tokens
      | .ok (tokens, some s') => (run tab s').map (tokens ++ ·) := by
  rw [run]
  split <;> simp_all

def Comes (tab : Nat) (s : State) (kinds : List Kind) (s' : State) : Prop :=
  ∃ tokens : List Token, tokens.map (·.kind) = kinds ∧ run tab s = (run tab s').map (tokens ++ ·)

def Overflows (tab : Nat) (s : State) : Prop :=
  ∃ e, run tab s = .error e ∧ e.cause = .tooManyBrackets

theorem comes_refl (same : s' = s) : Comes tab s [] s' := by
  refine ⟨[], rfl, ?_⟩
  rw [same]
  cases run tab s <;> rfl

theorem comes_trans (h : Comes tab s kinds s') (h' : Comes tab s' more s'') :
    Comes tab s (kinds ++ more) s'' := by
  obtain ⟨front, frontKinds, frontRun⟩ := h
  obtain ⟨back, backKinds, backRun⟩ := h'
  refine ⟨front ++ back, by simp [frontKinds, backKinds], ?_⟩
  rw [frontRun, backRun]
  cases run tab s'' <;> simp [Except.map]

theorem comes_overflows (h : Comes tab s kinds s') (h' : Overflows tab s') : Overflows tab s := by
  obtain ⟨_, _, frontRun⟩ := h
  obtain ⟨e, failed, cause⟩ := h'
  exact ⟨e, by rw [frontRun, failed]; rfl, cause⟩

theorem comes_of_step {tokens : List Token} (h : step tab s = .ok (tokens, some s')) :
    Comes tab s (tokens.map (·.kind)) s' :=
  ⟨tokens, rfl, by rw [run_eq, h]⟩

theorem skip_blanks (joined : Bool) (n : Nat) (text : List Char) :
    skipBlank joined (List.replicate n ' ' ++ text) = skipBlank joined text := by
  induction n with
  | zero => rfl
  | succ n ih => rw [List.replicate_succ, List.cons_append, skipBlank, if_pos (by decide), ih]

theorem skip_blank_visible (joined : Bool) {c : Char} {tail : List Char} (h : c ∉ separators) :
    skipBlank joined (c :: tail) = c :: tail := by
  simp only [separators, List.mem_cons, List.not_mem_nil, or_false, not_or] at h
  obtain ⟨space, tab, feed, carriage, newline, hash, backslash, _⟩ := h
  simp [skipBlank, space, tab, feed, carriage, newline, hash, backslash]

theorem read_next_visible {kind : Kind} {c : Char} {tail rest : List Char}
    (skipped : skipBlank (0 < s.brackets) s.text = c :: tail) (visible : c ∉ separators)
    (reads : readVisible (c :: tail) = .ok (kind, rest)) :
    match countBrackets? s.brackets kind with
    | none => ∃ e, readNext s = .error e ∧ e.cause = .tooManyBrackets
    | some brackets => ∃ span position, readNext s = .ok ([⟨kind, span⟩],
        some { s with position := position, text := rest, brackets := brackets, unfinished := true }) := by
  have noNewline : c ≠ '\n' := by
    rintro rfl
    exact visible (by decide)
  simp only [readNext, skipped, if_neg noNewline, reads]
  cases countBrackets? s.brackets kind with
  | none => exact ⟨_, rfl, rfl⟩
  | some brackets => exact ⟨_, _, rfl⟩

theorem read_next_token {kind : Kind} {n : Nat} {rest : List Char} (readable : kind.IsReadable)
    (ends : kind.Allows rest) (text : s.text = List.replicate n ' ' ++ (kind.spelling ++ rest)) :
    match countBrackets? s.brackets kind with
    | none => ∃ e, readNext s = .error e ∧ e.cause = .tooManyBrackets
    | some brackets => ∃ span position, readNext s = .ok ([⟨kind, span⟩],
        some { s with position := position, text := rest, brackets := brackets, unfinished := true }) := by
  obtain ⟨c, tail, shape, visible⟩ := spelling_visible readable
  have skipped : skipBlank (0 < s.brackets) s.text = c :: (tail ++ rest) := by
    rw [text, skip_blanks, shape]
    exact skip_blank_visible _ visible
  refine read_next_visible skipped visible ?_
  rw [← List.cons_append, ← shape]
  exact read_visible_spelling readable ends

def EndsLine (rest : List Char) : Prop := ∀ c, rest.head? = some c → c = '\n'

theorem allows_line_end {kind : Kind} {text rest : List Char} (h : kind.Allows text) (ends : EndsLine rest) :
    kind.Allows (text ++ rest) := by
  cases text with
  | nil =>
      intro c head
      rw [ends c head]
      exact allows_follower kind _ (by decide)
  | cons c tail => exact h

theorem run_spells {text rest : List Char} {n : Nat} (spelled : Spells text kinds) (ends : EndsLine rest)
    (inLine : s.lineStart = false) (here : s.text = List.replicate n ' ' ++ (text ++ rest)) :
    match bracketsBehind? s.brackets kinds with
    | none => Overflows tab s
    | some brackets => ∃ blanks position, Comes tab s kinds
        { s with position := position, text := List.replicate blanks ' ' ++ rest, brackets := brackets,
                 unfinished := s.unfinished || !kinds.isEmpty } := by
  induction spelled generalizing s n with
  | done =>
      have same : { s with text := List.replicate n ' ' ++ rest, unfinished := s.unfinished || false } = s := by
        rw [Bool.or_false, ← List.nil_append rest, ← here]
      exact ⟨n, s.position, comes_refl same⟩
  | blank _ ih =>
      refine ih (n := n + 1) inLine ?_
      rw [here, List.replicate_succ']
      simp
  | @token kind text kinds readable allowed spelled ih =>
      have steps : step tab s = readNext s := by rw [step, inLine]; rfl
      rw [List.append_assoc] at here
      have next := read_next_token readable (allows_line_end allowed ends) here
      rw [brackets_behind_cons]
      cases counted : countBrackets? s.brackets kind with
      | none =>
          rw [counted] at next
          obtain ⟨e, failed, cause⟩ := next
          exact ⟨e, by rw [run_eq, steps, failed], cause⟩
      | some brackets =>
          rw [counted] at next
          obtain ⟨span, position, taken⟩ := next
          have first := comes_of_step (steps.trans taken)
          have others := @ih { s with position := position, text := text ++ rest, brackets := brackets,
                                      unfinished := true } 0 inLine rfl
          simp only [Option.bind_some]
          cases behind : bracketsBehind? brackets kinds with
          | none =>
              simp only [behind] at others
              exact comes_overflows first others
          | some final =>
              simp only [behind] at others
              obtain ⟨blanks, place, comes⟩ := others
              refine ⟨blanks, place, ?_⟩
              have both := comes_trans first comes
              simpa using both

-- A line of a document: how many blocks it stands in, and its tokens.
structure Row where
  depth : Nat
  kinds : List Kind

-- The tokens of the rows behind a row at depth `depth`, with those that open and close blocks.
def laid (depth : Nat) : List Row → List Kind
  | [] => List.replicate depth .dedent ++ [.eof]
  | row :: rows =>
      (if row.depth = depth + 1 then [.indent] else List.replicate (depth - row.depth) .dedent) ++
        row.kinds ++ .newline :: laid row.depth rows

def Nests (depth : Nat) : List Row → Prop
  | [] => True
  | row :: rows => row.depth ≤ depth + 1 ∧ Nests row.depth rows

def blanks (n : Nat) : List Char := List.replicate n ' '

-- `line` is indented as the row asks for, from the depth `outer` on, and spells the row's tokens.
def Writes (outer : Nat) (line : List Char) (row : Row) : Prop :=
  outer ≤ row.depth ∧ ∃ kind text kinds, line = blanks (4 * (row.depth - outer)) ++ (kind.spelling ++ text) ∧
    row.kinds = kind :: kinds ∧ kind.IsReadable ∧ kind.Allows text ∧ Spells text kinds

theorem writes_visible {outer : Nat} {line : List Char} {row : Row} (h : Writes outer line row) : line ≠ [] := by
  obtain ⟨_, kind, text, kinds, rfl, _, readable, _⟩ := h
  obtain ⟨c, tail, shape, _⟩ := spelling_visible readable
  simp [shape]

def marginsAt : Nat → List Margin
  | 0 => [{}]
  | depth + 1 => ⟨4 * (depth + 1), 4 * (depth + 1)⟩ :: marginsAt depth

theorem margins_length (depth : Nat) : (marginsAt depth).length = depth + 1 := by
  induction depth with
  | zero => rfl
  | succ depth ih => rw [marginsAt, List.length_cons, ih]

theorem margins_head (depth : Nat) : (marginsAt depth).headD {} = ⟨4 * depth, 4 * depth⟩ := by
  cases depth with
  | zero => rfl
  | succ depth => rfl

theorem margins_kept {inner outer : Nat} (h : outer ≤ inner) :
    (marginsAt inner).dropWhile (fun margin => 4 * outer < margin.width) = marginsAt outer := by
  induction inner with
  | zero =>
      have zero : outer = 0 := by omega
      rw [zero]
      rfl
  | succ inner ih =>
      by_cases same : outer = inner + 1
      · rw [same, marginsAt, List.dropWhile_cons_of_neg (by simp)]
      · have deeper : 4 * outer < 4 * (inner + 1) := by omega
        rw [marginsAt, List.dropWhile_cons_of_pos (by simpa using deeper), ih (by omega)]

theorem realign_opens (depth : Nat) :
    realign (marginsAt depth) ⟨4 * (depth + 1), 4 * (depth + 1)⟩ = .ok ([.indent], marginsAt (depth + 1)) := by
  have wider : 4 * depth < 4 * (depth + 1) := by omega
  simp only [realign, margins_head, if_pos wider, if_neg (Nat.not_le_of_lt wider)]
  rfl

theorem realign_closes {inner outer : Nat} (h : outer ≤ inner) :
    realign (marginsAt inner) ⟨4 * outer, 4 * outer⟩ =
      .ok (List.replicate (inner - outer) .dedent, marginsAt outer) := by
  have noWider : ¬ 4 * inner < 4 * outer := by omega
  simp only [realign, margins_head, if_neg noWider, margins_kept h, margins_length, Nat.add_sub_add_right,
    bne_self_eq_false, Bool.false_eq_true, if_false]

theorem next_margin_blanks (seen n : Nat) (text : List Char) :
    nextMargin tab ⟨seen, seen⟩ (blanks n ++ text) = nextMargin tab ⟨seen + n, seen + n⟩ text := by
  induction n generalizing seen with
  | zero => rfl
  | succ n ih =>
      rw [blanks, List.replicate_succ, List.cons_append, nextMargin, if_pos rfl]
      rw [blanks] at ih
      rw [ih, Nat.add_assoc seen 1 n, Nat.add_comm 1 n]

theorem next_margin_visible (seen : Margin) {c : Char} {tail : List Char} (h : c ∉ separators) :
    nextMargin tab seen (c :: tail) = (seen, c :: tail) := by
  simp only [separators, List.mem_cons, List.not_mem_nil, or_false, not_or] at h
  obtain ⟨space, tabulator, feed, carriage, newline, hash, _, _⟩ := h
  simp [nextMargin, space, tabulator, feed, carriage, newline, hash]

theorem drop_mark_visible {c : Char} {tail : List Char} (h : c ∉ separators) : dropMark (c :: tail) = c :: tail := by
  have noMark : c ≠ '\ufeff' := by
    rintro rfl
    exact h (by decide)
  simp [dropMark, noMark]

def opening (depth : Nat) (row : Row) : List Kind :=
  if row.depth = depth + 1 then [.indent] else List.replicate (depth - row.depth) .dedent

-- The lexer in front of a line, within `depth` blocks.
structure AtLine (s : State) (depth : Nat) (text : List Char) : Prop where
  lineStart : s.lineStart = true
  text : s.text = text
  margins : s.margins = marginsAt depth
  brackets : s.brackets = 0
  finished : s.unfinished = false

theorem realign_row {depth : Nat} {row : Row} (h : row.depth ≤ depth + 1) :
    realign (marginsAt depth) ⟨4 * row.depth, 4 * row.depth⟩ = .ok (opening depth row, marginsAt row.depth) := by
  by_cases opens : row.depth = depth + 1
  · rw [opening, if_pos opens, opens]
    exact realign_opens depth
  · rw [opening, if_neg opens]
    exact realign_closes (by omega)

theorem start_row {depth : Nat} {row : Row} {c : Char} {tail : List Char} (nests : row.depth ≤ depth + 1)
    (visible : c ∉ separators) (at_line : AtLine s depth (blanks (4 * row.depth) ++ c :: tail)) :
    ∃ position, Comes tab s (opening depth row)
      { s with position := position, text := c :: tail, margins := marginsAt row.depth, lineStart := false } := by
  have measured : nextMargin tab {} s.text = (⟨4 * row.depth, 4 * row.depth⟩, c :: tail) := by
    rw [at_line.text, show ({} : Margin) = ⟨0, 0⟩ from rfl, next_margin_blanks, next_margin_visible _ visible,
      Nat.zero_add]
  have stepped : step tab s = .ok ((opening depth row).map fun kind => ⟨kind, .empty (s.position.upTo s.text (c :: tail))⟩,
      some { s with position := s.position.upTo s.text (c :: tail), text := c :: tail,
                    margins := marginsAt row.depth, lineStart := false }) := by
    rw [step, if_pos at_line.lineStart, startLine, measured]
    simp only [List.isEmpty_cons, Bool.false_eq_true, if_false, at_line.margins, realign_row nests]
  have comes := comes_of_step stepped
  simp only [List.map_map, Function.comp_def, List.map_id'] at comes
  exact ⟨_, comes⟩

theorem writes_spells {outer : Nat} {line : List Char} {row : Row} (h : Writes outer line row) :
    ∃ c tail, line = blanks (4 * (row.depth - outer)) ++ c :: tail ∧ c ∉ separators ∧
      Spells (c :: tail) row.kinds := by
  obtain ⟨_, kind, text, kinds, shape, first, readable, allowed, spelled⟩ := h
  obtain ⟨c, tail, spelling, visible⟩ := spelling_visible readable
  have whole := Spells.token readable allowed spelled
  rw [← first, spelling] at whole
  exact ⟨c, tail ++ text, by rw [shape, spelling]; rfl, visible, whole⟩

def Balanced (kinds : List Kind) : Prop := ∀ brackets, bracketsBehind? 0 kinds = some brackets → brackets = 0

theorem run_row {depth : Nat} {line rest : List Char} {row : Row} (written : Writes 0 line row)
    (nests : row.depth ≤ depth + 1) (balanced : Balanced row.kinds) (ends : EndsLine rest)
    (at_line : AtLine s depth (line ++ rest)) :
    (bracketsBehind? 0 row.kinds = none ∧ Overflows tab s) ∨
    (bracketsBehind? 0 row.kinds = some 0 ∧ ∃ n position, Comes tab s (opening depth row ++ row.kinds)
      { s with position := position, text := blanks n ++ rest, margins := marginsAt row.depth, brackets := 0,
               lineStart := false, unfinished := true }) := by
  obtain ⟨c, tail, shape, visible, spelled⟩ := writes_spells written
  rw [shape, Nat.sub_zero, List.append_assoc] at at_line
  obtain ⟨position, started⟩ := @start_row tab s _ _ _ _ nests visible at_line
  have runs := @run_spells tab { s with position := position, text := c :: (tail ++ rest),
                                        margins := marginsAt row.depth, lineStart := false }
    row.kinds (c :: tail) rest 0 spelled ends rfl rfl
  simp only [at_line.brackets, at_line.finished] at runs started
  cases behind : bracketsBehind? 0 row.kinds with
  | none =>
      rw [behind] at runs
      exact .inl ⟨rfl, comes_overflows started runs⟩
  | some brackets =>
      rw [behind] at runs
      obtain ⟨n, place, comes⟩ := runs
      have zero := balanced brackets behind
      subst zero
      have filled : row.kinds.isEmpty = false := by
        obtain ⟨_, kind, _, kinds, _, first, _⟩ := written
        rw [first]
        rfl
      rw [filled] at comes
      exact .inr ⟨rfl, n, place, comes_trans started comes⟩

theorem laid_cons (depth : Nat) (row : Row) (rows : List Row) :
    laid depth (row :: rows) = (opening depth row ++ row.kinds) ++ .newline :: laid row.depth rows := rfl

theorem run_end {n : Nat} (inLine : s.lineStart = false) (text : s.text = blanks n) :
    ∃ tokens, run tab s = .ok tokens ∧ tokens.map (·.kind) =
      (if s.unfinished then [.newline] else []) ++ List.replicate (s.margins.length - 1) .dedent ++ [.eof] := by
  have skipped : skipBlank (0 < s.brackets) s.text = [] := by
    rw [text, ← List.append_nil (blanks n), blanks, skip_blanks, skipBlank]
  have stepped : step tab s = .ok (closing s (s.position.upTo s.text []), none) := by
    rw [step, inLine, if_neg Bool.false_ne_true, readNext, skipped]
  refine ⟨_, by rw [run_eq, stepped], ?_⟩
  simp [closing, Function.comp_def]

theorem run_empty {depth : Nat} (at_line : AtLine s depth []) :
    ∃ tokens, run tab s = .ok tokens ∧ tokens.map (·.kind) = laid depth [] := by
  have stepped : step tab s = .ok ([],
      some { s with position := s.position.upTo s.text [], text := [], lineStart := false }) := by
    rw [step, if_pos at_line.lineStart, startLine, at_line.text]
    simp [nextMargin]
  obtain ⟨tokens, ran, kinds⟩ := @run_end tab { s with position := s.position.upTo s.text [], text := [], lineStart := false }
    0 rfl rfl
  refine ⟨tokens, ?_, ?_⟩
  · rw [run_eq, stepped]
    simp [ran, Except.map]
  · simpa [at_line.finished, at_line.margins, margins_length, laid] using kinds

theorem newline_step {n : Nat} {rest : List Char} (inLine : s.lineStart = false) (closed : s.brackets = 0)
    (text : s.text = blanks n ++ '\n' :: rest) :
    ∃ position, Comes tab s [.newline]
      { s with position := position, text := rest, lineStart := true, unfinished := false } := by
  have skipped : skipBlank (0 < s.brackets) s.text = '\n' :: rest := by
    rw [text, blanks, skip_blanks, closed, skipBlank]
    simp
  have stepped : ∃ span position, step tab s = .ok ([⟨.newline, span⟩],
      some { s with position := position, text := rest, lineStart := true, unfinished := false }) := by
    rw [step, inLine, if_neg Bool.false_ne_true, readNext, skipped]
    exact ⟨_, _, rfl⟩
  obtain ⟨span, position, stepped⟩ := stepped
  exact ⟨position, comes_of_step stepped⟩

theorem intercalate_cons (separator first : List Char) (others : List (List Char)) :
    List.intercalate separator (first :: others) = first ++ others.flatMap (separator ++ ·) := by
  induction others generalizing first with
  | nil => simp [List.intercalate]
  | cons second others ih =>
      have next := ih second
      simp only [List.intercalate, List.intersperse_cons_cons, List.flatten_cons] at next ⊢
      rw [next, List.flatMap_cons, List.append_assoc]

-- The lexer reads `kinds`, unless the brackets nest too deeply.
def Lexes (tab : Nat) (s : State) (fits : Prop) (kinds : List Kind) : Prop :=
  (fits → ∃ tokens, run tab s = .ok tokens ∧ tokens.map (·.kind) = kinds) ∧ (¬ fits → Overflows tab s)

theorem lexes_behind {fits : Prop} (h : Comes tab s kinds s') (h' : Lexes tab s' fits more) :
    Lexes tab s fits (kinds ++ more) := by
  refine ⟨fun fit => ?_, fun overflow => comes_overflows h (h'.2 overflow)⟩
  obtain ⟨front, frontKinds, frontRun⟩ := h
  obtain ⟨back, backRun, backKinds⟩ := h'.1 fit
  exact ⟨front ++ back, by rw [frontRun, backRun]; rfl, by simp [frontKinds, backKinds]⟩

def Fit (rows : List Row) : Prop := ∀ row ∈ rows, bracketsBehind? 0 row.kinds = some 0

theorem lexes_rows {lines : List (List Char)} {rows : List Row} {depth : Nat}
    (written : List.Forall₂ (Writes 0) lines rows) (nests : Nests depth rows)
    (balanced : ∀ row ∈ rows, Balanced row.kinds) (at_line : AtLine s depth (List.intercalate ['\n'] lines)) :
    Lexes tab s (Fit rows) (laid depth rows) := by
  induction written generalizing s depth with
  | nil => exact ⟨fun _ => run_empty at_line, fun overflow => absurd (by simp [Fit]) overflow⟩
  | @cons line row lines rows first others ih =>
      rw [intercalate_cons] at at_line
      have ends : EndsLine (lines.flatMap (['\n'] ++ ·)) := by
        cases lines with
        | nil => simp [EndsLine]
        | cons next lines => simp [EndsLine]
      rcases run_row first nests.1 (balanced row (by simp)) ends at_line with
        ⟨overflow, fails⟩ | ⟨closed, n, position, comes⟩
      · refine ⟨fun all => ?_, fun _ => fails⟩
        have := all row (by simp)
        rw [overflow] at this
        cases this
      · have rest : Lexes tab
            { s with position := position, text := blanks n ++ lines.flatMap (['\n'] ++ ·),
                     margins := marginsAt row.depth, brackets := 0, lineStart := false, unfinished := true }
            (Fit rows) (.newline :: laid row.depth rows) := by
          cases others with
          | nil =>
              obtain ⟨tokens, ran, kinds⟩ := @run_end tab
                { s with position := position, text := blanks n ++ [], margins := marginsAt row.depth, brackets := 0,
                         lineStart := false, unfinished := true } n rfl (List.append_nil _)
              refine ⟨fun _ => ⟨tokens, ran, ?_⟩, fun overflow => absurd (by simp [Fit]) overflow⟩
              simpa [margins_length, laid] using kinds
          | @cons line' row' lines rows first' others' =>
              obtain ⟨place, ended⟩ := @newline_step tab
                { s with position := position, text := blanks n ++ (line' :: lines).flatMap (['\n'] ++ ·),
                         margins := marginsAt row.depth, brackets := 0, lineStart := false, unfinished := true } n
                (line' ++ lines.flatMap (['\n'] ++ ·)) rfl rfl (by simp)
              refine lexes_behind ended (ih nests.2 (fun row member => balanced row (by simp_all)) ?_)
              exact ⟨rfl, (intercalate_cons _ _ _).symm, rfl, rfl, rfl⟩
        have both := lexes_behind comes rest
        have fits : Fit (row :: rows) ↔ Fit rows := by simp [Fit, closed]
        rw [laid_cons, Lexes, fits]
        exact both

end Lexer

open Lexer

theorem tokenize_rows {lines : List (List Char)} {rows : List Row} (written : List.Forall₂ (Writes 0) lines rows)
    (nests : Nests 0 rows) (balanced : ∀ row ∈ rows, Balanced row.kinds) :
    (Fit rows → ∃ tokens, tokenize (String.ofList (List.intercalate ['\n'] lines)) = .ok tokens ∧
      tokens.map (·.kind) = laid 0 rows) ∧
    (¬ Fit rows → ∃ e, tokenize (String.ofList (List.intercalate ['\n'] lines)) = .error e ∧
      e.cause = .tooManyBrackets) := by
  have plain : dropMark (List.intercalate ['\n'] lines) = List.intercalate ['\n'] lines := by
    cases written with
    | nil => rfl
    | @cons line row lines rows first others =>
        obtain ⟨c, tail, shape, visible, _⟩ := writes_spells first
        rw [intercalate_cons, shape]
        cases blanksShape : 4 * (row.depth - 0) with
        | zero => exact drop_mark_visible visible
        | succ n => rfl
  rw [tokenize, String.toList_ofList, plain]
  exact lexes_rows written nests balanced ⟨rfl, rfl, rfl, rfl, rfl⟩

end Mutagen
