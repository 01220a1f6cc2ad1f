import Mutagen.Proofs.Grammar.Accounts

set_option autoImplicit false

namespace Mutagen.Grammar

open Mutagen.Parser
open Token (Kind)

-- What is yet to come to an end: a bracket, or the parameters of a lambda.
inductive Unclosed where
  | bracket
  | lambda
deriving DecidableEq

def text? (unclosed : List Unclosed) (kind : Kind) : Option (List Unclosed) :=
  match kind, unclosed with
  | .keyword .kwLambda, _ => some (.lambda :: unclosed)
  | .mark .colon, .bracket :: _ => some unclosed
  | .mark .colon, .lambda :: rest => some rest
  | .mark m, _ =>
      if m.isOpening then some (.bracket :: unclosed)
      else if m.isClosing then
        match unclosed with
        | .bracket :: rest => some rest
        | _ => none
      else if (Kind.mark m).isPlain then some unclosed else none
  | kind, _ => if kind.isPlain then some unclosed else none

def texts : Scan (List Unclosed) where
  step := text?
  start := []
  push := fun _ => List.cons .bracket
  lambda := List.cons .lambda
  plain := by
    intro unclosed kind plain
    cases kind with
    | keyword word => cases word <;> first | rfl | cases plain
    | mark m => cases m <;> first | rfl | cases plain
    | name | int | float | str | augAssign => rfl
    | reserved | newline | indent | dedent | eof => cases plain
  opens := by
    intro unclosed opening opens
    cases opening <;> first | rfl | cases opens
  closes := by
    intro unclosed opening closing fits
    cases opening <;> cases fits <;> rfl
  divides := fun _ _ _ => rfl
  binds := fun _ => rfl
  bound := fun _ => rfl

/-- Tokens within one line in which all brackets are closed; a colon stands within brackets or behind a lambda. -/
structure Text where
  kinds : List Kind
  closed : kinds.foldlM text? [] = some []

-- The tokens that may stand behind a text, but not in it.
def EndsText (kinds : List Kind) : Prop := text? [] (firstOf kinds) = none

theorem text_ext {a b : Text} (same : a.kinds = b.kinds) : a = b := by
  obtain ⟨kinds, _⟩ := a
  obtain ⟨kinds', _⟩ := b
  obtain rfl : kinds = kinds' := same
  rfl

theorem closed_split {front back : List Kind} {kind : Kind} (before : front.foldlM text? [] = some [])
    (whole : (front ++ kind :: back).foldlM text? [] = some []) : text? [] kind ≠ none := by
  intro refused
  rw [List.foldlM_append, before] at whole
  change (text? [] kind >>= fun unclosed => back.foldlM text? unclosed) = some [] at whole
  rw [refused] at whole
  cases whole

theorem text_split {a b : Text} {x y : List Kind} (ends : EndsText x) (ends' : EndsText y)
    (same : a.kinds ++ x = b.kinds ++ y) : a = b ∧ x = y := by
  rcases List.append_eq_append_iff.mp same with ⟨more, longer, left⟩ | ⟨more, longer, left⟩
  · cases more with
    | nil => exact ⟨text_ext (by rw [longer, List.append_nil]), left⟩
    | cons kind more =>
        rw [EndsText, left] at ends
        exact absurd ends (closed_split a.closed (longer ▸ b.closed))
  · cases more with
    | nil => exact ⟨text_ext (by rw [longer, List.append_nil]), left.symm⟩
    | cons kind more =>
        rw [EndsText, left] at ends'
        exact absurd ends' (closed_split b.closed (longer ▸ a.closed))

-- The words in front of a suite.
def headwords : List Kind := [.keyword .kwIf, .keyword .kwWhile, .keyword .kwFor, .keyword .kwDef, .keyword .kwElif, .keyword .kwElse]

theorem compound_headword (word : Compound) : .keyword word.keyword ∈ headwords := by
  cases word <;> decide

theorem compound_keyword {word word' : Compound} (same : Kind.keyword word.keyword = .keyword word'.keyword) : word = word' := by
  cases word <;> cases word' <;> first | rfl | cases same

-- The colon behind the head of a suite.
theorem head_split {a b : Text} {x y : List Kind} (same : a.kinds ++ .mark .colon :: x = b.kinds ++ .mark .colon :: y) :
    a = b ∧ x = y := by
  have colon (rest : List Kind) : EndsText (.mark .colon :: rest) := rfl
  obtain ⟨alike, behind⟩ := text_split (colon x) (colon y) same
  exact ⟨alike, (List.cons.inj behind).2⟩

structure Phrase extends Text where
  some : kinds ≠ []
  small : firstOf kinds ∉ headwords

theorem phrase_ext {a b : Phrase} (same : a.toText = b.toText) : a = b := by
  obtain ⟨text, _, _⟩ := a
  obtain ⟨text', _, _⟩ := b
  obtain rfl : text = text' := same
  rfl

theorem phrase_first (phrase : Phrase) (rest : List Kind) :
    text? [] (firstOf (phrase.kinds ++ rest)) ≠ none ∧ firstOf (phrase.kinds ++ rest) ∉ headwords := by
  obtain ⟨⟨kinds, closed⟩, some, small⟩ := phrase
  cases kinds with
  | nil => exact absurd rfl some
  | cons kind more => exact ⟨@closed_split [] more kind rfl closed, small⟩

theorem phrase_other {phrase : Phrase} {rest : List Kind} {kind : Kind} (ends : text? [] kind = none) :
    firstOf (phrase.kinds ++ rest) ≠ kind := by
  intro same
  exact (phrase_first phrase rest).1 (same ▸ ends)

-- Small statements on one line. A semicolon may stand behind the last of them.
inductive Line where
  | last (phrase : Phrase)
  | ended (phrase : Phrase)
  | more (phrase : Phrase) (line : Line)

namespace Line

def phrases : Line → List Phrase
  | last phrase | ended phrase => [phrase]
  | more phrase line => phrase :: line.phrases

def spelled : Line → List Kind
  | last phrase => phrase.kinds
  | ended phrase => phrase.kinds ++ [.mark .semicolon]
  | more phrase line => phrase.kinds ++ .mark .semicolon :: line.spelled

-- The first statement, and the tokens behind it.
def first : Line → Phrase
  | last phrase | ended phrase | more phrase _ => phrase

def behind : Line → List Kind
  | last _ => []
  | ended _ => [.mark .semicolon]
  | more _ line => .mark .semicolon :: line.spelled

theorem spelled_eq (line : Line) (rest : List Kind) : line.spelled ++ rest = line.first.kinds ++ (line.behind ++ rest) := by
  cases line with
  | last => rfl
  | ended => exact List.append_assoc _ _ _
  | more => exact List.append_assoc _ _ _

end Line

theorem line_other {line : Line} {rest : List Kind} {kind : Kind} (ends : text? [] kind = none) :
    firstOf (line.spelled ++ rest) ≠ kind := by
  rw [Line.spelled_eq]
  exact phrase_other ends

theorem line_small (line : Line) (rest : List Kind) : firstOf (line.spelled ++ rest) ∉ headwords := by
  rw [Line.spelled_eq]
  exact (phrase_first line.first _).2

theorem line_compound {line : Line} {word : Compound} {x y : List Kind} : line.spelled ++ x ≠ .keyword word.keyword :: y := by
  intro same
  have small := line_small line x
  rw [same] at small
  exact small (compound_headword word)

theorem line_split {a b : Line} {x y : List Kind} (same : a.spelled ++ .newline :: x = b.spelled ++ .newline :: y) :
    a = b ∧ x = y := by
  have semicolon (rest : List Kind) : EndsText (.mark .semicolon :: rest) := rfl
  have newline (rest : List Kind) : EndsText (.newline :: rest) := rfl
  have apart {line : Line} {rest more : List Kind} : line.spelled ++ rest ≠ .newline :: more := fun alike =>
    @line_other line rest .newline rfl (congrArg firstOf alike)
  induction a generalizing b with
  | last phrase =>
      cases b with
      | last =>
          obtain ⟨alike, rest⟩ := text_split (newline _) (newline _) same
          cases rest
          exact ⟨congrArg _ (phrase_ext alike), rfl⟩
      | ended =>
          rw [Line.spelled, Line.spelled, List.append_assoc] at same
          cases (text_split (newline _) (semicolon _) same).2
      | more =>
          rw [Line.spelled, Line.spelled, List.append_assoc] at same
          cases (text_split (newline _) (semicolon _) same).2
  | ended phrase =>
      rw [Line.spelled, List.append_assoc] at same
      cases b with
      | last => cases (text_split (semicolon _) (newline _) same).2
      | ended =>
          rw [Line.spelled, List.append_assoc] at same
          obtain ⟨alike, rest⟩ := text_split (semicolon _) (semicolon _) same
          cases rest
          exact ⟨congrArg _ (phrase_ext alike), rfl⟩
      | more =>
          rw [Line.spelled, List.append_assoc] at same
          exact absurd (List.cons.inj (text_split (semicolon _) (semicolon _) same).2).2.symm apart
  | more phrase line ih =>
      rw [Line.spelled, List.append_assoc] at same
      cases b with
      | last => cases (text_split (semicolon _) (newline _) same).2
      | ended =>
          rw [Line.spelled, List.append_assoc] at same
          exact absurd (List.cons.inj (text_split (semicolon _) (semicolon _) same).2).2 apart
      | more =>
          rw [Line.spelled, List.append_assoc] at same
          obtain ⟨alike, rest⟩ := text_split (semicolon _) (semicolon _) same
          obtain ⟨rfl, behind⟩ := ih (List.cons.inj rest).2
          obtain rfl := phrase_ext alike
          exact ⟨rfl, behind⟩

inductive Part where
  | rows (top : Bool)
  | suite
  | branch

/-- Where the lines, the suites and the clauses of a program begin and end. -/
inductive Layout : Part → Type where
  | done {top : Bool} : Layout (.rows top)
  -- An empty line, which stands between statements of the program itself.
  | gap (rest : Layout (.rows true)) : Layout (.rows true)
  | row {top : Bool} (line : Line) (rest : Layout (.rows top)) : Layout (.rows top)
  | compound {top : Bool} (word : Compound) (head : Text) (body : Layout .suite) (branch : Layout .branch)
      (rest : Layout (.rows top)) : Layout (.rows top)
  | onLine (line : Line) : Layout .suite
  | block (body : Layout (.rows false)) : Layout .suite
  | bare : Layout .branch
  | elif (head : Text) (body : Layout .suite) (branch : Layout .branch) : Layout .branch
  | otherwise (body : Layout .suite) : Layout .branch

namespace Layout

def spelled : {part : Part} → Layout part → List Kind
  | _, .done => []
  | _, .gap rest => .newline :: rest.spelled
  | _, .row line rest => line.spelled ++ .newline :: rest.spelled
  | _, .compound word head body branch rest =>
      .keyword word.keyword :: (head.kinds ++ .mark .colon :: (body.spelled ++ (branch.spelled ++ rest.spelled)))
  | _, .onLine line => line.spelled ++ [.newline]
  | _, .block body => .newline :: .indent :: (body.spelled ++ [.dedent])
  | _, .bare => []
  | _, .elif head body branch => .keyword .kwElif :: (head.kinds ++ .mark .colon :: (body.spelled ++ branch.spelled))
  | _, .otherwise body => .keyword .kwElse :: .mark .colon :: body.spelled

-- Each of the statements on a line of its own.
def lines {top : Bool} (phrases : List Phrase) (rest : Layout (.rows top)) : Layout (.rows top) :=
  phrases.foldr (fun phrase rest => .row (.last phrase) rest) rest

end Layout

inductive Relays : {part : Part} → Layout part → Layout part → Prop where
  | suite (line : Line) : Relays (.onLine line) (.block (.lines line.phrases .done))
  | statements {top : Bool} (line : Line) (rest : Layout (.rows top)) : Relays (.row line rest) (.lines line.phrases rest)
  -- A clause with all that continues it, as an `if` in the block of an `else`.
  | clause (head : Text) (body : Layout .suite) (branch : Layout .branch) :
      Relays (.elif head body branch) (.otherwise (.block (.compound .choice head body branch .done)))
  | gap {rest rest' : Layout (.rows true)} (h : Relays rest rest') : Relays (.gap rest) (.gap rest')
  | row {top : Bool} {rest rest' : Layout (.rows top)} (line : Line) (h : Relays rest rest') :
      Relays (.row line rest) (.row line rest')
  | body {top : Bool} {body body' : Layout .suite} (word : Compound) (head : Text) (branch : Layout .branch)
      (rest : Layout (.rows top)) (h : Relays body body') :
      Relays (.compound word head body branch rest) (.compound word head body' branch rest)
  | branch {top : Bool} {branch branch' : Layout .branch} (word : Compound) (head : Text) (body : Layout .suite)
      (rest : Layout (.rows top)) (h : Relays branch branch') :
      Relays (.compound word head body branch rest) (.compound word head body branch' rest)
  | rest {top : Bool} {rest rest' : Layout (.rows top)} (word : Compound) (head : Text) (body : Layout .suite)
      (branch : Layout .branch) (h : Relays rest rest') :
      Relays (.compound word head body branch rest) (.compound word head body branch rest')
  | block {body body' : Layout (.rows false)} (h : Relays body body') : Relays (.block body) (.block body')
  | elifBody {body body' : Layout .suite} (head : Text) (branch : Layout .branch) (h : Relays body body') :
      Relays (.elif head body branch) (.elif head body' branch)
  | elifBranch {branch branch' : Layout .branch} (head : Text) (body : Layout .suite) (h : Relays branch branch') :
      Relays (.elif head body branch) (.elif head body branch')
  | otherwise {body body' : Layout .suite} (h : Relays body body') : Relays (.otherwise body) (.otherwise body')

-- What may follow on a part. Statements go up to the end of the program or of their block.
def Part.EndsAt : Part → List Kind → Prop
  | .rows _, rest => firstOf rest = .eof ∨ firstOf rest = .dedent
  | .suite, _ => True
  | .branch, rest => firstOf rest ≠ .keyword .kwElif ∧ firstOf rest ≠ .keyword .kwElse

-- No statement begins like a clause: the clauses of an if statement end where the next statement begins.
theorem rows_apart {top : Bool} (layout : Layout (.rows top)) {rest : List Kind} (ends : (Part.rows top).EndsAt rest) :
    Part.branch.EndsAt (layout.spelled ++ rest) := by
  cases layout with
  | done =>
      change firstOf rest ≠ _ ∧ firstOf rest ≠ _
      rcases ends with ends | ends <;> (rw [ends]; exact ⟨nofun, nofun⟩)
  | gap => exact ⟨nofun, nofun⟩
  | row line later =>
      rw [Layout.spelled, List.append_assoc]
      have small := line_small line (Kind.newline :: later.spelled ++ rest)
      exact ⟨fun same => small (by rw [same]; decide), fun same => small (by rw [same]; decide)⟩
  | compound word => cases word <;> exact ⟨nofun, nofun⟩

-- Nor does it begin like the end of a block.
theorem row_goes {line : Line} {rest : List Kind} {top : Bool} : ¬ (Part.rows top).EndsAt (line.spelled ++ rest) := by
  rintro (same | same) <;> exact line_other rfl same

theorem rows_done {top : Bool} {layout : Layout (.rows top)} {rest : List Kind} (ends : (Part.rows top).EndsAt (layout.spelled ++ rest)) :
    layout = .done := by
  cases layout with
  | done => rfl
  | gap => rcases ends with ends | ends <;> cases ends
  | row line later =>
      rw [Layout.spelled, List.append_assoc] at ends
      exact absurd ends row_goes
  | compound => rcases ends with ends | ends <;> cases ends

theorem layout_unique {part : Part} (a b : Layout part) {x y : List Kind} (ends : part.EndsAt x) (ends' : part.EndsAt y)
    (same : a.spelled ++ x = b.spelled ++ y) : a = b ∧ x = y := by
  induction a generalizing x y with
  | done =>
      rw [show x = _ from same] at ends
      obtain rfl := rows_done ends
      exact ⟨rfl, same⟩
  | gap rest ih =>
      cases b with
      | done =>
          rw [show y = _ from same.symm] at ends'
          cases rows_done ends'
      | gap =>
          obtain ⟨rfl, behind⟩ := ih _ ends ends' (List.cons.inj same).2
          exact ⟨rfl, behind⟩
      | row line =>
          rw [Layout.spelled, Layout.spelled, List.append_assoc] at same
          exact absurd (congrArg firstOf same.symm) (line_other rfl)
      | compound => cases same
  | row line rest ih =>
      rw [Layout.spelled, List.append_assoc] at same
      cases b with
      | done =>
          rw [show y = _ from same.symm] at ends'
          exact absurd ends' row_goes
      | gap => exact absurd (congrArg firstOf same) (line_other rfl)
      | row =>
          rw [Layout.spelled, List.append_assoc] at same
          obtain ⟨rfl, later⟩ := line_split same
          obtain ⟨rfl, behind⟩ := ih _ ends ends' later
          exact ⟨rfl, behind⟩
      | compound word => exact absurd same line_compound
  | compound word head body branch rest ihBody ihBranch ihRest =>
      cases b with
      | done =>
          rw [show y = _ from same.symm] at ends'
          cases rows_done ends'
      | gap => cases same
      | row line =>
          rw [Layout.spelled, Layout.spelled, List.append_assoc] at same
          exact absurd same.symm line_compound
      | compound word' =>
          simp only [Layout.spelled, List.cons_append, List.append_assoc] at same
          obtain rfl := compound_keyword (List.cons.inj same).1
          obtain ⟨rfl, suites⟩ := head_split (List.cons.inj same).2
          obtain ⟨rfl, branches⟩ := ihBody _ trivial trivial suites
          obtain ⟨rfl, rests⟩ := ihBranch _ (rows_apart _ ends) (rows_apart _ ends') branches
          obtain ⟨rfl, behind⟩ := ihRest _ ends ends' rests
          exact ⟨rfl, behind⟩
  | onLine line =>
      rw [Layout.spelled, List.append_assoc] at same
      cases b with
      | onLine =>
          rw [Layout.spelled, List.append_assoc] at same
          obtain ⟨rfl, behind⟩ := line_split same
          exact ⟨rfl, behind⟩
      | block => exact absurd (congrArg firstOf same) (line_other rfl)
  | block body ih =>
      cases b with
      | onLine =>
          rw [Layout.spelled, Layout.spelled, List.append_assoc] at same
          exact absurd (congrArg firstOf same.symm) (line_other rfl)
      | block =>
          simp only [Layout.spelled, List.cons_append, List.append_assoc] at same
          obtain ⟨rfl, behind⟩ := ih _ (.inr rfl) (.inr rfl) (List.cons.inj (List.cons.inj same).2).2
          exact ⟨rfl, (List.cons.inj behind).2⟩
  | bare =>
      cases b with
      | bare => exact ⟨rfl, same⟩
      | elif => exact absurd (congrArg firstOf same) ends.1
      | otherwise => exact absurd (congrArg firstOf same) ends.2
  | elif head body branch ihBody ihBranch =>
      cases b with
      | bare => exact absurd (congrArg firstOf same.symm) ends'.1
      | elif =>
          simp only [Layout.spelled, List.cons_append, List.append_assoc] at same
          obtain ⟨rfl, suites⟩ := head_split (List.cons.inj same).2
          obtain ⟨rfl, branches⟩ := ihBody _ trivial trivial suites
          obtain ⟨rfl, behind⟩ := ihBranch _ ends ends' branches
          exact ⟨rfl, behind⟩
      | otherwise => cases same
  | otherwise body ih =>
      cases b with
      | bare => exact absurd (congrArg firstOf same.symm) ends'.2
      | elif => cases same
      | otherwise =>
          obtain ⟨rfl, behind⟩ := ih _ trivial trivial (List.cons.inj (List.cons.inj same).2).2
          exact ⟨rfl, behind⟩

end Mutagen.Grammar
