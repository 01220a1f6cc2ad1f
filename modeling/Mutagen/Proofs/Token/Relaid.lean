import Mutagen.Proofs.Token.Apart
import Mutagen.Proofs.Token.Lossless
import Mutagen.Proofs.Token.Reach

set_option autoImplicit false

namespace Mutagen

open Token (Kind)

def isBlank (c : Char) : Bool := c = ' ' || c = '\t' || c = '\x0c' || c = '\r'

-- A line that holds nothing but blanks, and perhaps a comment.
inductive IdleLine : List Char → Prop where
  | blank {blanks : List Char} (white : ∀ c ∈ blanks, isBlank c = true) : IdleLine (blanks ++ ['\n'])
  | comment {blanks words : List Char} (white : ∀ c ∈ blanks, isBlank c = true) (line : '\n' ∉ words) :
      IdleLine (blanks ++ '#' :: (words ++ ['\n']))

-- What ends a line: the text ends, or there is a newline next to the blanks.
def LineEnds (back : List Char) : Prop :=
  ∃ blanks rest, back = blanks ++ rest ∧ (∀ c ∈ blanks, isBlank c = true) ∧ Lexer.EndsLine rest

def blankGaps : List (List Char) := [[' '], ['\t'], ['\x0c'], ['\\', '\n'], ['\\', '\r', '\n']]

-- What may be put between the parts `front` and `back` of a text with these tokens: blanks and continued line ends behind
-- a visible token, a comment where one ends the line, further lines where a bracket is open, and idle lines between lines.
inductive Inserts (tokens : List Token) (front : List Char) : List Char → List Char → Prop where
  | blank {token : Token} {gap back : List Char} (member : token ∈ tokens) (visible : token.kind.isVisible = true)
      (behind : token.span.stop = bytes front) (blank : gap ∈ blankGaps) : Inserts tokens front gap back
  | comment {token : Token} {words back : List Char} (member : token ∈ tokens) (visible : token.kind.isVisible = true)
      (behind : token.span.stop = bytes front) (line : '\n' ∉ words) (ends : LineEnds back) :
      Inserts tokens front ('#' :: words) back
  | joined {before : List Token} {token : Token} {gap back : List Char} {brackets : Nat}
      (begins : before ++ [token] <+: tokens) (visible : token.kind.isVisible = true)
      (behind : token.span.stop = bytes front)
      (counted : Lexer.bracketsBehind? 0 ((before ++ [token]).map (·.kind)) = some brackets) (inside : 0 < brackets)
      (idle : IdleLine gap) : Inserts tokens front gap back
  | first {gap back : List Char} (starts : front = []) (idle : IdleLine gap) : Inserts tokens front gap back
  | line {token : Token} {gap back : List Char} (member : token ∈ tokens) (newline : token.kind = .newline)
      (ends : token.span.start < token.span.stop) (behind : token.span.stop = bytes front) (idle : IdleLine gap) :
      Inserts tokens front gap back

namespace Lexer

variable {tab : Nat} {joined : Bool} {s s' : State} {front back other rest : List Char} {tokens : List Token}

theorem read_visible_takes {slice after : List Char} {kind : Kind} (h : readVisible (slice ++ after) = .ok (kind, after)) :
    ∃ c tail, slice = c :: tail ∧ c ∉ separators := by
  cases slice with
  | nil =>
      cases after with
      | nil => cases h
      | cons c rest => exact absurd (read_visible_is_rest h).2 (Nat.lt_irrefl _)
  | cons c tail => exact ⟨c, tail, rfl, read_visible_begins h⟩

theorem moves_step {next : Option State} (moved : Moves tab s tokens next) : step tab s = .ok (tokens, next) := by
  cases moved with
  | margin starts text measured aligned =>
      rw [step, if_pos starts, startLine, measured]
      simp only [Position.up_to_eq text.symm]
      rcases aligned with ⟨rfl, rfl, rfl⟩ | ⟨some, realigned⟩
      · rfl
      · rw [if_neg (by simpa using some), realigned]
  | ending inLine blank =>
      rw [step, if_neg (by simp [inLine]), readNext]
      simp only [blank, Position.up_to_eq (List.append_nil s.text)]
  | newline inLine text ends =>
      rw [step, if_neg (by simp [inLine]), readNext]
      simp only [ends, Position.up_to_eq text.symm, if_true, Position.behind_snoc]
  | @visible skipped slice after kind brackets inLine text begins reads counted =>
      obtain ⟨c, tail, rfl, visible⟩ := read_visible_takes reads
      have newline : c ≠ '\n' := fun same => visible (same ▸ by decide)
      rw [List.cons_append] at text begins reads
      have there : (s.position.behind skipped).upTo (c :: (tail ++ after)) after = s.position.behind (skipped ++ c :: tail) := by
        rw [Position.up_to_eq (List.cons_append), Position.behind_append]
      rw [step, if_neg (by simp [inLine]), readNext]
      simp only [begins, Position.up_to_eq text.symm, if_neg newline, reads, counted, there]

-- What is passed over in front of a place is passed over whatever stands behind the place.
theorem suffix_far {c : Char} {last : List Char} (inside : c :: (last ++ back) <:+ rest) : back.length < rest.length := by
  have sizes := inside.length_le
  rw [List.length_cons, List.length_append] at sizes
  omega

theorem skip_blank_far {c : Char} {last : List Char} (h : skipBlank joined rest = c :: (last ++ back)) :
    back.length < rest.length :=
  suffix_far (h ▸ skip_blank_suffix joined rest)

theorem next_margin_far {seen margin : Margin} {c : Char} {last : List Char}
    (h : nextMargin tab seen rest = (margin, c :: (last ++ back))) : back.length < rest.length := by
  have inside := next_margin_suffix tab seen rest
  rw [h] at inside
  exact suffix_far inside

theorem front_cons {d : Char} (whole : front ++ back = d :: rest) (far : back.length < rest.length) :
    ∃ more, front = d :: more ∧ rest = more ++ back := by
  cases front with
  | nil =>
      have sizes := congrArg List.length whole
      rw [List.nil_append, List.length_cons] at sizes
      omega
  | cons c more =>
      obtain ⟨rfl, same⟩ := List.cons.inj whole
      exact ⟨more, rfl, same.symm⟩

theorem skip_comment_front (far : back.length < (skipComment (front ++ back)).length) (other : List Char) :
    skipComment (front ++ other) = skipComment front ++ other := by
  rw [skipComment, List.dropWhile_append] at far ⊢
  split
  · rename_i none
    rw [if_pos none] at far
    have sizes := (skip_comment_suffix back).length_le
    exact absurd far (Nat.not_lt_of_le sizes)
  · rfl

-- A backslash is left out: whether it continues the line depends on the text behind it.
theorem skip_blank_front {c : Char} {last : List Char} (h : skipBlank joined (front ++ back) = c :: (last ++ back))
    (stops : c ≠ '\\') (other : List Char) : skipBlank joined (front ++ other) = c :: (last ++ other) := by
  generalize whole : front ++ back = text at h
  fun_induction skipBlank joined text generalizing front with
  | case1 => cases h
  | case2 d rest blank ih =>
      obtain ⟨more, rfl, rfl⟩ := front_cons whole (skip_blank_far h)
      rw [List.cons_append, skipBlank, if_pos blank]
      exact ih rfl h
  | case3 rest noBlank ih =>
      have far := skip_blank_far h
      obtain ⟨more, rfl, rfl⟩ := front_cons whole (Nat.lt_of_lt_of_le far (skip_comment_suffix rest).length_le)
      rw [skip_comment_front far back] at ih h
      rw [List.cons_append, skipBlank, if_neg noBlank, if_pos rfl, skip_comment_front far other]
      exact ih rfl h
  | case4 d rest noBlank noComment newline ih =>
      obtain ⟨more, rfl, rfl⟩ := front_cons whole (skip_blank_far h)
      rw [List.cons_append, skipBlank, if_neg noBlank, if_neg noComment, if_pos newline]
      exact ih rfl h
  | case5 d rest noBlank noComment noNewline continued ih =>
      have far := skip_blank_far h
      rw [List.length_drop] at far
      obtain ⟨more, rfl, rfl⟩ := front_cons whole (Nat.lt_of_lt_of_le far (Nat.sub_le _ _))
      have long : 1 ≤ more.length := by
        rw [List.length_append] at far
        omega
      rw [List.drop_append_of_le_length long] at ih h
      rw [List.take_append_of_le_length long] at continued
      rw [List.cons_append, skipBlank, if_neg noBlank, if_neg noComment, if_neg noNewline,
        List.take_append_of_le_length long, if_pos continued, List.drop_append_of_le_length long]
      exact ih rfl h
  | case6 d rest noBlank noComment noNewline other' continued ih =>
      have far := skip_blank_far h
      rw [List.length_drop] at far
      obtain ⟨more, rfl, rfl⟩ := front_cons whole (Nat.lt_of_lt_of_le far (Nat.sub_le _ _))
      have long : 2 ≤ more.length := by
        rw [List.length_append] at far
        omega
      rw [List.drop_append_of_le_length long] at ih h
      rw [List.take_append_of_le_length (Nat.le_of_succ_le long)] at other'
      rw [List.take_append_of_le_length long] at continued
      rw [List.cons_append, skipBlank, if_neg noBlank, if_neg noComment, if_neg noNewline,
        List.take_append_of_le_length (Nat.le_of_succ_le long), if_neg other', List.take_append_of_le_length long,
        if_pos continued, List.drop_append_of_le_length long]
      exact ih rfl h
  | case7 d rest noBlank noComment noNewline _ _ =>
      cases h
      obtain rfl := List.append_cancel_right (whole.trans (List.cons_append).symm)
      rw [List.cons_append, skipBlank, if_neg noBlank, if_neg noComment, if_neg noNewline, if_neg (by simp [stops]),
        if_neg (by simp [stops])]

theorem next_margin_front {seen margin : Margin} {c : Char} {last : List Char}
    (h : nextMargin tab seen (front ++ back) = (margin, c :: (last ++ back))) (other : List Char) :
    nextMargin tab seen (front ++ other) = (margin, c :: (last ++ other)) := by
  generalize whole : front ++ back = text at h
  fun_induction nextMargin tab seen text generalizing front with
  | case1 => cases h
  | case2 seen rest ih =>
      obtain ⟨more, rfl, rfl⟩ := front_cons whole (next_margin_far h)
      rw [List.cons_append, nextMargin, if_pos rfl]
      exact ih rfl h
  | case3 seen rest noSpace ih =>
      obtain ⟨more, rfl, rfl⟩ := front_cons whole (next_margin_far h)
      rw [List.cons_append, nextMargin, if_neg noSpace, if_pos rfl]
      exact ih rfl h
  | case4 seen d rest noSpace noTab ends ih =>
      obtain ⟨more, rfl, rfl⟩ := front_cons whole (next_margin_far h)
      rw [List.cons_append, nextMargin, if_neg noSpace, if_neg noTab, if_pos ends]
      exact ih rfl h
  | case5 seen rest noSpace noTab noEnd ih =>
      have far := next_margin_far h
      obtain ⟨more, rfl, rfl⟩ := front_cons whole (Nat.lt_of_lt_of_le far (skip_comment_suffix rest).length_le)
      rw [skip_comment_front far back] at ih h
      rw [List.cons_append, nextMargin, if_neg noSpace, if_neg noTab, if_neg noEnd, if_pos rfl, skip_comment_front far other]
      exact ih rfl h
  | case6 seen d rest noSpace noTab noEnd noComment =>
      cases h
      obtain rfl := List.append_cancel_right (whole.trans (List.cons_append).symm)
      rw [List.cons_append, nextMargin, if_neg noSpace, if_neg noTab, if_neg noEnd, if_neg noComment]

-- So are the tokens in front of the place read, the one that ends there among them.
theorem moves_front {last : List Char} {next : State} (moved : Moves tab s tokens (some next))
    (split : next.text = last ++ back) (ahead : s.lineStart = true → last ≠ []) (parted : Parted other) :
    ∃ front, s.text = front ++ back ∧ front ≠ [] ∧
      Moves tab { s with text := front ++ other } tokens (some { next with text := last ++ other }) := by
  cases moved with
  | @margin skipped rest margin kinds margins starts text measured aligned =>
      obtain rfl : rest = last ++ back := split
      obtain ⟨c, more, rfl⟩ := List.exists_cons_of_ne_nil (ahead starts)
      have reached : nextMargin tab {} ((skipped ++ c :: more) ++ back) = (margin, c :: (more ++ back)) := by
        rw [List.append_assoc, ← text, measured]
        rfl
      refine ⟨skipped ++ c :: more, by rw [text, List.append_assoc], by simp, ?_⟩
      refine .margin starts (List.append_assoc ..) (next_margin_front reached other) (.inr ⟨List.cons_ne_nil _ _, ?_⟩)
      rcases aligned with ⟨empty, _⟩ | ⟨_, realigned⟩
      · cases empty
      · exact realigned
  | @newline skipped after inLine text ends =>
      obtain rfl : after = last ++ back := split
      have reached : skipBlank (0 < s.brackets) ((skipped ++ '\n' :: last) ++ back) = '\n' :: (last ++ back) := by
        rw [List.append_assoc, List.cons_append, ← text, ends]
      refine ⟨skipped ++ '\n' :: last, by rw [text, List.append_assoc]; rfl, by simp, ?_⟩
      exact .newline inLine (List.append_assoc ..) (skip_blank_front reached (by decide) other)
  | @visible skipped slice after kind brackets inLine text begins reads counted =>
      obtain rfl : after = last ++ back := split
      obtain ⟨c, tail, rfl, visible⟩ := read_visible_takes reads
      have noBackslash : c ≠ '\\' := by
        rintro rfl
        exact visible (by decide)
      have reached : skipBlank (0 < s.brackets) ((skipped ++ (c :: tail ++ last)) ++ back) = c :: (tail ++ last ++ back) := by
        rw [List.append_assoc, List.append_assoc, ← text, begins, List.append_assoc]
        rfl
      have begins' := skip_blank_front reached noBackslash other
      rw [← List.cons_append, ← List.cons_append, List.append_assoc (c :: tail)] at begins'
      refine ⟨skipped ++ (c :: tail ++ last), by simp [text], by simp, ?_⟩
      exact .visible inLine (by simp) begins' (read_visible_apart reads parted) counted

theorem reaches_front {last : List Char} (h : Reaches tab s tokens s') (split : s'.text = last ++ back) (some : last ≠ [])
    (parted : Parted other) : ∃ front, s.text = front ++ back ∧ front ≠ [] ∧
      Reaches tab { s with text := front ++ other } tokens { s' with text := last ++ other } := by
  induction h with
  | here => exact ⟨last, split, some, .here⟩
  | step stepped _ ih =>
      obtain ⟨middle, split', some', later⟩ := ih split
      obtain ⟨front, whole, filled, moved⟩ := moves_front (step_moves stepped) split' (fun _ => some') parted
      exact ⟨front, whole, filled, .step (moves_step moved) later⟩

theorem skip_blank_white {blanks : List Char} (white : ∀ c ∈ blanks, isBlank c = true) :
    skipBlank joined (blanks ++ rest) = skipBlank joined rest := by
  induction blanks with
  | nil => rfl
  | cons c blanks ih =>
      obtain ⟨blank, others⟩ := List.forall_mem_cons.mp white
      unfold isBlank at blank
      rw [List.cons_append, skipBlank, if_pos blank, ih others]

theorem next_margin_white {seen : Margin} {blanks : List Char} (white : ∀ c ∈ blanks, isBlank c = true) :
    ∃ margin, nextMargin tab seen (blanks ++ rest) = nextMargin tab margin rest := by
  induction blanks generalizing seen with
  | nil => exact ⟨seen, rfl⟩
  | cons c blanks ih =>
      obtain ⟨blank, others⟩ := List.forall_mem_cons.mp white
      simp only [isBlank, Bool.or_eq_true, decide_eq_true_eq] at blank
      rcases blank with ((rfl | rfl) | rfl) | rfl
      · rw [List.cons_append, nextMargin, if_pos rfl]
        exact ih others
      · rw [List.cons_append, nextMargin, if_neg (by decide), if_pos rfl]
        exact ih others
      · rw [List.cons_append, nextMargin, if_neg (by decide), if_neg (by decide), if_pos (by decide)]
        exact ih others
      · rw [List.cons_append, nextMargin, if_neg (by decide), if_neg (by decide), if_pos (by decide)]
        exact ih others

theorem skip_comment_words {words : List Char} (line : '\n' ∉ words) (ends : EndsLine rest) :
    skipComment (words ++ rest) = rest := by
  have other : ∀ c ∈ words, (c != '\n') = true := fun c member => bne_iff_ne.mpr fun same => line (same ▸ member)
  rw [skipComment, List.dropWhile_append_of_pos other]
  refine (take_while_end fun c head => ?_).2
  rw [ends c head]
  rfl

theorem ends_newline (rest : List Char) : EndsLine ('\n' :: rest) := by
  rintro c ⟨⟩
  rfl

theorem skip_blank_idle {gap : List Char} (idle : IdleLine gap) : skipBlank true (gap ++ rest) = skipBlank true rest := by
  cases idle with
  | blank white =>
      rw [List.append_assoc, skip_blank_white white, List.cons_append, List.nil_append, skipBlank]
      rfl
  | @comment blanks words white line =>
      have skipped : skipComment (words ++ '\n' :: rest) = '\n' :: rest := skip_comment_words line (ends_newline rest)
      simp only [List.append_assoc, List.cons_append, List.nil_append, skip_blank_white white]
      rw [skipBlank, if_neg (by decide), if_pos rfl, skipped, skipBlank]
      rfl

theorem next_margin_idle {seen : Margin} {gap : List Char} (idle : IdleLine gap) :
    nextMargin tab seen (gap ++ rest) = nextMargin tab {} rest := by
  cases idle with
  | blank white =>
      obtain ⟨margin, passed⟩ := next_margin_white white
      rw [List.append_assoc, passed, List.cons_append, List.nil_append, nextMargin]
      rfl
  | @comment blanks words white line =>
      obtain ⟨margin, passed⟩ := @next_margin_white tab ('#' :: (words ++ '\n' :: rest)) seen blanks white
      have skipped : skipComment (words ++ '\n' :: rest) = '\n' :: rest := skip_comment_words line (ends_newline rest)
      simp only [List.append_assoc, List.cons_append, List.nil_append, passed]
      rw [nextMargin, if_neg (by decide), if_neg (by decide), if_neg (by decide), if_pos rfl, skipped, nextMargin]
      rfl

theorem skip_blank_comment {words : List Char} (line : '\n' ∉ words) (ends : LineEnds back) :
    skipBlank joined ('#' :: words ++ back) = skipBlank joined back := by
  obtain ⟨blanks, rest, rfl, white, ends⟩ := ends
  have words' : '\n' ∉ words ++ blanks := by
    intro member
    rcases List.mem_append.mp member with member | member
    · exact line member
    · cases white _ member
  have skipped := skip_comment_words words' ends
  rw [List.append_assoc] at skipped
  rw [skip_blank_white white, List.cons_append, skipBlank, if_neg (by decide), if_pos rfl, skipped]

theorem skip_blank_gap {gap : List Char} (blank : gap ∈ blankGaps) : skipBlank joined (gap ++ back) = skipBlank joined back := by
  simp only [blankGaps, List.mem_cons, List.not_mem_nil, or_false] at blank
  rcases blank with rfl | rfl | rfl | rfl | rfl
  all_goals simp [skipBlank]

-- Two states that differ in what is passed over next, and in the place.
structure Level (tab : Nat) (s s' : State) : Prop where
  margins : s'.margins = s.margins
  brackets : s'.brackets = s.brackets
  lineStart : s'.lineStart = s.lineStart
  unfinished : s'.unfinished = s.unfinished
  margin : s.lineStart = true → nextMargin tab {} s'.text = nextMargin tab {} s.text
  inLine : s.lineStart = false → skipBlank (0 < s.brackets) s'.text = skipBlank (0 < s.brackets) s.text

theorem closing_level {here there : Position} (h : Level tab s s') :
    (closing s' there).map (·.kind) = (closing s here).map (·.kind) := by
  simp only [closing, h.unfinished, h.margins, List.map_map, Function.comp_def]

theorem moves_level {next : Option State} (h : Level tab s s') (moved : Moves tab s tokens next) :
    ∃ tokens' next', Moves tab s' tokens' next' ∧ tokens'.map (·.kind) = tokens.map (·.kind) ∧
      Option.Rel (Level tab) next next' := by
  cases moved with
  | margin starts text measured aligned =>
      obtain ⟨skipped, split⟩ := next_margin_suffix tab {} s'.text
      have measures := (h.margin starts).trans measured
      rw [measures] at split
      rw [← h.margins] at aligned
      refine ⟨_, _, .margin (h.lineStart.trans starts) split.symm measures aligned, ?_, .some ?_⟩
      · simp
      · exact ⟨rfl, h.brackets, rfl, h.unfinished, nofun, fun _ => rfl⟩
  | ending inLine blank =>
      refine ⟨_, _, .ending (h.lineStart.trans inLine) ?_, closing_level h, .none⟩
      rw [h.brackets, h.inLine inLine, blank]
  | newline inLine text ends =>
      obtain ⟨skipped, split⟩ := skip_blank_suffix (0 < s'.brackets) s'.text
      have begins := (h.inLine inLine).trans ends
      rw [← h.brackets] at begins
      rw [begins] at split
      refine ⟨_, _, .newline (h.lineStart.trans inLine) split.symm begins, rfl, .some ?_⟩
      exact ⟨h.margins, h.brackets, rfl, rfl, fun _ => rfl, nofun⟩
  | visible inLine text begins reads counted =>
      obtain ⟨skipped, split⟩ := skip_blank_suffix (0 < s'.brackets) s'.text
      have begins' := (h.inLine inLine).trans begins
      rw [← h.brackets] at begins' counted
      rw [begins'] at split
      refine ⟨_, _, .visible (h.lineStart.trans inLine) split.symm begins' reads counted, rfl, .some ?_⟩
      exact ⟨h.margins, rfl, h.lineStart, rfl, fun _ => rfl, fun _ => rfl⟩

theorem run_level (h : Level tab s s') (ran : run tab s = .ok tokens) :
    ∃ tokens', run tab s' = .ok tokens' ∧ tokens'.map (·.kind) = tokens.map (·.kind) := by
  refine run_induction (P := fun s tokens => ∀ s', Level tab s s' → ∃ tokens', run tab s' = .ok tokens' ∧
    tokens'.map (·.kind) = tokens.map (·.kind)) ?_ ?_ ran s' h
  · intro s tokens moved s' level
    obtain ⟨tokens', next', moved', kinds, ⟨⟩⟩ := moves_level level moved
    refine ⟨tokens', ?_, kinds⟩
    rw [run_eq, moves_step moved']
  · intro s next first others moved ih s' level
    obtain ⟨first', _, moved', kinds, ⟨level'⟩⟩ := moves_level level moved
    obtain ⟨others', ran', kinds'⟩ := ih _ level'
    refine ⟨first' ++ others', ?_, ?_⟩
    · rw [run_eq, moves_step moved']
      dsimp only
      rw [ran']
      rfl
    · rw [List.map_append, List.map_append, kinds, kinds']

theorem reaches_run {others : List Token} (h : Reaches tab s tokens s') (ran : run tab s' = .ok others) :
    run tab s = .ok (tokens ++ others) := by
  induction h with
  | here => exact ran
  | step stepped _ ih =>
      rw [run_eq, stepped]
      dsimp only
      rw [ih ran, List.append_assoc]
      rfl

theorem reaches_snoc {token : Token} {before after : State} (h : Reaches tab s tokens before)
    (stepped : step tab before = .ok ([token], some after)) : Reaches tab s (tokens ++ [token]) after := by
  induction h with
  | here =>
      have last := Reaches.step stepped .here
      rwa [List.append_nil] at last
  | step first _ ih => exact List.append_assoc .. ▸ .step first (ih stepped)

-- Behind the token that ends at the place the lexer is left with the text behind the place, also where that is another.
theorem place_reached {before others : List Token} {token : Token} (parted : Parted other)
    (ran : run tab (.initial (front ++ back)) = .ok (before ++ token :: others)) (occupies : Occupies token)
    (behind : token.span.stop = bytes front) :
    ∃ after, after.text = back ∧ after.lineStart = !token.kind.isVisible ∧
      Reaches tab (.initial (front ++ back)) (before ++ [token]) after ∧
      Reaches tab (.initial (front ++ other)) (before ++ [token]) { after with text := other } := by
  obtain ⟨last, after, reached, reads⟩ := run_token occupies ran
  have moved := step_moves reads.step
  obtain ⟨read, whole, here⟩ := moves_stands (reaches_stands (initial_stands _) reached) moved
  have place : bytes front = bytes read := by rw [← behind, reads.behind, here, Position.behind_eq]
  obtain ⟨rfl, rfl⟩ := split_at_bytes whole place
  refine ⟨after, rfl, reads.lineStart, reaches_snoc reached reads.step, ?_⟩
  have ahead : last.lineStart = true → ([] : List Char) ≠ [] := fun begins => by cases reads.inLine.symm.trans begins
  obtain ⟨text, split, some, moved⟩ := moves_front moved (List.nil_append _).symm ahead parted
  obtain ⟨start, whole', _, reached'⟩ := reaches_front reached split some parted
  obtain rfl := List.append_cancel_right whole'
  exact reaches_snoc reached' (moves_step moved)

section
variable {gap : List Char} {before others : List Token} {token : Token}

theorem level_in_line (inLine : s.lineStart = false)
    (passed : skipBlank (0 < s.brackets) (gap ++ s.text) = skipBlank (0 < s.brackets) s.text) :
    Level tab s { s with text := gap ++ s.text } :=
  ⟨rfl, rfl, rfl, rfl, fun starts => Bool.noConfusion (inLine.symm.trans starts), fun _ => passed⟩

theorem level_at_start (starts : s.lineStart = true) (idle : IdleLine gap) : Level tab s { s with text := gap ++ s.text } :=
  ⟨rfl, rfl, rfl, rfl, fun _ => next_margin_idle idle, fun inLine => Bool.noConfusion (inLine.symm.trans starts)⟩

theorem insert_behind (ran : run tab (.initial (front ++ back)) = .ok (before ++ token :: others)) (occupies : Occupies token)
    (behind : token.span.stop = bytes front) (parted : Parted (gap ++ back))
    (level : ∀ after, after.text = back → Reaches tab (.initial (front ++ back)) (before ++ [token]) after →
      after.lineStart = (!token.kind.isVisible) → Level tab after { after with text := gap ++ after.text }) :
    ∃ tokens, run tab (.initial (front ++ (gap ++ back))) = .ok tokens ∧
      tokens.map (·.kind) = (before ++ token :: others).map (·.kind) := by
  obtain ⟨after, text, starts, reached, reached'⟩ := place_reached parted ran occupies behind
  obtain ⟨rest, ran', whole⟩ := run_prefix reached ran
  have same := level after text reached starts
  rw [text] at same
  obtain ⟨rest', ran'', kinds⟩ := run_level same ran'
  refine ⟨_, reaches_run reached' ran'', ?_⟩
  simp only [whole, List.map_append, kinds]

end

-- The first character of what is put in.
def gapStarts : List Char := [' ', '\t', '\x0c', '\r', '\n', '#', '\\']

def Separates (gap : List Char) : Prop := ∃ c rest, gap = c :: rest ∧ c ∈ gapStarts

theorem separates_parted {gap : List Char} (starts : Separates gap) (back : List Char) : Parted (gap ++ back) := by
  have separates : ∀ c ∈ gapStarts, c ∈ separators := each_char (by decide)
  obtain ⟨c, rest, rfl, member⟩ := starts
  exact ⟨c, rest ++ back, rfl, separates c member⟩

theorem white_separates {blanks rest : List Char} (white : ∀ c ∈ blanks, isBlank c = true) (starts : Separates rest) :
    Separates (blanks ++ rest) := by
  cases blanks with
  | nil => exact starts
  | cons c blanks =>
      have blank := white c (.head _)
      simp only [isBlank, Bool.or_eq_true, decide_eq_true_eq] at blank
      refine ⟨c, blanks ++ rest, rfl, ?_⟩
      rcases blank with ((rfl | rfl) | rfl) | rfl
      all_goals decide

theorem idle_separates {gap : List Char} (idle : IdleLine gap) : Separates gap := by
  cases idle with
  | blank white => exact white_separates white ⟨'\n', [], rfl, by decide⟩
  | comment white => exact white_separates white ⟨'#', _, rfl, by decide⟩

theorem inserts_separates {gap : List Char} (inserts : Inserts tokens front gap back) : Separates gap := by
  cases inserts with
  | blank _ _ _ blank =>
      simp only [blankGaps, List.mem_cons, List.not_mem_nil, or_false] at blank
      rcases blank with rfl | rfl | rfl | rfl | rfl
      all_goals exact ⟨_, _, rfl, by decide⟩
  | comment => exact ⟨'#', _, rfl, by decide⟩
  | joined _ _ _ _ _ idle | first _ idle | line _ _ _ _ idle => exact idle_separates idle

theorem inserts_tokens {gap : List Char} (ran : run tab (.initial (front ++ back)) = .ok tokens)
    (inserts : Inserts tokens front gap back) :
    ∃ tokens', run tab (.initial (front ++ (gap ++ back))) = .ok tokens' ∧
      tokens'.map (·.kind) = tokens.map (·.kind) := by
  have parted := separates_parted (inserts_separates inserts) back
  have within {token : Token} {s : State} (visible : token.kind.isVisible = true)
      (starts : s.lineStart = !token.kind.isVisible) : s.lineStart = false := by rw [starts, visible]; rfl
  cases inserts with
  | blank member visible behind blank =>
      obtain ⟨before, others, rfl⟩ := List.append_of_mem member
      apply insert_behind ran (.inl visible) behind parted
      intro after _ _ starts
      exact level_in_line (within visible starts) (skip_blank_gap blank)
  | comment member visible behind line ends =>
      obtain ⟨before, others, rfl⟩ := List.append_of_mem member
      apply insert_behind ran (.inl visible) behind parted
      intro after text _ starts
      exact level_in_line (within visible starts) (skip_blank_comment line (text ▸ ends))
  | @joined before token _ _ brackets begins visible behind counted inside idle =>
      obtain ⟨others, rfl⟩ := begins
      rw [List.append_assoc] at ran ⊢
      apply insert_behind ran (.inl visible) behind parted
      intro after _ reached starts
      have same : some after.brackets = some brackets := (reaches_counted reached).symm.trans counted
      refine level_in_line (within visible starts) ?_
      rw [Option.some.inj same, decide_eq_true inside]
      exact skip_blank_idle idle
  | first starts idle =>
      rw [starts] at ran ⊢
      exact run_level (level_at_start rfl idle) ran
  | line member newline ends behind idle =>
      obtain ⟨before, others, rfl⟩ := List.append_of_mem member
      apply insert_behind ran (.inr ends) behind parted
      intro after _ _ starts
      rw [newline] at starts
      exact level_at_start starts idle

theorem drop_mark_cases (text : List Char) : text = '\ufeff' :: dropMark text ∨
    dropMark text = text ∧ text.head? ≠ some '\ufeff' := by
  unfold dropMark
  split
  · exact .inl rfl
  · rename_i unmarked
    refine .inr ⟨rfl, fun head => ?_⟩
    obtain ⟨rest, same⟩ := List.head?_eq_some_iff.mp head
    exact unmarked rest same

theorem drop_mark_inserted {mark gap : List Char} (starts : Separates gap)
    (unmarked : dropMark (mark ++ (front ++ back)) = front ++ back) :
    dropMark (mark ++ (front ++ (gap ++ back))) = front ++ (gap ++ back) := by
  rcases drop_mark_cases (mark ++ (front ++ back)) with marked | ⟨same, head⟩
  · rw [unmarked] at marked
    obtain rfl : mark = ['\ufeff'] := List.append_cancel_right marked
    rfl
  · obtain rfl : mark = [] := List.append_cancel_right (same.symm.trans unmarked)
    have other : (front ++ (gap ++ back)).head? ≠ some '\ufeff' := by
      cases front with
      | nil =>
          obtain ⟨c, rest, rfl, member⟩ := starts
          intro marked
          cases marked
          exact absurd member (by decide)
      | cons => exact head
    rcases drop_mark_cases (front ++ (gap ++ back)) with marked | ⟨whole, _⟩
    · exact absurd (congrArg List.head? marked) other
    · exact whole

end Lexer

-- The second text is the first, with something put in.
def Relaid (source source' : String) : Prop :=
  ∃ tokens mark front gap back, tokenize source = .ok tokens ∧ source.toList = mark ++ (front ++ back) ∧
    Lexer.dropMark source.toList = front ++ back ∧ source'.toList = mark ++ (front ++ (gap ++ back)) ∧
    Inserts tokens front gap back

theorem relaid_tokens {source source' : String} {tokens : List Token} (relaid : Relaid source source')
    (read : tokenize source = .ok tokens) :
    ∃ tokens', tokenize source' = .ok tokens' ∧ tokens'.map (·.kind) = tokens.map (·.kind) := by
  obtain ⟨_, mark, front, gap, back, again, text, unmarked, text', inserts⟩ := relaid
  cases read.symm.trans again
  rw [text] at unmarked
  rw [tokenize, text, unmarked] at read
  rw [tokenize, text', Lexer.drop_mark_inserted (Lexer.inserts_separates inserts) unmarked]
  exact Lexer.inserts_tokens read inserts

end Mutagen
