import Mutagen.Proofs.Node.Tokens

set_option autoImplicit false

namespace Mutagen.Node

-- What may follow directly: behind some forms a dot too.
def Follows (dot : Bool) (rest : List Char) : Prop :=
  ∀ c, rest.head? = some c → c ∈ followers ∨ dot = true ∧ c = '.'

-- A mark in front of this text stays the mark it is.
def Harmless (text : List Char) : Prop := ∀ c, text.head? = some c → c ∉ markTails

structure Prints (dot : Bool) (text : List Char) (kinds : List Token.Kind) : Prop where
  spells : ∀ {rest : List Char} {more : List Token.Kind}, Spells rest more → Follows dot rest →
    Spells (text ++ rest) (kinds ++ more)
  harmless : ∀ {rest : List Char}, Harmless rest → Harmless (text ++ rest)

variable {dot : Bool} {text rest : List Char} {kinds : List Token.Kind}

theorem follows_harmless (h : Follows dot rest) : Harmless rest := by
  have none : ∀ c ∈ followers, c ∉ markTails := each_char (by decide)
  intro c head
  rcases h c head with follower | ⟨_, rfl⟩
  · exact none c follower
  · decide

theorem follows_any (h : Follows false rest) : Follows dot rest := by
  intro c head
  rcases h c head with follower | ⟨no, _⟩
  · exact .inl follower
  · cases no

theorem follows_cons {c : Char} (h : c ∈ followers) : Follows dot (c :: rest) := by
  intro d head
  cases head
  exact .inl h

theorem harmless_cons {c : Char} (h : c ∉ markTails) : Harmless (c :: rest) := by
  intro d head
  cases head
  exact h

theorem allows_of_follows {kind : Token.Kind} (h : Follows dot rest) (point : dot = true → kind.allows '.' = true) :
    kind.Allows rest := by
  intro c head
  rcases h c head with follower | ⟨yes, rfl⟩
  · exact allows_follower kind c follower
  · exact point yes

theorem mark_allows {m : Mark} (noDot : m ≠ .dot) (h : Harmless rest) : (Token.Kind.mark m).Allows rest := by
  intro c head
  have plain := h c head
  simp only [markTails] at plain
  simp [Token.Kind.allows, noDot]
  simpa using plain

theorem prints_any (h : Prints dot text kinds) : Prints false text kinds :=
  ⟨fun spelled follows => h.spells spelled (follows_any follows), h.harmless⟩

theorem prints_nil : Prints dot [] [] := ⟨fun spelled _ => spelled, fun harmless => harmless⟩

theorem prints_token {kind : Token.Kind} {c : Char} {tail : List Char} (readable : kind.IsReadable)
    (spelling : kind.spelling = c :: tail) (plain : c ∉ markTails)
    (point : dot = true → kind.allows '.' = true) : Prints dot kind.spelling [kind] := by
  refine ⟨fun spelled follows => .token readable (allows_of_follows follows point) spelled, fun _ => ?_⟩
  rw [spelling]
  exact harmless_cons plain

theorem prints_blank (h : Prints dot text kinds) : Prints dot (' ' :: text) kinds :=
  ⟨fun spelled follows => .blank (h.spells spelled follows), fun _ => harmless_cons (by decide)⟩

theorem prints_append {dot' : Bool} {text' : List Char} {kinds' : List Token.Kind} (h : Prints dot text kinds)
    (h' : Prints dot' text' kinds')
    (joint : ∀ {rest : List Char}, Follows dot' rest → Follows dot (text' ++ rest)) :
    Prints dot' (text ++ text') (kinds ++ kinds') := by
  constructor
  · intro rest more spelled follows
    have front := h.spells (h'.spells spelled follows) (joint follows)
    simpa using front
  · intro rest harmless
    have front := h.harmless (h'.harmless harmless)
    simpa using front

theorem prints_mark {m : Mark} {c : Char} (spelling : m.spelling.toList = [c]) (noDot : m ≠ .dot)
    (plain : c ∉ markTails) (h : Prints dot text kinds) : Prints dot (c :: text) (.mark m :: kinds) := by
  refine ⟨fun spelled follows => ?_, fun _ => harmless_cons plain⟩
  have allowed := mark_allows noDot (h.harmless (follows_harmless follows))
  have front := @Spells.token (.mark m) _ _ trivial allowed (h.spells spelled follows)
  rwa [Token.Kind.spelling, spelling] at front

theorem prints_between {m m' : Mark} {c c' : Char} (spelling : m.spelling.toList = [c])
    (spelling' : m'.spelling.toList = [c']) (noDot : m ≠ .dot) (noDot' : m' ≠ .dot) (plain : c ∉ markTails)
    (closes : c' ∈ followers) (h : Prints false text kinds) :
    Prints true (c :: text ++ [c']) (.mark m :: kinds ++ [.mark m']) := by
  have last : Prints true [c'] [.mark m'] := by
    refine ⟨fun spelled follows => ?_, fun _ => follows_harmless (@follows_cons true _ _ closes)⟩
    have front := @Spells.token (.mark m') _ _ trivial (mark_allows noDot' (follows_harmless follows)) spelled
    rwa [Token.Kind.spelling, spelling'] at front
  exact prints_mark spelling noDot plain (prints_append h last fun _ => follows_cons closes)

theorem prints_parenthesized (h : Prints false text kinds) : Prints true (parenthesized text) (enclosed kinds) :=
  prints_between rfl rfl (by decide) (by decide) (by decide) (by decide) h

def Operates (symbol : List Char) (kinds : List Token.Kind) : Prop :=
  ∀ (rest : List Char) (more : List Token.Kind), Spells rest more → Spells (symbol ++ ' ' :: rest) (kinds ++ more)

theorem operates_kind (kind : Token.Kind) (readable : kind.IsReadable) : Operates kind.spelling [kind] :=
  fun _ _ spelled => .token readable (fun c head => by cases head; exact allows_follower kind ' ' (by decide)) (.blank spelled)

theorem operates_spaced {symbol : String} (h : Operates symbol.toList kinds) {more : List Token.Kind}
    (spelled : Spells rest more) : Spells (spaced symbol ++ rest) (kinds ++ more) := by
  have front := Spells.blank (h _ _ spelled)
  simpa [spaced] using front

theorem prints_spaced {symbol : String} {text' : List Char} {kinds' operator : List Token.Kind}
    (h : Prints false text kinds) (op : Operates symbol.toList operator) (h' : Prints dot text' kinds') :
    Prints dot (text ++ spaced symbol ++ text') (kinds ++ (operator ++ kinds')) := by
  rw [List.append_assoc]
  refine prints_append h ⟨fun spelled follows => ?_, fun _ => harmless_cons (by decide)⟩
    fun _ => follows_cons (by decide)
  have middle := operates_spaced op (h'.spells spelled follows)
  simpa using middle

theorem joined_cons (separator : Token.Kind) (first : List Token.Kind) (others : List (List Token.Kind)) :
    joined separator (first :: others) = first ++ others.flatMap (separator :: ·) := rfl

theorem prints_joined {texts : List (List Char)} {items : List (List Token.Kind)} {separator : List Char} {kind : Token.Kind}
    (opens : ∀ {rest : List Char}, Follows false (separator ++ rest))
    (separates : ∀ {rest : List Char} {more : List Token.Kind}, Spells rest more → Spells (separator ++ rest) (kind :: more))
    (h : List.Forall₂ (Prints false) texts items) :
    Prints false (List.intercalate separator texts) (joined kind items) := by
  cases h with
  | nil => exact prints_nil
  | @cons first item texts items h others =>
      rw [Lexer.intercalate_cons, joined_cons]
      have tail : Prints false (texts.flatMap (separator ++ ·)) (items.flatMap (kind :: ·)) ∧
          ∀ {rest : List Char}, Follows false rest → Follows false (texts.flatMap (separator ++ ·) ++ rest) := by
        clear h
        induction others with
        | nil => exact ⟨prints_nil, fun follows => follows⟩
        | @cons text item texts items next _ ih =>
            rw [List.flatMap_cons, List.flatMap_cons, List.append_assoc]
            have front := prints_append next ih.1 ih.2
            refine ⟨⟨fun spelled follows => ?_, fun _ => ?_⟩, fun _ => ?_⟩
            · have behind := separates (front.spells spelled follows)
              simpa using behind
            · rw [List.append_assoc]
              exact follows_harmless opens
            · rw [List.append_assoc]
              exact opens
      exact prints_append h tail.1 tail.2

theorem prints_list {texts : List (List Char)} {items : List (List Token.Kind)}
    (h : List.Forall₂ (Prints false) texts items) : Prints false (commaList texts) (commaTokens items) := by
  refine prints_joined (fun {_} => follows_cons (by decide)) (fun {rest more} spelled => ?_) h
  exact @Spells.token (.mark .comma) _ _ trivial (fun c head => by cases head; decide) (.blank spelled)

theorem prints_elements {texts : List (List Char)} {items : List (List Token.Kind)}
    (h : List.Forall₂ (Prints false) texts items) : Prints false (spellElements texts) (elementTokens items) := by
  rw [spellElements, elementTokens, h.length_eq]
  split
  · have comma : Prints false [','] [.mark .comma] := @prints_token false (.mark .comma) ',' [] trivial rfl (by decide) (fun no => by cases no)
    exact prints_append (prints_list h) comma fun _ => follows_cons (by decide)
  · rw [List.append_nil, List.append_nil]
    exact prints_list h

theorem forall_map {α : Type} {R : List Char → List Token.Kind → Prop} {f : α → List Char} {g : α → List Token.Kind}
    {items : List α} (h : ∀ item ∈ items, R (f item) (g item)) : List.Forall₂ R (items.map f) (items.map g) := by
  rw [List.forall₂_map_left_iff, List.forall₂_map_right_iff, List.forall₂_same]
  exact h

theorem forall_zip {α : Type} {R : List Char → List Token.Kind → Prop} {f : α → List Char → List Char}
    {g : α → List Token.Kind → List Token.Kind} {items : List α} {texts : List (List Char)} {lists : List (List Token.Kind)}
    (h : List.Forall₂ (Prints false) texts lists)
    (step : ∀ item ∈ items, ∀ text kinds, Prints false text kinds → R (f item text) (g item kinds)) :
    List.Forall₂ R (List.zipWith f items texts) (List.zipWith g items lists) := by
  induction h generalizing items with
  | nil => simp
  | @cons text kinds texts lists first _ ih =>
      cases items with
      | nil => exact .nil
      | cons item items =>
          exact .cons (step item (by simp) text kinds first) (ih fun x member => step x (by simp [member]))

theorem name_cons {id : String} (h : isIdentifier id = true) :
    ∃ c tail, id.toList = c :: tail ∧ c ∉ markTails ∧ c.isDigit = false := by
  simp only [isIdentifier, Bool.and_eq_true] at h
  obtain ⟨c, tail, shape, starts, _⟩ := word_cons h.1.1
  have none : ∀ d ∈ markTails, Text.startsWord d = false := each_char (by decide)
  refine ⟨c, tail, shape, fun member => ?_, ?_⟩
  · rw [none c member] at starts
    cases starts
  · cases digit : c.isDigit with
    | false => rfl
    | true =>
        rw [digit_not_starts digit] at starts
        cases starts

theorem prints_name {id : String} (h : isIdentifier id = true) : Prints dot id.toList [.name id] := by
  obtain ⟨c, tail, shape, plain, _⟩ := name_cons h
  have point : (!Text.continuesWord '.' && !Word.isQuote '.') = true := by decide
  exact @prints_token dot (.name id) c tail h shape plain fun _ => point

theorem prints_named {id : String} (h : isIdentifier id = true) (h' : Prints dot text kinds) :
    Prints dot (id.toList ++ '=' :: text) (.name id :: .mark .equal :: kinds) := by
  have equal : (!Text.continuesWord '=' && !Word.isQuote '=') = true := by decide
  constructor
  · intro rest more spelled follows
    have value := @Spells.token (.mark .equal) _ _ trivial
      (mark_allows (by decide) (h'.harmless (follows_harmless follows))) (h'.spells spelled follows)
    have front := @Spells.token (.name id) _ _ h (fun c head => by cases head; exact equal) value
    rw [List.append_assoc]
    exact front
  · intro rest _
    obtain ⟨c, tail, shape, plain, _⟩ := name_cons h
    rw [shape]
    exact harmless_cons plain

theorem prints_params {params : List String} {texts : List (List Char)} {items : List (List Token.Kind)}
    (identifiers : ∀ id ∈ params, isIdentifier id = true) (h : List.Forall₂ (Prints false) texts items) :
    Prints false (spellParams params texts) (paramTokens params items) := by
  rw [spellParams, paramTokens, h.length_eq]
  refine prints_list (List.rel_append (forall_map fun id member => ?_) (forall_zip h fun id member text kinds printed => ?_))
  · exact prints_name (identifiers id (List.mem_of_mem_take member))
  · exact prints_named (identifiers id (List.mem_of_mem_drop member)) printed

-- Expressions. Behind an operand, a number or a slice a dot would be read as part of it.
def dotAfter (node : Node) : Bool := node.precedence == .atom && !node.isNumber && !node.isSlice

def writable : List Place := [.value, .index, .slice, .target, .single]

theorem prints_some (h : Prints true text kinds) : Prints dot text kinds := by
  cases dot with
  | true => exact h
  | false => exact prints_any h

variable {node : Node}

theorem prints_loose (h : node.precedence ≠ .atom) (h' : Prints false text kinds) :
    Prints (dotAfter node) text kinds := by
  have no : dotAfter node = false := by simp [dotAfter, h]
  rwa [no]

theorem prints_expression (h : Prints (dotAfter node) (spell node) (tokens node)) (level : Precedence) :
    Prints false (expression level node) (tokensAt level node) := by
  rw [expression, tokensAt, protect, guarded]
  split
  · exact prints_any (prints_parenthesized (prints_any h))
  · exact prints_any h

theorem prints_atom (h : Prints (dotAfter node) (spell node) (tokens node)) (number : node.isNumber = false)
    (slice : node.isSlice = false) : Prints true (expression .atom node) (tokensAt .atom node) := by
  rw [expression, tokensAt, protect, guarded]
  split
  · exact prints_parenthesized (prints_any h)
  · rename_i tight
    have atom : node.precedence = .atom := by
      cases level : node.precedence <;> simp_all [Precedence.rank]
    simpa [dotAfter, atom, number, slice] using h

theorem digit_plain {c : Char} (h : c.isDigit = true) : c ∉ markTails := by
  have none : ∀ d ∈ markTails, d.isDigit = false := each_char (by decide)
  intro member
  rw [none c member] at h
  cases h

theorem prints_constant {value : Constant} (h : value.IsWritable) :
    Prints (dotAfter (.constant value)) value.spelling [value.kind] := by
  have word : ∀ w : Keyword, Prints true w.spelling.toList [.keyword w] := by
    intro w
    have point : (!Text.continuesWord '.' && !Word.isQuote '.') = true := by decide
    cases w <;> exact @prints_token true (.keyword _) _ _ trivial rfl (by decide) fun _ => point
  cases value with
  | none => exact word .kwNone
  | bool value =>
      cases value with
      | true => exact word .kwTrue
      | false => exact word .kwFalse
  | int value =>
      obtain ⟨c, tail, shape, digit⟩ := int_cons value
      exact @prints_token false (.int value) c tail h shape (digit_plain digit) fun no => by cases no
  | float value =>
      obtain ⟨c, tail, shape, digit⟩ := float_cons h
      exact @prints_token false (.float value) c tail h shape (digit_plain digit) fun no => by cases no
  | str value =>
      have quote := Quoted.is_quote_for value.toList
      refine @prints_token true (.str value) (Quoted.quoteFor value.toList) _ trivial rfl ?_ fun _ => ?_
      · rcases quote with same | same
        · rw [same]; decide
        · rw [same]; decide
      · rw [Token.Kind.allows]
        rcases quote with same | same
        · rw [same]; decide
        · rw [same]; decide

theorem prints_attr {value : Node} {id : String} (h : Prints (dotAfter value) (spell value) (tokens value))
    (slice : value.isSlice = false) (identifier : isIdentifier id = true) :
    Prints true ((if value.isNumber then parenthesized (spell value) else protect .atom value (spell value)) ++ '.' :: id.toList)
      ((if value.isNumber then enclosed (tokens value) else guarded .atom value (tokens value)) ++ [.mark .dot, .name id]) := by
  have front : Prints true (if value.isNumber then parenthesized (spell value) else protect .atom value (spell value))
      (if value.isNumber then enclosed (tokens value) else guarded .atom value (tokens value)) := by
    cases number : value.isNumber with
    | true => exact prints_parenthesized (prints_any h)
    | false => exact prints_atom h number slice
  have point : Prints true ('.' :: id.toList) [.mark .dot, .name id] := by
    obtain ⟨c, tail, shape, plain, noDigit⟩ := name_cons identifier
    refine ⟨fun spelled follows => ?_, fun _ => harmless_cons (by decide)⟩
    refine @Spells.token (.mark .dot) _ _ trivial (fun d head => ?_) ((prints_name identifier).spells spelled follows)
    rw [shape] at head
    cases head
    simp only [markTails] at plain
    simp only [Token.Kind.allows, noDigit, Bool.and_false, Bool.not_false, Bool.and_true]
    simpa using plain
  refine prints_append front point fun _ => ?_
  intro c head
  cases head
  exact .inr ⟨rfl, rfl⟩

theorem writable_value {place : Place} (h : place = .value) : place ∈ writable := by
  rw [h]
  decide

theorem value_not_slice (h : node.place = .value) : node.isSlice = false := by
  cases node with
  | slice => cases h
  | _ => rfl

theorem prints_unary {op : PrefixOp} (h : Prints false text kinds) :
    Prints false (op.symbol.toList ++ text) (op.kind :: kinds) := by
  cases op with
  | not =>
      refine ⟨fun spelled follows => ?_, fun _ => harmless_cons (by decide)⟩
      exact operates_kind (.keyword .kwNot) trivial _ _ (h.spells spelled follows)
  | invert | uadd | usub => exact prints_mark rfl (by decide) (by decide) h

theorem operates_comparison (op : ComparisonOp) : Operates op.symbol.toList op.kinds := by
  have two : ∀ first second : Keyword, Operates (first.spelling.toList ++ ' ' :: second.spelling.toList)
      [.keyword first, .keyword second] := by
    intro first second rest more spelled
    have front := operates_kind (.keyword first) trivial _ _ (operates_kind (.keyword second) trivial _ _ spelled)
    simpa [Token.Kind.spelling] using front
  cases op with
  | isNot => exact two .kwIs .kwNot
  | notIn => exact two .kwNot .kwIn
  | is => exact operates_kind (.keyword .kwIs) trivial
  | isIn => exact operates_kind (.keyword .kwIn) trivial
  | eq => exact operates_kind (.mark .equalEqual) trivial
  | notEq => exact operates_kind (.mark .notEqual) trivial
  | lt => exact operates_kind (.mark .less) trivial
  | ltE => exact operates_kind (.mark .lessEqual) trivial
  | gt => exact operates_kind (.mark .greater) trivial
  | gtE => exact operates_kind (.mark .greaterEqual) trivial

theorem operates_arithmetic (op : ArithmeticOp) : Operates op.symbol.toList [.mark op.mark] := by
  have same : op.symbol.toList = (Token.Kind.mark op.mark).spelling := by cases op <;> rfl
  rw [same]
  exact operates_kind _ trivial

theorem operates_logical (op : LogicalOp) : Operates op.symbol.toList [.keyword op.word] := by
  have same : op.symbol.toList = (Token.Kind.keyword op.word).spelling := by cases op <;> rfl
  rw [same]
  exact operates_kind _ trivial

theorem logical_loose (op : LogicalOp) : op.precedence ≠ .atom := by cases op <;> decide

theorem arithmetic_loose (op : ArithmeticOp) : op.precedence ≠ .atom := by cases op <;> decide

theorem prefix_loose (op : PrefixOp) : op.precedence ≠ .atom := by cases op <;> decide

theorem prints_colon (h : Prints dot text kinds) : Prints dot (": ".toList ++ text) (.mark .colon :: kinds) := by
  refine ⟨fun spelled follows => ?_, fun _ => harmless_cons (by decide)⟩
  exact operates_kind (.mark .colon) trivial _ _ (h.spells spelled follows)

theorem prints_lambda {params : List String} {texts : List (List Char)} {items : List (List Token.Kind)}
    (identifiers : ∀ id ∈ params, isIdentifier id = true) (h : List.Forall₂ (Prints false) texts items)
    (body : Prints false text kinds) :
    Prints false ("lambda".toList ++ (if params.isEmpty then [] else ' ' :: spellParams params texts) ++
      ": ".toList ++ text) (.keyword .kwLambda :: paramTokens params items ++ .mark .colon :: kinds) := by
  have point : (!Text.continuesWord '.' && !Word.isQuote '.') = true := by decide
  have word : Prints false "lambda".toList [.keyword .kwLambda] :=
    @prints_token false (.keyword .kwLambda) 'l' "ambda".toList trivial rfl (by decide) fun _ => point
  rw [List.append_assoc]
  cases params with
  | nil =>
      have none : paramTokens [] items = [] := by simp [paramTokens, commaTokens, joined]
      rw [none]
      exact prints_append word (prints_colon body) fun _ => follows_cons (by decide)
  | cons id params =>
      have listed := prints_append word (prints_blank (prints_params identifiers h)) fun _ => follows_cons (by decide)
      exact prints_append listed (prints_colon body) fun _ => follows_cons (by decide)

theorem prints_comparisons {ops : List ComparisonOp} {texts : List (List Char)} {items : List (List Token.Kind)}
    (h : List.Forall₂ (Prints false) texts items) :
    Prints false (List.zipWith (fun op text => spaced (ComparisonOp.symbol op) ++ text) ops texts).flatten
      (List.zipWith (fun op kinds => ComparisonOp.kinds op ++ kinds) ops items).flatten ∧
    ∀ {rest : List Char}, Follows false rest → Follows false
      ((List.zipWith (fun op text => spaced (ComparisonOp.symbol op) ++ text) ops texts).flatten ++ rest) := by
  induction h generalizing ops with
  | nil => cases ops <;> exact ⟨prints_nil, fun follows => follows⟩
  | @cons text item texts items first _ ih =>
      cases ops with
      | nil => exact ⟨prints_nil, fun follows => follows⟩
      | cons op ops =>
          simp only [List.zipWith_cons_cons, List.flatten_cons]
          have both := prints_append first (@ih ops).1 (@ih ops).2
          have spelled := prints_spaced prints_nil (operates_comparison op) both
          refine ⟨?_, fun _ => follows_cons (by decide)⟩
          simpa using spelled

theorem prints_entries {keys values : List (List Char)} {keyItems valueItems : List (List Token.Kind)}
    (h : List.Forall₂ (Prints false) keys keyItems) (h' : List.Forall₂ (Prints false) values valueItems) :
    List.Forall₂ (Prints false) (List.zipWith (fun key value => key ++ ": ".toList ++ value) keys values)
      (List.zipWith (fun key value => key ++ .mark .colon :: value) keyItems valueItems) := by
  induction h generalizing values valueItems with
  | nil => exact .nil
  | @cons key keyItem keys keyItems first _ ih =>
      cases h' with
      | nil => exact .nil
      | @cons value valueItem values valueItems second others =>
          have entry := prints_append first (prints_colon second) fun _ => follows_cons (by decide)
          rw [← List.append_assoc] at entry
          exact .cons entry (ih others)

theorem prints_keywords {keywords : List (String × Node)} (identifiers : ∀ keyword ∈ keywords, isIdentifier keyword.1 = true)
    (values : ∀ keyword ∈ keywords, Prints false (expression .test keyword.2) (tokensAt .test keyword.2)) :
    List.Forall₂ (Prints false) (spellKeywords keywords) (tokensKeywords keywords) := by
  induction keywords with
  | nil => exact .nil
  | cons keyword keywords ih =>
      refine .cons (prints_named (identifiers keyword (by simp)) (values keyword (by simp))) (ih ?_ ?_)
      · exact fun other member => identifiers other (by simp [member])
      · exact fun other member => values other (by simp [member])

theorem prints_option {part : Option Node}
    (h : ∀ node ∈ part.toList, Prints false (expression .test node) (tokensAt .test node)) :
    Prints false (spellOption [] part) (tokensOption [] part) ∧
    Prints false (spellOption [':'] part) (tokensOption [.mark .colon] part) ∧
    ∀ {rest : List Char}, Follows false rest → Follows false (spellOption [':'] part ++ rest) := by
  cases part with
  | none => exact ⟨prints_nil, prints_nil, fun follows => follows⟩
  | some node =>
      have printed := h node (by simp)
      exact ⟨printed, prints_mark rfl (by decide) (by decide) printed, fun _ => follows_cons (by decide)⟩

theorem prints_slice {lower upper step : Option Node}
    (h : ∀ node ∈ lower.toList ++ upper.toList ++ step.toList,
      Prints false (expression .test node) (tokensAt .test node)) :
    Prints false (spell (.slice lower upper step)) (tokens (.slice lower upper step)) := by
  have first := @prints_option lower fun node member => h node (by simp_all)
  have second := @prints_option upper fun node member => h node (by simp_all)
  have third := @prints_option step fun node member => h node (by simp_all)
  have colon := @prints_mark _ _ _ .colon ':' rfl (by decide) (by decide) second.1
  have front := prints_append first.1 colon fun _ => follows_cons (by decide)
  exact prints_append front third.2.1 third.2.2

theorem prints_index {index : Node} (whole : Prints (dotAfter index) (spell index) (tokens index))
    (elements : ∀ nodes ctx, index = .tuple nodes ctx →
      List.Forall₂ (Prints false) (spellAll .test nodes) (tokensAll .test nodes)) :
    Prints false (indexText index) (indexTokens index) := by
  cases index with
  | tuple nodes ctx =>
      cases nodes with
      | nil => exact prints_any (prints_parenthesized prints_nil)
      | cons first others => exact prints_elements (elements (first :: others) ctx rfl)
  | _ => exact prints_expression whole .tuple

theorem prints_bracketed (h : Prints false text kinds) :
    Prints true ('[' :: text ++ [']']) (.mark .leftBracket :: kinds ++ [.mark .rightBracket]) :=
  prints_between rfl rfl (by decide) (by decide) (by decide) (by decide) h

theorem prints_braced (h : Prints false text kinds) :
    Prints true ('\x7b' :: text ++ ['\x7d']) (.mark .leftBrace :: kinds ++ [.mark .rightBrace]) :=
  prints_between rfl rfl (by decide) (by decide) (by decide) (by decide) h

theorem all_in_writable {places : List Place} {nodes : List Node} (h : AllIn places nodes)
    (fits : ∀ place ∈ places, place ∈ writable) : AllIn writable nodes :=
  fun child member => fits _ (h child member)

theorem tuple_writable {elements : List Node} {ctx : Context} (h : Shaped (.tuple elements ctx)) :
    AllIn writable elements := by
  cases ctx with
  | load => exact all_in_writable h (by decide)
  | store => exact all_in_writable h (by decide)

-- The induction carries the text of the node as an index along, in which a tuple has no parentheses.
theorem prints_both (node : Node) (shaped : Everywhere Shaped node) (stands : node.place ∈ writable) :
    Prints (dotAfter node) (spell node) (tokens node) ∧ Prints false (indexText node) (indexTokens node) := by
  induction node using node_induction with
  | step node ih =>
  have whole : ∀ child ∈ node.children, child.place ∈ writable →
      Prints (dotAfter child) (spell child) (tokens child) := fun child member fits =>
    (ih child member (shaped.child child member) fits).1
  have part : ∀ child ∈ node.children, child.place = .value → ∀ level,
      Prints false (expression level child) (tokensAt level child) := fun child member value level =>
    prints_expression (whole child member (writable_value value)) level
  have list : ∀ nodes, (∀ child ∈ nodes, child ∈ node.children) → AllIn writable nodes → ∀ level,
      List.Forall₂ (Prints false) (spellAll level nodes) (tokensAll level nodes) := by
    intro nodes below fits level
    rw [spell_all_eq, tokens_all_eq]
    exact forall_map fun child member => prints_expression (whole child (below child member) (fits child member)) level
  have values : ∀ nodes, (∀ child ∈ nodes, child ∈ node.children) → AreValues nodes → ∀ level,
      List.Forall₂ (Prints false) (spellAll level nodes) (tokensAll level nodes) := fun nodes below fits level =>
    list nodes below (all_in_writable fits (by decide)) level
  have here := shaped.here
  suffices printed : Prints (dotAfter node) (spell node) (tokens node) by
    refine ⟨printed, prints_index printed fun elements ctx same => ?_⟩
    subst same
    exact list elements (fun _ member => member) (tuple_writable here) .test
  cases node with
  | boolOp op operands =>
      refine prints_loose (logical_loose op) ?_
      refine prints_joined (fun {_} => follows_cons (by decide)) (operates_spaced (operates_logical op)) ?_
      exact values operands (fun _ member => member) here.2 _
  | binOp left op right =>
      refine prints_loose (arithmetic_loose op) ?_
      exact prints_spaced (part left (by simp [children]) here.1 _) (operates_arithmetic op)
        (part right (by simp [children]) here.2 _)
  | unaryOp op operand =>
      exact prints_loose (prefix_loose op) (prints_unary (part operand (by simp [children]) here _))
  | lambda params defaults body =>
      refine prints_loose (by simp [precedence]) ?_
      exact prints_lambda here.1.identifiers (values defaults (by simp_all [children]) here.1.values .test)
        (part body (by simp [children]) here.2 .test)
  | ifExp test body orelse =>
      refine prints_loose (by simp [precedence]) ?_
      have branch := prints_spaced (part body (by simp [children]) here.2.1 .or)
        (operates_kind (.keyword .kwIf) trivial) (part test (by simp [children]) here.1 .or)
      exact prints_spaced branch (operates_kind (.keyword .kwElse) trivial)
        (part orelse (by simp [children]) here.2.2 .test)
  | dict keys vals =>
      refine prints_some (prints_braced (prints_list (prints_entries ?_ ?_)))
      · exact values keys (by simp_all [children]) here.2.1 .test
      · exact values vals (by simp_all [children]) here.2.2 .test
  | set elements =>
      have listed := prints_braced (prints_list (values elements (fun _ member => member) here.2 .test))
      cases elements with
      | nil => exact absurd rfl here.1
      | cons first others => exact prints_some listed
  | compare left ops comparators =>
      refine prints_loose (by simp [precedence]) ?_
      have others := @prints_comparisons ops _ _ (values comparators (by simp_all [children]) here.2.2.2 .bitOr)
      exact prints_append (part left (by simp [children]) here.2.2.1 .bitOr) others.1 others.2
  | call function args keywords =>
      have positional := values args (by simp_all [children]) here.2.1 .test
      have named := prints_keywords here.2.2.identifiers fun keyword member =>
        part keyword.2 (by simp [children]; exact .inr (.inr ⟨_, member⟩))
          (by simpa using here.2.2.values keyword.2 (List.mem_map_of_mem member)) .test
      have arguments := prints_parenthesized (prints_list (List.rel_append positional named))
      exact prints_some (prints_append (part function (by simp [children]) here.1 .atom) arguments
        fun _ => follows_cons (by decide))
  | constant value => exact prints_constant here
  | attr value id ctx =>
      exact prints_some (prints_attr (whole value (by simp [children]) (writable_value here.1))
        (value_not_slice here.1) here.2)
  | subscript value index ctx =>
      have fits : index.place ∈ writable := by
        have all : ∀ place ∈ indexPlaces, place ∈ writable := by decide
        exact all _ here.2
      have inside := (ih index (by simp [children]) (shaped.child index (by simp [children])) fits).2
      rw [spell_subscript, tokens_subscript, List.append_assoc, List.append_assoc]
      exact prints_some (prints_append (part value (by simp [children]) here.1 .atom) (prints_bracketed inside)
        fun _ => follows_cons (by decide))
  | name id ctx => exact prints_name here
  | list elements ctx =>
      have fits : AllIn writable elements := by
        cases ctx with
        | load => exact all_in_writable here (by decide)
        | store => exact all_in_writable here (by decide)
      exact prints_some (prints_bracketed (prints_list (list elements (fun _ member => member) fits .test)))
  | tuple elements ctx =>
      have listed := list elements (fun _ member => member) (tuple_writable here) .test
      exact prints_some (prints_parenthesized (prints_elements listed))
  | slice lower upper step =>
      exact prints_slice fun child member => part child member (by simpa using here child member) .test
  | program | functionDef | returnStmt | assign | augAssign | forStmt | whileStmt | ifStmt | assertStmt
  | raiseStmt | exprStmt | passStmt | breakStmt | continueStmt => exact absurd stands (by simp [place, writable])

theorem prints_spell (node : Node) (shaped : Everywhere Shaped node) (stands : node.place ∈ writable)
    (level : Precedence) : Prints false (expression level node) (tokensAt level node) :=
  prints_expression (prints_both node shaped stands).1 level

end Mutagen.Node
