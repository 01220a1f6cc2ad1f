import Mutagen.Node.Dump
import Mutagen.Proofs.Token.Line

set_option autoImplicit false

namespace Mutagen

theorem split_unique {p : Char → Bool} {front front' back back' : List Char} (all : ∀ c ∈ front, p c = true)
    (all' : ∀ c ∈ front', p c = true) (stops : ∀ c, back.head? = some c → p c = false)
    (stops' : ∀ c, back'.head? = some c → p c = false) (same : front ++ back = front' ++ back') :
    front = front' ∧ back = back' := by
  have taken := congrArg (List.takeWhile p) same
  rw [List.takeWhile_append_of_pos all, List.takeWhile_append_of_pos all', (take_while_end stops).1,
    (take_while_end stops').1, List.append_nil, List.append_nil] at taken
  rw [taken] at same
  exact ⟨taken, List.append_cancel_left same⟩

namespace Node

def fieldEnds : List Char := [',', ')', ']']

def EndsField (rest : List Char) : Prop := ∃ c tail, rest = c :: tail ∧ c ∈ fieldEnds

def Tells (text other : List Char) (same : Prop) : Prop :=
  ∀ rest rest', EndsField rest → EndsField rest' → text ++ rest = other ++ rest' → same ∧ rest = rest'

theorem tells_imp {text other : List Char} {P Q : Prop} (h : Tells text other P) (step : P → Q) :
    Tells text other Q := by
  intro rest rest' closes closes' same
  obtain ⟨holds, ends⟩ := h rest rest' closes closes' same
  exact ⟨step holds, ends⟩

theorem tells_of_apart {text other : List Char} {P : Prop}
    (apart : ∀ rest rest', EndsField rest → EndsField rest' → text ++ rest ≠ other ++ rest') : Tells text other P :=
  fun rest rest' closes closes' same => absurd same (apart rest rest' closes closes')

theorem ends_field_stops {p : Char → Bool} (all : ∀ c ∈ fieldEnds, p c = false) {rest : List Char}
    (h : EndsField rest) (c : Char) (head : rest.head? = some c) : p c = false := by
  obtain ⟨d, tail, rfl, member⟩ := h
  cases head
  exact all c member

theorem ends_field_behind (items : List (List Char)) {close : Char} (rest : List Char) (h : close ∈ fieldEnds) :
    EndsField (items.flatMap (", ".toList ++ ·) ++ close :: rest) := by
  cases items with
  | nil => exact ⟨close, rest, rfl, h⟩
  | cons item others => exact ⟨',', _, rfl, by decide⟩

section
variable {α : Type} {write : α → List Char}

theorem rest_tells (xs ys : List α) (each : ∀ x ∈ xs, ∀ y ∈ ys, Tells (write x) (write y) (x = y))
    {rest rest' : List Char}
    (same : (xs.map write).flatMap (", ".toList ++ ·) ++ ']' :: rest =
      (ys.map write).flatMap (", ".toList ++ ·) ++ ']' :: rest') : xs = ys ∧ rest = rest' := by
  induction xs generalizing ys with
  | nil =>
      cases ys with
      | nil =>
          cases same
          exact ⟨rfl, rfl⟩
      | cons y others => cases same
  | cons x xs ih =>
      cases ys with
      | nil => cases same
      | cons y ys =>
          simp only [List.map_cons, List.flatMap_cons, List.append_assoc] at same
          have items := List.append_cancel_left same
          obtain ⟨first, behind⟩ := each x (by simp) y (by simp) _ _ (ends_field_behind _ rest (by decide))
            (ends_field_behind _ rest' (by decide)) items
          obtain ⟨others, ends⟩ := ih ys (fun a ha b hb => each a (by simp [ha]) b (by simp [hb])) behind
          exact ⟨by rw [first, others], ends⟩

theorem bracketed_cons (first : List Char) (others : List (List Char)) (rest : List Char) :
    bracketed (first :: others) ++ rest =
      '[' :: (first ++ (others.flatMap (", ".toList ++ ·) ++ ']' :: rest)) := by
  simp only [bracketed, Lexer.intercalate_cons, List.cons_append, List.append_assoc, List.nil_append]

theorem items_tell {xs ys : List α} (opens : ∀ x rest, ¬ EndsField (write x ++ rest))
    (each : ∀ x ∈ xs, ∀ y ∈ ys, Tells (write x) (write y) (x = y)) :
    Tells (bracketed (xs.map write)) (bracketed (ys.map write)) (xs = ys) := by
  intro rest rest' _ _ same
  cases xs with
  | nil =>
      cases ys with
      | nil =>
          cases same
          exact ⟨rfl, rfl⟩
      | cons y ys =>
          rw [List.map_cons, bracketed_cons] at same
          injection same with _ same
          exact absurd ⟨']', rest, same.symm, by decide⟩ (opens y _)
  | cons x xs =>
      cases ys with
      | nil =>
          rw [List.map_cons, bracketed_cons] at same
          injection same with _ same
          exact absurd ⟨']', rest', same, by decide⟩ (opens x _)
      | cons y ys =>
          rw [List.map_cons, List.map_cons, bracketed_cons, bracketed_cons] at same
          injection same with _ same
          obtain ⟨first, behind⟩ := each x (by simp) y (by simp) _ _ (ends_field_behind _ rest (by decide))
            (ends_field_behind _ rest' (by decide)) same
          obtain ⟨others, ends⟩ := rest_tells xs ys (fun a ha b hb => each a (by simp [ha]) b (by simp [hb])) behind
          exact ⟨by rw [first, others], ends⟩

end

def IsLabel (label : String) : Prop := label.toList.all Char.isAlpha = true

inductive Told : List (String × List Char) → List (String × List Char) → Prop → Prop where
  | nil : Told [] [] True
  | cons {key : String} {text other : List Char} {fields others : List (String × List Char)} {P Q : Prop}
      (first : Tells text other P) (rest : Told fields others Q) :
      Told ((key, text) :: fields) ((key, other) :: others) (P ∧ Q)

def entry (field : String × List Char) : List Char := field.1.toList ++ '=' :: field.2

theorem record_eq (label : String) (fields : List (String × List Char)) (rest : List Char) :
    record label fields ++ rest =
      label.toList ++ '(' :: (List.intercalate ", ".toList (fields.map entry) ++ ')' :: rest) := by
  have joined : record label fields =
      label.toList ++ '(' :: List.intercalate ", ".toList (fields.map entry) ++ [')'] := rfl
  rw [joined]
  simp only [List.append_assoc, List.cons_append, List.nil_append]

theorem paren_stops {rest : List Char} (c : Char) (head : ('(' :: rest).head? = some c) : c.isAlpha = false := by
  cases head
  rfl

theorem record_label {label label' : String} (letters : IsLabel label) (letters' : IsLabel label')
    {fields fields' : List (String × List Char)} {rest rest' : List Char}
    (same : record label fields ++ rest = record label' fields' ++ rest') : label = label' := by
  rw [record_eq, record_eq] at same
  have split := split_unique (List.all_eq_true.mp letters) (List.all_eq_true.mp letters') paren_stops paren_stops same
  exact String.toList_inj.mp split.1

theorem record_opens {label : String} (letters : IsLabel label) (fields : List (String × List Char))
    (rest : List Char) : ¬ EndsField (record label fields ++ rest) := by
  rintro ⟨c, tail, text, closes⟩
  have closed : c.isAlpha = false ∧ c ≠ '(' := by
    have all : ∀ c ∈ fieldEnds, c.isAlpha = false ∧ c ≠ '(' := each_char (by decide)
    exact all c closes
  rw [record_eq] at text
  rw [IsLabel] at letters
  cases first : label.toList with
  | nil =>
      rw [first] at text
      injection text with head
      exact closed.2 head.symm
  | cons d others =>
      rw [first] at text letters
      injection text with head
      rw [List.all_cons, head, closed.1] at letters
      cases letters

theorem fields_tell {fields fields' : List (String × List Char)} {P : Prop} (h : Told fields fields' P)
    {rest rest' : List Char}
    (same : (fields.map entry).flatMap (", ".toList ++ ·) ++ ')' :: rest =
      (fields'.map entry).flatMap (", ".toList ++ ·) ++ ')' :: rest') : P ∧ rest = rest' := by
  induction h with
  | nil =>
      cases same
      exact ⟨trivial, rfl⟩
  | cons first _ ih =>
      simp only [List.map_cons, List.flatMap_cons, entry, List.append_assoc, List.cons_append] at same
      have value := List.append_cancel_left (List.append_cancel_left same)
      injection value with _ value
      obtain ⟨told, behind⟩ := first _ _ (ends_field_behind _ rest (by decide)) (ends_field_behind _ rest' (by decide)) value
      obtain ⟨others, ends⟩ := ih behind
      exact ⟨⟨told, others⟩, ends⟩

theorem record_tells (label : String) {fields fields' : List (String × List Char)} {P : Prop}
    (h : Told fields fields' P) : Tells (record label fields) (record label fields') P := by
  intro rest rest' _ _ same
  rw [record_eq, record_eq] at same
  have inner := List.append_cancel_left same
  injection inner with _ inner
  cases h with
  | nil =>
      cases inner
      exact ⟨trivial, rfl⟩
  | cons first others =>
      simp only [List.map_cons, Lexer.intercalate_cons, entry, List.append_assoc, List.cons_append] at inner
      have value := List.append_cancel_left inner
      injection value with _ value
      obtain ⟨told, behind⟩ := first _ _ (ends_field_behind _ rest (by decide)) (ends_field_behind _ rest' (by decide)) value
      obtain ⟨more, ends⟩ := fields_tell others behind
      exact ⟨⟨told, more⟩, ends⟩

theorem named_tells {α : Type} {name : α → String} (letters : ∀ a, IsLabel (name a))
    (injective : ∀ a b, name a = name b → a = b) (a b : α) :
    Tells (record (name a) []) (record (name b) []) (a = b) := by
  intro rest rest' closes closes' same
  obtain rfl := injective a b (record_label (letters a) (letters b) same)
  exact ⟨rfl, List.append_cancel_left same⟩

theorem quoted_tells (text other : List Char) :
    Tells (Quoted.encode text) (Quoted.encode other) (text = other) := by
  intro rest rest' closes closes' same
  have quotes : Quoted.quoteFor text = Quoted.quoteFor other := by
    simp only [Quoted.encode, List.cons_append, List.cons.injEq] at same
    exact same.1
  have noQuote (text rest : List Char) (closes : EndsField rest) : rest.head? ≠ some (Quoted.quoteFor text) := by
    obtain ⟨c, tail, rfl, member⟩ := closes
    rintro head
    cases head
    rcases Quoted.is_quote_for text with quote | quote <;> rw [quote] at member <;> exact absurd member (by decide)
  have first := Quoted.read_encode text rest (noQuote text rest closes)
  have second := Quoted.read_encode other rest' (noQuote other rest' closes')
  rw [quotes, same, second] at first
  cases first
  exact ⟨rfl, rfl⟩

theorem name_tells (id id' : String) : Tells (quotedName id) (quotedName id') (id = id') :=
  tells_imp (quoted_tells id.toList id'.toList) String.toList_inj.mp

end Node

end Mutagen
