import Mathlib.Data.Finset.Card
import Mathlib.Data.Finset.Dedup
import Mathlib.Data.List.Induction
import Mathlib.Data.List.Nodup
import Std.Data.HashMap.Lemmas
import Mutagen.SymbolTable

set_option autoImplicit false

namespace Mutagen.SymbolTable

def Inverse (table : SymbolTable) : Prop :=
  ∀ name number, table.lookup name = some number ↔ table.name? number = some name

theorem inverse_new : Inverse {} := by
  intro name number
  simp [lookup, name?]

theorem inverse_insert {table : SymbolTable} {name : String} (inverse : table.Inverse)
    (fresh : table.lookup name = none) : (table.insert name).2.Inverse := by
  intro other number
  simp only [lookup, name?, insert, Std.HashMap.getElem?_insert, Array.getElem?_push, beq_iff_eq]
  by_cases last : number = table.names.size
  · rw [if_pos last, last]
    by_cases same : name = other
    · simp [same]
    · rw [if_neg same]
      have outside : table.numbers[other]? ≠ some table.names.size := by
        intro found
        have stored := (inverse other table.names.size).mp found
        simp [name?] at stored
      simpa [same] using outside
  · rw [if_neg last]
    by_cases same : name = other
    · have missing : table.names[number]? ≠ some name := by
        intro stored
        rw [(inverse name number).mpr stored] at fresh
        exact Option.some_ne_none number fresh
      rw [if_pos same, ← same]
      simpa [missing] using Ne.symm last
    · rw [if_neg same]
      exact inverse other number

theorem inverse_intern {table : SymbolTable} (inverse : table.Inverse) (name : String) :
    (table.intern name).2.Inverse := by
  cases found : table.lookup name with
  | some number => rwa [intern, found]
  | none =>
      rw [intern, found]
      exact inverse_insert inverse found

theorem of_names_snoc (names : List String) (name : String) :
    ofNames (names ++ [name]) = ((ofNames names).intern name).2 :=
  List.foldl_append

theorem inverse_of_names (names : List String) : (ofNames names).Inverse := by
  induction names using List.reverseRecOn with
  | nil => exact inverse_new
  | append_singleton names name ih =>
      rw [of_names_snoc]
      exact inverse_intern ih name

theorem inverse_nodup {table : SymbolTable} (inverse : table.Inverse) : table.names.toList.Nodup := by
  rw [List.nodup_iff_injective_get]
  intro i j same
  have number (k : Fin table.names.toList.length) :
      table.lookup (table.names.toList.get k) = some k.val := by
    rw [inverse, name?, ← Array.getElem?_toList]
    exact List.getElem?_eq_getElem k.isLt
  exact Fin.ext (Option.some_injective _ ((number i).symm.trans (same ▸ number j)))

-- Numbers may be compared in place of the names that they stand for.
theorem inverse_agree {table : SymbolTable} (inverse : table.Inverse) {number number' : Nat} {name name' : String}
    (here : table.name? number = some name) (here' : table.name? number' = some name') : number = number' ↔ name = name' := by
  constructor
  · rintro rfl
    exact Option.some_injective _ (here.symm.trans here')
  · rintro rfl
    exact Option.some_injective _ (((inverse _ _).mpr here).symm.trans ((inverse _ _).mpr here'))

theorem lookup_none_iff {table : SymbolTable} (inverse : table.Inverse) {name : String} :
    table.lookup name = none ↔ name ∉ table.names.toList := by
  simp only [Option.eq_none_iff_forall_ne_some, ne_eq, inverse name, name?, List.mem_iff_getElem?,
    Array.getElem?_toList, not_exists]

theorem intern_known {table : SymbolTable} (inverse : table.Inverse) {name : String}
    (known : name ∈ table.names.toList) : (table.intern name).2 = table := by
  cases found : table.lookup name with
  | none => exact absurd known ((lookup_none_iff inverse).mp found)
  | some number => rw [intern, found]

theorem intern_fresh {table : SymbolTable} (inverse : table.Inverse) {name : String}
    (fresh : name ∉ table.names.toList) :
    (table.intern name).2.names.toList = table.names.toList ++ [name] := by
  rw [intern, (lookup_none_iff inverse).mpr fresh]
  exact Array.toList_push

theorem erase_dups_known {names : List String} {name : String} (known : name ∈ names) :
    (names ++ [name]).eraseDups = names.eraseDups := by
  rw [List.eraseDups_append]
  simp [List.removeAll, known]

theorem erase_dups_fresh {names : List String} {name : String} (fresh : name ∉ names) :
    (names ++ [name]).eraseDups = names.eraseDups ++ [name] := by
  rw [List.eraseDups_append]
  simp [List.removeAll, fresh, List.eraseDups_cons]

theorem of_names_eq (names : List String) : (ofNames names).names.toList = names.eraseDups := by
  induction names using List.reverseRecOn with
  | nil => rfl
  | append_singleton names name ih =>
      rw [of_names_snoc]
      by_cases known : name ∈ names
      · have stored : name ∈ (ofNames names).names.toList := by
          rw [ih]
          exact List.mem_eraseDups.mpr known
        rw [intern_known (inverse_of_names names) stored, ih, erase_dups_known known]
      · have missing : name ∉ (ofNames names).names.toList := by
          rw [ih]
          exact fun member => known (List.mem_eraseDups.mp member)
        rw [intern_fresh (inverse_of_names names) missing, ih, erase_dups_fresh known]

-- A table only grows at its end.
theorem intern_grows {table : SymbolTable} {name other : String} {number : Nat}
    (stored : table.name? number = some other) :
    (table.intern name).2.name? number = some other := by
  cases found : table.lookup name with
  | some known => rwa [intern, found]
  | none =>
      obtain ⟨inside, same⟩ := Array.getElem?_eq_some_iff.mp stored
      simp only [intern, found, insert, name?]
      rw [Array.getElem?_push_lt inside, same]

theorem intern_stores {table : SymbolTable} (inverse : table.Inverse) (name : String) :
    (table.intern name).2.name? (table.intern name).1 = some name := by
  cases found : table.lookup name with
  | none => simp [intern, found, insert, name?]
  | some number =>
      rw [intern, found]
      exact (inverse name number).mp found

inductive Call where
  | intern (name : String)
  | lookup (name : String)
  | nameOf (number : Nat)

def step (table : SymbolTable) : Call → SymbolTable
  | .intern name => (table.intern name).2
  | .lookup _ | .nameOf _ => table

def after (calls : List Call) : SymbolTable := calls.foldl step {}

def Call.interns? : Call → Option String
  | .intern name => some name
  | _ => none

def interned (calls : List Call) : List String := calls.filterMap Call.interns?

variable {calls : List Call} {name name' : String} {number number' : Nat}

theorem inverse_step {table : SymbolTable} (inverse : table.Inverse) (call : Call) : (table.step call).Inverse := by
  cases call with
  | intern name => exact inverse_intern inverse name
  | lookup | nameOf => exact inverse

theorem after_snoc (calls : List Call) (call : Call) : after (calls ++ [call]) = (after calls).step call :=
  List.foldl_append

theorem inverse_after (calls : List Call) : (after calls).Inverse := by
  induction calls using List.reverseRecOn with
  | nil => exact inverse_new
  | append_singleton calls call ih =>
      rw [after_snoc]
      exact inverse_step ih call

theorem interned_append (front back : List Call) : interned (front ++ back) = interned front ++ interned back :=
  List.filterMap_append

theorem after_eq (calls : List Call) : after calls = ofNames (interned calls) := by
  induction calls using List.reverseRecOn with
  | nil => rfl
  | append_singleton calls call ih =>
      rw [after_snoc, ih, interned_append]
      cases call with
      | intern name => exact (of_names_snoc _ name).symm
      | lookup | nameOf => exact congrArg ofNames (List.append_nil _).symm

-- One of the calls asked to intern `name`, and the answer was `number`.
def Given (calls : List Call) (name : String) (number : Nat) : Prop :=
  ∃ front back, calls = front ++ .intern name :: back ∧ ((after front).intern name).1 = number

theorem after_grows {front : List Call} (stored : (after front).name? number = some name) (back : List Call) :
    (after (front ++ back)).name? number = some name := by
  induction back using List.reverseRecOn with
  | nil => rwa [List.append_nil]
  | append_singleton back call ih =>
      rw [← List.append_assoc, after_snoc]
      cases call with
      | intern => exact intern_grows ih
      | lookup | nameOf => exact ih

theorem given_stored (given : Given calls name number) : (after calls).name? number = some name := by
  obtain ⟨front, back, rfl, rfl⟩ := given
  have stored : (after (front ++ [.intern name])).name? ((after front).intern name).1 = some name := by
    rw [after_snoc]
    exact intern_stores (inverse_after front) name
  have further := after_grows stored back
  rwa [List.append_assoc] at further

theorem given_exists : name ∈ interned calls ↔ ∃ number, Given calls name number := by
  constructor
  · intro asked
    obtain ⟨call, member, interns⟩ := List.mem_filterMap.mp asked
    obtain ⟨front, back, rfl⟩ := List.append_of_mem member
    cases call with
    | intern =>
        cases interns
        exact ⟨_, front, back, rfl, rfl⟩
    | lookup | nameOf => cases interns
  · rintro ⟨_, front, back, rfl, _⟩
    exact List.mem_filterMap.mpr ⟨.intern name, by simp, rfl⟩

theorem lookup_given_iff : (after calls).lookup name = some number ↔ Given calls name number := by
  constructor
  · intro found
    have stored := (inverse_after calls name number).mp found
    have asked : name ∈ interned calls := by
      rw [← List.mem_eraseDups, ← of_names_eq, ← after_eq, Array.mem_toList_iff]
      exact Array.mem_of_getElem? stored
    obtain ⟨other, given⟩ := given_exists.mp asked
    have again := (inverse_after calls name other).mpr (given_stored given)
    rw [Option.some_injective _ (found.symm.trans again)]
    exact given
  · intro given
    exact (inverse_after calls name number).mpr (given_stored given)

theorem given_agree (given : Given calls name number) (given' : Given calls name' number') :
    number = number' ↔ name = name' :=
  inverse_agree (inverse_after calls) (given_stored given) (given_stored given')

/-- Texts and numbers stand for each other, in the vector and in the map. A number that was given for a text is still the
text's after any further calls, since those that gave it are among all the calls. -/
structure NumbersExact (calls : List Call) : Prop where
  stored : (after calls).names.toList = (interned calls).eraseDups
  size : (after calls).size = (interned calls).toFinset.card
  asked : ∀ name, name ∈ interned calls ↔ ∃ number, Given calls name number
  read_back : ∀ name number, Given calls name number → (after calls).name? number = some name
  found : ∀ name number, (after calls).lookup name = some number ↔ Given calls name number
  inverse : ∀ name number, (after calls).lookup name = some number ↔ (after calls).name? number = some name
  agree : ∀ name name' number number', Given calls name number → Given calls name' number' →
    (number = number' ↔ name = name')

/-- After any calls, the texts and the numbers of a table stand for each other. -/
theorem numbers_exact (calls : List Call) : NumbersExact calls := by
  have stored : (after calls).names.toList = (interned calls).eraseDups := by rw [after_eq, of_names_eq]
  refine ⟨stored, ?_, fun _ => given_exists, fun _ _ => given_stored, fun _ _ => lookup_given_iff, inverse_after calls,
    fun _ _ _ _ => given_agree⟩
  have same : (interned calls).eraseDups.toFinset = (interned calls).toFinset := by
    ext name
    simp [List.mem_eraseDups]
  have distinct : (interned calls).eraseDups.Nodup := stored ▸ inverse_nodup (inverse_after calls)
  rw [size, ← Array.length_toList, stored, ← same, List.toFinset_card_of_nodup distinct]

end Mutagen.SymbolTable
