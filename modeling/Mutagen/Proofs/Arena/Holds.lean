import Mathlib.Data.List.Forall2
import Mathlib.Data.List.Nodup
import Mutagen.Arena.Basic
import Mutagen.Proofs.SymbolTable

set_option autoImplicit false

namespace Mutagen

def StandFor (name? : Symbol → Option String) (symbols : List Symbol) (names : List String) : Prop :=
  List.Forall₂ (fun symbol name => name? symbol = some name) symbols names

/-- A cell and a node of one form with the same data of their own. What is below them is compared
elsewhere, but for where one list of children ends and the next begins. -/
def Cell.Like (name? : Symbol → Option String) : Cell → Node → Prop
  | .program _, .program _ => True
  | .functionDef id params defaults _, .functionDef id' params' defaults' _ =>
      name? id = some id' ∧ StandFor name? params params' ∧ defaults.length = defaults'.length
  | .returnStmt _, .returnStmt _ => True
  | .assign _ _, .assign _ _ => True
  | .augAssign _ op _, .augAssign _ op' _ => op = op'
  | .forStmt _ _ _, .forStmt _ _ _ => True
  | .whileStmt _ _, .whileStmt _ _ => True
  | .ifStmt _ body _, .ifStmt _ body' _ => body.length = body'.length
  | .assertStmt _ _, .assertStmt _ _ => True
  | .raiseStmt _, .raiseStmt _ => True
  | .exprStmt _, .exprStmt _ => True
  | .passStmt, .passStmt => True
  | .breakStmt, .breakStmt => True
  | .continueStmt, .continueStmt => True
  | .boolOp op _, .boolOp op' _ => op = op'
  | .binOp _ op _, .binOp _ op' _ => op = op'
  | .unaryOp op _, .unaryOp op' _ => op = op'
  | .lambda params _ _, .lambda params' _ _ => StandFor name? params params'
  | .ifExp _ _ _, .ifExp _ _ _ => True
  | .dict keys _, .dict keys' _ => keys.length = keys'.length
  | .set _, .set _ => True
  | .compare _ ops _, .compare _ ops' _ => ops = ops'
  | .call _ args keywords, .call _ args' keywords' =>
      args.length = args'.length ∧ StandFor name? (keywords.map (·.1)) (keywords'.map (·.1))
  | .constant value, .constant value' => value = value'
  | .attr _ id ctx, .attr _ id' ctx' => name? id = some id' ∧ ctx = ctx'
  | .subscript _ _ ctx, .subscript _ _ ctx' => ctx = ctx'
  | .name id ctx, .name id' ctx' => name? id = some id' ∧ ctx = ctx'
  | .list _ ctx, .list _ ctx' => ctx = ctx'
  | .tuple _ ctx, .tuple _ ctx' => ctx = ctx'
  | .slice lower upper _, .slice lower' upper' _ =>
      lower.isSome = lower'.isSome ∧ upper.isSome = upper'.isSome
  | _, _ => False

namespace Arena

/-- The cells `ids` are the roots of the trees `nodes`, and `below` lists every cell at and below them
as often as it is met. -/
inductive Holds (a : Arena) : List NodeId → List Node → List NodeId → Prop where
  | nil : Holds a [] [] []
  | cons {id : NodeId} {cell : Cell} {node : Node} {ids below rest : List NodeId} {nodes : List Node}
      (found : a.cell? id = some cell) (like : cell.Like a.symbols.name? node)
      (under : Holds a cell.children node.children below) (others : Holds a ids nodes rest) :
      Holds a (id :: ids) (node :: nodes) (id :: (below ++ rest))

structure Extends (a b : Arena) : Prop where
  root : b.root = a.root
  cells : ∀ id cell, a.cell? id = some cell → b.cell? id = some cell
  names : ∀ symbol name, a.symbols.name? symbol = some name → b.symbols.name? symbol = some name
  known : ∀ id symbol, a.cells.size ≤ id → b.identifier? id = some symbol → ∃ name, b.symbols.name? symbol = some name

variable {a b c : Arena} {id : NodeId} {ids ids' below rest : List NodeId} {node : Node}
  {nodes nodes' : List Node} {cell : Cell}

theorem text_stands {symbol : Symbol} {name : String} (stands : a.symbols.name? symbol = some name) :
    a.textOf symbol = name := by
  rw [textOf, stands]
  rfl

theorem stand_mono {name? name?' : Symbol → Option String} {symbols : List Symbol} {names : List String}
    (stand : StandFor name? symbols names)
    (grown : ∀ symbol name, name? symbol = some name → name?' symbol = some name) :
    StandFor name?' symbols names :=
  stand.imp fun symbol name => grown symbol name

theorem like_mono {name? name?' : Symbol → Option String} (like : cell.Like name? node)
    (grown : ∀ symbol name, name? symbol = some name → name?' symbol = some name) :
    cell.Like name?' node := by
  cases cell <;> cases node <;> simp only [Cell.Like] at like ⊢ <;>
    first
    | exact like
    | exact ⟨grown _ _ like.1, stand_mono like.2.1 grown, like.2.2⟩
    | exact ⟨grown _ _ like.1, like.2⟩
    | exact ⟨like.1, stand_mono like.2 grown⟩
    | exact stand_mono like grown

-- What is held depends only on the cells that are met, and on the names.
theorem holds_mono (held : Holds a ids nodes below)
    (same : ∀ id ∈ below, ∀ cell, a.cell? id = some cell → b.cell? id = some cell)
    (names : ∀ symbol name, a.symbols.name? symbol = some name → b.symbols.name? symbol = some name) :
    Holds b ids nodes below := by
  induction held with
  | nil => exact .nil
  | cons found like _ _ ih ih' =>
      refine .cons (same _ (List.mem_cons_self ..) _ found) (like_mono like names) ?_ ?_
      · exact ih fun id member => same id (by simp [member])
      · exact ih' fun id member => same id (by simp [member])

theorem holds_length (held : Holds a ids nodes below) : ids.length = nodes.length := by
  induction held with
  | nil => rfl
  | cons _ _ _ _ _ ih => simp [ih]

theorem holds_mem (held : Holds a ids nodes below) (member : id ∈ below) :
    ∃ cell, a.cell? id = some cell := by
  induction held with
  | nil => cases member
  | cons found _ _ _ ih ih' =>
      rcases List.mem_cons.mp member with rfl | further
      · exact ⟨_, found⟩
      · rcases List.mem_append.mp further with under | beside
        · exact ih under
        · exact ih' beside

theorem holds_append (front : Holds a ids nodes below) (back : Holds a ids' nodes' rest) :
    Holds a (ids ++ ids') (nodes ++ nodes') (below ++ rest) := by
  induction front with
  | nil => exact back
  | cons found like under _ _ ih =>
      have further := Holds.cons found like under ih
      rwa [← List.append_assoc] at further

theorem holds_split (held : Holds a (ids ++ ids') nodes below) :
    ∃ front back front' back', nodes = front ++ back ∧ below = front' ++ back' ∧
      Holds a ids front front' ∧ Holds a ids' back back' := by
  induction ids generalizing nodes below with
  | nil => exact ⟨[], nodes, [], below, rfl, rfl, .nil, held⟩
  | cons id ids ih =>
      cases held with
      | cons found like under others =>
          obtain ⟨front, back, front', back', rfl, rfl, held, held'⟩ := ih others
          exact ⟨_ :: front, back, _, back', rfl, by simp, .cons found like under held, held'⟩

theorem cell_size (found : a.cell? id = some cell) : id < a.cells.size :=
  (Array.getElem?_eq_some_iff.mp found).1

theorem cell_inside (inside : id < a.cells.size) : ∃ cell, a.cell? id = some cell :=
  ⟨_, Array.getElem?_eq_getElem inside⟩

theorem identifier_cell {symbol : Symbol} (h : a.identifier? id = some symbol) :
    ∃ ctx, a.cell? id = some (.name symbol ctx) := by
  obtain ⟨cell, found, name⟩ := Option.bind_eq_some_iff.mp h
  cases cell with
  | name other ctx =>
      cases name
      exact ⟨ctx, found⟩
  | _ => cases name

theorem like_known {name? : Symbol → Option String} {symbol : Symbol} (like : cell.Like name? node)
    (used : cell.identifier? = some symbol) : ∃ name, name? symbol = some name := by
  cases cell with
  | name id ctx =>
      cases used
      cases node <;> first | exact ⟨_, like.1⟩ | exact like.elim
  | _ => cases used

theorem extends_refl (a : Arena) : Extends a a := by
  refine ⟨rfl, fun _ _ found => found, fun _ _ found => found, fun id symbol outside used => ?_⟩
  obtain ⟨ctx, found⟩ := identifier_cell used
  exact absurd (cell_size found) (Nat.not_lt.mpr outside)

theorem extends_size (grows : Extends a b) : a.cells.size ≤ b.cells.size := by
  by_contra smaller
  have inside : b.cells.size < a.cells.size := by omega
  obtain ⟨cell, found⟩ := cell_inside inside
  exact Nat.lt_irrefl _ (cell_size (grows.cells _ _ found))

theorem extends_trans (first : Extends a b) (second : Extends b c) : Extends a c := by
  refine ⟨second.root.trans first.root, fun id cell found => second.cells id cell (first.cells id cell found),
    fun symbol name found => second.names symbol name (first.names symbol name found), fun id symbol outside used => ?_⟩
  by_cases between : id < b.cells.size
  · obtain ⟨cell, found⟩ := cell_inside between
    have same : b.identifier? id = some symbol := by
      rw [← used, identifier?, identifier?, found, second.cells id cell found]
    obtain ⟨name, stands⟩ := first.known id symbol outside same
    exact ⟨name, second.names symbol name stands⟩
  · exact second.known id symbol (Nat.le_of_not_lt between) used

theorem cell_alloc_old (found : a.cell? id = some cell) (fresh : Cell) : (a.alloc fresh).2.cell? id = some cell := by
  rw [cell?, alloc, Array.getElem?_push_lt (cell_size found), ← Array.getElem?_eq_getElem (cell_size found)]
  exact found

theorem cell_alloc_new (a : Arena) (fresh : Cell) : (a.alloc fresh).2.cell? a.cells.size = some fresh := by
  simp [cell?, alloc]

theorem extends_alloc {fresh : Cell}
    (known : ∀ symbol, fresh.identifier? = some symbol → ∃ name, a.symbols.name? symbol = some name) :
    Extends a (a.alloc fresh).2 := by
  refine ⟨rfl, fun _ _ found => cell_alloc_old found fresh, fun _ _ found => found, fun id symbol outside used => ?_⟩
  obtain ⟨ctx, found⟩ := identifier_cell used
  have size : id < a.cells.size + 1 := by simpa [alloc] using cell_size found
  obtain rfl : id = a.cells.size := Nat.le_antisymm (Nat.le_of_lt_succ size) outside
  rw [identifier?, cell_alloc_new, Option.bind_some] at used
  exact known symbol used

theorem extends_intern (a : Arena) (name : String) : Extends a (a.intern name).2 :=
  ⟨rfl, fun _ _ found => found, fun _ _ found => SymbolTable.intern_grows found, fun id symbol outside used => by
    obtain ⟨ctx, found⟩ := identifier_cell used
    exact absurd (cell_size found) (Nat.not_lt.mpr outside)⟩

theorem holds_known (held : Holds a ids nodes below) (member : id ∈ below) {symbol : Symbol}
    (used : a.identifier? id = some symbol) : ∃ name, a.symbols.name? symbol = some name := by
  induction held with
  | nil => cases member
  | cons found like _ _ ih ih' =>
      rcases List.mem_cons.mp member with rfl | further
      · rw [identifier?, found, Option.bind_some] at used
        exact like_known like used
      · rcases List.mem_append.mp further with under | beside
        · exact ih under
        · exact ih' beside

/-- From `a` to `b`, cells were added that hold these trees, and no cell is met twice in them. -/
structure Grown (a b : Arena) (ids : List NodeId) (nodes : List Node) : Prop where
  grows : Extends a b
  held : ∃ below, Holds b ids nodes below ∧ below.Nodup ∧ ∀ id ∈ below, a.cells.size ≤ id

theorem grown_refl (a : Arena) : Grown a a [] [] :=
  ⟨extends_refl a, [], .nil, List.nodup_nil, fun _ member => nomatch member⟩

theorem grown_length (grown : Grown a b ids nodes) : ids.length = nodes.length := by
  obtain ⟨below, held, _⟩ := grown.held
  exact holds_length held

theorem grown_extend (grown : Grown a b ids nodes) (grows : Extends b c) : Grown a c ids nodes := by
  obtain ⟨below, held, distinct, fresh⟩ := grown.held
  exact ⟨extends_trans grown.grows grows, below, holds_mono held (fun id _ => grows.cells id) grows.names, distinct, fresh⟩

theorem grown_append (front : Grown a b ids nodes) (back : Grown b c ids' nodes') :
    Grown a c (ids ++ ids') (nodes ++ nodes') := by
  obtain ⟨below, held, distinct, fresh⟩ := front.held
  obtain ⟨rest, held', distinct', fresh'⟩ := back.held
  refine ⟨extends_trans front.grows back.grows, below ++ rest,
    holds_append (holds_mono held (fun id _ => back.grows.cells id) back.grows.names) held', ?_, ?_⟩
  · refine List.nodup_append.mpr ⟨distinct, distinct', fun id inFront id' inBack => ?_⟩
    obtain ⟨cell, found⟩ := holds_mem held inFront
    exact Nat.ne_of_lt (Nat.lt_of_lt_of_le (cell_size found) (fresh' id' inBack))
  · intro id member
    rcases List.mem_append.mp member with inFront | inBack
    · exact fresh id inFront
    · exact Nat.le_trans (extends_size front.grows) (fresh' id inBack)

theorem grown_alloc (grown : Grown a b cell.children node.children) (like : cell.Like b.symbols.name? node) :
    Grown a (b.alloc cell).2 [(b.alloc cell).1] [node] := by
  obtain ⟨below, held, distinct, fresh⟩ := grown.held
  have grows := extends_alloc fun symbol => like_known like
  have under := holds_mono held (fun id _ => grows.cells id) grows.names
  refine ⟨extends_trans grown.grows grows, b.cells.size :: (below ++ []), ?_, ?_, ?_⟩
  · exact .cons (cell_alloc_new b cell) (like_mono like grows.names) under .nil
  · rw [List.append_nil]
    refine List.nodup_cons.mpr ⟨fun member => ?_, distinct⟩
    obtain ⟨old, found⟩ := holds_mem held member
    exact Nat.lt_irrefl _ (cell_size found)
  · rw [List.append_nil]
    intro id member
    rcases List.mem_cons.mp member with rfl | further
    · exact extends_size grown.grows
    · exact fresh id further

theorem holds_swap {is js ks ls : List NodeId} {ns ms os ps : List Node} (length : is.length = ns.length)
    (length' : js.length = ms.length) (length'' : ks.length = os.length)
    (held : Holds a (is ++ (js ++ (ks ++ ls))) (ns ++ (ms ++ (os ++ ps))) below) :
    ∃ below', Holds a (is ++ (ks ++ (js ++ ls))) (ns ++ (os ++ (ms ++ ps))) below' ∧ below'.Perm below := by
  obtain ⟨_, _, first, _, same, rfl, heldFirst, held⟩ := holds_split held
  obtain ⟨rfl, rfl⟩ := List.append_inj same (length.symm.trans (holds_length heldFirst))
  obtain ⟨_, _, second, _, same, rfl, heldSecond, held⟩ := holds_split held
  obtain ⟨rfl, rfl⟩ := List.append_inj same (length'.symm.trans (holds_length heldSecond))
  obtain ⟨_, _, third, fourth, same, rfl, heldThird, held⟩ := holds_split held
  obtain ⟨rfl, rfl⟩ := List.append_inj same (length''.symm.trans (holds_length heldThird))
  refine ⟨first ++ (third ++ (second ++ fourth)),
    holds_append heldFirst (holds_append heldThird (holds_append heldSecond held)), ?_⟩
  apply List.Perm.append_left
  rw [← List.append_assoc, ← List.append_assoc]
  exact List.perm_append_comm.append_right fourth

theorem grown_swap {is js ks ls : List NodeId} {ns ms os ps : List Node} (length : is.length = ns.length)
    (length' : js.length = ms.length) (length'' : ks.length = os.length)
    (grown : Grown a b (is ++ (js ++ (ks ++ ls))) (ns ++ (ms ++ (os ++ ps)))) :
    Grown a b (is ++ (ks ++ (js ++ ls))) (ns ++ (os ++ (ms ++ ps))) := by
  obtain ⟨below, held, distinct, fresh⟩ := grown.held
  obtain ⟨below', held', moved⟩ := holds_swap length length' length'' held
  exact ⟨grown.grows, below', held', moved.nodup_iff.mpr distinct, fun id member => fresh id (moved.mem_iff.mp member)⟩

def Rooted (a : Arena) (root : Node) : Prop := ∃ below, a.Holds [a.root] [root] below ∧ below.Nodup

/-- Every identifier of a cell is in the table, also that of a cell which is no longer below the root. -/
def Known (a : Arena) : Prop :=
  ∀ id symbol, a.identifier? id = some symbol → ∃ name, a.symbols.name? symbol = some name

end Arena

end Mutagen
