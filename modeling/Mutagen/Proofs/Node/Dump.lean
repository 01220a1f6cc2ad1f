import Mutagen.Proofs.Node.Constants

set_option autoImplicit false

namespace Mutagen

theorem logical_tells (op op' : LogicalOp) : Node.Tells (Node.opField op.name) (Node.opField op'.name) (op = op') :=
  Node.named_tells (fun op => by cases op <;> rfl) (fun op op' same => by revert same; cases op <;> cases op' <;> decide)
    op op'

theorem arithmetic_tells (op op' : ArithmeticOp) :
    Node.Tells (Node.opField op.name) (Node.opField op'.name) (op = op') :=
  Node.named_tells (fun op => by cases op <;> rfl) (fun op op' same => by revert same; cases op <;> cases op' <;> decide)
    op op'

theorem prefix_tells (op op' : PrefixOp) : Node.Tells (Node.opField op.name) (Node.opField op'.name) (op = op') :=
  Node.named_tells (fun op => by cases op <;> rfl) (fun op op' same => by revert same; cases op <;> cases op' <;> decide)
    op op'

theorem comparison_tells (op op' : ComparisonOp) :
    Node.Tells (Node.opField op.name) (Node.opField op'.name) (op = op') :=
  Node.named_tells (fun op => by cases op <;> rfl) (fun op op' same => by revert same; cases op <;> cases op' <;> decide)
    op op'

theorem context_tells (ctx ctx' : Context) :
    Node.Tells (Node.record ctx.name []) (Node.record ctx'.name []) (ctx = ctx') :=
  Node.named_tells (fun ctx => by cases ctx <;> rfl)
    (fun ctx ctx' same => by revert same; cases ctx <;> cases ctx' <;> decide) ctx ctx'

namespace Node

def OwnText : Node → Prop
  | .constant value => value.HasOwnText
  | _ => True

theorem dump_record (node : Node) : ∃ fields, dump node = record node.label fields := by
  cases node <;> exact ⟨_, rfl⟩

theorem label_letters (node : Node) : IsLabel node.label := by
  cases node <;> rw [IsLabel, label] <;> rfl

theorem dump_opens (node : Node) (rest : List Char) : ¬ EndsField (dump node ++ rest) := by
  obtain ⟨fields, form⟩ := dump_record node
  rw [form]
  exact record_opens (label_letters node) fields rest

def AllTold (nodes others : List Node) : Prop :=
  ∀ node ∈ nodes, ∀ other ∈ others, Tells (dump node) (dump other) (node = other)

theorem told_part {nodes others part part' : List Node} (h : AllTold nodes others) (inside : part ⊆ nodes)
    (inside' : part' ⊆ others) : AllTold part part' :=
  fun node member other member' => h node (inside member) other (inside' member')

theorem nodes_tell {nodes others : List Node} (h : AllTold nodes others) :
    Tells (bracketed (dumpAll nodes)) (bracketed (dumpAll others)) (nodes = others) := by
  rw [dump_all_eq, dump_all_eq]
  exact items_tell dump_opens h

theorem none_apart_node (node : Node) {rest rest' : List Char} (ends : EndsField rest) :
    "None".toList ++ rest ≠ dump node ++ rest' := by
  obtain ⟨fields, form⟩ := dump_record node
  rw [form, record_eq]
  intro same
  have noLetter : ∀ c ∈ fieldEnds, c.isAlpha = false := each_char (by decide)
  have letters : ∀ c ∈ "None".toList, c.isAlpha = true := each_char (by decide)
  have stops := ends_field_stops noLetter ends
  have parts := split_unique letters (List.all_eq_true.mp (label_letters node)) stops paren_stops same
  obtain ⟨c, tail, rfl, member⟩ := ends
  injection parts.2 with head
  rw [head] at member
  exact absurd member (by decide)

theorem option_tells {node other : Option Node} (h : AllTold node.toList other.toList) :
    Tells (dumpOption node) (dumpOption other) (node = other) := by
  cases node with
  | none =>
      cases other with
      | none => exact fun rest rest' _ _ same => ⟨rfl, List.append_cancel_left same⟩
      | some other => exact tells_of_apart fun rest rest' ends _ => none_apart_node other ends
  | some node =>
      cases other with
      | none => exact tells_of_apart fun rest rest' _ ends same => none_apart_node node ends same.symm
      | some other => exact tells_imp (h node (by simp) other (by simp)) fun same => by rw [same]

theorem params_tell (params params' : List String) {defaults defaults' : List Node}
    (h : AllTold defaults defaults') :
    Tells (paramsField params (dumpAll defaults)) (paramsField params' (dumpAll defaults'))
      (params = params' ∧ defaults = defaults') := by
  have arg : IsLabel "arg" := rfl
  have names := @items_tell _ (fun id => record "arg" [("arg", quotedName id)]) params params'
    (fun id => record_opens arg _)
    fun id _ id' _ => tells_imp (record_tells "arg" (.cons (name_tells id id') .nil)) And.left
  exact tells_imp (record_tells "arguments" (.cons names (.cons (nodes_tell h) .nil)))
    fun ⟨names, values, _⟩ => ⟨names, values⟩

theorem ops_tell (ops ops' : List ComparisonOp) :
    Tells (bracketed (ops.map fun op => opField op.name)) (bracketed (ops'.map fun op => opField op.name))
      (ops = ops') := by
  have letters (op : ComparisonOp) : IsLabel op.name := by cases op <;> exact rfl
  exact items_tell (fun op => record_opens (letters op) []) fun op _ op' _ => comparison_tells op op'

theorem keywords_eq (keywords : List (String × Node)) : dumpKeywords keywords =
    keywords.map fun keyword => record "keyword" [("arg", quotedName keyword.1), ("value", dump keyword.2)] := by
  induction keywords with
  | nil => rfl
  | cons keyword rest ih =>
      rw [dumpKeywords, ih]
      rfl

theorem keywords_tell {keywords keywords' : List (String × Node)}
    (h : AllTold (keywords.map (·.2)) (keywords'.map (·.2))) :
    Tells (bracketed (dumpKeywords keywords)) (bracketed (dumpKeywords keywords')) (keywords = keywords') := by
  have label : IsLabel "keyword" := rfl
  rw [keywords_eq, keywords_eq]
  refine items_tell (fun keyword => record_opens label _) fun keyword member keyword' member' => ?_
  have value := h keyword.2 (List.mem_map_of_mem member) keyword'.2 (List.mem_map_of_mem member')
  exact tells_imp (record_tells "keyword" (.cons (name_tells keyword.1 keyword'.1) (.cons value .nil)))
    fun ⟨id, value, _⟩ => Prod.ext id value

-- What a field of a form may hold.
inductive Field where
  | node (node : Node)
  | nodes (nodes : List Node)
  | option (node : Option Node)
  | params (params : List String) (defaults : List Node)
  | keywords (keywords : List (String × Node))
  | name (id : String)
  | constant (value : Constant)
  | logical (op : LogicalOp)
  | arithmetic (op : ArithmeticOp)
  | sign (op : PrefixOp)
  | comparisons (ops : List ComparisonOp)
  | context (ctx : Context)

namespace Field

def text : Field → List Char
  | .node part => dump part
  | .nodes parts => bracketed (dumpAll parts)
  | .option part => dumpOption part
  | .params ids defaults => paramsField ids (dumpAll defaults)
  | .keywords entries => bracketed (dumpKeywords entries)
  | .name id => quotedName id
  | .constant value => value.spelling
  | .logical op => opField op.name
  | .arithmetic op => opField op.name
  | .sign op => opField op.name
  | .comparisons ops => bracketed (ops.map fun op => opField op.name)
  | .context ctx => record ctx.name []

def parts : Field → List Node
  | .node part => [part]
  | .nodes parts => parts
  | .option part => part.toList
  | .params _ defaults => defaults
  | .keywords entries => entries.map (·.2)
  | _ => []

def Own : Field → Prop
  | .constant value => value.HasOwnText
  | _ => True

inductive Alike : Field → Field → Prop where
  | node (node node' : Node) : Alike (.node node) (.node node')
  | nodes (nodes nodes' : List Node) : Alike (.nodes nodes) (.nodes nodes')
  | option (node node' : Option Node) : Alike (.option node) (.option node')
  | params (params params' : List String) (defaults defaults' : List Node) :
      Alike (.params params defaults) (.params params' defaults')
  | keywords (keywords keywords' : List (String × Node)) : Alike (.keywords keywords) (.keywords keywords')
  | name (id id' : String) : Alike (.name id) (.name id')
  | constant (value value' : Constant) : Alike (.constant value) (.constant value')
  | logical (op op' : LogicalOp) : Alike (.logical op) (.logical op')
  | arithmetic (op op' : ArithmeticOp) : Alike (.arithmetic op) (.arithmetic op')
  | sign (op op' : PrefixOp) : Alike (.sign op) (.sign op')
  | comparisons (ops ops' : List ComparisonOp) : Alike (.comparisons ops) (.comparisons ops')
  | context (ctx ctx' : Context) : Alike (.context ctx) (.context ctx')

theorem alike_tells {field other : Field} (alike : field.Alike other) (below : AllTold field.parts other.parts)
    (own : field.Own) (own' : other.Own) : Tells field.text other.text (field = other) := by
  cases alike with
  | node part part' => exact tells_imp (below part (.head _) part' (.head _)) (congrArg _)
  | nodes => exact tells_imp (nodes_tell below) (congrArg _)
  | option => exact tells_imp (option_tells below) (congrArg _)
  | params ids ids' =>
      refine tells_imp (params_tell ids ids' below) ?_
      rintro ⟨rfl, rfl⟩
      rfl
  | keywords => exact tells_imp (keywords_tell below) (congrArg _)
  | name id id' => exact tells_imp (name_tells id id') (congrArg _)
  | constant => exact tells_imp (constant_tells own own') (congrArg _)
  | logical op op' => exact tells_imp (logical_tells op op') (congrArg _)
  | arithmetic op op' => exact tells_imp (arithmetic_tells op op') (congrArg _)
  | sign op op' => exact tells_imp (prefix_tells op op') (congrArg _)
  | comparisons ops ops' => exact tells_imp (ops_tell ops ops') (congrArg _)
  | context ctx ctx' => exact tells_imp (context_tells ctx ctx') (congrArg _)

end Field

def fields : Node → List (String × Field)
  | .program body => [("body", .nodes body)]
  | .functionDef id params defaults body =>
      [("name", .name id), ("args", .params params defaults), ("body", .nodes body)]
  | .returnStmt value => [("value", .option value)]
  | .assign targets value => [("targets", .nodes targets), ("value", .node value)]
  | .augAssign target op value => [("target", .node target), ("op", .arithmetic op), ("value", .node value)]
  | .forStmt target iterable body => [("target", .node target), ("iter", .node iterable), ("body", .nodes body)]
  | .whileStmt test body => [("test", .node test), ("body", .nodes body)]
  | .ifStmt test body orelse => [("test", .node test), ("body", .nodes body), ("orelse", .nodes orelse)]
  | .assertStmt test message => [("test", .node test), ("msg", .option message)]
  | .raiseStmt exception => [("exc", .option exception)]
  | .exprStmt value => [("value", .node value)]
  | .passStmt | .breakStmt | .continueStmt => []
  | .boolOp op values => [("op", .logical op), ("values", .nodes values)]
  | .binOp left op right => [("left", .node left), ("op", .arithmetic op), ("right", .node right)]
  | .unaryOp op operand => [("op", .sign op), ("operand", .node operand)]
  | .lambda params defaults body => [("args", .params params defaults), ("body", .node body)]
  | .ifExp test body orelse => [("test", .node test), ("body", .node body), ("orelse", .node orelse)]
  | .dict keys values => [("keys", .nodes keys), ("values", .nodes values)]
  | .set elements => [("elts", .nodes elements)]
  | .compare left ops comparators =>
      [("left", .node left), ("ops", .comparisons ops), ("comparators", .nodes comparators)]
  | .call function args keywords => [("func", .node function), ("args", .nodes args), ("keywords", .keywords keywords)]
  | .constant value => [("value", .constant value)]
  | .attr value id ctx => [("value", .node value), ("attr", .name id), ("ctx", .context ctx)]
  | .subscript value index ctx => [("value", .node value), ("slice", .node index), ("ctx", .context ctx)]
  | .name id ctx => [("id", .name id), ("ctx", .context ctx)]
  | .list elements ctx | .tuple elements ctx => [("elts", .nodes elements), ("ctx", .context ctx)]
  | .slice lower upper step => [("lower", .option lower), ("upper", .option upper), ("step", .option step)]

theorem dump_eq (node : Node) : dump node = record node.label (node.fields.map fun field => (field.1, field.2.text)) := by
  cases node <;> rfl

theorem parts_below (node : Node) : ∀ field ∈ node.fields, field.2.parts ⊆ node.children := by
  cases node <;> simp [fields, Field.parts, children]

theorem fields_own {node : Node} (own : OwnText node) : ∀ field ∈ node.fields, field.2.Own := by
  cases node with
  | constant value => exact List.forall_mem_singleton.mpr own
  | _ => simp [fields, Field.Own]

-- The label names the form, and the fields make up the rest.
theorem label_fields {node other : Node} (same : node.label = other.label) :
    List.Forall₂ (fun field field' => field.1 = field'.1 ∧ field.2.Alike field'.2) node.fields other.fields ∧
      (node.fields = other.fields → node = other) := by
  cases node <;> cases other <;> first
    | (simp [label] at same; done)
    | exact ⟨by repeat' constructor, by rintro ⟨⟩; rfl⟩

theorem fields_told {fields others : List (String × Field)}
    (alike : List.Forall₂ (fun field field' => field.1 = field'.1 ∧ field.2.Alike field'.2) fields others)
    (below : ∀ field ∈ fields, ∀ other ∈ others, AllTold field.2.parts other.2.parts)
    (own : ∀ field ∈ fields, field.2.Own) (own' : ∀ other ∈ others, other.2.Own) :
    ∃ P : Prop, Told (fields.map fun field => (field.1, field.2.text)) (others.map fun field => (field.1, field.2.text)) P ∧
      (P → fields = others) := by
  induction alike with
  | nil => exact ⟨True, .nil, fun _ => rfl⟩
  | @cons field other fields others first _ ih =>
      obtain ⟨ownFirst, ownRest⟩ := List.forall_mem_cons.mp own
      obtain ⟨ownFirst', ownRest'⟩ := List.forall_mem_cons.mp own'
      obtain ⟨P, told, rest⟩ := ih (fun field member other member' => below field (.tail _ member) other (.tail _ member'))
        ownRest ownRest'
      obtain ⟨key, field⟩ := field
      obtain ⟨_, other⟩ := other
      obtain ⟨rfl, alike⟩ := first
      have here := Field.alike_tells alike (below _ (.head _) _ (.head _)) ownFirst ownFirst'
      refine ⟨_, .cons here told, ?_⟩
      rintro ⟨rfl, holds⟩
      rw [rest holds]

theorem label_tells {node other : Node} (below : AllTold node.children other.children) (same : node.label = other.label)
    (own : OwnText node) (own' : OwnText other) : Tells (dump node) (dump other) (node = other) := by
  obtain ⟨alike, whole⟩ := label_fields same
  obtain ⟨P, told, equal⟩ := fields_told alike
    (fun field member other member' => told_part below (parts_below _ field member) (parts_below _ other member'))
    (fields_own own) (fields_own own')
  rw [dump_eq, dump_eq, same]
  exact tells_imp (record_tells _ told) fun holds => whole (equal holds)

theorem dump_tells (node : Node) : Everywhere OwnText node → ∀ other, Everywhere OwnText other →
    Tells (dump node) (dump other) (node = other) := by
  induction node using node_induction with
  | step node ih =>
      intro own other own'
      by_cases same : node.label = other.label
      · have below : AllTold node.children other.children := fun child member child' member' =>
          ih child member (own.child child member) child' (own'.child child' member')
        exact label_tells below same own.here own'.here
      · obtain ⟨fields, text⟩ := dump_record node
        obtain ⟨fields', text'⟩ := dump_record other
        rw [text, text']
        exact tells_of_apart fun rest rest' _ _ texts =>
          same (record_label (label_letters node) (label_letters other) texts)

theorem dump_injective {node other : Node} (own : Everywhere OwnText node) (own' : Everywhere OwnText other)
    (same : dump node = dump other) : node = other := by
  have ends : EndsField [')'] := ⟨')', [], rfl, by decide⟩
  exact (dump_tells node own other own' [')'] [')'] ends ends (by rw [same])).1

end Node

end Mutagen
