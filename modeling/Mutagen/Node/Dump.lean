import Mutagen.Node.Basic

set_option autoImplicit false

namespace Mutagen.Node

def bracketed (items : List (List Char)) : List Char :=
  '[' :: List.intercalate ", ".toList items ++ [']']

def record (label : String) (fields : List (String × List Char)) : List Char :=
  label.toList ++
    '(' :: List.intercalate ", ".toList (fields.map fun (key, text) => key.toList ++ '=' :: text) ++
    [')']

def quotedName (id : String) : List Char := Quoted.encode id.toList

def paramsField (params : List String) (defaults : List (List Char)) : List Char :=
  record "arguments"
    [("args", bracketed (params.map fun id => record "arg" [("arg", quotedName id)])),
      ("defaults", bracketed defaults)]

def opField (op : String) : List Char := record op []

def ctxField (ctx : Context) : String × List Char := ("ctx", record ctx.name [])

mutual
def dump : Node → List Char
  | .program body => record "Module" [("body", bracketed (dumpAll body))]
  | .functionDef id params defaults body =>
      record "FunctionDef" [("name", quotedName id), ("args", paramsField params (dumpAll defaults)),
        ("body", bracketed (dumpAll body))]
  | .returnStmt value => record "Return" [("value", dumpOption value)]
  | .assign targets value =>
      record "Assign" [("targets", bracketed (dumpAll targets)), ("value", dump value)]
  | .augAssign target op value =>
      record "AugAssign" [("target", dump target), ("op", opField op.name), ("value", dump value)]
  | .forStmt target iterable body =>
      record "For" [("target", dump target), ("iter", dump iterable),
        ("body", bracketed (dumpAll body))]
  | .whileStmt test body =>
      record "While" [("test", dump test), ("body", bracketed (dumpAll body))]
  | .ifStmt test body orelse =>
      record "If" [("test", dump test), ("body", bracketed (dumpAll body)),
        ("orelse", bracketed (dumpAll orelse))]
  | .assertStmt test message => record "Assert" [("test", dump test), ("msg", dumpOption message)]
  | .raiseStmt exception => record "Raise" [("exc", dumpOption exception)]
  | .exprStmt value => record "Expr" [("value", dump value)]
  | .passStmt => record "Pass" []
  | .breakStmt => record "Break" []
  | .continueStmt => record "Continue" []
  | .boolOp op values =>
      record "BoolOp" [("op", opField op.name), ("values", bracketed (dumpAll values))]
  | .binOp left op right =>
      record "BinOp" [("left", dump left), ("op", opField op.name), ("right", dump right)]
  | .unaryOp op operand => record "UnaryOp" [("op", opField op.name), ("operand", dump operand)]
  | .lambda params defaults body =>
      record "Lambda" [("args", paramsField params (dumpAll defaults)), ("body", dump body)]
  | .ifExp test body orelse =>
      record "IfExp" [("test", dump test), ("body", dump body), ("orelse", dump orelse)]
  | .dict keys values =>
      record "Dict" [("keys", bracketed (dumpAll keys)), ("values", bracketed (dumpAll values))]
  | .set elements => record "Set" [("elts", bracketed (dumpAll elements))]
  | .compare left ops comparators =>
      record "Compare" [("left", dump left), ("ops", bracketed (ops.map fun op => opField op.name)),
        ("comparators", bracketed (dumpAll comparators))]
  | .call function args keywords =>
      record "Call" [("func", dump function), ("args", bracketed (dumpAll args)),
        ("keywords", bracketed (dumpKeywords keywords))]
  | .constant value => record "Constant" [("value", value.spelling)]
  | .attr value id ctx =>
      record "Attribute" [("value", dump value), ("attr", quotedName id), ctxField ctx]
  | .subscript value index ctx =>
      record "Subscript" [("value", dump value), ("slice", dump index), ctxField ctx]
  | .name id ctx => record "Name" [("id", quotedName id), ctxField ctx]
  | .list elements ctx => record "List" [("elts", bracketed (dumpAll elements)), ctxField ctx]
  | .tuple elements ctx => record "Tuple" [("elts", bracketed (dumpAll elements)), ctxField ctx]
  | .slice lower upper step =>
      record "Slice" [("lower", dumpOption lower), ("upper", dumpOption upper),
        ("step", dumpOption step)]

def dumpAll : List Node → List (List Char)
  | [] => []
  | node :: rest => dump node :: dumpAll rest

def dumpOption : Option Node → List Char
  | none => "None".toList
  | some node => dump node

def dumpKeywords : List (String × Node) → List (List Char)
  | [] => []
  | (id, value) :: rest =>
      record "keyword" [("arg", quotedName id), ("value", dump value)] :: dumpKeywords rest
end

theorem dump_all_eq (nodes : List Node) : dumpAll nodes = nodes.map dump := by
  induction nodes with
  | nil => rfl
  | cons node rest ih => rw [dumpAll, ih, List.map_cons]

end Mutagen.Node
