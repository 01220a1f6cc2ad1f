import Std.Data.HashMap

set_option autoImplicit false

namespace Mutagen

structure SymbolTable where
  names : Array String := #[]
  numbers : Std.HashMap String Nat := {}

namespace SymbolTable

def lookup (table : SymbolTable) (name : String) : Option Nat :=
  table.numbers[name]?

def name? (table : SymbolTable) (number : Nat) : Option String :=
  table.names[number]?

def insert (table : SymbolTable) (name : String) : Nat × SymbolTable :=
  let number := table.names.size
  (number, ⟨table.names.push name, table.numbers.insert name number⟩)

def intern (table : SymbolTable) (name : String) : Nat × SymbolTable :=
  match table.lookup name with
  | some number => (number, table)
  | none => table.insert name

def size (table : SymbolTable) : Nat := table.names.size

def isEmpty (table : SymbolTable) : Bool := table.names.isEmpty

def ofNames (names : List String) : SymbolTable :=
  names.foldl (fun table name => (table.intern name).2) {}

end SymbolTable

end Mutagen
