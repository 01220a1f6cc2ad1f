import Mutagen.Node.Dump
import Mutagen.Node.Leaves
import Mutagen.Node.Render
import Mutagen.SymbolTable

set_option autoImplicit false

namespace Mutagen

structure Tree where
  root : Node
  symbols : SymbolTable

namespace Tree

def ofBody (body : List Node) : Tree :=
  ⟨.program body, .ofNames (Node.program body).identifiers⟩

def dump (tree : Tree) : String := String.ofList tree.root.dump

def render (tree : Tree) : String := String.ofList tree.root.render

end Tree

end Mutagen
