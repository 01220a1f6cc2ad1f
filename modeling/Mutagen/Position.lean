set_option autoImplicit false

namespace Mutagen

structure Position where
  offset : Nat := 0
  line : Nat := 1
  column : Nat := 0
deriving DecidableEq, Repr

namespace Position

def step (p : Position) (c : Char) : Position :=
  if c = '\n' then ⟨p.offset + 1, p.line + 1, 0⟩ else ⟨p.offset + c.utf8Size, p.line, p.column + 1⟩

def behind (p : Position) (text : List Char) : Position := text.foldl step p

def upTo (p : Position) (text rest : List Char) : Position :=
  p.behind (text.take (text.length - rest.length))

end Position

structure Span where
  start : Nat
  stop : Nat
  line : Nat
  column : Nat
deriving DecidableEq, Repr

namespace Span

def between (first last : Position) : Span := ⟨first.offset, last.offset, first.line, first.column⟩

def empty (p : Position) : Span := between p p

end Span

end Mutagen
