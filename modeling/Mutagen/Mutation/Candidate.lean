import Mutagen.Mutation.Operator
import Mutagen.Node.Walk

set_option autoImplicit false

namespace Mutagen.Node

def pathsWhere (p : Node → Bool) (root : Node) : List Path :=
  (root.walk.filter fun o => p o.node).map (·.path)

def expressionPaths (root : Node) : List Path :=
  root.pathsWhere fun node => node.kind?.any fun kind => (Mutation.operator? kind).isSome

def variablePaths (root : Node) : List Path :=
  root.pathsWhere fun
    | .name _ .load => true
    | _ => false

end Mutagen.Node
