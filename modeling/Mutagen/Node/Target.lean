import Mutagen.Node.Basic

set_option autoImplicit false

namespace Mutagen.Node

mutual
def target? : Node → Option Node
  | .name id _ => some (.name id .store)
  | .attr value id _ => some (.attr value id .store)
  | .subscript value index _ => some (.subscript value index .store)
  | .tuple elements _ => (targets? elements).map (.tuple · .store)
  | .list elements _ => (targets? elements).map (.list · .store)
  | _ => none

def targets? : List Node → Option (List Node)
  | [] => some []
  | node :: rest =>
      match target? node, targets? rest with
      | some target, some others => some (target :: others)
      | _, _ => none
end

def singleTarget? : Node → Option Node
  | .name id _ => some (.name id .store)
  | .attr value id _ => some (.attr value id .store)
  | .subscript value index _ => some (.subscript value index .store)
  | _ => none

end Mutagen.Node
