import FilterTree.Proofs.Restore.Separation

/-! Where going through a condition comes to an end. Along slots it always does, because none leads
back; that is enough for whatever looks for a condition, hands down hooks or makes a record. Rendering
also goes through what expressions hold, and ends where none of that leads back either. -/

namespace FilterTree.Store
open Relation

variable {s : Store} {p : NodeId}

/-! ### Along slots -/

def listed : List Action :=
  [.create .none, .create .none, .create .none, .add 0 .and [.node 1] [], .add 0 .or [.node 1] [],
    .add 1 .and [.value (.text "k"), .value (.text "in"), .list [.node 2]] []]

end FilterTree.Store
