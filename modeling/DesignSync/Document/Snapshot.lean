import DesignSync.Document.Element
import DesignSync.Document.Component

/-!
A document as it is saved.
-/

namespace DesignSync

structure Snapshot where
  elements : List Element
  components : List Component
  overrides : List InstanceOverride
deriving BEq

def Snapshot.empty : Snapshot := ⟨[], [], []⟩

end DesignSync
