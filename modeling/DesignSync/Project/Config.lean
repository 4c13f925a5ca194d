import DesignSync.Document.Context
import DesignSync.Sync.Config

/-!
The settings of a project: its snapshot, its buffer directory, what bindings may refer to besides
props, and how it is synced.
-/

namespace DesignSync

open Json

namespace BindingTarget

def toJson (t : BindingTarget) : Json :=
  object <|
    [("kind", string t.kind.name), ("id", string t.id), ("name", string t.name)]
      ++ member? "display" string t.display

def ofJson? (j : Json) : Option BindingTarget := do
  let r ← record? ["kind", "id", "name", "display"] j
  return {
    kind := ← r.required "kind" fun j => name? j >>= RefKind.ofName?
    id := ← r.required "id" string?
    name := ← r.required "name" string?
    display := ← r.optional "display" string? }

def shape : Shape :=
  Shape.record "struct TargetConfig"
    [⟨"kind", true, Shape.name ([RefKind.prop, .token, .data].map RefKind.name)⟩,
      ⟨"id", true, Shape.string⟩, ⟨"name", true, Shape.string⟩,
      ⟨"display", false, Shape.nullable Shape.string⟩]

end BindingTarget

structure ProjectConfig where
  snapshot : String
  bufferDir : String
  targets : List BindingTarget
  sync : SyncConfig
deriving DecidableEq, Repr

namespace ProjectConfig

/-- The file that holds the settings. -/
def fileName : String := "drafter.config.json"

def default : ProjectConfig := ⟨"document.json", "buffer", [], SyncConfig.default⟩

def toJson (c : ProjectConfig) : Json :=
  object
    [("snapshot", string c.snapshot), ("bufferDir", string c.bufferDir),
      ("targets", array (c.targets.map BindingTarget.toJson)), ("sync", c.sync.toJson)]

def ofJson? (j : Json) : Option ProjectConfig := do
  let r ← record? ["snapshot", "bufferDir", "targets", "sync"] j
  return {
    snapshot := ← r.withDefault "snapshot" default.snapshot string?
    bufferDir := ← r.withDefault "bufferDir" default.bufferDir string?
    targets := ← r.withDefault "targets" [] (list? BindingTarget.ofJson?)
    sync := ← r.withDefault "sync" SyncConfig.default SyncConfig.ofJson? }

def shape : Shape :=
  Shape.record "struct Config"
    [⟨"snapshot", false, Shape.string⟩, ⟨"bufferDir", false, Shape.string⟩,
      ⟨"targets", false, Shape.list BindingTarget.shape⟩, ⟨"sync", false, SyncConfig.shape⟩]

/-- The settings in the text of a file, or why it has none. -/
def ofText (text : String) : Except String ProjectConfig :=
  match Json.read text >>= ofJson? with
  | some config => .ok config
  | none => .error ((shape.fault? text).elim "" (Fault.message text))

end ProjectConfig

end DesignSync
