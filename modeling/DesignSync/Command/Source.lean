import DesignSync.Command.Loading
import DesignSync.Command.Request
import DesignSync.Markup.Elements
import DesignSync.Markup.Report
import DesignSync.Markup.Writer
import DesignSync.Text.Shown

/-!
The two commands between document and source: writing a tree as source, and showing the elements of
a source.
-/

namespace DesignSync

variable {m : Type → Type} [Monad m] [Host m]

/-- The source of a tree, as output or with the props in a folder. -/
def serializeTree (r : SerializeRequest) : Action m Unit := do
  let config ← loadConfig
  let store ← loadStore (← snapshotPath config r.snapshot)
  let target ← targetOf store r.choice config
  let ctx := target.bindingContext store
  let written :=
    if r.bare then Markup.write ctx store.elements target.root
    else Markup.writeModule ctx store.elements target.root target.moduleName
  showWarnings written.diagnostics
  match r.outDir with
  | none => Host.out written.text
  | some outDir =>
    let props ← Action.ofExcept .scope (store.project target.scope)
    let sourceFile := joinPath outDir config.sync.sourcePath
    let propsFile := joinPath outDir config.sync.propsPath
    Action.orFail .file (Host.createFolders outDir)
    Action.orFail .file (Host.writeText sourceFile written.text)
    Action.orFail .file (Host.writeText propsFile props.render)
    Action.line ("  ✓ " ++ target.root ++ " → " ++ sourceFile)
    Action.line ("  ✓ props → " ++ propsFile)

/-- What is known of an element in one line: tag, id, and text or binding. -/
def Element.summary (e : Element) : String :=
  let content := e.properties.content
  e.tag ++ " #" ++ e.id ++ (content.text.elim "" fun text => " " ++ Text.shown text)
    ++ content.binding.elim "" fun b => " \x7b" ++ b.path.getD b.refId ++ "\x7d"

/-- A line for an element and each of those below it, set in by how deep they are. No line is more
    than `n` deep. -/
def outline (es : List Element) (depth : Nat) (id : String) : Nat → List String
  | 0 => []
  | n + 1 =>
    match Element.find? es id with
    | none => []
    | some e =>
      (String.join (List.replicate depth "  ") ++ e.summary)
        :: e.children.flatMap fun child => outline es (depth + 1) child n

/-- The binding context of a source: that of a target, or what the settings name. -/
private def contextOf (r : ParseRequest) (config : ProjectConfig) : Action m BindingContext :=
  match r.snapshot with
  | none => pure (BindingContext.empty.add config.targets)
  | some path => do
    let store ← loadStore path
    let target ← targetOf store r.choice config
    return target.bindingContext store

private def showTree (format : String) (tree : Markup.ReadTree) : Action m Unit :=
  match format with
  | "json" => Action.line { Snapshot.empty with elements := tree.elements }.text
  | "text" => (outline tree.elements 0 tree.rootId tree.elements.length).forM Action.line
  | other => throw (.unknownFormat other)

/-- The elements of a source, and what reading it found. -/
def showElements (r : ParseRequest) : Action m Unit := do
  let config ← loadConfig
  let source ← Action.orFail .file (Host.readText r.input)
  let ctx ← contextOf r config
  let tree ← Action.ofExcept (fun e => .source (Markup.Report.render source r.input e))
    (Markup.read source r.input ctx)
  showTree r.format tree
  showFindings tree.diagnostics r.verbose

end DesignSync
