import DesignSync.Command.Loading
import DesignSync.Command.Request

/-!
Starting a project: settings, a document to begin with, and the folder for the buffer.
-/

namespace DesignSync

/-- A document with one component, a button with its label as prop. -/
def exampleDocument : String :=
  String.join <| List.map (· ++ "\n")
    [ "\x7b",
      "  \"components\": [",
      "    \x7b",
      "      \"id\": \"cmp-button\",",
      "      \"name\": \"Button\",",
      "      \"props\": [",
      "        \x7b \"id\": \"prop-label\", \"name\": \"label\", \"type\": \"string\", "
        ++ "\"defaultValue\": \"Click me\" \x7d",
      "      ]",
      "    \x7d",
      "  ],",
      "  \"elements\": [",
      "    \x7b",
      "      \"id\": \"button-root\",",
      "      \"tag\": \"button\",",
      "      \"kind\": \"component\",",
      "      \"name\": \"Button\",",
      "      \"ownership\": \x7b \"type\": \"component\", \"ownerId\": \"cmp-button\" \x7d,",
      "      \"properties\": \x7b",
      "        \"attributes\": \x7b \"type\": \"button\" \x7d,",
      "        \"style\": \x7b \"padding\": \"8px 16px\", \"background\": \"#3366FF\", "
        ++ "\"color\": \"white\" \x7d,",
      "        \"content\": \x7b \"binding\": \x7b \"refKind\": \"prop\", "
        ++ "\"refId\": \"prop-label\" \x7d \x7d",
      "      \x7d",
      "    \x7d",
      "  ]",
      "\x7d" ]

variable {m : Type → Type} [Monad m] [Host m]

/-- The document, unless it is there. -/
private def createDocument (cwd file : String) : Action m Unit := do
  let path := joinPath cwd file
  if !(← Host.isPresent path) then
    Action.orFail .file (Host.createFolders (Route.ofText path).parent.text)
    Action.orFail .file (Host.writeText path exampleDocument)
    Action.line ("  ✓ Created " ++ file)

/-- The folder for the buffer, unless something is there. -/
private def createBuffer (cwd folder : String) : Action m Unit := do
  let path := joinPath cwd folder
  if !(← Host.isPresent path) then
    Action.orFail .file (Host.createFolders path)
    Action.line ("  ✓ Created " ++ folder ++ "/")

/-- Existing settings stay, unless it is asked to replace them. -/
def initProject (r : InitRequest) : Action m Unit := do
  let cwd ← Host.workingDir
  let path := joinPath cwd ProjectConfig.fileName
  if (← Host.isPresent path) && !r.force then
    Action.line ("⚠️ " ++ ProjectConfig.fileName ++ " already exists")
    Action.line "Use --force to overwrite"
  else
    Action.line "📝 Initializing Drafter project..."
    createDocument cwd r.snapshot
    createBuffer cwd r.bufferDir
    let config :=
      { ProjectConfig.default with snapshot := r.snapshot, bufferDir := r.bufferDir }
    Action.orFail .file (Host.writeText path config.toJson.pretty)
    Action.line ("  ✓ Created " ++ ProjectConfig.fileName)
    Action.line ""
    Action.line "✅ Project initialized!"
    Action.line ""
    Action.line "Next steps:"
    Action.line "  1. Run: drafter check"
    Action.line "  2. Run: drafter sync"
    Action.line ("  3. Edit " ++ r.bufferDir ++ "/" ++ config.sync.sourcePath)

end DesignSync
