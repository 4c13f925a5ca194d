import DesignSync.Json.Record
import DesignSync.Json.Shape

/-!
When a buffer is polled, and which of its files are the source and the props.
-/

namespace DesignSync

open Json

structure SyncConfig where
  /-- How often the buffer is polled for edits. -/
  pollIntervalMs : Nat
  /-- How long an edit has to stay as it is before it is read. -/
  debounceMs : Nat
  /-- How many times that wait is repeated at most while edits keep coming. -/
  maxDebounceRounds : Nat
  sourcePath : String
  propsPath : String
deriving DecidableEq, Repr

namespace SyncConfig

def default : SyncConfig := ⟨2000, 300, 10, "App.jsx", "props.js"⟩

/-- The time between two polls, which is never zero. -/
def pollPeriod (c : SyncConfig) : Nat := max c.pollIntervalMs 1

def toJson (c : SyncConfig) : Json :=
  object
    [("pollIntervalMs", integer c.pollIntervalMs), ("debounceMs", integer c.debounceMs),
      ("maxDebounceRounds", integer c.maxDebounceRounds), ("sourcePath", string c.sourcePath),
      ("propsPath", string c.propsPath)]

def ofJson? (j : Json) : Option SyncConfig := do
  let names := ["pollIntervalMs", "debounceMs", "maxDebounceRounds", "sourcePath", "propsPath"]
  let r ← record? names j
  let word := nat? (UInt64.size - 1)
  return {
    pollIntervalMs := ← r.withDefault "pollIntervalMs" default.pollIntervalMs word
    debounceMs := ← r.withDefault "debounceMs" default.debounceMs word
    maxDebounceRounds :=
      ← r.withDefault "maxDebounceRounds" default.maxDebounceRounds (nat? (UInt32.size - 1))
    sourcePath := ← r.withDefault "sourcePath" default.sourcePath string?
    propsPath := ← r.withDefault "propsPath" default.propsPath string? }

/-- The shape of the settings. Each has a value of its own when it is absent. -/
def shape : Shape :=
  Shape.record "struct SyncConfig"
    [⟨"pollIntervalMs", false, Shape.natural "u64" (UInt64.size - 1)⟩,
      ⟨"debounceMs", false, Shape.natural "u64" (UInt64.size - 1)⟩,
      ⟨"maxDebounceRounds", false, Shape.natural "u32" (UInt32.size - 1)⟩,
      ⟨"sourcePath", false, Shape.string⟩, ⟨"propsPath", false, Shape.string⟩]

/-- The settings in the text of a file; the defaults if there is no file. -/
def ofFile? : Option String → Option SyncConfig
  | none => some default
  | some text => Json.read text >>= ofJson?

end SyncConfig

end DesignSync
