import DesignSync.Buffer.Memory
import DesignSync.Command.Workspace
import DesignSync.Main
import DesignSync.Proofs.Dict
import DesignSync.Proofs.Document.Exclusive
import DesignSync.Proofs.Document.OwnerIndex
import DesignSync.Proofs.Document.Lookup
import DesignSync.Proofs.Document.Soundness
import DesignSync.Proofs.Document.Run
import DesignSync.Proofs.Document.Grove
import DesignSync.Proofs.Markup.ElementTree
import DesignSync.Proofs.Document.Traces
import DesignSync.Proofs.Markup.Tasks
import DesignSync.Proofs.Markup.Traced
import DesignSync.Proofs.Sync.Inbound
import DesignSync.Proofs.Number.Nearest
import DesignSync.Proofs.Number.Notation
import DesignSync.Proofs.Markup.Braces
import DesignSync.Proofs.Markup.Entity
import DesignSync.Proofs.Markup.Lexing
import DesignSync.Proofs.Markup.Classify
import DesignSync.Proofs.Markup.StyleText
import DesignSync.Proofs.Markup.Header
import DesignSync.Proofs.Markup.Inside
import DesignSync.Proofs.Markup.Layout
import DesignSync.Proofs.Markup.Source
import DesignSync.Proofs.Markup.Looks
import DesignSync.Proofs.Markup.Conveyed
import DesignSync.Proofs.Document.StyleKeys
import DesignSync.Proofs.Markup.Opening
import DesignSync.Proofs.Markup.RoundTrip
import DesignSync.Proofs.Markup.Portable
import DesignSync.Proofs.Markup.TraceBlind
import DesignSync.Proofs.Sync.Rest
import DesignSync.Proofs.Markup.FreshIds
import DesignSync.Proofs.Sync.Pushing
import DesignSync.Proofs.Markup.ReadNames
import DesignSync.Proofs.Markup.ReadElements
import DesignSync.Proofs.Markup.Settled
import DesignSync.Proofs.Markup.Silent
import DesignSync.Proofs.Markup.WriteBack
import DesignSync.Proofs.Json.Parts
import DesignSync.Proofs.Json.Printed
import DesignSync.Proofs.Json.Canonical
import DesignSync.Proofs.Document.Decoding
import DesignSync.Proofs.Document.Values
import DesignSync.Proofs.Sync.Saving
import DesignSync.Proofs.Document.Revision
import DesignSync.Proofs.Sync.Unread
import DesignSync.Proofs.Markup.TreeShape
import DesignSync.Proofs.Sync.Reflected
import DesignSync.Proofs.Sync.Stranded
import DesignSync.Proofs.Document.Reloading
import DesignSync.Proofs.Sync.PushEffect
import DesignSync.Proofs.Sync.Repeated
import DesignSync.Proofs.Document.Reaching
import DesignSync.Proofs.Markup.Tour
import DesignSync.Proofs.Document.Merging
import DesignSync.Proofs.Sync.Readding
import DesignSync.Proofs.Markup.Alike
import DesignSync.Proofs.Markup.Indentation
import DesignSync.Proofs.Markup.IndentedTokens
import DesignSync.Proofs.Markup.IndentedTags
import DesignSync.Proofs.Markup.IndentedReading
import DesignSync.Proofs.Sync.Removing
import DesignSync.Proofs.Text.Place
import DesignSync.Proofs.Markup.Counts
import DesignSync.Proofs.Markup.Places
import DesignSync.Proofs.Markup.Tags
import DesignSync.Proofs.Markup.Spans
import DesignSync.Proofs.Markup.Trivia
import DesignSync.Proofs.Markup.FrontTokens
import DesignSync.Proofs.Markup.FrontTags
import DesignSync.Proofs.Markup.FrontElements
import DesignSync.Proofs.Markup.Insertion
import DesignSync.Proofs.Markup.Root
import DesignSync.Proofs.Project.TopLevel
import DesignSync.Proofs.Command.Checking
import DesignSync.Proofs.Preview.Agreement
import DesignSync.Proofs.Json.Figures
import DesignSync.Proofs.Json.Unambiguous
import DesignSync.Proofs.Preview.Rendering
import DesignSync.Proofs.Json.Reading
import DesignSync.Proofs.Document.Nesting
import DesignSync.Proofs.Document.Lossless
import DesignSync.Proofs.Markup.Capture
import DesignSync.Proofs.Text.Spelling
import DesignSync.Proofs.Markup.Unquote
import DesignSync.Proofs.FileTree.Sound
import DesignSync.Proofs.FileTree.Changes
import DesignSync.Proofs.Buffer.Reading
import DesignSync.Proofs.Buffer.Batch
import DesignSync.Proofs.Sync.SourcePath
import DesignSync.Proofs.Sync.FailedPush
import DesignSync.Proofs.Text.Cut
import DesignSync.Proofs.Markup.References
import DesignSync.Proofs.Markup.AttributeString
