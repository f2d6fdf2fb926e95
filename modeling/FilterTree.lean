import FilterTree.Value.Literal
import FilterTree.Calendar.Iso
import FilterTree.Hook.Loading
import FilterTree.Tree.Restore
import FilterTree.Tree.Procedure
import FilterTree.Outline
import FilterTree.Settings.Shared
import FilterTree.Settings.Hooks
import FilterTree.Command.Run
import FilterTree.Main
import FilterTree.Proofs.Store.Fields
import FilterTree.Proofs.Store.Argument
import FilterTree.Proofs.Store.Path
import FilterTree.Proofs.Store.Cycle
import FilterTree.Proofs.Store.Calls
import FilterTree.Proofs.Store.Deeds
import FilterTree.Proofs.Restore.Replay
import FilterTree.Proofs.Restore.Grammar
import FilterTree.Proofs.Restore.Acceptance
import FilterTree.Proofs.Text.Numeral
import FilterTree.Proofs.Value.Scanner
import FilterTree.Proofs.Value.Reorder
import FilterTree.Proofs.Tree.Bare
import FilterTree.Proofs.Tree.Quoting
import FilterTree.Proofs.Json.Quoted
import FilterTree.Proofs.Number.Decimal
import FilterTree.Proofs.Number.Text
import FilterTree.Proofs.Json.Scalar
import FilterTree.Proofs.Value.Portable
import FilterTree.Proofs.Json.RoundTrip
import FilterTree.Proofs.Json.Whole
import FilterTree.Proofs.Restore.RoundTrip
import FilterTree.Proofs.Number.Rounding
import FilterTree.Proofs.Number.Shortest
import FilterTree.Proofs.Store.Joins
import FilterTree.Proofs.Store.CommonHooks
import FilterTree.Proofs.Store.InPlace
import FilterTree.Proofs.Store.Atomic
import FilterTree.Proofs.Tree.Overlay
import FilterTree.Proofs.Restore.Layers
import FilterTree.Proofs.Restore.Malformed
import FilterTree.Proofs.Restore.Separation
import FilterTree.Proofs.Store.Nesting
import FilterTree.Proofs.Restore.Gate
import FilterTree.Proofs.Restore.Order
import FilterTree.Proofs.Tree.Phrases
import FilterTree.Proofs.Settings.Mapped
import FilterTree.Proofs.Settings.Document
import FilterTree.Proofs.Settings.Shared
import FilterTree.Proofs.Tree.Outline
import FilterTree.Proofs.Restore.Formats
import FilterTree.Proofs.Command.Convert
