import ComponentSheet.Main
import ComponentSheet.Selector.Placed
import ComponentSheet.Text.Splice
import ComponentSheet.Proofs.Macro.Run
import ComponentSheet.Proofs.Macro.Termination
import ComponentSheet.Proofs.Component.CallFree
import ComponentSheet.Proofs.Component.Policy
import ComponentSheet.Proofs.Macro.Fault
import ComponentSheet.Proofs.Macro.Simultaneous
import ComponentSheet.Proofs.Import.Located
import ComponentSheet.Proofs.Component.Partition
import ComponentSheet.Proofs.Macro.Branded
import ComponentSheet.Proofs.Component.Isolation
import ComponentSheet.Proofs.Component.Stable
import ComponentSheet.Proofs.Selector.Listed
import ComponentSheet.Proofs.Import.Literal
import ComponentSheet.Proofs.Import.Comments
import ComponentSheet.Proofs.Import.Once
import ComponentSheet.Proofs.Import.Cycle
import ComponentSheet.Proofs.Component.Enclosed
import ComponentSheet.Proofs.Sheet.Joined
import ComponentSheet.Proofs.Sheet.Exact
import ComponentSheet.Proofs.Build.Delivered
import ComponentSheet.Proofs.Selector.Buried
import ComponentSheet.Proofs.Selector.Commas
import ComponentSheet.Proofs.Selector.Compounds
import ComponentSheet.Proofs.Macro.Leftmost
import ComponentSheet.Proofs.Macro.Entries
import ComponentSheet.Proofs.Text.Dashed
import ComponentSheet.Proofs.Selector.Brandings
