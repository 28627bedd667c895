import ClassHints.Proofs.Completion.DocsPages
import ClassHints.Proofs.Completion.SortTexts
import ClassHints.Proofs.Completion.WrittenNames
import ClassHints.Proofs.Cursor.Innermost
import ClassHints.Proofs.Cursor.Positions
import ClassHints.Proofs.Cursor.Windows
import ClassHints.Proofs.Markup.WellNested
import ClassHints.Proofs.Model.Descriptions
import ClassHints.Proofs.Model.ImportLists
import ClassHints.Proofs.Model.IncludePriority
import ClassHints.Proofs.Model.Linking
import ClassHints.Proofs.Model.StackListing
import ClassHints.Proofs.Model.WrittenTrees
import ClassHints.Proofs.Package.LoadedImports
import ClassHints.Proofs.Service.Publishing
import ClassHints.Proofs.Sheet.ByteMasking
import ClassHints.Proofs.Sheet.NodeLines
import ClassHints.Proofs.Sheet.OwnBraces
import ClassHints.Proofs.Sheet.RoundTrip
import ClassHints.Proofs.Sheet.SelectorLists
