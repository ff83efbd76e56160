import Stubsmith.Main
import Stubsmith.Proofs.Idempotence
import Stubsmith.Proofs.ProgramShape
import Stubsmith.Proofs.Declared
import Stubsmith.Proofs.Redeclaration
import Stubsmith.Proofs.OutputGrammar
import Stubsmith.Proofs.Imported
import Stubsmith.Proofs.Sections
import Stubsmith.Proofs.Spelling
import Stubsmith.Proofs.KeptNames
import Stubsmith.Proofs.ClassNames
import Stubsmith.Proofs.OptionViews
import Stubsmith.Proofs.Pruning
import Stubsmith.Proofs.SelectionViews
import Stubsmith.Proofs.FileOrder
import Stubsmith.Proofs.KnownViews
import Stubsmith.Proofs.PlainOrder
import Stubsmith.Proofs.Unreadable
import Stubsmith.Proofs.Splicing
import Stubsmith.Proofs.OutputFrame
import Stubsmith.Proofs.LetterCase
import Stubsmith.Proofs.GroupedImports
import Stubsmith.Proofs.GlobalEntries
import Stubsmith.Proofs.FirstFault
import Stubsmith.Proofs.LiteralValues
import Stubsmith.Proofs.Indentation
import Stubsmith.Proofs.DocComments
import Stubsmith.Proofs.Slots
import Stubsmith.Proofs.Reregistered
import Stubsmith.Proofs.ByteOrder
import Stubsmith.Proofs.CallHistory
import Stubsmith.Proofs.SearchDepth
import Stubsmith.Proofs.FoundFiles
import Stubsmith.Proofs.TreePlaces
import Stubsmith.Proofs.Traversal
import Stubsmith.Proofs.TableColumns
