import EquationSheet.Binary64.Printer
import EquationSheet.Numeral.Column
import EquationSheet.Measure
import EquationSheet.Equation
import EquationSheet.Sheet
import EquationSheet.Store.Update
import EquationSheet.Settings
import EquationSheet.Log.Logging
import EquationSheet.Table
import EquationSheet.Window.Desktop
import EquationSheet.App
import EquationSheet.Main
import EquationSheet.Proofs.Rounding
import EquationSheet.Proofs.Classes
import EquationSheet.Proofs.Runs
import EquationSheet.Proofs.Numerals
import EquationSheet.Proofs.Grammar
import EquationSheet.Proofs.Rendering
import EquationSheet.Proofs.Replacement
import EquationSheet.Proofs.ValueUpdate
import EquationSheet.Proofs.CleanSlots
import EquationSheet.Proofs.Handles
import EquationSheet.Proofs.Sharing
import EquationSheet.Proofs.Desktops
import EquationSheet.Proofs.Provenance
import EquationSheet.Proofs.RoundTrip
import EquationSheet.Proofs.Rows
import EquationSheet.Proofs.Assignments
import EquationSheet.Proofs.Coherence
import EquationSheet.Proofs.Agreement
import EquationSheet.Proofs.Overflow
import EquationSheet.Proofs.FiniteInput
import EquationSheet.Proofs.Moves
import EquationSheet.Proofs.Nearest
import EquationSheet.Proofs.Writers
import EquationSheet.Proofs.Closing
import EquationSheet.Proofs.LockKeeping
import EquationSheet.Proofs.LockFlags
import EquationSheet.Proofs.Opening
import EquationSheet.Proofs.Sidecars
import EquationSheet.Proofs.JsonTokens
import EquationSheet.Proofs.JsonText
import EquationSheet.Proofs.JsonFits
import EquationSheet.Proofs.Comments
import EquationSheet.Proofs.Saving
import EquationSheet.Proofs.Orderly
import EquationSheet.Proofs.CommentFate
import EquationSheet.Proofs.Columns
import EquationSheet.Proofs.Editable
import EquationSheet.Proofs.Filtering
import EquationSheet.Proofs.Directories
import EquationSheet.Proofs.SettingsRoundTrip
import EquationSheet.Proofs.LongestMatch
import EquationSheet.Proofs.NumeralLanguage
import EquationSheet.Proofs.Splicing
import EquationSheet.Proofs.WrittenNumber
import EquationSheet.Proofs.NumberText
import EquationSheet.Proofs.ScannedTokens
import EquationSheet.Proofs.FirstFault
import EquationSheet.Proofs.OneWrite
import EquationSheet.Proofs.SheetText
import EquationSheet.Proofs.SlotWrites
import EquationSheet.Proofs.Reopening
import EquationSheet.Proofs.LogSinks
import EquationSheet.Proofs.Verbosity
import EquationSheet.Proofs.Literals
