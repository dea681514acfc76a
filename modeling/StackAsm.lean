import StackAsm.Main
import StackAsm.Proofs.Declarations
import StackAsm.Proofs.TableHistory
import StackAsm.Proofs.Encoding
import StackAsm.Proofs.Expansion
import StackAsm.Proofs.Run
import StackAsm.Proofs.Step
import StackAsm.Proofs.Program
import StackAsm.Proofs.Fault
import StackAsm.Proofs.Scanning
import StackAsm.Proofs.Resolving
import StackAsm.Proofs.Acceptance
import StackAsm.Proofs.Layout
import StackAsm.Proofs.Format
import StackAsm.Proofs.Assembled
import StackAsm.Proofs.Units
import StackAsm.Proofs.Disassembly
import StackAsm.Proofs.PrintedText
import StackAsm.Proofs.Listing
import StackAsm.Proofs.WellFormed
import StackAsm.Proofs.Interleaving
import StackAsm.Proofs.Extension
import StackAsm.Proofs.Utf8
import StackAsm.Proofs.Names
import StackAsm.Proofs.History
import StackAsm.Proofs.Guards
import StackAsm.Proofs.OpenFiles
import StackAsm.Proofs.Cycles
import StackAsm.Proofs.Execution
import StackAsm.Proofs.Calls
import StackAsm.Proofs.Agreement
import StackAsm.Proofs.Locations
import StackAsm.Proofs.Renaming
import StackAsm.Proofs.LineForms
import StackAsm.Proofs.Grammar
import StackAsm.Proofs.LabelNames
import StackAsm.Proofs.Spacing
import StackAsm.Proofs.Growth
import StackAsm.Proofs.Options
import StackAsm.Proofs.Warnings
import StackAsm.Proofs.Settling
import StackAsm.Proofs.Refusals
import StackAsm.Proofs.GuardLines
import StackAsm.Proofs.AutomaticMain
import StackAsm.Proofs.Disk
import StackAsm.Proofs.Commands
import StackAsm.Proofs.DefaultOutput
import StackAsm.Proofs.Numerals
import StackAsm.Proofs.Legibility
import StackAsm.Proofs.Literals
import StackAsm.Proofs.Reassembly
