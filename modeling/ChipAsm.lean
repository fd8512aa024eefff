import ChipAsm.Main
import ChipAsm.Proofs.Line
import ChipAsm.Proofs.Reading
import ChipAsm.Proofs.CodeLine
import ChipAsm.Proofs.Placement
import ChipAsm.Proofs.Selection
import ChipAsm.Proofs.Numbering
import ChipAsm.Proofs.Ownership
import ChipAsm.Proofs.Visibility
import ChipAsm.Proofs.Token
import ChipAsm.Proofs.Address
import ChipAsm.Proofs.Service
import ChipAsm.Proofs.History
import ChipAsm.Proofs.Literal
import ChipAsm.Proofs.Numeral
import ChipAsm.Proofs.Contents
import ChipAsm.Proofs.Names
import ChipAsm.Proofs.SourceText
import ChipAsm.Proofs.Scoping
import ChipAsm.Proofs.Renumbering
import ChipAsm.Proofs.Appending
import ChipAsm.Proofs.Spelling
import ChipAsm.Proofs.Filtering
import ChipAsm.Proofs.Shortest
import ChipAsm.Proofs.Origin
import ChipAsm.Proofs.Emission
import ChipAsm.Proofs.Reassembly
import ChipAsm.Proofs.Rereading
import ChipAsm.Proofs.OutputText
import ChipAsm.Proofs.Expanding
import ChipAsm.Proofs.Packing
import ChipAsm.Proofs.Rounding
import ChipAsm.Proofs.Magnitude
import ChipAsm.Proofs.Faults
import ChipAsm.Proofs.Directory
import ChipAsm.Proofs.Writing
import ChipAsm.Proofs.Worklist
import ChipAsm.Proofs.Prerequisites
import ChipAsm.Proofs.Command
import ChipAsm.Proofs.Grammar
import ChipAsm.Proofs.Canonical
import ChipAsm.Proofs.Accounting
import ChipAsm.Proofs.Binding
import ChipAsm.Proofs.Verbatim
import ChipAsm.Proofs.Directive
import ChipAsm.Proofs.Remarks
import ChipAsm.Proofs.Duplicates
import ChipAsm.Proofs.Rejection
import ChipAsm.Proofs.Offsets
import ChipAsm.Proofs.Strictness
import ChipAsm.Proofs.Advisories
import ChipAsm.Proofs.Endings
import ChipAsm.Proofs.Checksum
import ChipAsm.Proofs.Keyword
import ChipAsm.Proofs.Hexadecimal
import ChipAsm.Proofs.Ledger
import ChipAsm.Proofs.OutputName
