import CHeader.Bench.Fingerprint
import CHeader.Bench.Frame
import CHeader.Bench.Report
import CHeader.Data.Describe
import CHeader.Data.Read
import CHeader.Interface.Invoke
import CHeader.Main
import CHeader.Package.ErrorNumbers
import CHeader.Package.Metadata
import CHeader.Proofs.Expr.Logical
import CHeader.Proofs.Interface.Calculation
import CHeader.Proofs.Interface.Declarators
import CHeader.Proofs.Interface.Enumerators
import CHeader.Proofs.Interface.Records
import CHeader.Proofs.Interface.References
import CHeader.Proofs.Interface.Symbols
import CHeader.Proofs.Interface.Untouched
import CHeader.Proofs.Interface.Variables
import CHeader.Proofs.Macro.Arguments
import CHeader.Proofs.Macro.Changes
import CHeader.Proofs.Macro.FurtherLines
import CHeader.Proofs.Macro.Literals
import CHeader.Proofs.Macro.OpenString
import CHeader.Proofs.Macro.Spelling
import CHeader.Proofs.Source.Comments
import CHeader.Proofs.Source.FinalLine
import CHeader.Proofs.Source.LineNumber
import CHeader.Proofs.Source.Predefined
import CHeader.Proofs.Source.Reordered
import CHeader.Proofs.Source.TypedCondition
