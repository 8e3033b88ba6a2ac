import ContractScript.Config.Record
import ContractScript.Main
import ContractScript.Proofs.CommandLine.Agreement
import ContractScript.Proofs.Finding.Braces
import ContractScript.Proofs.Finding.Lines
import ContractScript.Proofs.Grey.Validity
import ContractScript.Proofs.Machine.Agreement
import ContractScript.Proofs.Machine.Entry
import ContractScript.Proofs.Machine.Refusal
import ContractScript.Proofs.Machine.Session
import ContractScript.Proofs.Program.Bodies
import ContractScript.Proofs.Program.Canonical
import ContractScript.Proofs.Program.Refusal
import ContractScript.Proofs.Program.Renaming
import ContractScript.Proofs.Program.Source
import ContractScript.Proofs.Program.Spacing
import ContractScript.Proofs.Run.Prefix
import ContractScript.Proofs.Run.Truncation
import ContractScript.Proofs.Statement.Lenient
import ContractScript.Proofs.Statement.Prefix
import ContractScript.Proofs.Statement.Priority
import ContractScript.Proofs.Token.Layout
