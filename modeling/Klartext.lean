import Klartext.Evaluation.Conversion
import Klartext.Main
import Klartext.Proofs.Continued.Dialogue
import Klartext.Proofs.Continued.Joined
import Klartext.Proofs.Continued.Surrounded
import Klartext.Proofs.Contract.Grammar
import Klartext.Proofs.Depth.Branches
import Klartext.Proofs.Diagnosis.Context
import Klartext.Proofs.Diagnosis.RefusedCall
import Klartext.Proofs.Dialogue.Account
import Klartext.Proofs.Enumeration.Division
import Klartext.Proofs.Evaluation.Printing
import Klartext.Proofs.Evaluation.Reordered
import Klartext.Proofs.Evaluation.Store
import Klartext.Proofs.Evaluation.Traced
import Klartext.Proofs.Grammar.Parameters
import Klartext.Proofs.Grammar.Quotation
import Klartext.Proofs.Grammar.Remainder
import Klartext.Proofs.Reader.Name
import Klartext.Proofs.Rules.Fault
import Klartext.Proofs.Tree.Printed
