import Lox.Main
import Lox.Value.Inspection
import Lox.Proofs.Syntax.Numbering
import Lox.Proofs.Syntax.Numbering.Expression
import Lox.Proofs.Syntax.Numbering.Statement
import Lox.Proofs.Syntax.Written
import Lox.Proofs.Scope.Pass
import Lox.Proofs.Scope.Settled
import Lox.Proofs.Scope.Lexical
import Lox.Proofs.Frame.History
import Lox.Proofs.Value.Display
import Lox.Proofs.Machine.ListMethods
import Lox.Proofs.Machine.Steady
import Lox.Proofs.Evaluation.Steady
import Lox.Proofs.Evaluation.Grounds
import Lox.Proofs.Evaluation.Ensures
import Lox.Proofs.Evaluation.Steps
import Lox.Proofs.Evaluation.Soundness
import Lox.Proofs.Evaluation.Soundness.Statement
import Lox.Proofs.Session.Acceptance
import Lox.Proofs.Session.Soundness
import Lox.Proofs.Session.Addressing
import Lox.Proofs.Session.Safety
import Lox.Proofs.Matching.Reading
import Lox.Proofs.Matching.Reading.Expression
import Lox.Proofs.Matching.Reading.Statement
import Lox.Proofs.Matching.Scope
import Lox.Proofs.Matching.Store
import Lox.Proofs.Matching.Machine
import Lox.Proofs.Matching.Evaluation
import Lox.Proofs.Matching.Reflexive
import Lox.Proofs.Matching.Session
import Lox.Proofs.Session.Joining
import Lox.Proofs.Token.Draining
import Lox.Proofs.Token.Rescanning
import Lox.Proofs.Scope.Reports
import Lox.Proofs.Syntax.Walk.Ending
import Lox.Proofs.Session.Truncation
import Lox.Proofs.Session.Frames
import Lox.Proofs.Session.Braces
import Lox.Proofs.Session.ForLoops
import Lox.Proofs.Session.LoopTests
import Lox.Proofs.Session.Receivers
import Lox.Proofs.Session.Renaming
import Lox.Proofs.Session.Identity
import Lox.Proofs.Syntax.Resumption
import Lox.Proofs.Syntax.Viability
import Lox.Proofs.Syntax.UniqueReading
