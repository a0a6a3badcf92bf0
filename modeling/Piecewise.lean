import Piecewise.Main
import Piecewise.Proofs.Diagnostic.Caret
import Piecewise.Proofs.Evaluation.Connectives
import Piecewise.Proofs.Evaluation.Erasure
import Piecewise.Proofs.Evaluation.Rebuilt
import Piecewise.Proofs.Grammar.Complete
import Piecewise.Proofs.Grammar.SoundProgram
import Piecewise.Proofs.Run.BuiltinBodies
import Piecewise.Proofs.Run.Concatenation
import Piecewise.Proofs.Run.Conditional
import Piecewise.Proofs.Run.Order
import Piecewise.Proofs.Run.Places
import Piecewise.Proofs.Run.Renamed
import Piecewise.Proofs.Token.Segmentation
import Piecewise.Proofs.Ty.ReadBack
import Piecewise.Proofs.Typing.Mismatches
import Piecewise.Proofs.Token.Layout
import Piecewise.Proofs.Token.Literals
import Piecewise.Proofs.Run.Layout
import Piecewise.Proofs.Scope.Table
import Piecewise.Proofs.Run.Entry
import Piecewise.Proofs.Typing.Rejected
import Piecewise.Proofs.Run.Settings
import Piecewise.Proofs.Scope.Sessions
import Piecewise.Proofs.Ty.Unification
import Piecewise.Proofs.Scope.TableStack
import Piecewise.Grammar.Unbounded
import Piecewise.Proofs.Grammar.Unbounded
