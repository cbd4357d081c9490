import Harec.Ast
import Harec.Types
import Harec.Expr
import Harec.Scope
import Harec.Monad
import Harec.Check
import Harec.Induction
import Harec.Unit
import Harec.Tree
import Harec.Kinds
import Harec.Yields
import Harec.Runs
import Harec.Reference
import Harec.Frame
import Harec.Passes
import Harec.Declarations
import Harec.Annotation
import Harec.Assign
import Harec.Call
import Harec.Statics
import Harec.Loops
import Harec.Labels
import Harec.Functions
import Harec.Assertions
import Harec.Arrays
import Harec.UnitLabels
import Harec.Bindings
import Harec.Decides
import Harec.Defers
import Harec.Pointers
import Harec.UnitPointers
import Harec.Arena
import Harec.Resolution
