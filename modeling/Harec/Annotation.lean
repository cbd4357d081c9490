import Harec.Tree
import Harec.Reference

/-!
# The annotations of typed nodes

Every typed node carries `result` and `terminates` (§3).  `terminates` is meant to say
that control cannot flow past the node: `check_function` accepts a body that terminates
without checking its result against the function's result type.  This module states
what the two annotations should satisfy, by the static control flow of the typed tree,
and runs the checker where `check_expr_if` and `check_expr_control` set them otherwise.

* `Expression.mayFallThrough`: whether control may reach the end of a node, taking
  every condition as able to go either way and every switch as exhaustive.
* `Expression.terminatesSound`: no node that claims to terminate may fall through.
* `Expression.terminationRules`: the rules of §8.5 at every node: `return`, `break`,
  `continue` and an assertion without condition terminate, and so do an `if` whose two
  branches terminate and a block whose last expression terminates.
* `Expression.annotated`: every node has a result type (§8.1).
-/

namespace Harec

mutual

/-- Whether control may flow past a node. -/
def Expression.mayFallThrough : Expression → Bool
  | .mk _ _ node => node.mayFallThrough

/-- Whether control may flow past a node with this payload. -/
def ExpressionNode.mayFallThrough : ExpressionNode → Bool
  | .return _ | .control _ _ => false
  | .assert cond _ => cond.isSome
  | .if _ _ none => true
  | .if _ trueBranch (some falseBranch) => trueBranch.mayFallThrough || falseBranch.mayFallThrough
  | .list _ exprs => Expression.allMayFallThrough exprs
  | .switch _ cases => Expression.someCaseMayFallThrough cases
  | .cast .cast value none => value.mayFallThrough
  | _ => true

/-- Every expression of a block may fall through. -/
def Expression.allMayFallThrough : List Expression → Bool
  | [] => true
  | e :: es => e.mayFallThrough && Expression.allMayFallThrough es

/-- Some case body of a switch may fall through. -/
def Expression.someCaseMayFallThrough : List (SwitchCase Expression) → Bool
  | [] => false
  | c :: cs => c.value.mayFallThrough || Expression.someCaseMayFallThrough cs

end

/-- No node of the tree has `terminates` set while control may flow past it. -/
def Expression.terminatesSound (e : Expression) : Bool :=
  e.all fun n => !n.terminates || !n.mayFallThrough

/-- The termination rules of §8.5 at one node. -/
def Expression.terminationRule : Expression → Bool
  | .mk _ t (.return _) | .mk _ t (.control _ _) | .mk _ t (.assert none _) => t
  | .mk _ t (.if _ trueBranch (some falseBranch)) =>
      !(trueBranch.terminates && falseBranch.terminates) || t
  | .mk _ t (.list _ exprs) => !(exprs.getLast?.map Expression.terminates).getD false || t
  | _ => true

/-- The termination rules of §8.5 at every node. -/
def Expression.terminationRules (e : Expression) : Bool := e.all Expression.terminationRule

/-- Every node of the tree has a result type. -/
def Expression.annotated (e : Expression) : Bool := e.all fun n => n.result.isSome

open Reference

/-- `fn f() int = { if (true) return 1; };` -/
def ifWithoutElseUnit : AstUnit :=
  unitOf (functionDecl "f" .int
    (.list here [.if here (const .bool (.bval true)) (.return here (some (const .int (.ival 1)))) none]))

/-- `check` accepts `ifWithoutElseUnit`: the function's body terminates by its flag, which
`check_expr_if` copies from the branch of the `if`, yet may fall through, and the body
was not checked against the result type `int`. -/
theorem check_ifWithoutElse_fallThrough :
    ((check env none ifWithoutElseUnit).run initialContext).toOption.map
      (fun r => r.1.declarations.map fun d => d.body?.map fun body =>
        (body.terminates, body.mayFallThrough, body.terminatesSound)) =
      some [some (true, true, false)] := by
  rw [check_run, ifWithoutElseUnit, scanPass_functionDecl_int]
  decide

/-- `fn f() void = if (true) return else return;` -/
def ifElseReturnUnit : AstUnit :=
  unitOf (functionDecl "f" .void
    (.if here (const .bool (.bval true)) (.return here none) (some (.return here none))))

/-- `fn f() int = if (true) return 1 else return 2;` -/
def ifElseReturnIntUnit : AstUnit :=
  unitOf (functionDecl "f" .int
    (.if here (const .bool (.bval true)) (.return here (some (const .int (.ival 1))))
      (some (.return here (some (const .int (.ival 2)))))))

/-- `check` accepts `ifElseReturnUnit`, and the body, an `if` both of whose branches
terminate, does not have `terminates` set; for the same reason it rejects
`ifElseReturnIntUnit`: the body does not terminate by its flag, and its result type `void`
is not assignable to `int`. -/
theorem check_ifElseReturn_unterminated :
    ((check env none ifElseReturnUnit).run initialContext).toOption.map
      (fun r => r.1.declarations.map fun d => d.body?.map fun body =>
        (body.terminates, body.terminationRules)) =
      some [some (false, false)] ∧
    abortOf ((check env none ifElseReturnIntUnit).run initialContext) =
      some (.expect here "Result value is not assignable to function result type") := by
  constructor
  · rw [check_run, ifElseReturnUnit, scanPass_functionDecl_void]
    decide
  · rw [check_run, ifElseReturnIntUnit, scanPass_functionDecl_int]
    decide

/-- `fn f() void = for (true) break;` -/
def forBreakUnit : AstUnit :=
  unitOf (functionDecl "f" .void
    (.for here none here none (const .bool (.bval true)) none (.control here .break none)))

/-- `check` accepts `forBreakUnit`, and the body has a node without result type: the
`break`, to which `check_expr_control` assigns none. -/
theorem check_forBreak_unannotated :
    ((check env none forBreakUnit).run initialContext).toOption.map
      (fun r => r.1.declarations.map fun d => d.body?.map Expression.annotated) =
      some [some false] := by
  rw [check_run, forBreakUnit, scanPass_functionDecl_void]
  decide

end Harec
