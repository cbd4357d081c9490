import Harec.Reference
import Harec.Tree

/-!
# Checks that read the function being checked

`check_expr_return` types a returned value by the result type of `ctx->current_fntype`,
which `check_function` sets while it checks a body and clears after it (§4.4).  The
initializers of constants and globals are checked with no function set.

* A `return` without a value is accepted in every context: nothing tests the function's
  result type, nor that a function is being checked at all.
* A `return` with a value reads `ctx->current_fntype` without testing it: outside a function
  that is a null dereference, not a diagnostic.
* Inside a function a value is accepted exactly when its type is assignable to the result
  type, and is stored at that type (`checkExprReturn_some_run`).

`check_function` tests the attributes `@init`, `@fini` and `@test`: such a function must
return `void` and must not be exported.  The exported test reads the flag of the declaration
`check_function` has just allocated, which is still unset; `check_declarations` copies the
flag of the AST declaration only after `check_function` has returned.  So exporting a
declaration never changes whether it is accepted (`checkDecl_exported_run`).
-/

namespace Harec

section Return

variable (env : Env) {ctx : Context}

theorem checkExprReturn_none_run (ctx : Context) :
    (checkExprReturn env none).run ctx = .ok (.mk (some env.builtinVoid) true (.return none), ctx) :=
  rfl

theorem checkExprReturn_noFunction_run (h : ctx.currentFntype = none) (value : Child) :
    (checkExprReturn env (some value)).run ctx = .error .nullDeref := by
  simp only [checkExprReturn, StateT.run_bind, StateT.run_get, pure_bind, h]
  rfl

/-- In a function whose result type is `r`, a returned value is checked with `r` as hint,
accepted exactly when its type is assignable to `r`, and stored cast to `r`. -/
theorem checkExprReturn_some_run {f : TypeRef} (hf : ctx.currentFntype = some f) (value : Child) :
    (checkExprReturn env (some value)).run ctx =
      ((value.check (some (env.get f).func.result)).run ctx).bind fun p =>
        match p.1.result with
        | none => .error .nullDeref
        | some t =>
          if env.isAssignable (env.get f).func.result t then
            .ok (.mk (some env.builtinVoid) true
              (.return (some (lowerImplicitCast (env.get f).func.result p.1))), p.2)
          else .error (.expect value.ast.loc "Return value is not assignable to function result type") := by
  simp only [checkExprReturn, StateT.run_bind, StateT.run_get, pure_bind, hf]
  show ((value.check _).run ctx >>= _) = _
  congr 1
  funext ⟨v, c⟩
  cases hr : v.result with
  | none => simp [resultOf, hr]; rfl
  | some t =>
    have hc : (if (env.get f).func.result = t then v else lowerImplicitCast (env.get f).func.result v) =
        lowerImplicitCast (env.get f).func.result v := by
      unfold lowerImplicitCast
      split <;> simp_all
    simp only [resultOf, hr, expect]
    by_cases ha : env.isAssignable (env.get f).func.result t <;> simp [ha, hc] <;> rfl

end Return

section Flags

variable (env : Env)

/-- `check_function` reads only the location of its AST declaration. -/
theorem checkFunction_exported (adecl : AstDecl) (b : Bool) (afndecl : AstFunctionDecl) :
    checkFunction env { adecl with exported := b } afndecl = checkFunction env adecl afndecl :=
  rfl

/-- Exporting a declaration changes only the flag of the declaration `check_declarations`
emits, never whether it is accepted: the `@flags` test of `check_function` on the exported
flag reads the flag before it is set. -/
theorem checkDecl_exported_run (adecl : AstDecl) (b : Bool) (ctx : Context) :
    (checkDecl env { adecl with exported := b }).run ctx =
      ((checkDecl env adecl).run ctx).map fun p => (p.1.map ({ · with exported := b }), p.2) := by
  have key : ∀ x : Except Abort (Option Declaration × Context),
      (fun p => (p.1.map ({ · with exported := b }), p.2)) <$> x =
        ((fun p => (p.1.map ({ · with exported := adecl.exported }), p.2)) <$> x).map
          fun p => (p.1.map ({ · with exported := b }), p.2) := by
    rintro (_ | ⟨_ | _, _⟩) <;> rfl
  exact key _

end Flags

open Reference

/-- `fn f() int = return;` -/
def valuelessReturnUnit : AstUnit :=
  unitOf (functionDecl "f" .int (.return here none))

/-- `let g: int = return 1;` -/
def globalReturnUnit : AstUnit :=
  unitOf ⟨here, false, .global ⟨none, ⟨"g", none⟩, builtinType .int,
    some (.return here (some (const .int (.ival 1))))⟩⟩

/-- `check` accepts a function with result type `int` whose body returns no value, and
it stops on the null function type when a global's initializer returns a value. -/
theorem check_return_unchecked :
    abortOf ((check env none valuelessReturnUnit).run initialContext) = none ∧
      abortOf ((check env none globalReturnUnit).run initialContext) = some .nullDeref := by
  constructor
  · rw [check_run, valuelessReturnUnit, scanPass_functionDecl_int]
    decide
  · decide

/-- `export @test fn f() void = void;` -/
def exportedTestUnit : AstUnit :=
  unitOf ⟨here, true, .function ⟨none, ⟨"f", none⟩, ⟨builtinType .void, [], .none⟩,
    some (const .void .none), ⟨false, false, true⟩⟩⟩

/-- The scan pass inserts the exported `@test` function as it inserts any other. -/
theorem scanPass_exportedTestUnit :
    (scanPass env none exportedTestUnit).run initialContext = .ok ([1], scannedContext [declObject "f" 9]) :=
  rfl

/-- `check` accepts an exported `@test` function, and emits it exported. -/
theorem check_exportedTest_accepted :
    ((check env none exportedTestUnit).run initialContext).toOption.map
      (fun r => r.1.declarations.map fun d => match d.decl with
        | .func f => some (d.exported, f.flags.test)
        | _ => none) = some [some (true, true)] := by
  rw [check_run, scanPass_exportedTestUnit]
  decide

end Harec
