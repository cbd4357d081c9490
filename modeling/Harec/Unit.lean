import Harec.Check

/-!
# Declarations, the scan pass and `check`

The second half of `check.c`: the checking of each kind of top-level declaration,
the scan pass that fills the unit scope with the declarations' objects before any
body is checked, and `check`, which runs the scan pass over every subunit and then
the check pass over every subunit in its own scope.
-/

namespace Harec

section Unit

variable (env : Env)

/-- The syntactic type `check_function` and `scan_function` intern for a prototype. -/
def fnAtype (prototype : AstFunctionType AstType) : AstType :=
  .function ⟨"", 0, 0⟩ ⟨true⟩ prototype

/-- The identifier of a function or global: its `@symbol` verbatim, or its name in the
unit's namespace. -/
def declIdent (ns : Option Identifier) (symbol : Option String) (ident : Identifier) : Identifier :=
  match symbol with
  | some symbol => ⟨symbol, none⟩
  | none => mkident ns ident

/-- Inserting the parameters of a function into its scope; the last parameter of a
Hare-variadic function is a slice of its declared type. -/
def insertParams (scope : ScopeRef) (variadism : Variadism) :
    List (AstFunctionParameter AstType) → CheckM PUnit
  | [] => pure ()
  | param :: params => do
      let some name := param.name | throw (.expect param.loc "Function parameters must be named")
      let type := env.lookupAtype param.type
      let type := if variadism = .hare && params.isEmpty then env.lookupSlice type else type
      let _ ← scopeInsert (some scope) .bind ⟨name, none⟩ ⟨name, none⟩ type none
      insertParams scope variadism params

/-- `check_function`.  A prototype gives no declaration.  A body that terminates is not
checked against the result type. -/
def checkFunction (adecl : AstDecl) (afndecl : AstFunctionDecl) : CheckM (Option Declaration) := do
  let some abody := afndecl.body | pure none
  let fntype := env.lookupAtype (fnAtype afndecl.prototype)
  modify fun ctx => { ctx with currentFntype := some fntype }
  let func := (env.get fntype).func
  expect adecl.loc (func.variadism != .c) "C-style variadism is not allowed for function declarations"
  let ident := declIdent (← get).ns afndecl.symbol afndecl.ident
  let scope ← scopePush
  insertParams env scope func.variadism afndecl.prototype.params
  let body ← checkExpression env abody (some func.result)
  let assignable ← if body.terminates then pure true
    else do pure (env.isAssignable func.result (← resultOf body))
  expect abody.loc assignable "Result value is not assignable to function result type"
  let body := if !body.terminates && some func.result ≠ body.result then
    lowerImplicitCast func.result body else body
  let decl : Declaration :=
    ⟨ident, afndecl.symbol, false, .func ⟨fntype, afndecl.flags, body, scope⟩⟩
  if afndecl.flags.init || afndecl.flags.fini || afndecl.flags.test then
    expect adecl.loc (func.result = env.builtinVoid) "@flags function must return void"
    expect adecl.loc (!decl.exported) "@flags function cannot be exported"
  let _ ← scopePop
  modify fun ctx => { ctx with currentFntype := none }
  pure (some decl)

/-- `check_global`.  A global without initializer gives no declaration; the initializer
is stored evaluated. -/
def checkGlobal (agdecl : AstGlobalDecl) : CheckM (Option Declaration) := do
  let some init := agdecl.init | pure none
  let type := env.lookupAtype agdecl.type
  let initializer ← checkExpression env init (some type)
  expect init.loc (env.isAssignable type (← resultOf initializer))
    "Constant type is not assignable from initializer type"
  let some value := env.eval (lowerImplicitCast type initializer)
    | throw (.expect init.loc "Unable to evaluate global initializer at compile time")
  let ident := declIdent (← get).ns agdecl.symbol agdecl.ident
  pure (some ⟨ident, agdecl.symbol, false, .global ⟨type, value⟩⟩)

/-- `check_type`. -/
def checkType (atdecl : AstTypeDecl) : CheckM Declaration := do
  let type := env.lookupAtype atdecl.type
  pure ⟨mkident (← get).ns atdecl.ident, none, false, .type type⟩

/-- The declaration `check_declarations` emits for one AST declaration, if any, exported
as the AST declaration is. -/
def checkDecl (adecl : AstDecl) : CheckM (Option Declaration) :=
  (fun decl => decl.map fun decl => { decl with exported := adecl.exported }) <$>
    match adecl.decl with
    | .constant _ => pure none
    | .function afndecl => checkFunction env adecl afndecl
    | .global agdecl => checkGlobal env agdecl
    | .type atdecl => some <$> checkType env atdecl

/-- `check_declarations`: the declarations emitted by a list of AST declarations, in
order. -/
def checkDeclarations : List AstDecl → CheckM (List Declaration)
  | [] => pure []
  | adecl :: adecls => do
      let decl ← checkDecl env adecl
      let decls ← checkDeclarations adecls
      pure (decl.toList ++ decls)

/-- `scan_const`: the constant is checked, evaluated and inserted into the unit scope. -/
def scanConst (decl : AstGlobalDecl) : CheckM PUnit := do
  assertC decl.symbol.isNone
  let type := env.lookupAtype decl.type
  let init ← deref decl.init
  let initializer ← checkExpression env init (some type)
  expect init.loc (env.isAssignable type (← resultOf initializer))
    "Constant type is not assignable from initializer type"
  let some value := env.eval (lowerImplicitCast type initializer)
    | throw (.expect init.loc "Unable to evaluate constant initializer at compile time")
  let ctx ← get
  let _ ← scopeInsert ctx.unit .const (mkident ctx.ns decl.ident) decl.ident type (some value)

/-- `scan_function`. -/
def scanFunction (decl : AstFunctionDecl) : CheckM PUnit := do
  let fntype := env.lookupAtype (fnAtype decl.prototype)
  let ctx ← get
  let _ ← scopeInsert ctx.unit .decl (declIdent ctx.ns decl.symbol decl.ident) decl.ident fntype none

/-- `scan_global`. -/
def scanGlobal (decl : AstGlobalDecl) : CheckM PUnit := do
  let type := env.lookupAtype decl.type
  let ctx ← get
  let _ ← scopeInsert ctx.unit .decl (declIdent ctx.ns decl.symbol decl.ident) decl.ident type none

/-- The constant `scan_type` makes of an enum value, typed by the enum's alias. -/
def enumConstant (aliasType : TypeRef) (value : TypeEnumValue) : Expression :=
  .mk (some aliasType) false
    (.constant (if env.isSigned aliasType then .ival value.ival else .uval value.uval) [])

/-- `scan_type`: the type is inserted into the unit scope; each value of an enum type is
inserted as a constant of the enum's alias type, looked up by its name under the
qualified type name. -/
def scanType (decl : AstTypeDecl) : CheckM PUnit := do
  let type := env.lookupAtype decl.type
  let ctx ← get
  let ident := mkident ctx.ns decl.ident
  let _ ← scopeInsert ctx.unit .type ident decl.ident type none
  if env.storage type = .enum then
    for value in (env.get type).enumValues do
      let aliasType := env.lookupAtype (.alias decl.type.loc ⟨false⟩ false decl.ident)
      let ctx ← get
      let _ ← scopeInsert ctx.unit .const ⟨value.name, some decl.ident⟩ ⟨value.name, some ident⟩
        aliasType (some (enumConstant env aliasType value))

/-- The scan of one declaration, by its kind: the body of the loop of `scan_declarations`. -/
def scanDecl (decl : AstDecl) : CheckM PUnit :=
  match decl.decl with
  | .constant c => scanConst env c
  | .function f => scanFunction env f
  | .global g => scanGlobal env g
  | .type t => scanType env t

/-- `scan_declarations`. -/
def scanDeclarations : List AstDecl → CheckM PUnit
  | [] => pure ()
  | decl :: decls => do
      scanDecl env decl
      scanDeclarations decls

/-- The first pass over one subunit: scanned in a scope of its own, which is returned. -/
def scanSubunit (su : AstSubunit) : CheckM ScopeRef := do
  let _ ← scopePush
  assertC su.imports.isEmpty
  scanDeclarations env su.decls
  scopePop

/-- The second pass over the subunits, each in the scope its scan used. -/
def checkSubunits : List AstSubunit → List ScopeRef → CheckM (List Declaration)
  | su :: sus, scope :: scopes => do
      modify fun ctx => { ctx with scope := some scope }
      let decls ← checkDeclarations env su.decls
      let rest ← checkSubunits sus scopes
      pure (decls ++ rest)
  | _, _ => pure []

/-- The first pass of `check`: the unit scope, then the scan of every subunit; the
subunits' scopes in order. -/
def scanPass (ns : Option Identifier) (aunit : AstUnit) : CheckM (List ScopeRef) := do
  modify fun ctx => { ctx with ns := ns }
  let unit ← scopePush
  modify fun ctx => { ctx with unit := some unit }
  aunit.subunits.mapM (scanSubunit env)

/-- `check`: the scan pass over every subunit, then the check pass. -/
def check (ns : Option Identifier) (aunit : AstUnit) : CheckM TypedUnit := do
  let scopes ← scanPass env ns aunit
  let decls ← checkSubunits env aunit.subunits scopes
  pure ⟨ns, decls⟩

/-- A run of `check` is a run of the scan pass followed by one of the check pass. -/
theorem check_run (ns : Option Identifier) (aunit : AstUnit) (ctx : Context) :
    (check env ns aunit).run ctx = ((scanPass env ns aunit).run ctx).bind
      (fun p => ((checkSubunits env aunit.subunits p.1).run p.2).map fun q => (⟨ns, q.1⟩, q.2)) := by
  simp only [check, StateT.run_bind]
  rfl

end Unit

end Harec
