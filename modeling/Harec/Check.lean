import Harec.Scope

/-!
# The expression checker

`check_expression` and the `check_expr_*` function of each expression kind
(`check.c`), one definition each, in the order of the source.

`check_expression(ctx, aexpr, expr, hint)` elaborates `aexpr` into `expr` under the
context `ctx`; here it is a function of the syntax tree and the hint into `CheckM`.
Each `check_expr_*` function receives its children as `Child`ren: the child's syntax
tree with the checker's action on it.  `checkExpression` supplies those actions, so
that the `check_expr_*` functions read as the C code does, calling a child's action
where the C code calls `check_expression` on the child, and the recursion stays
structural in the syntax tree.

The type store, the constant evaluator and identifier unparsing live outside
`check.c`; they are the fields of `Env`.
-/

namespace Harec

/-- The collaborators of the checker: the type store, `eval_expr` (`some` result for
`EVAL_OK`) and `identifier_unparse_static`. -/
structure Env extends TypeStore where
  eval : Expression → Option Expression
  identifierUnparse : Identifier → String

/-- A child of a syntax node, with `check_expression` on it as a function of the hint. -/
structure Child where
  ast : AstExpression
  check : Option TypeRef → CheckM Expression

section Check

variable (env : Env)

/-- `check_expr_access` on an identifier.  A constant is replaced by its value. -/
def checkExprAccessIdentifier (loc : Location) (ident : Identifier) : CheckM Expression := do
  let ctx ← get
  let some (ref, obj) := ctx.scopeLookup ident
    | throw (.expect loc ("Unknown object '" ++ env.identifierUnparse ident ++ "'"))
  match obj.otype with
  | .const => deref obj.value
  | .bind | .decl => pure (.mk (some obj.type) false (.accessIdentifier ref))
  | .type => throw (.expect loc "Expected identifier, got type")

/-- `check_expr_access` on an index expression. -/
def checkExprAccessIndex (array index : Child) : CheckM Expression := do
  let a ← array.check none
  let i ← index.check none
  let atype ← resultOf a
  let some atype := env.dereference atype
    | throw (.expect array.ast.loc "Cannot dereference nullable pointer for indexing")
  let itype := env.dealias (← resultOf i)
  expect array.ast.loc (env.storage atype = .array || env.storage atype = .slice)
    ("Cannot index non-array, non-slice " ++ env.storageUnparse (env.storage atype) ++ " object")
  expect index.ast.loc (env.isInteger itype)
    ("Cannot use non-integer " ++ env.storageUnparse (env.storage itype) ++
      " type as slice/array index")
  let members ← deref (env.get atype).array.members
  let result := env.lookupWithFlags members ((env.get atype).flags.or (env.get members).flags)
  pure (.mk (some result) false (.accessIndex a (lowerImplicitCast env.builtinSize i)))

/-- `check_expr_access` on a field selection. -/
def checkExprAccessField (object : Child) (name : String) : CheckM Expression := do
  let o ← object.check none
  let some stype := env.dereference (← resultOf o)
    | throw (.expect object.ast.loc "Cannot dereference nullable pointer for field selection")
  expect object.ast.loc (env.storage stype = .struct || env.storage stype = .union)
    "Cannot index non-struct, non-union object"
  let some field := env.getField stype name
    | throw (.expect object.ast.loc ("No such struct field '" ++ name ++ "'"))
  pure (.mk (some field.type) false (.accessField o field))

/-- The text `check_expr_assert` gives a failed assertion without a message. -/
def assertionText (loc : Location) : String :=
  "Assertion failed: " ++ loc.path ++ ":" ++ toString loc.lineno ++ ":" ++ toString loc.colno

/-- `check_expr_assert`.  Without a message it synthesises one: `n` is the length
`snprintf` reports for the text, and `snprintf(s, n, ...)` writes its first `n - 1`
bytes and a terminating null into the zeroed buffer. -/
def checkExprAssert (loc : Location) (cond message : Option Child) : CheckM Expression := do
  let c ← match cond with
    | some cond => do
        let c ← cond.check (some env.builtinBool)
        expect cond.ast.loc (env.storage (← resultOf c) = .bool)
          "Assertion condition must be boolean"
        pure (some c)
    | none => pure none
  let m ← match message with
    | some message => do
        let m ← message.check (some env.builtinStr)
        expect message.ast.loc (env.storage (← resultOf m) = .string)
          "Assertion message must be string"
        pure m
    | none =>
        let text := (assertionText loc).toUTF8.toList
        pure (.mk (some env.builtinConstStr) false
          (.constant (.string text.length (text.take (text.length - 1) ++ [0])) []))
  pure (.mk (some env.builtinVoid) cond.isNone (.assert c m))

/-- `check_expr_assign`.  The value is checked with the object's type as hint. -/
def checkExprAssign (loc : Location) (op : Option BinarithmOperator) (indirect : Bool)
    (object value : Child) : CheckM Expression := do
  let o ← object.check none
  let v ← value.check o.result
  if indirect then
    let otype ← resultOf o
    expect loc (env.storage otype = .pointer) "Cannot dereference non-pointer type for assignment"
    expect loc (!(env.get otype).pointer.nullable) "Cannot dereference nullable pointer type"
    let referent := (env.get otype).pointer.referent
    expect loc (env.isAssignable referent (← resultOf v)) "Value type is not assignable to pointer type"
    pure (.mk (some env.builtinVoid) false (.assign op indirect o (lowerImplicitCast referent v)))
  else
    assertC o.node.isAccess
    let otype ← resultOf o
    expect loc (!(env.get otype).flags.isConst) "Cannot assign to const object"
    expect loc (env.isAssignable otype (← resultOf v)) "rvalue type is not assignable to lvalue"
    pure (.mk (some env.builtinVoid) false (.assign op indirect o (lowerImplicitCast otype v)))

/-- The operators `check_expr_binarithm` types as their operands' type; the others give
`bool`. -/
def BinarithmOperator.isNumeric : BinarithmOperator → Bool
  | .band | .bor | .div | .lshift | .minus | .modulo | .plus | .rshift | .times | .bxor => true
  | .greater | .greatereq | .land | .lequal | .less | .lesseq | .lor | .lxor | .nequal => false

/-- `check_expr_binarithm`.  Both operands must have the same storage class. -/
def checkExprBinarithm (op : BinarithmOperator) (lvalue rvalue : Child) : CheckM Expression := do
  let l ← lvalue.check none
  let r ← rvalue.check none
  let ltype ← resultOf l
  assertC (env.storage ltype = env.storage (← resultOf r))
  let result := if op.isNumeric then ltype else env.builtinBool
  pure (.mk (some result) false (.binarithm op l r))

/-- The identifier `static.N` that `check_expr_binding` gives a static binding when the
counter `ctx->id` is `N`. -/
def staticIdent (n : Nat) : Identifier := ⟨"static." ++ toString n, none⟩

/-- The type of a binding: the declared type, or else the initializer's type with the
binding's flags. -/
def bindingType (declared : Option TypeRef) (initializer : Expression) (flags : TypeFlags) :
    CheckM TypeRef :=
  match declared with
  | some type => pure type
  | none => do pure (env.lookupWithFlags (← resultOf initializer) flags)

/-- One iteration of the loop of `check_expr_binding`.  A static binding is evaluated
and named `static.N` after the counter `ctx->id`, which it then increments; the value
is stored in a local variable only, so the binding keeps its checked initializer. -/
def checkBinding (loc : Location) (b : AstBinding Child) :
    CheckM (ExpressionBinding Expression) := do
  let type := b.type.map fun atype =>
    let t := env.lookupAtype atype
    env.lookupWithFlags t ((env.get t).flags.or b.flags)
  let ident : Identifier := ⟨b.name, none⟩
  let initializer ← b.initializer.check type
  let type ← bindingType env type initializer b.flags
  expect loc ((env.get type).size != 0 && (env.get type).size != env.sizeUndefined)
    "Cannot create binding for type of zero or undefined size"
  expect loc (env.isAssignable type (← resultOf initializer))
    "Initializer is not assignable to binding type"
  let stored := lowerImplicitCast type initializer
  if !b.isStatic then
    let object ← scopeInsert (← get).scope .bind ident ident type none
    pure ⟨object, stored⟩
  else
    let some _ := env.eval initializer
      | throw (.expect b.initializer.ast.loc "Unable to evaluate static initializer at compile time")
    let ctx ← get
    set { ctx with id := ctx.id + 1 }
    let object ← scopeInsert (← get).scope .decl (staticIdent ctx.id) ident type none
    pure ⟨object, stored⟩

/-- `check_expr_binding`.  An empty list stands for the zeroed embedded first binding,
whose null initializer the C code would read. -/
def checkExprBinding (loc : Location) (bindings : List (AstBinding Child)) :
    CheckM Expression := do
  if bindings.isEmpty then throw .nullDeref
  let bs ← bindings.mapM (checkBinding env loc)
  pure (.mk (some env.builtinVoid) false (.binding bs))

/-- The item loop of `check_expr_array`: the element type so far, the checked items and
whether an item was marked for expansion. -/
def checkArrayItems (type : Option TypeRef) :
    List (AstArrayConstant Child) → CheckM (List (ArrayConstant Expression) × Option TypeRef × Bool)
  | [] => pure ([], type, false)
  | item :: rest => do
      let value ← item.value.check type
      let (type, cur) ← match type with
        | none => pure (value.result, value)
        | some t => do
            expect item.value.ast.loc (env.isAssignable t (← resultOf value))
              "Array members must be of a uniform type"
            pure (some t, lowerImplicitCast t value)
      if item.expand then assertC rest.isEmpty
      let (curs, type, expandable) ← checkArrayItems type rest
      pure (⟨cur, false⟩ :: curs, type, item.expand || expandable)

/-- Marking the first item of an array constant expanded. -/
def markExpand : List (ArrayConstant Expression) → List (ArrayConstant Expression)
  | [] => []
  | item :: rest => { item with expand := true } :: rest

/-- `check_expr_array`.  The element type is the hint's member type when there is a
hint, otherwise the first element's type. -/
def checkExprArray (loc : Location) (items : List (AstArrayConstant Child))
    (hint : Option TypeRef) : CheckM Expression := do
  let type := hint.bind fun h => (env.get h).array.members
  let (values, type, expandable) ← checkArrayItems env type items
  let len := items.length
  if expandable then
    let some h := hint | throw (.expect loc "Cannot expand array for inferred type")
    expect loc (env.storage h = .array && (env.get h).array.length != env.sizeUndefined
        && decide ((env.get h).array.length ≥ len))
      "Cannot expand array into destination type"
    let result := env.lookupArray (← deref type) (env.get h).array.length
    pure (.mk (some result) false (.constant .none (markExpand values)))
  else
    let result := env.lookupArray (← deref type) len
    pure (.mk (some result) false (.constant .none values))

/-- `check_expr_constant`. -/
def checkExprConstant (loc : Location) (storage : Storage) (value : ConstValue)
    (array : List (AstArrayConstant Child)) (hint : Option TypeRef) : CheckM Expression := do
  let result := env.builtinForStorage storage false
  match storage with
  | .i8 | .i16 | .i32 | .i64 | .int | .u8 | .u16 | .u32 | .u64 | .uint | .size | .rune
  | .bool | .string => pure (.mk result false (.constant value []))
  | .null | .void => pure (.mk result false (.constant .none []))
  | .array => checkExprArray env loc array hint
  | .f32 | .f64 | .struct | .char | .enum | .uintptr | .alias | .function | .pointer
  | .slice | .taggedUnion | .union => throw .assertion

/-- `lower_vaargs`: the remaining arguments of a call, checked as an array literal whose
member type is the variadic parameter's member type. -/
def lowerVaargs (loc : Location) (aargs : List (AstCallArgument Child)) (type : Option TypeRef) :
    CheckM Expression := do
  let hint := env.lookupArray (← deref type) env.sizeUndefined
  let vaargs ← checkExprConstant env loc .array .none
    (aargs.map fun aarg => ⟨aarg.value, false⟩) (some hint)
  let vtype ← resultOf vaargs
  assertC (env.storage vtype = .array)
  expect loc ((env.get vtype).array.members = type)
    "Argument is not assignable to variadic parameter type"
  pure vaargs

/-- The argument loop of `check_expr_call`: the checked arguments, then the arguments
and the parameters left when it stops. -/
def checkCallArgs (variadism : Variadism) :
    List TypeRef → List (AstCallArgument Child) →
      CheckM (List Expression × List (AstCallArgument Child) × List TypeRef)
  | param :: params, aarg :: aargs => do
      if params.isEmpty && variadism = .hare && !aarg.variadic then
        let vaargs ← lowerVaargs env aarg.value.ast.loc (aarg :: aargs)
          (env.get param).array.members
        pure ([lowerImplicitCast param vaargs], [], [])
      else
        let v ← aarg.value.check (some param)
        expect aarg.value.ast.loc (env.isAssignable param (← resultOf v))
          "Argument is not assignable to parameter type"
        let (args, aargs, params) ← checkCallArgs variadism params aargs
        pure (lowerImplicitCast param v :: args, aargs, params)
  | params, aargs => pure ([], aargs, params)

/-- `check_expr_call`. -/
def checkExprCall (loc : Location) (lvalue : Child) (aargs : List (AstCallArgument Child)) :
    CheckM Expression := do
  let l ← lvalue.check none
  let some fntype := env.dereference (← resultOf l)
    | throw (.expect loc "Cannot dereference nullable pointer type for function call")
  expect loc (env.storage fntype = .function) "Cannot call non-function type"
  let func := (env.get fntype).func
  let (args, aargs, params) ← checkCallArgs env func.variadism func.params aargs
  expect loc aargs.isEmpty "Too many parameters for function call"
  expect loc params.isEmpty "Not enough parameters for function call"
  pure (.mk (some func.result) false (.call l args))

/-- `check_expr_cast`. -/
def checkExprCast (kind : CastKind) (value : Child) (type : AstType) : CheckM Expression := do
  let secondary := env.lookupAtype type
  let v ← value.check (some secondary)
  expect type.loc (env.isCastable secondary (← resultOf v)) "Invalid cast"
  if kind = .assertion || kind = .test then
    let primary := env.dealias (← resultOf v)
    expect value.ast.loc (env.storage primary = .taggedUnion) "Expected a tagged union type"
    expect type.loc ((env.get primary).tagged.any fun t => (env.get t).id = (env.get secondary).id)
      "Type is not a valid member of the tagged union type"
  let result := match kind with
    | .cast | .assertion => secondary
    | .test => env.builtinBool
  pure (.mk (some result) false (.cast kind v (some secondary)))

/-- `check_expr_defer`: no defer inside a deferred expression. -/
def checkExprDefer (loc : Location) (deferred : Child) : CheckM Expression := do
  expect loc (!(← get).deferring) "Cannot defer within another defer expression."
  modify fun ctx => { ctx with deferring := true }
  let d ← deferred.check none
  modify fun ctx => { ctx with deferring := false }
  pure (.mk (some env.builtinVoid) false (.defer d))

/-- Whether the scope at `r` is where `check_expr_control` stops looking for `label`: a
`for` scope, with that label if there is one. -/
def Context.isControlTarget (ctx : Context) (label : Option String) (r : ScopeRef) : Bool :=
  (ctx.scopeAt r).type = some .for &&
    match label with
    | none => true
    | some l => (ctx.scopeAt r).label = some l

/-- `check_expr_control`: `break` and `continue`.  The node gets no result type. -/
def checkExprControl (loc : Location) (type : ControlType) (label : Option String) :
    CheckM Expression := do
  let ctx ← get
  expect loc ((ctx.chain ctx.scope).any (ctx.isControlTarget label))
    ("Unknown label " ++ label.getD "(null)")
  pure (.mk none true (.control type label))

/-- `check_expression` on an optional child. -/
def Child.checkOpt : Option Child → Option TypeRef → CheckM (Option Expression)
  | some c, hint => some <$> c.check hint
  | none, _ => pure none

/-- The label test of `check_expr_for`: a label must differ from the label of every
labelled ancestor of the loop's scope. -/
def checkForLabel (labelLoc : Location) (scope : ScopeRef) : Option String → CheckM PUnit
  | none => pure ()
  | some l => do
      let ctx ← get
      for r in ctx.chain (ctx.scopeAt scope).parent do
        if let some l' := (ctx.scopeAt r).label then
          expect labelLoc (l' != l) "for loop label must be unique among its ancestors"

/-- A check in a scope of its own: `scope_push`, the scope's kind and label set, the check,
and `scope_pop`. -/
def inScope {α : Type} (type : ExprType) (label : Option String) (m : ScopeRef → CheckM α) :
    CheckM α := do
  let scope ← scopePush
  modify (·.setKind scope type label)
  let a ← m scope
  let _ ← scopePop
  pure a

/-- `check_expr_for`.  The loop's scope holds the bindings. -/
def checkExprFor (label : Option String) (labelLoc : Location) (bindings : Option Child)
    (cond : Child) (afterthought : Option Child) (body : Child) : CheckM Expression :=
  inScope .for label fun scope => do
    checkForLabel labelLoc scope label
    let b ← Child.checkOpt bindings none
    let c ← cond.check (some env.builtinBool)
    expect cond.ast.loc (env.storage (← resultOf c) = .bool) "Expected for condition to be boolean"
    let a ← Child.checkOpt afterthought none
    let body ← body.check none
    pure (.mk (some env.builtinVoid) false (.for label scope b c a body))

/-- `check_expr_if`.  With an `else`, a branch that terminates does not contribute to the
result type; without one, the node takes the `terminates` flag of its branch. -/
def checkExprIf (cond trueBranch : Child) (falseBranch : Option Child) : CheckM Expression := do
  let c ← cond.check (some env.builtinBool)
  let t ← trueBranch.check none
  match falseBranch with
  | some falseBranch => do
      let f ← falseBranch.check none
      let result ←
        if t.terminates && f.terminates then pure (some env.builtinVoid)
        else if t.terminates then pure f.result
        else if f.terminates then pure t.result
        else do
          assertC (t.result = f.result)
          pure t.result
      expect cond.ast.loc (env.storage (← resultOf c) = .bool) "Expected if condition to be boolean"
      pure (.mk result false (.if c t (some f)))
  | none => do
      expect cond.ast.loc (env.storage (← resultOf c) = .bool) "Expected if condition to be boolean"
      pure (.mk (some env.builtinVoid) t.terminates (.if c t none))

/-- `check_expr_list`: a new scope; the block's result and `terminates` flag are those of
its last expression.  An empty list stands for the zeroed embedded first element. -/
def checkExprList (exprs : List Child) : CheckM Expression :=
  inScope .list none fun scope => do
    let es ← exprs.mapM fun e => e.check none
    let last ← deref es.getLast?
    pure (.mk last.result last.terminates (.list scope es))

/-- `check_expr_measure`. -/
def checkExprMeasure (op : MeasureOperator) (value : Option Child) (type : Option AstType) :
    CheckM Expression := do
  match op with
  | .len =>
      let value ← deref value
      let v ← value.check none
      let vtype ← resultOf v
      expect value.ast.loc (env.storage vtype = .array || env.storage vtype = .slice
          || env.storage vtype = .string)
        "len argument must be of an array, slice, or str type"
      expect value.ast.loc ((env.get vtype).size != env.sizeUndefined)
        "Cannot take length of array type with undefined length"
      pure (.mk (some env.builtinSize) false (.measure .len (some v) none))
  | .size =>
      let type ← deref type
      pure (.mk (some env.builtinSize) false (.measure .size none (some (env.lookupAtype type))))
  | .offset => throw .assertion

/-- `check_expr_return`: the value is checked against the current function's result. -/
def checkExprReturn (value : Option Child) : CheckM Expression := do
  match value with
  | none => pure (.mk (some env.builtinVoid) true (.return none))
  | some value => do
      let fntype ← deref (← get).currentFntype
      let fresult := (env.get fntype).func.result
      let r ← value.check (some fresult)
      expect value.ast.loc (env.isAssignable fresult (← resultOf r))
        "Return value is not assignable to function result type"
      let r := if some fresult ≠ r.result then lowerImplicitCast fresult r else r
      pure (.mk (some env.builtinVoid) true (.return (some r)))

/-- A bound of `check_expr_slice`: an integer, cast to `size`. -/
def checkSliceBound (bound : Option Child) : CheckM (Option Expression) := do
  match bound with
  | none => pure none
  | some bound => do
      let b ← bound.check none
      let itype := env.dealias (← resultOf b)
      expect bound.ast.loc (env.isInteger itype)
        ("Cannot use non-integer " ++ env.storageUnparse (env.storage itype) ++
          " type as slicing operand")
      pure (some (lowerImplicitCast env.builtinSize b))

/-- `check_expr_slice`.  The storage test and the member type are read from the object's
own type, not from its dereferenced type. -/
def checkExprSlice (object : Child) (start «end» : Option Child) : CheckM Expression := do
  let o ← object.check none
  let otype ← resultOf o
  expect object.ast.loc (env.dereference otype).isSome "Cannot dereference nullable pointer for slicing"
  expect object.ast.loc (env.storage otype = .slice || env.storage otype = .array)
    "Cannot slice non-array, non-slice object"
  let s ← checkSliceBound env start
  let e ← checkSliceBound env «end»
  let members ← deref (env.get otype).array.members
  pure (.mk (some (env.lookupSlice members)) false (.slice o s e))

/-- A field of the struct literal's type: the descriptor of that name, the value cast to
its type. -/
def checkStructField (loc : Location) (stype : TypeRef) (afield : AstFieldValue Child)
    (value : Expression) : CheckM (ExpressionStruct Expression) := do
  let some field := env.getField stype afield.name
    | throw (.expect loc "No field by this name exists for this type")
  expect loc (env.isAssignable field.type (← resultOf value))
    "Cannot initialize struct field from value of this type"
  pure ⟨field, lowerImplicitCast field.type value⟩

/-- `check_expr_struct`: the values are checked against their declared field types, the
literal gets the interned const struct type of those fields, and each value is then cast
to the type of the field the store resolves by name.  An empty list stands for the zeroed
embedded first field. -/
def checkExprStruct (loc : Location) (autofill : Bool) (typeName : Option String)
    (fields : List (AstFieldValue Child)) : CheckM Expression := do
  assertC !autofill
  assertC typeName.isNone
  let values ← fields.mapM fun afield => do
    assertC !afield.isEmbedded
    afield.initializer.check (some (env.lookupAtype afield.type))
  if fields.isEmpty then throw .nullDeref
  let stype := env.lookupAtype (.structUnion ⟨"", 0, 0⟩ .struct ⟨true⟩
    (fields.map fun afield => ⟨afield.name, afield.type⟩))
  let sfields ← (fields.zip values).mapM fun (afield, value) =>
    checkStructField env loc stype afield value
  pure (.mk (some stype) false (.struct sfields))

/-- The options of one case of `check_expr_switch`: each of the scrutinee's type exactly,
and evaluated. -/
def checkCaseOptions (type : Option TypeRef) (options : List Child) : CheckM (List Expression) :=
  options.mapM fun aopt => do
    let v ← aopt.check type
    expect aopt.ast.loc (type = v.result) "Invalid type for switch case"
    let some evaled := env.eval v
      | throw (.expect aopt.ast.loc "Unable to evaluate case at compile time")
    pure evaled

/-- The case loop of `check_expr_switch`: the checked cases and the result type so far,
taken from the first case body that does not terminate. -/
def checkSwitchCases (type : Option TypeRef) :
    Option TypeRef → List (AstSwitchCase Child) → CheckM (List (SwitchCase Expression) × Option TypeRef)
  | result, [] => pure ([], result)
  | result, acase :: rest => do
      let options ← checkCaseOptions env type acase.options
      let body ← acase.value.check type
      let result ←
        if body.terminates then pure result
        else match result with
          | none => pure body.result
          | some r => do
              assertC (some r = body.result)
              pure result
      let (cases, result) ← checkSwitchCases type result rest
      pure (⟨options, body⟩ :: cases, result)

/-- `check_expr_switch`.  A switch all of whose cases terminate terminates. -/
def checkExprSwitch (value : Child) (cases : List (AstSwitchCase Child)) : CheckM Expression := do
  let v ← value.check none
  let (cs, result) ← checkSwitchCases env v.result none cases
  match result with
  | none => pure (.mk (some env.builtinVoid) true (.switch v cs))
  | some r => pure (.mk (some r) false (.switch v cs))

/-- `check_expr_unarithm`. -/
def checkExprUnarithm (op : UnarithmOperator) (operand : Child) : CheckM Expression := do
  let o ← operand.check none
  let otype ← resultOf o
  let loc := operand.ast.loc
  let result ← match op with
    | .lnot => do
        expect loc (env.storage otype = .bool) "Cannot perform logical NOT (!) on non-boolean type"
        pure env.builtinBool
    | .bnot => do
        expect loc (env.isInteger otype) "Cannot perform binary NOT (~) on non-integer type"
        expect loc (!env.isSigned otype) "Cannot perform binary NOT (~) on signed type"
        pure otype
    | .minus | .plus => do
        expect loc (env.isNumeric otype) "Cannot perform operation on non-numeric type"
        expect loc (env.isSigned otype) "Cannot perform operation on unsigned type"
        pure otype
    | .address => pure (env.lookupPointer otype false)
    | .deref => do
        expect loc (env.storage otype = .pointer) "Cannot de-reference non-pointer type"
        expect loc (!(env.get otype).pointer.nullable) "Cannot dereference nullable pointer type"
        pure (env.get otype).pointer.referent
  pure (.mk (some result) false (.unarithm op o))

mutual

/-- `check_expression`: dispatch on the expression kind. -/
def checkExpression : AstExpression → Option TypeRef → CheckM Expression
  | .accessIdentifier loc ident, _ => checkExprAccessIdentifier env loc ident
  | .accessIndex _ array index, _ =>
      checkExprAccessIndex env ⟨array, checkExpression array⟩ ⟨index, checkExpression index⟩
  | .accessField _ object field, _ => checkExprAccessField env ⟨object, checkExpression object⟩ field
  | .assert loc cond message, _ => checkExprAssert env loc (optChild cond) (optChild message)
  | .assign loc op indirect object value, _ =>
      checkExprAssign env loc op indirect ⟨object, checkExpression object⟩ ⟨value, checkExpression value⟩
  | .binarithm _ op lvalue rvalue, _ =>
      checkExprBinarithm env op ⟨lvalue, checkExpression lvalue⟩ ⟨rvalue, checkExpression rvalue⟩
  | .binding loc bindings, _ => checkExprBinding env loc (bindingChildren bindings)
  | .control loc type label, _ => checkExprControl loc type label
  | .call loc lvalue args, _ => checkExprCall env loc ⟨lvalue, checkExpression lvalue⟩ (argChildren args)
  | .cast _ kind value type, _ => checkExprCast env kind ⟨value, checkExpression value⟩ type
  | .constant loc storage value array, hint =>
      checkExprConstant env loc storage value (itemChildren array) hint
  | .defer loc deferred, _ => checkExprDefer env loc ⟨deferred, checkExpression deferred⟩
  | .for _ label labelLoc bindings cond afterthought body, _ =>
      checkExprFor env label labelLoc (optChild bindings) ⟨cond, checkExpression cond⟩
        (optChild afterthought) ⟨body, checkExpression body⟩
  | .if _ cond trueBranch falseBranch, _ =>
      checkExprIf env ⟨cond, checkExpression cond⟩ ⟨trueBranch, checkExpression trueBranch⟩
        (optChild falseBranch)
  | .list _ exprs, _ => checkExprList (children exprs)
  | .match _, _ => throw .assertion
  | .measure _ op value type, _ => checkExprMeasure env op (optChild value) type
  | .return _ value, _ => checkExprReturn env (optChild value)
  | .slice _ object start «end», _ =>
      checkExprSlice env ⟨object, checkExpression object⟩ (optChild start) (optChild «end»)
  | .struct loc autofill typeName fields, _ =>
      checkExprStruct env loc autofill typeName (fieldChildren fields)
  | .switch _ value cases, _ => checkExprSwitch env ⟨value, checkExpression value⟩ (caseChildren cases)
  | .unarithm _ op operand, _ => checkExprUnarithm env op ⟨operand, checkExpression operand⟩

/-- An optional child with its action. -/
def optChild : Option AstExpression → Option Child
  | none => none
  | some e => some ⟨e, checkExpression e⟩

/-- A list of children with their actions. -/
def children : List AstExpression → List Child
  | [] => []
  | e :: es => ⟨e, checkExpression e⟩ :: children es

/-- The bindings of a `let` with the actions on their initializers. -/
def bindingChildren : List (AstBinding AstExpression) → List (AstBinding Child)
  | [] => []
  | b :: bs => ⟨b.name, b.type, b.flags, ⟨b.initializer, checkExpression b.initializer⟩, b.isStatic⟩ ::
      bindingChildren bs

/-- Call arguments with the actions on their values. -/
def argChildren : List (AstCallArgument AstExpression) → List (AstCallArgument Child)
  | [] => []
  | a :: as => ⟨⟨a.value, checkExpression a.value⟩, a.variadic⟩ :: argChildren as

/-- Array items with the actions on their values. -/
def itemChildren : List (AstArrayConstant AstExpression) → List (AstArrayConstant Child)
  | [] => []
  | i :: is => ⟨⟨i.value, checkExpression i.value⟩, i.expand⟩ :: itemChildren is

/-- Struct literal fields with the actions on their values. -/
def fieldChildren : List (AstFieldValue AstExpression) → List (AstFieldValue Child)
  | [] => []
  | f :: fs => ⟨f.isEmbedded, f.name, f.type, ⟨f.initializer, checkExpression f.initializer⟩⟩ ::
      fieldChildren fs

/-- Switch cases with the actions on their options and bodies. -/
def caseChildren : List (AstSwitchCase AstExpression) → List (AstSwitchCase Child)
  | [] => []
  | c :: cs => ⟨children c.options, ⟨c.value, checkExpression c.value⟩⟩ :: caseChildren cs

end

end Check

end Harec
