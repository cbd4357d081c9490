import Harec.Tree
import Harec.Monad
import Harec.Reference

/-!
# Assignments and `const`

An assignment writes the object's storage when it is direct and the referent of the
object's pointer type when it is indirect (`*p = v`).  `check_expr_assign` rejects a
direct assignment to an object of `const` type; on the indirect path it tests that the
pointer is not nullable and that the value is assignable to the referent, but not that
the referent is mutable.
-/

namespace Harec

/-- The storage an assignment node writes is not `const`. -/
def Expression.writesMutable (store : TypeStore) : Expression → Bool
  | .mk _ _ (.assign _ false object _) => object.result.all fun t => !(store.get t).flags.isConst
  | .mk _ _ (.assign _ true object _) =>
      object.result.all fun t => !(store.get (store.get t).pointer.referent).flags.isConst
  | _ => true

/-- Every assignment of the tree writes mutable storage. -/
def Expression.constSound (store : TypeStore) (e : Expression) : Bool :=
  e.all (Expression.writesMutable store)

section

variable (env : Env)

/-- A direct assignment `check_expr_assign` accepts writes mutable storage. -/
theorem checkExprAssign_direct_writesMutable {loc : Location} {op : Option BinarithmOperator}
    {object value : Child} {ctx ctx' : Context} {e : Expression}
    (h : (checkExprAssign env loc op false object value).run ctx = .ok (e, ctx')) :
    e.writesMutable env.toTypeStore = true := by
  simp only [checkExprAssign, Bool.false_eq_true, ↓reduceIte] at h
  obtain ⟨o, _, -, h⟩ := run_bind_ok h
  obtain ⟨v, _, -, h⟩ := run_bind_ok h
  obtain ⟨_, _, -, h⟩ := run_bind_ok h
  obtain ⟨t, _, ht, h⟩ := run_bind_ok h
  obtain ⟨_, _, hc, h⟩ := run_bind_ok h
  obtain ⟨_, _, -, h⟩ := run_bind_ok h
  obtain ⟨_, _, -, h⟩ := run_bind_ok h
  obtain ⟨rfl, -⟩ := run_pure_ok h
  simp [Expression.writesMutable, (resultOf_run_ok ht).1, (expect_run_ok hc).1]

/-- An identifier that names a constant checks to the constant's stored value, which
`check_expr_access` copies over the access node. -/
theorem checkExprAccessIdentifier_const_run {loc : Location} {ident : Identifier} {ctx : Context}
    {ref : ObjectRef} {obj : ScopeObject} {v : Expression} (h : ctx.scopeLookup ident = some (ref, obj))
    (hc : obj.otype = .const) (hv : obj.value = some v) :
    (checkExprAccessIdentifier env loc ident).run ctx = .ok (v, ctx) := by
  simp only [checkExprAccessIdentifier, StateT.run_bind, StateT.run_get, pure_bind, h, hc, hv]
  rfl

/-- A direct assignment whose object does not check to an access node, as an identifier
naming a constant does not, reaches the assertion of `check_expr_assign` once its value is
checked, and stops there: it is never accepted, and never rejected with a diagnostic. -/
theorem checkExprAssign_direct_notAccess {loc : Location} {op : Option BinarithmOperator}
    {object value : Child} {ctx c₁ c₂ : Context} {o v : Expression}
    (ho : (object.check none).run ctx = .ok (o, c₁)) (hv : (value.check o.result).run c₁ = .ok (v, c₂))
    (hacc : o.node.isAccess = false) :
    (checkExprAssign env loc op false object value).run ctx = .error .assertion := by
  simp only [checkExprAssign, Bool.false_eq_true, ↓reduceIte]
  rw [run_bind_of_ok ho, run_bind_of_ok hv, StateT.run_bind]
  simp only [assertC, hacc]
  rfl

end

open Reference

/-- `fn f() void = { let c: const int = 1; *&c = 2; };` -/
def assignThroughAddressUnit : AstUnit :=
  unitOf (functionDecl "f" .void (.list here
    [.binding here [⟨"c", some (.builtin here .int ⟨true⟩), TypeFlags.none, const .int (.ival 1), false⟩],
     .assign here none true (.unarithm here .address (.accessIdentifier here ⟨"c", none⟩))
       (const .int (.ival 2))]))

/-- `fn f() void = { let c: const int = 1; c = 2; };` -/
def assignDirectUnit : AstUnit :=
  unitOf (functionDecl "f" .void (.list here
    [.binding here [⟨"c", some (.builtin here .int ⟨true⟩), TypeFlags.none, const .int (.ival 1), false⟩],
     .assign here none false (.accessIdentifier here ⟨"c", none⟩) (const .int (.ival 2))]))

/-- `check` accepts a write to the `const` binding `c` through `*&c`, and rejects the
direct write `c = 2`. -/
theorem check_assignThroughAddress_const :
    ((check env none assignThroughAddressUnit).run initialContext).toOption.map
        (fun r => r.1.declarations.map fun d => d.body?.map (Expression.constSound env.toTypeStore)) =
      some [some false] ∧
    abortOf ((check env none assignDirectUnit).run initialContext) =
      some (.expect here "Cannot assign to const object") := by
  constructor
  · rw [check_run, assignThroughAddressUnit, scanPass_functionDecl_void]
    decide
  · rw [check_run, assignDirectUnit, scanPass_functionDecl_void]
    decide

/-- `def X: int = 1; fn f() void = X = 2;` -/
def assignConstantUnit : AstUnit :=
  ⟨[⟨[], [⟨here, false, .constant ⟨none, ⟨"X", none⟩, builtinType .int, some (const .int (.ival 1))⟩⟩,
    functionDecl "f" .void (.assign here none false (.accessIdentifier here ⟨"X", none⟩) (const .int (.ival 2)))]⟩]⟩

/-- The scan pass stores the constant `X` with its evaluated initializer in the unit scope. -/
theorem scanPass_assignConstantUnit :
    (scanPass env none assignConstantUnit).run initialContext = .ok ([1], scannedContext
      [⟨.const, ⟨"X", none⟩, ⟨"X", none⟩, 2, some (.mk (some 2) false (.constant (.ival 1) []))⟩,
        declObject "f" 9]) := rfl

/-- Checking an assignment to the constant `X` trips the assertion of `check_expr_assign`. -/
theorem check_assignConstant_assertion :
    abortOf ((check env none assignConstantUnit).run initialContext) = some .assertion := by
  rw [check_run, scanPass_assignConstantUnit]
  decide

end Harec
