import Harec.Monad
import Harec.Reference

/-!
# The arity of calls

`check_expr_call` pairs the arguments with the callee's parameters in a loop that stops
when either runs out; with Hare variadism, a last parameter met by an argument that is
not spread takes that argument and all after it, collected by `lower_vaargs`.  The call
is rejected when arguments are left ("Too many parameters") or parameters are left ("Not
enough parameters").

`arityOk` is the law this gives: one argument per parameter, unless the callee is
Hare-variadic, when there must be an argument for each parameter, the last included, and
exactly as many as parameters when the argument meeting the last parameter is spread.
C variadism is treated as no variadism: the extra arguments of a call to a C-variadic
prototype are too many.
-/

namespace Harec

/-- The arity law of a callee with `k` parameters, for arguments whose spread markers are
`spread`. -/
def arityOk (variadism : Variadism) (k : Nat) (spread : List Bool) : Bool :=
  match variadism, k with
  | .hare, k + 1 => decide (k < spread.length) && (spread.get? k != some true || spread.length == k + 1)
  | _, k => spread.length == k

@[simp] theorem arityOk_zero (variadism : Variadism) (spread : List Bool) :
    arityOk variadism 0 spread = (spread.length == 0) := by
  cases variadism <;> rfl

@[simp] theorem arityOk_nil (variadism : Variadism) (k : Nat) : arityOk variadism (k + 1) [] = false := by
  cases variadism <;> rfl

/-- An argument that does not meet the last parameter of a Hare-variadic callee without
spread uses up one parameter. -/
theorem arityOk_cons {variadism : Variadism} {k : Nat} {b : Bool} {spread : List Bool}
    (h : ¬(k = 0 ∧ variadism = .hare ∧ b = false)) :
    arityOk variadism (k + 1) (b :: spread) = arityOk variadism k spread := by
  cases variadism with
  | hare =>
    cases k with
    | zero => cases b <;> simp_all [arityOk]
    | succ k => simp [arityOk, Nat.succ_lt_succ_iff]
  | _ => simp [arityOk]

theorem arityOk_hare_last (spread : List Bool) : arityOk .hare 1 (false :: spread) = true := by
  simp [arityOk]

section

variable (env : Env)

/-- When the argument loop of `check_expr_call` ends, no argument and no parameter is
left exactly when the arity law holds. -/
theorem checkCallArgs_arity (variadism : Variadism) :
    ∀ (params : List TypeRef) (aargs : List (AstCallArgument Child)) {ctx ctx' : Context}
      {args : List Expression} {rest : List (AstCallArgument Child)} {left : List TypeRef},
      (checkCallArgs env variadism params aargs).run ctx = .ok ((args, rest, left), ctx') →
      (rest.isEmpty && left.isEmpty) = arityOk variadism params.length (aargs.map (·.variadic))
  | param :: params, aarg :: aargs, ctx, ctx', args, rest, left, h => by
    simp only [checkCallArgs] at h
    split at h
    · case isTrue hlast =>
      obtain ⟨_, _, -, h⟩ := run_bind_ok h
      cases h
      simp only [Bool.and_eq_true, List.isEmpty_iff, decide_eq_true_eq, Bool.not_eq_true'] at hlast
      obtain ⟨⟨rfl, rfl⟩, hv⟩ := hlast
      simp [hv, arityOk_hare_last]
    · case isFalse hlast =>
      obtain ⟨_, _, -, h⟩ := run_bind_ok h
      obtain ⟨_, _, -, h⟩ := run_bind_ok h
      obtain ⟨_, _, -, h⟩ := run_bind_ok h
      obtain ⟨⟨_, _, _⟩, _, hrec, h⟩ := run_bind_ok h
      cases h
      rw [checkCallArgs_arity variadism params aargs hrec, List.length_cons, List.map_cons,
        arityOk_cons]
      intro ⟨hk, hv, hs⟩
      simp_all [List.length_eq_zero]
  | [], aargs, ctx, ctx', args, rest, left, h => by
    simp only [checkCallArgs] at h
    cases h
    cases aargs <;> simp
  | _ :: _, [], ctx, ctx', args, rest, left, h => by
    simp only [checkCallArgs] at h
    cases h
    simp

/-- When the callee and its arguments check, `check_expr_call` accepts the call exactly
when the arity law holds. -/
theorem checkExprCall_arity {loc : Location} {lvalue : Child} {aargs : List (AstCallArgument Child)}
    {ctx ctx₁ ctx₂ : Context} {l : Expression} {t fntype : TypeRef}
    {r : List Expression × List (AstCallArgument Child) × List TypeRef}
    (hl : (lvalue.check none).run ctx = .ok (l, ctx₁)) (ht : l.result = some t)
    (hf : env.dereference t = some fntype) (hs : env.storage fntype = .function)
    (hargs : (checkCallArgs env (env.get fntype).func.variadism (env.get fntype).func.params aargs).run
      ctx₁ = .ok (r, ctx₂)) :
    ((checkExprCall env loc lvalue aargs).run ctx).toBool =
      arityOk (env.get fntype).func.variadism (env.get fntype).func.params.length
        (aargs.map (·.variadic)) := by
  obtain ⟨args, rest, left⟩ := r
  rw [← checkCallArgs_arity env _ _ _ hargs]
  rw [checkExprCall, run_bind_of_ok hl]
  simp [resultOf, ht, hf, hs, expect, hargs]
  cases rest <;> cases left <;> rfl

end

open Reference

/-- `fn f(x: int, ...) int;` and `fn g() int = f(1, 2);` -/
def cVariadicCallUnit : AstUnit :=
  ⟨[⟨[], [prototypeDecl "f" ⟨builtinType .int, [intParam "x"], .c⟩,
    functionDecl "g" .int (.call here (.accessIdentifier here ⟨"f", none⟩)
      [⟨const .int (.ival 1), false⟩, ⟨const .int (.ival 2), false⟩])]⟩]⟩

/-- `fn h(x: int, y: int...) void;` and `fn g() void = h(1);` -/
def hareVariadicCallUnit : AstUnit :=
  ⟨[⟨[], [prototypeDecl "h" ⟨builtinType .void, [intParam "x", intParam "y"], .hare⟩,
    functionDecl "g" .void (.call here (.accessIdentifier here ⟨"h", none⟩)
      [⟨const .int (.ival 1), false⟩])]⟩]⟩

/-- The callee `h` of `hareVariadicCallUnit` and its argument, as `check_expr_call` meets
them: `h(1)` does not satisfy the arity law and is rejected. -/
theorem checkExprCall_hareVariadic_arity :
    ((checkExprCall env here ⟨.accessIdentifier here ⟨"h", none⟩,
        checkExpression env (.accessIdentifier here ⟨"h", none⟩)⟩
        (argChildren env [⟨const .int (.ival 1), false⟩])).run
      (scannedContext [declObject "h" 11, declObject "g" 9])).toBool =
      arityOk .hare 2 [false] :=
  @checkExprCall_arity env here _ _ _ _ _ (.mk (some 11) false (.accessIdentifier ⟨0, 0⟩)) 11 11
    ([.mk (some 2) false (.constant (.ival 1) [])], [], [12]) rfl rfl rfl rfl rfl

/-- A call to a C-variadic prototype with an argument beyond its parameters is rejected,
and so is a call to a Hare-variadic function without an argument for its variadic
parameter. -/
theorem check_variadicCalls_rejected :
    abortOf ((check env none cVariadicCallUnit).run initialContext) =
      some (.expect here "Too many parameters for function call") ∧
    abortOf ((check env none hareVariadicCallUnit).run initialContext) =
      some (.expect here "Not enough parameters for function call") := by
  constructor
  · rw [check_run, show (scanPass env none cVariadicCallUnit).run initialContext =
      .ok ([1], scannedContext [declObject "f" 10, declObject "g" 8]) from rfl]
    decide
  · rw [check_run, show (scanPass env none hareVariadicCallUnit).run initialContext =
      .ok ([1], scannedContext [declObject "h" 11, declObject "g" 9]) from rfl]
    decide

end Harec
