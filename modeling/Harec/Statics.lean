import Mathlib.Tactic.IntervalCases
import Mathlib.Data.Nat.Digits
import Harec.Passes
import Harec.Reference
import Harec.Tree

/-!
# Static bindings

`check_expr_binding` gives the object of a static binding the name `static.N`, printed
from the counter `ctx->id` with `snprintf("static.%d", ...)`, and then bumps the counter
(§4.4).  Static bindings are checked wherever an expression is, in function bodies and in
the initializers of constants and globals, so during both passes.

No step of either pass lowers the counter (`Steady`), and every step keeps the static
objects numbered (`StaticOk`): each named `static.N` for its own `N`, between the counter
at the start and the counter now.  Since printing a number in decimal is injective, no
two static objects of a unit share a name.  The counter is a natural number here; the C
code's `int` overflows past `INT_MAX` bindings.

A static binding's initializer must evaluate at compile time, but the value `eval_expr`
computes goes to a local variable only: the typed binding keeps the checked initializer
cast to the binding type, as a binding that is not static does
(`checkBinding_static_stored`).
-/

namespace Harec

/-! ## Decimal numerals -/

/-- The number a list of decimal digits denotes, most significant first, read after the
number `acc` read so far. -/
def readDecimal (acc : Nat) (ds : List Char) : Nat :=
  ds.foldl (fun acc d => 10 * acc + (d.toNat - '0'.toNat)) acc

theorem digitChar_value {k : Nat} (h : k < 10) : (Nat.digitChar k).toNat - '0'.toNat = k := by
  interval_cases k <;> rfl

/-- `Nat.toDigitsCore` writes the digits of `n` in front of `ds`. -/
theorem readDecimal_toDigitsCore :
    ∀ (fuel n : Nat) (ds : List Char), n < fuel →
      readDecimal 0 (Nat.toDigitsCore 10 fuel n ds) = readDecimal n ds
  | 0, _, _, h => absurd h (Nat.not_lt_zero _)
  | fuel + 1, n, ds, h => by
    have hd := digitChar_value (Nat.mod_lt n (by decide : 10 > 0))
    simp only [Nat.toDigitsCore]
    split
    · next h0 =>
      have hn : n % 10 = n := Nat.mod_eq_of_lt (by omega)
      rw [hn] at hd
      simp only [readDecimal, List.foldl_cons, hn, hd, Nat.mul_zero, Nat.zero_add]
    · rw [readDecimal_toDigitsCore fuel (n / 10) _ (by omega)]
      simp only [readDecimal, List.foldl_cons, hd, Nat.div_add_mod]

theorem readDecimal_toDigits (n : Nat) : readDecimal 0 (Nat.toDigits 10 n) = n :=
  readDecimal_toDigitsCore (n + 1) n [] (Nat.lt_succ_self n)

/-- Distinct counters give distinct static names. -/
theorem staticIdent_injective : Function.Injective staticIdent := fun m n h => by
  have hs : "static.".data ++ Nat.toDigits 10 m = "static.".data ++ Nat.toDigits 10 n :=
    congrArg (fun x : Identifier => x.name.data) h
  rw [← readDecimal_toDigits m, List.append_cancel_left hs, readDecimal_toDigits]

/-! ## Static objects over a run of `check` -/

/-- A context with no static object has its static objects numbered from its counter. -/
theorem StaticOk.of_none {ctx : Context} (h : ∀ o, ctx.staticAt o = none) : StaticOk ctx.id ctx :=
  ⟨Nat.le_refl _, fun _ => 0, ⟨fun o x hx => by simp [h o] at hx, fun o x hx => by simp [h o] at hx,
    fun o _ ho => by simp [h o] at ho⟩⟩

/-- The context the scan pass starts its subunits from, when `check` starts with no scope:
the unit scope alone, which holds nothing. -/
theorem staticAt_unitScope (ctx : Context) (r : ScopeRef) (h0 : ctx.scopes = []) (o : ObjectRef) :
    ({ ctx.push.2 with unit := some r } : Context).staticAt o = none := by
  have h : (ctx.push.2.scopeAt o.scope).objects = [] := by
    rw [Context.objects_push, Context.scopeAt, h0]
    rfl
  show ((ctx.push.2.scopeAt o.scope).objects.get? o.index).bind _ = none
  rw [h]
  rfl

section

variable (env : Env)

/-- From a context without scopes, a run of `check` keeps its counter from going down and
leaves the static objects numbered from the counter it started with. -/
theorem check_staticOk {ns : Option Identifier} {aunit : AstUnit} {ctx ctx' : Context}
    {u : TypedUnit} (h0 : ctx.scopes = []) (h : (check env ns aunit).run ctx = .ok (u, ctx')) :
    StaticOk ctx.id ctx' := by
  obtain ⟨_, c₁, h₁, k₁⟩ := run_bind_ok h
  obtain ⟨_, c₂, h₂, k₂⟩ := run_bind_ok k₁
  obtain ⟨-, rfl⟩ := run_pure_ok k₂
  unfold scanPass at h₁
  obtain ⟨_, _, h₃, k₃⟩ := run_bind_ok h₁
  cases h₃
  obtain ⟨_, _, h₄, k₄⟩ := run_bind_ok k₃
  obtain ⟨rfl, rfl⟩ := scopePush_run_ok h₄
  obtain ⟨_, _, h₅, k₅⟩ := run_bind_ok k₄
  cases h₅
  have hscan := (Keeps.mapM fun su _ => scanSubunit_steady env su) _ _ _ k₅
  have hcheck := checkSubunits_steady env _ _ _ _ _ h₂
  exact hcheck.staticOk _ (hscan.staticOk _ (StaticOk.of_none (staticAt_unitScope { ctx with ns := ns } _ h0)))

/-- The static bindings of a unit have pairwise distinct names: from a context without
scopes, every `O_DECL` object outside the unit scope that a successful run of `check`
leaves, which only static bindings insert, is named `static.N` for an `N` the counter
passed during the run, and no two such objects share a name. -/
theorem check_staticNames_distinct {ns : Option Identifier} {aunit : AstUnit} {ctx ctx' : Context}
    {u : TypedUnit} (h0 : ctx.scopes = []) (h : (check env ns aunit).run ctx = .ok (u, ctx')) :
    ctx.id ≤ ctx'.id ∧
      (∀ o x, ctx'.staticAt o = some x → ∃ n, x = staticIdent n ∧ ctx.id ≤ n ∧ n < ctx'.id) ∧
      ∀ o o' x, ctx'.staticAt o = some x → ctx'.staticAt o' = some x → o = o' := by
  obtain ⟨hid, num, hn⟩ := check_staticOk env h0 h
  refine ⟨hid, fun o x hx => ⟨num o, hn.named o x hx, hn.bounded o x hx⟩, fun o o' x hx hx' => ?_⟩
  refine hn.injective o o' (by simp [hx]) (by simp [hx']) (staticIdent_injective ?_)
  rw [← hn.named o x hx, ← hn.named o' x hx']

/-- The initializer a static binding stores is its checked initializer cast to the binding
type, not the value `eval_expr` computes for it. -/
theorem checkBinding_static_stored {loc : Location} {b : AstBinding Child} (hs : b.isStatic = true)
    {ctx ctx' : Context} {eb : ExpressionBinding Expression}
    (h : (checkBinding env loc b).run ctx = .ok (eb, ctx')) :
    ∃ init c₁ t, (b.initializer.check (b.type.map fun atype =>
        env.lookupWithFlags (env.lookupAtype atype) ((env.get (env.lookupAtype atype)).flags.or b.flags))).run ctx =
          .ok (init, c₁) ∧ (env.eval init).isSome ∧ eb.initializer = lowerImplicitCast t init := by
  simp only [checkBinding, hs, Bool.not_true, Bool.false_eq_true, ↓reduceIte] at h
  obtain ⟨init, c₁, hi, h⟩ := run_bind_ok h
  refine ⟨init, c₁, ?_⟩
  obtain ⟨t, _, -, h⟩ := run_bind_ok h
  refine ⟨t, hi, ?_⟩
  obtain ⟨_, _, -, h⟩ := run_bind_ok h
  obtain ⟨_, _, -, h⟩ := run_bind_ok h
  obtain ⟨_, _, -, h⟩ := run_bind_ok h
  cases hv : env.eval init with
  | none => rw [hv] at h; cases h
  | some _ =>
    rw [hv] at h
    obtain ⟨_, _, -, h⟩ := run_bind_ok h
    obtain ⟨_, _, -, h⟩ := run_bind_ok h
    obtain ⟨_, _, -, h⟩ := run_bind_ok h
    obtain ⟨_, _, -, h⟩ := run_bind_ok h
    obtain ⟨rfl, -⟩ := run_pure_ok h
    exact ⟨rfl, rfl⟩

end

open Reference

/-- `fn name() void = static let a: int = value;` -/
def staticBindingDecl (name : String) (value : Int) : AstDecl :=
  functionDecl name .void
    (.binding here [⟨"a", some (builtinType .int), ⟨false⟩, const .int (.ival value), true⟩])

/-- `fn f() void = static let a: int = 1; fn g() void = static let a: int = 2;`: two static
bindings of one name, in two functions. -/
def staticBindingsUnit : AstUnit := ⟨[⟨[], [staticBindingDecl "f" 1, staticBindingDecl "g" 2]⟩]⟩

theorem scanPass_staticBindingsUnit :
    (scanPass env none staticBindingsUnit).run initialContext =
      .ok ([1], scannedContext [declObject "f" 9, declObject "g" 9]) :=
  scanPass_run_of_inserts (.cons (fun _ => rfl) <| .cons (fun _ => rfl) .nil)

/-- The context after the check of `f`: its scope holds `a` as `static.0`, and the counter is
at 1. -/
def staticBindingsAfterF : Context :=
  ⟨[⟨none, none, none, [declObject "f" 9, declObject "g" 9]⟩, ⟨some 0, none, none, []⟩,
    ⟨some 1, none, none, [⟨.decl, staticIdent 0, ⟨"a", none⟩, 2, none⟩]⟩], some 1, some 0, none, none,
    false, 1⟩

theorem checkDecl_staticBindingF :
    ∃ od, (checkDecl env (staticBindingDecl "f" 1)).run
      (scanningContext [declObject "f" 9, declObject "g" 9]) = .ok (od, staticBindingsAfterF) :=
  ⟨_, rfl⟩

theorem check_staticBindings_ok :
    ∃ u ctx', (check env none staticBindingsUnit).run initialContext = .ok (u, ctx') := by
  obtain ⟨_, hf⟩ := checkDecl_staticBindingF
  obtain ⟨ds, c', hg⟩ : ∃ ds c', (checkDeclarations env [staticBindingDecl "g" 2]).run
      staticBindingsAfterF = .ok (ds, c') := exists_run_ok_of_isOk (by decide)
  exact ⟨_, _, check_run_of_checkDeclarations scanPass_staticBindingsUnit
    (by rw [checkDeclarations_run_cons hf, hg]; rfl)⟩

theorem check_staticBindings_namesDistinct :
    ∃ u ctx', (check env none staticBindingsUnit).run initialContext = .ok (u, ctx') ∧
      initialContext.id ≤ ctx'.id ∧
      (∀ o x, ctx'.staticAt o = some x → ∃ n, x = staticIdent n ∧ initialContext.id ≤ n ∧ n < ctx'.id) ∧
      ∀ o o' x, ctx'.staticAt o = some x → ctx'.staticAt o' = some x → o = o' :=
  let ⟨u, c, h⟩ := check_staticBindings_ok
  ⟨u, c, h, check_staticNames_distinct env rfl h⟩

/-- `fn f() void = static let a: const int = 1;` -/
def staticCastUnit : AstUnit :=
  unitOf (functionDecl "f" .void
    (.binding here [⟨"a", some (.builtin here .int ⟨true⟩), ⟨false⟩, const .int (.ival 1), true⟩]))

/-- `check` accepts `staticCastUnit`, and the binding stores a cast of its initializer to
`const int`, not a constant. -/
theorem check_staticCast_storedUnevaluated :
    ((check env none staticCastUnit).run initialContext).toOption.map
      (fun r => r.1.declarations.map fun d => d.body?.map fun body => match body.node with
        | .binding bs => bs.map fun eb => (eb.initializer.result, match eb.initializer.node with
          | .cast _ _ _ => true
          | _ => false)
        | _ => []) = some [some [(some 6, true)]] := by
  rw [check_run, staticCastUnit, scanPass_functionDecl_void]
  decide

end Harec
