import Mathlib.Tactic.LiftLets
import Mathlib.Tactic.ExtractLets
import Harec.Unit
import Harec.Kinds
import Harec.Yields

/-!
# What one run of each declaration step does

The steps of the two passes that are not checks of expressions: `check_function`,
`check_global`, `check_type`, `scan_const` and `scan_type`, with the insertion of a
function's parameters.  For each, one lemma says what a run that returns has done (the
contexts it went through, the checks of expressions it ran, the checks it passed, the
declaration it gives) and, where the step can abort in a check of an expression, one lemma
says where a run that aborts stopped.  These are the only places where the declaration
steps are unfolded: every invariant of the passes (the relations they keep, the labels, the
pointers, the scopes and keys of the unit) is proved from them.

The join points the `do` notation makes of an `if` in the middle of a block are named
(`lift_lets`, `extract_lets`), and what each does is said once.
-/

namespace Harec

section Runs

variable (env : Env)

/-- Inserting a function's parameters aborts only on an unnamed parameter. -/
theorem insertParams_run_error {scope : ScopeRef} {variadism : Variadism} {c : Context} {e : Abort} :
    ∀ {params}, (insertParams env scope variadism params).run c = .error e → e.isPlacement = false
  | [], h => nomatch h
  | param :: params, h => by
    unfold insertParams at h
    split at h
    · obtain ⟨_, _, -, k⟩ := (run_bind_error h).resolve_left nofun
      exact insertParams_run_error k
    · cases h
      rfl

/-- A run of `check_function` that returns.  A prototype gives no declaration and leaves
the context as it is.  For a function with a body, the current function type is set and a
scope is pushed at the length of the arena; the parameters are inserted there and the body
is checked, with the function's result type as hint; the C-style variadism, the result and
the `@flags` checks pass; the scope is popped and the current function type cleared.  The
declaration records the function type, the flags, the body (converted to the result type
unless it terminates or has that type already) and the scope. -/
theorem checkFunction_run_ok {adecl : AstDecl} {afndecl : AstFunctionDecl} {c c' : Context}
    {od : Option Declaration} (h : (checkFunction env adecl afndecl).run c = .ok (od, c')) :
    afndecl.body = none ∧ od = none ∧ c' = c ∨
    ∃ abody c₁ body c₂ r, afndecl.body = some abody ∧
      let fntype := env.lookupAtype (fnAtype afndecl.prototype)
      let func := (env.get fntype).func
      func.variadism ≠ .c ∧
      (insertParams env c.scopes.length func.variadism afndecl.prototype.params).run
        { c with currentFntype := some fntype }.push.2 = .ok ((), c₁) ∧
      (checkExpression env abody (some func.result)).run c₁ = .ok (body, c₂) ∧
      (body.terminates = true ∨ ∃ t, body.result = some t ∧ env.isAssignable func.result t = true) ∧
      ((afndecl.flags.init || afndecl.flags.fini || afndecl.flags.test) = true → func.result = env.builtinVoid) ∧
      c₂.scope = some r ∧ c' = { c₂ with scope := (c₂.scopeAt r).parent, currentFntype := none } ∧
      od = some ⟨declIdent c.ns afndecl.symbol afndecl.ident, afndecl.symbol, false, .func ⟨fntype,
        afndecl.flags, if !body.terminates && some func.result ≠ body.result then
          lowerImplicitCast func.result body else body, c.scopes.length⟩⟩ := by
  unfold checkFunction at h
  split at h
  · next abody hb =>
    obtain ⟨_, _, ⟨⟩, k₁⟩ := run_bind_ok h
    obtain ⟨_, _, h₂, k₂⟩ := run_bind_ok k₁
    obtain ⟨hv, rfl⟩ := expect_run_ok h₂
    obtain ⟨_, _, ⟨⟩, k₃⟩ := run_bind_ok k₂
    obtain ⟨_, _, ⟨⟩, k₄⟩ := run_bind_ok k₃
    obtain ⟨_, c₁, h₅, k₅⟩ := run_bind_ok k₄
    obtain ⟨body, c₂, h₆, k₆⟩ := run_bind_ok k₅
    lift_lets at k₆
    extract_lets body' decl close jp at k₆
    have hclose : ∀ y {c₃}, (close y).run c₃ = .ok (od, c') →
        ∃ r, c₃.scope = some r ∧ c' = { c₃ with scope := (c₃.scopeAt r).parent, currentFntype := none } ∧
          od = some decl := by
      intro y c₃ k
      obtain ⟨_, _, h₁, k₁⟩ := run_bind_ok k
      obtain ⟨hr, rfl⟩ := scopePop_run_ok h₁
      obtain ⟨_, _, ⟨⟩, k₂⟩ := run_bind_ok k₁
      obtain ⟨rfl, rfl⟩ := run_pure_ok k₂
      exact ⟨_, hr, rfl, rfl⟩
    have hjp : ∀ {a}, (jp a).run c₂ = .ok (od, c') → a = true ∧
        ((afndecl.flags.init || afndecl.flags.fini || afndecl.flags.test) = true →
          (env.get (env.lookupAtype (fnAtype afndecl.prototype))).func.result = env.builtinVoid) ∧
        ∃ r, c₂.scope = some r ∧ c' = { c₂ with scope := (c₂.scopeAt r).parent, currentFntype := none } ∧
          od = some decl := by
      intro a k
      obtain ⟨_, _, h₁, k₁⟩ := run_bind_ok k
      obtain ⟨ha, rfl⟩ := expect_run_ok h₁
      split at k₁
      · obtain ⟨_, _, h₂, k₂⟩ := run_bind_ok k₁
        obtain ⟨hvoid, rfl⟩ := expect_run_ok h₂
        obtain ⟨_, _, h₃, k₃⟩ := run_bind_ok k₂
        obtain ⟨-, rfl⟩ := expect_run_ok h₃
        exact ⟨ha, fun _ => of_decide_eq_true hvoid, hclose () k₃⟩
      · obtain ⟨_, _, ⟨⟩, k₂⟩ := run_bind_ok k₁
        exact ⟨ha, fun hf => absurd hf ‹_›, hclose () k₂⟩
    split at k₆
    · obtain ⟨_, _, ⟨⟩, k₇⟩ := run_bind_ok k₆
      obtain ⟨-, hf, r, hr, rfl, rfl⟩ := hjp k₇
      exact .inr ⟨abody, c₁, body, c₂, r, hb, by simpa using hv, h₅, h₆, .inl ‹_›, hf, hr, rfl, rfl⟩
    · obtain ⟨_, _, h₇, k₇⟩ := run_bind_ok k₆
      obtain ⟨ht, rfl⟩ := resultOf_run_ok h₇
      obtain ⟨_, _, ⟨⟩, k₈⟩ := run_bind_ok k₇
      obtain ⟨ha, hf, r, hr, rfl, rfl⟩ := hjp k₈
      exact .inr ⟨abody, c₁, body, _, r, hb, by simpa using hv, h₅, h₆, .inr ⟨_, ht, ha⟩, hf, hr, rfl, rfl⟩
  · obtain ⟨rfl, rfl⟩ := run_pure_ok h
    exact .inl ⟨Option.eq_none_iff_forall_not_mem.mpr ‹_›, rfl, rfl⟩

/-- A run of `check_function` that aborts stops in the check of the body, after the
parameters were inserted, or with one of its own diagnostics, none of which is a placement
diagnostic. -/
theorem checkFunction_run_error {adecl : AstDecl} {afndecl : AstFunctionDecl} {c : Context} {e : Abort}
    (h : (checkFunction env adecl afndecl).run c = .error e) :
    e.isPlacement = false ∨ ∃ abody c₁, afndecl.body = some abody ∧
      let fntype := env.lookupAtype (fnAtype afndecl.prototype)
      let func := (env.get fntype).func
      (insertParams env c.scopes.length func.variadism afndecl.prototype.params).run
        { c with currentFntype := some fntype }.push.2 = .ok ((), c₁) ∧
      (checkExpression env abody (some func.result)).run c₁ = .error e := by
  unfold checkFunction at h
  split at h
  · next abody hb =>
    obtain ⟨_, _, ⟨⟩, k₁⟩ := (run_bind_error h).resolve_left nofun
    rcases run_bind_error k₁ with h₂ | ⟨_, _, h₂, k₂⟩
    · rw [(expect_run_error h₂).2]
      exact .inl rfl
    obtain ⟨-, rfl⟩ := expect_run_ok h₂
    obtain ⟨_, _, ⟨⟩, k₃⟩ := (run_bind_error k₂).resolve_left nofun
    obtain ⟨_, _, ⟨⟩, k₄⟩ := (run_bind_error k₃).resolve_left nofun
    rcases run_bind_error k₄ with h₅ | ⟨_, c₁, h₅, k₅⟩
    · exact .inl (insertParams_run_error env h₅)
    rcases run_bind_error k₅ with h₆ | ⟨body, c₂, -, k₆⟩
    · exact .inr ⟨abody, c₁, hb, h₅, h₆⟩
    refine .inl ?_
    lift_lets at k₆
    extract_lets body' decl close jp at k₆
    have hclose : ∀ y {c₃}, (close y).run c₃ = .error e → e.isPlacement = false := by
      intro y c₃ k
      rcases run_bind_error k with k | ⟨_, _, -, k⟩
      · rw [scopePop_run_error k]
        rfl
      obtain ⟨_, _, -, k⟩ := (run_bind_error k).resolve_left nofun
      nomatch k
    have hjp : ∀ {a c₃}, (jp a).run c₃ = .error e → e.isPlacement = false := by
      intro a c₃ k
      rcases run_bind_error k with k | ⟨_, _, -, k⟩
      · rw [(expect_run_error k).2]
        rfl
      split at k
      · rcases run_bind_error k with k | ⟨_, _, -, k⟩
        · rw [(expect_run_error k).2]
          rfl
        rcases run_bind_error k with k | ⟨_, _, -, k⟩
        · rw [(expect_run_error k).2]
          rfl
        exact hclose () k
      · obtain ⟨_, _, -, k⟩ := (run_bind_error k).resolve_left nofun
        exact hclose () k
    split at k₆
    · obtain ⟨_, _, -, k⟩ := (run_bind_error k₆).resolve_left nofun
      exact hjp k
    · rcases run_bind_error k₆ with k | ⟨_, _, -, k⟩
      · rw [resultOf_run_error k]
        rfl
      obtain ⟨_, _, -, k⟩ := (run_bind_error k).resolve_left nofun
      exact hjp k
  · cases h

/-- A run of `check_global` that returns.  A global without initializer gives no
declaration and leaves the context as it is.  Otherwise the initializer is checked with the
global's type as hint, its result is assignable to that type, and converted to it the
initializer evaluates; the declaration records the type and the value. -/
theorem checkGlobal_run_ok {agdecl : AstGlobalDecl} {c c' : Context} {od : Option Declaration}
    (h : (checkGlobal env agdecl).run c = .ok (od, c')) :
    agdecl.init = none ∧ od = none ∧ c' = c ∨
    ∃ init initializer t value, agdecl.init = some init ∧
      let type := env.lookupAtype agdecl.type
      (checkExpression env init (some type)).run c = .ok (initializer, c') ∧
      initializer.result = some t ∧ env.isAssignable type t = true ∧
      env.eval (lowerImplicitCast type initializer) = some value ∧
      od = some ⟨declIdent c'.ns agdecl.symbol agdecl.ident, agdecl.symbol, false, .global ⟨type, value⟩⟩ := by
  unfold checkGlobal at h
  split at h
  · next init hi =>
    obtain ⟨initializer, _, h₁, k₁⟩ := run_bind_ok h
    obtain ⟨t, _, h₂, k₂⟩ := run_bind_ok k₁
    obtain ⟨ht, rfl⟩ := resultOf_run_ok h₂
    obtain ⟨_, _, h₃, k₃⟩ := run_bind_ok k₂
    obtain ⟨ha, rfl⟩ := expect_run_ok h₃
    split at k₃
    · obtain ⟨_, _, ⟨⟩, k₄⟩ := run_bind_ok k₃
      obtain ⟨rfl, rfl⟩ := run_pure_ok k₄
      exact .inr ⟨init, initializer, t, _, hi, h₁, ht, ha, ‹_›, rfl⟩
    · cases k₃
  · obtain ⟨rfl, rfl⟩ := run_pure_ok h
    exact .inl ⟨Option.eq_none_iff_forall_not_mem.mpr ‹_›, rfl, rfl⟩

/-- A run of `check_global` that aborts stops in the check of the initializer or with one of
its own diagnostics. -/
theorem checkGlobal_run_error {agdecl : AstGlobalDecl} {c : Context} {e : Abort}
    (h : (checkGlobal env agdecl).run c = .error e) :
    e.isPlacement = false ∨ ∃ init, agdecl.init = some init ∧
      (checkExpression env init (some (env.lookupAtype agdecl.type))).run c = .error e := by
  unfold checkGlobal at h
  split at h
  · next init hi =>
    rcases run_bind_error h with h₁ | ⟨_, _, -, k₁⟩
    · exact .inr ⟨init, hi, h₁⟩
    refine .inl ?_
    rcases run_bind_error k₁ with h₂ | ⟨_, _, -, k₂⟩
    · rw [resultOf_run_error h₂]
      rfl
    rcases run_bind_error k₂ with h₃ | ⟨_, _, -, k₃⟩
    · rw [(expect_run_error h₃).2]
      rfl
    split at k₃
    · obtain ⟨_, _, -, k⟩ := (run_bind_error k₃).resolve_left nofun
      nomatch k
    · cases k₃
      rfl
  · cases h

/-- `check_type` gives the type's declaration and leaves the context as it is. -/
theorem checkType_run_ok {atdecl : AstTypeDecl} {c c' : Context} {d : Declaration}
    (h : (checkType env atdecl).run c = .ok (d, c')) :
    c' = c ∧ d = ⟨mkident c.ns atdecl.ident, none, false, .type (env.lookupAtype atdecl.type)⟩ := by
  obtain ⟨_, _, ⟨⟩, k⟩ := run_bind_ok h
  obtain ⟨rfl, rfl⟩ := run_pure_ok k
  exact ⟨rfl, rfl⟩

/-- A run of `scan_const` that returns: the constant has no `@symbol` and has an
initializer, which is checked with the constant's type as hint, is assignable to that type
and, converted to it, evaluates; the constant's object, with that value, is inserted into
the unit scope. -/
theorem scanConst_run_ok {decl : AstGlobalDecl} {c c' : Context} {u : PUnit}
    (h : (scanConst env decl).run c = .ok (u, c')) :
    ∃ init initializer c₁ t value s, decl.symbol = none ∧ decl.init = some init ∧
      let type := env.lookupAtype decl.type
      (checkExpression env init (some type)).run c = .ok (initializer, c₁) ∧
      initializer.result = some t ∧ env.isAssignable type t = true ∧
      env.eval (lowerImplicitCast type initializer) = some value ∧ c₁.unit = some s ∧
      c' = (c₁.insert s ⟨.const, mkident c₁.ns decl.ident, decl.ident, type, some value⟩).2 := by
  unfold scanConst at h
  obtain ⟨_, _, h₁, k₁⟩ := run_bind_ok h
  obtain ⟨hsym, rfl⟩ := assertC_run_ok h₁
  obtain ⟨init, _, h₂, k₂⟩ := run_bind_ok k₁
  obtain ⟨hi, rfl⟩ := deref_run_ok h₂
  obtain ⟨initializer, c₁, h₃, k₃⟩ := run_bind_ok k₂
  obtain ⟨t, _, h₄, k₄⟩ := run_bind_ok k₃
  obtain ⟨ht, rfl⟩ := resultOf_run_ok h₄
  obtain ⟨_, _, h₅, k₅⟩ := run_bind_ok k₄
  obtain ⟨ha, rfl⟩ := expect_run_ok h₅
  split at k₅
  · obtain ⟨_, _, ⟨⟩, k₆⟩ := run_bind_ok k₅
    obtain ⟨s, hs, rfl⟩ := scopeInsert_pure_run_ok k₆
    exact ⟨init, initializer, _, t, _, s, Option.isNone_iff_eq_none.mp hsym, hi, h₃, ht, ha, ‹_›, hs, rfl⟩
  · cases k₅

/-- A run of `scan_const` that aborts stops in the check of the initializer or with one of
its own diagnostics. -/
theorem scanConst_run_error {decl : AstGlobalDecl} {c : Context} {e : Abort}
    (h : (scanConst env decl).run c = .error e) :
    e.isPlacement = false ∨ ∃ init, decl.init = some init ∧
      (checkExpression env init (some (env.lookupAtype decl.type))).run c = .error e := by
  unfold scanConst at h
  rcases run_bind_error h with h₁ | ⟨_, _, h₁, k₁⟩
  · rw [assertC_run_error h₁]
    exact .inl rfl
  obtain ⟨-, rfl⟩ := assertC_run_ok h₁
  rcases run_bind_error k₁ with h₂ | ⟨init, _, h₂, k₂⟩
  · rw [deref_run_error h₂]
    exact .inl rfl
  obtain ⟨hi, rfl⟩ := deref_run_ok h₂
  rcases run_bind_error k₂ with h₃ | ⟨_, _, -, k₃⟩
  · exact .inr ⟨init, hi, h₃⟩
  refine .inl ?_
  rcases run_bind_error k₃ with h₄ | ⟨_, _, -, k₄⟩
  · rw [resultOf_run_error h₄]
    rfl
  rcases run_bind_error k₄ with h₅ | ⟨_, _, -, k₅⟩
  · rw [(expect_run_error h₅).2]
    rfl
  split at k₅
  · obtain ⟨_, _, -, k⟩ := (run_bind_error k₅).resolve_left nofun
    rcases run_bind_error k with k | ⟨_, _, -, k⟩
    · rw [scopeInsert_run_error k]
      rfl
    nomatch k
  · cases k₅
    rfl

/-- A run of `scan_type` that returns: the unit scope is set, the type's object is inserted
into it, and for an enum type one constant object per value after it, each of the enum's
alias type and valued by the value's constant, in the order of the values. -/
theorem scanType_run_ok {decl : AstTypeDecl} {c c' : Context} {u : PUnit}
    (h : (scanType env decl).run c = .ok (u, c')) :
    ∃ s, c.unit = some s ∧
      let type := env.lookupAtype decl.type
      let ident := mkident c.ns decl.ident
      let aliasType := env.lookupAtype (.alias decl.type.loc ⟨false⟩ false decl.ident)
      c' = (if env.storage type = .enum then (env.get type).enumValues else []).foldl
        (fun ctx value => (ctx.insert s ⟨.const, ⟨value.name, some decl.ident⟩, ⟨value.name, some ident⟩,
          aliasType, some (enumConstant env aliasType value)⟩).2)
        (c.insert s ⟨.type, ident, decl.ident, type, none⟩).2 := by
  unfold scanType at h
  obtain ⟨_, _, ⟨⟩, k₁⟩ := run_bind_ok h
  obtain ⟨_, c₁, h₂, k₂⟩ := run_bind_ok k₁
  obtain ⟨s, hs, heq⟩ := scopeInsert_run_ok h₂
  obtain ⟨-, rfl⟩ := Prod.ext_iff.mp heq
  refine ⟨s, hs, ?_⟩
  dsimp only
  split at k₂
  · obtain ⟨_, _, hloop, k₃⟩ := run_bind_ok k₂
    obtain ⟨-, rfl⟩ := run_pure_ok k₃
    rw [if_pos ‹_›]
    have hu : (c.insert s ⟨.type, mkident c.ns decl.ident, decl.ident, env.lookupAtype decl.type, none⟩).2.unit =
      some s := hs
    revert hu hloop
    generalize (c.insert s ⟨.type, mkident c.ns decl.ident, decl.ident, env.lookupAtype decl.type, none⟩).2 = c₀
    generalize (env.get (env.lookupAtype decl.type)).enumValues = values
    intro hloop hu
    induction values generalizing c₀ with
    | nil => exact (run_pure_ok hloop).2
    | cons v vs ih =>
      rw [List.forIn_cons] at hloop
      obtain ⟨_, _, hstep, k⟩ := run_bind_ok hloop
      obtain ⟨_, _, ⟨⟩, k₁⟩ := run_bind_ok hstep
      obtain ⟨_, _, hins, k₂⟩ := run_bind_ok k₁
      obtain ⟨s', hs', heq⟩ := scopeInsert_run_ok hins
      cases hu.symm.trans hs'
      obtain ⟨-, rfl⟩ := Prod.ext_iff.mp heq
      obtain ⟨_, _, ⟨⟩, k₃⟩ := run_bind_ok k₂
      obtain ⟨rfl, rfl⟩ := run_pure_ok k₃
      exact ih _ k hu
  · obtain ⟨-, rfl⟩ := run_pure_ok k₂
    rw [if_neg ‹_›]
    rfl

/-- `scan_type` aborts only by reading a null unit scope. -/
theorem scanType_run_error {decl : AstTypeDecl} {c : Context} {e : Abort}
    (h : (scanType env decl).run c = .error e) : e = .nullDeref := by
  have hins {r otype ident name type value} : Yields (fun _ => True)
      (scopeInsert r otype ident name type value) (fun _ => True) (· = .nullDeref) :=
    Yields.scopeInsert (fun _ _ _ => trivial) rfl
  refine (?_ : Yields (fun _ => True) (scanType env decl) (fun _ => True) (· = .nullDeref)).error c e trivial h
  unfold scanType
  refine Yields.bind Yields.get fun _ _ => Yields.bind hins fun _ _ => ?_
  split
  · exact Yields.bind (Yields.forIn fun _ _ => Yields.bind Yields.get fun _ _ => Yields.bind hins fun _ _ =>
      Yields.bind (Yields.pure (Q := fun _ => True) trivial) fun _ _ => Yields.pure trivial) fun _ _ =>
        Yields.pure trivial
  · exact Yields.pure trivial

/-- What every insertion keeps, the insertions of a loop keep. -/
theorem Context.foldl_insert {γ : Type} {s : ScopeRef} {f : γ → ScopeObject} {P : Context → Prop}
    (h : ∀ c x, P c → P (c.insert s (f x)).2) :
    ∀ (l : List γ) {c : Context}, P c → P (l.foldl (fun ctx x => (ctx.insert s (f x)).2) c)
  | [], _, hc => hc
  | x :: l, c, hc => Context.foldl_insert h l (h c x hc)

end Runs

end Harec
