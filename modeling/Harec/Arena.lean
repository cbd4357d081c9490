import Harec.UnitPointers
import Harec.Declarations

/-!
# The scope arena over a whole unit

The scopes `check` pushes are never freed, and the typed unit points into them: an access
node at an object, a function declaration at the scope its parameters were inserted into,
which is where a later stage finds them.  This module follows the arena through a whole
run of `check`.

**Algorithm.**  Every step of the two passes pushes a scope, inserts an object at the end of
a scope, or leaves the arena alone (`extends_passStep`): no scope is removed, and none gets a
new parent, kind or label or loses an object.  `check_function` pushes the function's scope
and inserts the parameters into it before anything else, and every later step only appends.

So a whole run of `check` only appends to the arena (`check_extends`), and what holds of
each declaration `check_decl` emits and persists while the arena grows holds, at the end of
the run, of the declarations of the typed unit pairwise with the AST declarations they were
emitted for (`check_forall₂`).

**Results.**
* `check_declarations_inSourceOrder`: the typed unit lists, in source order, the
  declaration `check_decl` returned for each AST declaration that emits one, of its kind,
  exported as it is, with its scan object's identifier and type.
* `check_paramsFirst`: each function `check` emits is recorded with a scope that exists
  when `check` returns, and whose first objects are the objects of the declaration's
  parameters, in order, as `check_function` inserted them (`paramObjects`).

The scopes of the functions `check` emits were pushed during the run and strictly increase
in the order the functions are emitted, so no two functions share a scope and none shares
one with what existed before (`check_functionScopesFresh`).
-/

namespace Harec

instance : IsPreorder Context Context.Extends where
  refl := Context.Extends.refl
  trans _ _ _ := Context.Extends.trans

/-- Every step of the passes only appends to the arena. -/
theorem extends_passStep (env : Env) : PassStep env Context.Extends :=
  ⟨Context.Extends.push, fun _ _ hs _ _ _ => .of_scopes hs, fun c r obj _ => .insert c r obj,
    fun e hint => (checkExpression_frame env e hint).mono fun _ _ => Context.Extends.of_frame⟩

/-- A step that only appends to the arena keeps what is persistent. -/
theorem Triple.of_extends {α : Type} {S : Context → Prop} (hS : Persistent S) {m : CheckM α}
    (h : Keeps Context.Extends m) : Triple S m fun _ => S :=
  fun _ _ _ hs hrun => hS _ _ (h _ _ _ hrun) hs

section Unit

variable (env : Env)

theorem scanPass_keeps_extends (ns : Option Identifier) (aunit : AstUnit) :
    Keeps Context.Extends (scanPass env ns aunit) :=
  Keeps.bind (Keeps.modify fun _ => .of_scopes rfl) fun _ =>
    Keeps.bind (Keeps.scopePush (extends_passStep env).push) fun _ =>
      Keeps.bind (Keeps.modify fun _ => .of_scopes rfl) fun _ =>
        Keeps.mapM fun su _ => scanSubunit_keeps (extends_passStep env) su

theorem check_keeps_extends (ns : Option Identifier) (aunit : AstUnit) :
    Keeps Context.Extends (check env ns aunit) :=
  Keeps.bind (scanPass_keeps_extends env ns aunit) fun scopes =>
    Keeps.bind (checkSubunits_keeps (extends_passStep env) _ scopes) fun _ => Keeps.pure _

/-- A run of `check` only appends to the scope arena: every scope that existed keeps its
parent, kind and label, and its objects as its first objects, so every object pointer taken
before the run points at the same object after it. -/
theorem check_extends {ns : Option Identifier} {aunit : AstUnit} {ctx ctx' : Context} {u : TypedUnit}
    (h : (check env ns aunit).run ctx = .ok (u, ctx')) : ctx.Extends ctx' :=
  check_keeps_extends env ns aunit _ _ _ h

end Unit

/-! ## Facts of the emitted declarations -/

/-- A relation of the shape of `checkDecl_emits` relates what it relates along any other
relation that holds of every pair of members. -/
theorem forall₂_of_forall_mem {α β : Type} {R S : α → β → Prop} :
    ∀ {l₁ : List α} {l₂ : List β}, List.Forall₂ S l₁ l₂ → (∀ a ∈ l₁, ∀ b ∈ l₂, R a b) → List.Forall₂ R l₁ l₂
  | _, _, .nil, _ => .nil
  | _, _, .cons _ h, H =>
    .cons (H _ (.head _) _ (.head _)) (forall₂_of_forall_mem h fun a ha b hb => H a (.tail _ ha) b (.tail _ hb))

section Lift

variable {env : Env} {P : AstDecl → Declaration → Context → Prop}
  (hP : ∀ adecl d, Persistent (P adecl d))
  (hdecl : ∀ adecl c od c', (checkDecl env adecl).run c = .ok (od, c') → ∀ d ∈ od, P adecl d c')
include hP hdecl

theorem checkDeclarations_forall₂ : ∀ {adecls : List AstDecl} {c c' : Context} {ds : List Declaration},
    (checkDeclarations env adecls).run c = .ok (ds, c') →
      List.Forall₂ (fun adecl d => P adecl d c') (adecls.filter AstDecl.emits) ds
  | [], _, _, _, h => by
    obtain ⟨rfl, -⟩ := run_pure_ok h
    exact .nil
  | adecl :: adecls, _, _, _, h => by
    obtain ⟨od, c₁, h₁, k₁⟩ := run_bind_ok h
    obtain ⟨ds, c₂, h₂, k₂⟩ := run_bind_ok k₁
    obtain ⟨rfl, rfl⟩ := run_pure_ok k₂
    have he := checkDeclarations_keeps (extends_passStep env) adecls _ _ _ h₂
    rw [← List.singleton_append, List.filter_append]
    refine List.rel_append (forall₂_of_forall_mem (checkDecl_emits env h₁) fun a ha d hd => ?_)
      (checkDeclarations_forall₂ h₂)
    obtain rfl : a = adecl := List.mem_singleton.mp (List.mem_of_mem_filter ha)
    exact hP a d _ _ he (hdecl a _ od _ h₁ d (Option.mem_toList.mp hd))

theorem checkSubunits_forall₂ : ∀ {sus : List AstSubunit} {scopes : List ScopeRef} {c c' : Context}
    {ds : List Declaration}, sus.length ≤ scopes.length →
      (checkSubunits env sus scopes).run c = .ok (ds, c') →
      List.Forall₂ (fun adecl d => P adecl d c') ((sus.flatMap (·.decls)).filter AstDecl.emits) ds
  | [], _, _, _, _, _, h => by
    obtain ⟨rfl, -⟩ := run_pure_ok h
    exact .nil
  | su :: sus, _ :: scopes, _, _, _, hl, h => by
    obtain ⟨_, _, h₁, k₁⟩ := run_bind_ok h
    cases h₁
    obtain ⟨ds, c₂, h₂, k₂⟩ := run_bind_ok k₁
    obtain ⟨_, c₃, h₃, k₃⟩ := run_bind_ok k₂
    obtain ⟨rfl, rfl⟩ := run_pure_ok k₃
    have he := checkSubunits_keeps (extends_passStep env) sus scopes _ _ _ h₃
    rw [List.flatMap_cons, List.filter_append]
    exact List.rel_append ((checkDeclarations_forall₂ hP hdecl h₂).imp fun a d => hP a d _ _ he)
      (checkSubunits_forall₂ (Nat.le_of_succ_le_succ hl) h₃)
  | _ :: _, [], _, _, _, hl, _ => absurd hl (by simp)

/-- What holds of each declaration `check_decl` emits, and persists while the arena grows,
holds of the typed unit when `check` returns, pairwise with the AST declarations. -/
theorem check_forall₂ {ns : Option Identifier} {aunit : AstUnit} {c c' : Context} {u : TypedUnit}
    (h : (check env ns aunit).run c = .ok (u, c')) :
    List.Forall₂ (fun adecl d => P adecl d c') (aunit.decls.filter AstDecl.emits) u.declarations := by
  obtain ⟨scopes, c₁, h₁, k₁⟩ := run_bind_ok h
  obtain ⟨ds, c₂, h₂, k₂⟩ := run_bind_ok k₁
  obtain ⟨rfl, rfl⟩ := run_pure_ok k₂
  exact checkSubunits_forall₂ hP hdecl (scanPass_spec env h₁).2.1.ge h₂

end Lift

/-! ## The declarations of the typed unit -/

/-- `d` is a declaration `check_decl` returns for `adecl`, from some context. -/
def Declaration.CheckedFrom (env : Env) (adecl : AstDecl) (d : Declaration) : Prop :=
  ∃ c c', (checkDecl env adecl).run c = .ok (some d, c')

section Params

variable (env : Env)

/-- The objects `check_function` inserts into a function's scope for the parameters of its
prototype, in order, unless a parameter is unnamed: an `O_BIND` named as declared, of the
interned parameter type, a slice of it for the last parameter of a Hare-variadic function. -/
def paramObjects (variadism : Variadism) : List (AstFunctionParameter AstType) → Option (List ScopeObject)
  | [] => some []
  | param :: params => do
      let name ← param.name
      let type := env.lookupAtype param.type
      let type := if variadism = .hare && params.isEmpty then env.lookupSlice type else type
      let objs ← paramObjects variadism params
      pure (⟨.bind, ⟨name, none⟩, ⟨name, none⟩, type, none⟩ :: objs)

/-- The scope at `scope` exists and its first objects are those of the parameters `params`
of a function of variadism `variadism`. -/
def Context.ParamsFirst (ctx : Context) (variadism : Variadism) (params : List (AstFunctionParameter AstType))
    (scope : ScopeRef) : Prop :=
  scope < ctx.scopes.length ∧ ∃ objs ∈ paramObjects env variadism params, objs <+: (ctx.scopeAt scope).objects

/-- A function emitted for a function declaration is recorded with a scope whose first
objects are the declaration's parameters. -/
def Declaration.ParamsFirst (ctx : Context) (adecl : AstDecl) (d : Declaration) : Prop :=
  match adecl.decl, d.decl with
  | .function afndecl, .func f =>
      ctx.ParamsFirst env (env.get f.type).func.variadism afndecl.prototype.params f.scope
  | _, _ => True

theorem Context.paramsFirst_persistent (variadism : Variadism) (params : List (AstFunctionParameter AstType))
    (scope : ScopeRef) : Persistent fun c => c.ParamsFirst env variadism params scope :=
  fun _ _ h ⟨hs, objs, hobjs, hpre⟩ =>
    ⟨Nat.lt_of_lt_of_le hs h.length_le, objs, hobjs, hpre.trans (h.extends_ scope hs).objects⟩

theorem Declaration.paramsFirst_persistent (adecl : AstDecl) (d : Declaration) :
    Persistent fun c => Declaration.ParamsFirst env c adecl d := by
  unfold Declaration.ParamsFirst
  split
  · exact Context.paramsFirst_persistent env _ _ _
  · exact Persistent.const True

/-- `insertParams` appends the parameters' objects to a scope that exists. -/
theorem insertParams_run_ok {scope : ScopeRef} {variadism : Variadism} :
    ∀ {params : List (AstFunctionParameter AstType)} {c c' : Context}, scope < c.scopes.length →
      (insertParams env scope variadism params).run c = .ok ((), c') →
      scope < c'.scopes.length ∧
        ∃ objs ∈ paramObjects env variadism params, (c'.scopeAt scope).objects = (c.scopeAt scope).objects ++ objs
  | [], _, _, hs, h => by
    obtain ⟨-, rfl⟩ := run_pure_ok h
    exact ⟨hs, [], rfl, by simp⟩
  | param :: params, c, _, hs, h => by
    simp only [insertParams] at h
    split at h
    · next name hname =>
      obtain ⟨_, c₁, h₁, k₁⟩ := run_bind_ok h
      obtain ⟨_, hs', heq⟩ := scopeInsert_run_ok h₁
      cases hs'
      obtain ⟨-, rfl⟩ := Prod.ext_iff.mp heq
      obtain ⟨hs₂, objs, hobjs, hc⟩ := insertParams_run_ok (by simpa using hs) k₁
      refine ⟨hs₂, _ :: objs, ?_, by rw [hc, Context.scopeAt_insert_self _ _ hs]; exact List.append_assoc _ _ _⟩
      simp [paramObjects, hname, Option.mem_def.mp hobjs]
    · cases h

theorem insertParams_paramsFirst (scope : ScopeRef) (variadism : Variadism)
    (params : List (AstFunctionParameter AstType)) :
    Triple (fun c => scope < c.scopes.length ∧ (c.scopeAt scope).objects = [])
      (insertParams env scope variadism params) fun _ c => c.ParamsFirst env variadism params scope :=
  fun _ _ _ ⟨hs, hempty⟩ hrun =>
    let ⟨hs', objs, hobjs, hc⟩ := insertParams_run_ok env hs hrun
    ⟨hs', objs, hobjs, by rw [hc, hempty]; exact List.prefix_refl _⟩

/-- `check_function` inserts the parameters into the scope it pushes before anything else,
and everything after only appends. -/
theorem checkFunction_paramsFirst (adecl : AstDecl) (afndecl : AstFunctionDecl) :
    Triple (fun _ => True) (checkFunction env adecl afndecl) fun od c =>
      ∀ d ∈ od, ∃ f, d.decl = .func f ∧
        c.ParamsFirst env (env.get f.type).func.variadism afndecl.prototype.params f.scope := by
  intro c od c' _ h
  rcases checkFunction_run_ok env h with ⟨-, rfl, -⟩ | ⟨_, c₁, _, c₂, r, -, -, hins, hexpr, -, -, -, rfl, rfl⟩
  · exact nofun
  have hp := insertParams_paramsFirst env _ _ _ _ _ _ ⟨by simp, by simp⟩ hins
  have he : c₁.Extends { c₂ with scope := (c₂.scopeAt r).parent, currentFntype := none } :=
    (Context.Extends.of_frame (checkExpression_frame env _ _ _ _ _ hexpr)).trans (.of_scopes rfl)
  intro d hd
  cases hd
  exact ⟨_, rfl, Context.paramsFirst_persistent env _ _ _ _ _ he hp⟩

theorem checkDecl_paramsFirst {adecl : AstDecl} {c c' : Context} {od : Option Declaration}
    (h : (checkDecl env adecl).run c = .ok (od, c')) : ∀ d ∈ od, Declaration.ParamsFirst env c' adecl d := by
  intro d hd
  unfold checkDecl at h
  obtain ⟨od₀, h₀, rfl⟩ := run_map_ok h
  obtain ⟨d₀, hd₀, rfl⟩ := Option.mem_map.mp hd
  unfold Declaration.ParamsFirst
  split
  · next afndecl f hadecl hf =>
    simp only [hadecl] at h₀
    obtain ⟨f', hf', hp⟩ := checkFunction_paramsFirst env adecl afndecl c od₀ c' trivial h₀ d₀ hd₀
    obtain rfl : f' = f := DeclarationKind.func.inj (hf'.symm.trans hf)
    exact hp
  · trivial

/-- Each function `check` emits is recorded with a scope that exists when `check` returns
and whose first objects are the objects of its declaration's parameters, in order, as
`check_function` inserted them: the body, the later declarations and the later subunits
only append to it. -/
theorem check_paramsFirst {ns : Option Identifier} {aunit : AstUnit} {ctx ctx' : Context} {u : TypedUnit}
    (h : (check env ns aunit).run ctx = .ok (u, ctx')) :
    List.Forall₂ (Declaration.ParamsFirst env ctx') (aunit.decls.filter AstDecl.emits) u.declarations :=
  check_forall₂ (Declaration.paramsFirst_persistent env) (fun _ _ _ _ => checkDecl_paramsFirst env) h

end Params

/-! ## The scopes of functions are new -/

/-- The scope a declaration is recorded with, for a function. -/
def Declaration.scope? (d : Declaration) : Option ScopeRef :=
  match d.decl with
  | .func f => some f.scope
  | _ => none

/-- Scopes in increasing order, each pushed when the arena had grown past its length in `c`
and before it reached its length in `c'`. -/
structure Context.PushedBetween (c c' : Context) (ss : List ScopeRef) : Prop where
  increasing : ss.Pairwise (· < ·)
  between : ∀ s ∈ ss, c.scopes.length ≤ s ∧ s < c'.scopes.length

namespace Context.PushedBetween

variable {c₀ c₁ c₂ : Context}

theorem nil : PushedBetween c₀ c₁ [] := ⟨.nil, nofun⟩

/-- The scope of at most one declaration. -/
theorem of_option {od : Option Declaration}
    (h : ∀ d ∈ od, ∀ s ∈ d.scope?, c₀.scopes.length ≤ s ∧ s < c₁.scopes.length) :
    PushedBetween c₀ c₁ (od.toList.filterMap Declaration.scope?) := by
  refine ⟨?_, fun s hs => ?_⟩
  · cases od with
    | none => exact .nil
    | some d => cases hs : d.scope? <;> simp [hs]
  · obtain ⟨d, hd, hs⟩ := List.mem_filterMap.mp hs
    exact h d (Option.mem_toList.mp hd) s hs

/-- Scopes pushed in one part of a run come before those pushed in the next. -/
theorem append {l₁ l₂ : List ScopeRef} (h₁ : PushedBetween c₀ c₁ l₁) (h₂ : PushedBetween c₁ c₂ l₂)
    (h₀₁ : c₀.scopes.length ≤ c₁.scopes.length) (h₁₂ : c₁.scopes.length ≤ c₂.scopes.length) :
    PushedBetween c₀ c₂ (l₁ ++ l₂) :=
  ⟨List.pairwise_append.mpr ⟨h₁.increasing, h₂.increasing,
      fun _ ha _ hb => Nat.lt_of_lt_of_le (h₁.between _ ha).2 (h₂.between _ hb).1⟩,
    fun s hs => (List.mem_append.mp hs).elim
      (fun hs => ⟨(h₁.between s hs).1, Nat.lt_of_lt_of_le (h₁.between s hs).2 h₁₂⟩)
      fun hs => ⟨Nat.le_trans h₀₁ (h₂.between s hs).1, (h₂.between s hs).2⟩⟩

end Context.PushedBetween

section Fresh

variable (env : Env)

/-- `check_function` records the function with the scope it pushes, at the length the arena
has then. -/
theorem checkFunction_pushedBetween (adecl : AstDecl) (afndecl : AstFunctionDecl) (L : Nat) :
    Triple (fun c => L ≤ c.scopes.length) (checkFunction env adecl afndecl)
      fun od c => ∀ d ∈ od, ∀ s ∈ d.scope?, L ≤ s ∧ s < c.scopes.length := by
  intro c od c' hL h
  rcases checkFunction_run_ok env h with ⟨-, rfl, -⟩ | ⟨_, _, _, _, _, -, -, hins, hexpr, -, -, -, rfl, rfl⟩
  · exact nofun
  have hR := extends_passStep env
  have he := trans_of Context.Extends (insertParams_keeps hR _ _ _ _ _ _ hins)
    (trans_of Context.Extends (hR.expression _ _ _ _ _ hexpr) (.of_scopes rfl))
  intro d hd s hs
  cases hd
  cases hs
  exact ⟨hL, Nat.lt_of_lt_of_le (by simp) he.length_le⟩

theorem checkDecl_pushedBetween {adecl : AstDecl} {c c' : Context} {od : Option Declaration}
    (h : (checkDecl env adecl).run c = .ok (od, c')) :
    ∀ d ∈ od, ∀ s ∈ d.scope?, c.scopes.length ≤ s ∧ s < c'.scopes.length := by
  intro d hd s hs
  unfold checkDecl at h
  obtain ⟨od₀, h₀, rfl⟩ := run_map_ok h
  obtain ⟨d₀, hd₀, rfl⟩ := Option.mem_map.mp hd
  split at h₀
  · obtain ⟨rfl, -⟩ := run_pure_ok h₀
    cases hd₀
  · exact checkFunction_pushedBetween env _ _ _ c od₀ c' (Nat.le_refl _) h₀ d₀ hd₀ s hs
  · obtain ⟨hk, -⟩ := (checkGlobal_fits env ‹_› h₀).fits d₀ hd₀
    unfold Declaration.scope? at hs
    split at hs
    · simp_all [Declaration.kindOf]
    · cases hs
  · obtain ⟨_, h₁, rfl⟩ := run_map_ok h₀
    obtain ⟨-, rfl⟩ := checkType_run_ok env h₁
    cases hd₀
    cases hs

theorem checkDeclarations_pushedBetween : ∀ {adecls : List AstDecl} {c c' : Context} {ds : List Declaration},
    (checkDeclarations env adecls).run c = .ok (ds, c') →
      Context.PushedBetween c c' (ds.filterMap Declaration.scope?)
  | [], _, _, _, h => by
    obtain ⟨rfl, rfl⟩ := run_pure_ok h
    exact .nil
  | adecl :: adecls, _, _, _, h => by
    obtain ⟨od, c₁, h₁, k₁⟩ := run_bind_ok h
    obtain ⟨ds, c₂, h₂, k₂⟩ := run_bind_ok k₁
    obtain ⟨rfl, rfl⟩ := run_pure_ok k₂
    rw [List.filterMap_append]
    exact (Context.PushedBetween.of_option (checkDecl_pushedBetween env h₁)).append
      (checkDeclarations_pushedBetween h₂) (checkDecl_keeps (extends_passStep env) adecl _ _ _ h₁).length_le
      (checkDeclarations_keeps (extends_passStep env) adecls _ _ _ h₂).length_le

theorem checkSubunits_pushedBetween : ∀ {sus : List AstSubunit} {scopes : List ScopeRef} {c c' : Context}
    {ds : List Declaration}, (checkSubunits env sus scopes).run c = .ok (ds, c') →
      Context.PushedBetween c c' (ds.filterMap Declaration.scope?)
  | su :: sus, _ :: scopes, c, _, _, h => by
    obtain ⟨_, _, h₁, k₁⟩ := run_bind_ok h
    cases h₁
    obtain ⟨ds, c₂, h₂, k₂⟩ := run_bind_ok k₁
    obtain ⟨_, c₃, h₃, k₃⟩ := run_bind_ok k₂
    obtain ⟨rfl, rfl⟩ := run_pure_ok k₃
    -- making the subunit's scope current leaves the arena alone
    have h₂' : Context.PushedBetween c c₂ (ds.filterMap Declaration.scope?) :=
      let h := checkDeclarations_pushedBetween env h₂
      ⟨h.increasing, h.between⟩
    rw [List.filterMap_append]
    exact h₂'.append (checkSubunits_pushedBetween h₃)
      (checkDeclarations_keeps (extends_passStep env) su.decls _ _ _ h₂).length_le
      (checkSubunits_keeps (extends_passStep env) sus scopes _ _ _ h₃).length_le
  | [], _, _, _, _, h => by
    obtain ⟨rfl, rfl⟩ := run_pure_ok h
    exact .nil
  | _ :: _, [], _, _, _, h => by
    obtain ⟨rfl, rfl⟩ := run_pure_ok h
    exact .nil

/-- The functions `check` emits are recorded with new scopes: in the order they are emitted
their scopes strictly increase, so no two share one, and each was pushed during the run, so
none is a scope that existed before it. -/
theorem check_functionScopesFresh {ns : Option Identifier} {aunit : AstUnit} {ctx ctx' : Context}
    {u : TypedUnit} (h : (check env ns aunit).run ctx = .ok (u, ctx')) :
    Context.PushedBetween ctx ctx' (u.declarations.filterMap Declaration.scope?) := by
  obtain ⟨scopes, c₁, h₁, k₁⟩ := run_bind_ok h
  obtain ⟨ds, c₂, h₂, k₂⟩ := run_bind_ok k₁
  obtain ⟨rfl, rfl⟩ := run_pure_ok k₂
  exact Context.PushedBetween.nil.append (checkSubunits_pushedBetween env h₂)
    (scanPass_keeps_extends env ns aunit _ _ _ h₁).length_le
    (checkSubunits_keeps (extends_passStep env) _ _ _ _ _ h₂).length_le

end Fresh

/-- `fn f(x: int, y: int...) void = return;` -/
def Reference.variadicParamsUnit : AstUnit :=
  Reference.unitOf ⟨Reference.here, false, .function ⟨none, ⟨"f", none⟩,
    ⟨Reference.builtinType .void, [Reference.intParam "x", Reference.intParam "y"], .hare⟩,
    some (.return Reference.here none), ⟨false, false, false⟩⟩⟩

theorem scanPass_variadicParamsUnit :
    (scanPass Reference.env none Reference.variadicParamsUnit).run Reference.initialContext =
      .ok ([1], Reference.scannedContext [Reference.declObject "f" 11]) := rfl

theorem check_variadicParamsUnit_ok :
    ∃ u ctx', (check Reference.env none Reference.variadicParamsUnit).run Reference.initialContext =
      .ok (u, ctx') :=
  exists_run_ok_of_isOk (by rw [check_run, scanPass_variadicParamsUnit]; decide)

theorem check_variadicParamsUnit_paramsFirst :
    ∃ u ctx', (check Reference.env none Reference.variadicParamsUnit).run Reference.initialContext =
      .ok (u, ctx') ∧
      List.Forall₂ (Declaration.ParamsFirst Reference.env ctx')
        (Reference.variadicParamsUnit.decls.filter AstDecl.emits) u.declarations :=
  let ⟨u, ctx', h⟩ := check_variadicParamsUnit_ok
  ⟨u, ctx', h, check_paramsFirst Reference.env h⟩

end Harec
