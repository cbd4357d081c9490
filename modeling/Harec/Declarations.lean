import Mathlib.Data.List.Forall2
import Harec.Passes
import Harec.Reference

/-!
# The declarations of a unit

`check` emits one declaration for each function with a body, each global with an
initializer and each type of the unit, subunit after subunit and in the order of the
declarations in each; constants, prototypes and globals without initializer give none
(§4.5).  Each declaration is of the kind of its AST declaration and exported as it is.

The scan pass inserts an object for each function, global and type into the unit scope
before any body is checked, and the identifiers that accesses resolve to are those
objects'.  The check pass computes the identifier and type of each declaration again; both
passes compute them from the unit's namespace, which no step of `check` changes after it
is set, so they agree: `AstDecl.scanKey` is the identifier and type of an AST
declaration's object, and the emitted declaration has it.
-/

namespace Harec

/-- The type a declaration gives its identifier. -/
def Declaration.type (d : Declaration) : TypeRef :=
  match d.decl with
  | .func f => f.type
  | .global g => g.type
  | .type t => t

/-- Whether a declaration is of the kind of an AST declaration. -/
def Declaration.kindOf (d : Declaration) (adecl : AstDecl) : Bool :=
  match adecl.decl, d.decl with
  | .function _, .func _ | .global _, .global _ | .type _, .type _ => true
  | _, _ => false

/-- The AST declarations `check` emits a declaration for. -/
def AstDecl.emits (adecl : AstDecl) : Bool :=
  match adecl.decl with
  | .constant _ => false
  | .function f => f.body.isSome
  | .global g => g.init.isSome
  | .type _ => true

/-- The declarations of a unit, subunit after subunit. -/
def AstUnit.decls (aunit : AstUnit) : List AstDecl := aunit.subunits.flatMap (·.decls)

/-- The identifier and type of the object the scan pass inserts into the unit scope for a
function, global or type declaration of a unit of namespace `ns`. -/
def AstDecl.scanKey (env : Env) (ns : Option Identifier) (adecl : AstDecl) :
    Option (Identifier × TypeRef) :=
  match adecl.decl with
  | .constant _ => none
  | .function f => some (declIdent ns f.symbol f.ident, env.lookupAtype (fnAtype f.prototype))
  | .global g => some (declIdent ns g.symbol g.ident, env.lookupAtype g.type)
  | .type t => some (mkident ns t.ident, env.lookupAtype t.type)

/-- A declaration `check` emits for an AST declaration: of its kind, exported as it is,
with the identifier and type of the AST declaration's scan object. -/
structure Declaration.EmittedFor (env : Env) (ns : Option Identifier) (adecl : AstDecl)
    (d : Declaration) : Prop where
  kind : d.kindOf adecl = true
  exported : d.exported = adecl.exported
  key : adecl.scanKey env ns = some (d.ident, d.type)

/-- What checking one AST declaration gives before `check_declarations` sets its export
flag: a declaration exactly when the AST declaration emits one, of its kind and with its
scan key. -/
structure Declaration.Fits (env : Env) (ns : Option Identifier) (adecl : AstDecl)
    (od : Option Declaration) : Prop where
  isSome : od.isSome = adecl.emits
  fits : ∀ d ∈ od, d.kindOf adecl = true ∧ adecl.scanKey env ns = some (d.ident, d.type)

namespace Declaration.Fits

variable {env : Env} {ns : Option Identifier} {adecl : AstDecl}

theorem none (h : adecl.emits = false) : Fits env ns adecl none := ⟨h.symm, nofun⟩

theorem some {d : Declaration} (he : adecl.emits = true) (hk : d.kindOf adecl = true)
    (hkey : adecl.scanKey env ns = some (d.ident, d.type)) : Fits env ns adecl (some d) :=
  ⟨he.symm, fun _ hd => Option.mem_some.mp hd ▸ ⟨hk, hkey⟩⟩

/-- Setting the export flag of the declaration makes it one `check` emits for `adecl`. -/
theorem exported {od : Option Declaration} (h : Fits env ns adecl od) :
    List.Forall₂ (EmittedFor env ns) ([adecl].filter AstDecl.emits)
      (od.map fun d => { d with exported := adecl.exported }).toList := by
  obtain ⟨hs, hd⟩ := h
  cases od with
  | none => simp [← hs]
  | some d =>
    obtain ⟨hk, hkey⟩ := hd d rfl
    simp only [Option.isSome_some] at hs
    simp only [List.filter, ← hs, Option.map_some', Option.toList_some, List.forall₂_cons,
      List.forall₂_nil_right_iff, and_true]
    exact ⟨hk, rfl, hkey⟩

end Declaration.Fits

section Check

variable (env : Env)

/-- `check_function` gives a declaration for a function with a body, named and typed as
`scan_function` names and types it. -/
theorem checkFunction_fits {adecl : AstDecl} {f : AstFunctionDecl} {ctx ctx' : Context}
    {od : Option Declaration} (hd : adecl.decl = .function f)
    (h : (checkFunction env adecl f).run ctx = .ok (od, ctx')) :
    Declaration.Fits env ctx.ns adecl od := by
  rcases checkFunction_run_ok env h with ⟨hb, rfl, -⟩ | ⟨_, _, _, _, _, hb, -, -, -, -, -, -, -, rfl⟩
  · exact .none (by simp [AstDecl.emits, hd, hb])
  · exact .some (by simp [AstDecl.emits, hd, hb]) (by simp [Declaration.kindOf, hd])
      (by simp [AstDecl.scanKey, Declaration.type, hd])

/-- `check_global` gives a declaration for a global with an initializer, named and typed as
`scan_global` names and types it. -/
theorem checkGlobal_fits {adecl : AstDecl} {g : AstGlobalDecl} {ctx ctx' : Context}
    {od : Option Declaration} (hd : adecl.decl = .global g)
    (h : (checkGlobal env g).run ctx = .ok (od, ctx')) : Declaration.Fits env ctx.ns adecl od := by
  rcases checkGlobal_run_ok env h with ⟨hi, rfl, -⟩ | ⟨_, _, _, _, hi, hexpr, -, -, -, rfl⟩
  · exact .none (by simp [AstDecl.emits, hd, hi])
  · have hns : ctx'.ns = ctx.ns := (checkExpression_frame env _ _ _ _ _ hexpr).ns
    exact .some (by simp [AstDecl.emits, hd, hi]) (by simp [Declaration.kindOf, hd])
      (by simp [AstDecl.scanKey, Declaration.type, hd, hns])

/-- The declarations `check_declarations` emits for one AST declaration. -/
theorem checkDecl_emits {adecl : AstDecl} {ctx ctx' : Context} {od : Option Declaration}
    (h : (checkDecl env adecl).run ctx = .ok (od, ctx')) :
    List.Forall₂ (Declaration.EmittedFor env ctx.ns) ([adecl].filter AstDecl.emits) od.toList := by
  unfold checkDecl at h
  obtain ⟨od₀, h₀, rfl⟩ := run_map_ok h
  refine Declaration.Fits.exported ?_
  split at h₀
  · obtain ⟨rfl, -⟩ := run_pure_ok h₀
    exact .none (by simp [AstDecl.emits, *])
  · exact checkFunction_fits env ‹_› h₀
  · exact checkGlobal_fits env ‹_› h₀
  · obtain ⟨_, h₁, rfl⟩ := run_map_ok h₀
    obtain ⟨-, rfl⟩ := checkType_run_ok env h₁
    exact .some (by simp [AstDecl.emits, *]) (by simp [Declaration.kindOf, *])
      (by simp [AstDecl.scanKey, Declaration.type, *])

theorem checkDeclarations_emits : ∀ {adecls : List AstDecl} {ctx ctx' : Context} {ds : List Declaration},
    (checkDeclarations env adecls).run ctx = .ok (ds, ctx') →
      List.Forall₂ (Declaration.EmittedFor env ctx.ns) (adecls.filter AstDecl.emits) ds
  | [], _, _, _, h => by
    obtain ⟨rfl, -⟩ := run_pure_ok h
    exact .nil
  | adecl :: adecls, ctx, _, _, h => by
    obtain ⟨od, c₁, h₁, k₁⟩ := run_bind_ok h
    obtain ⟨ds, c₂, h₂, k₂⟩ := run_bind_ok k₁
    obtain ⟨rfl, -⟩ := run_pure_ok k₂
    have hns : c₁.ns = ctx.ns := (checkDecl_steady env adecl ctx od c₁ h₁).ns
    rw [← List.singleton_append, List.filter_append]
    exact List.rel_append (checkDecl_emits env h₁) (hns ▸ checkDeclarations_emits h₂)

/-- The check pass emits the declarations of the subunits it has a scope for, in order. -/
theorem checkSubunits_emits : ∀ {sus : List AstSubunit} {scopes : List ScopeRef} {ctx ctx' : Context}
    {ds : List Declaration}, sus.length ≤ scopes.length →
      (checkSubunits env sus scopes).run ctx = .ok (ds, ctx') →
      List.Forall₂ (Declaration.EmittedFor env ctx.ns) ((sus.flatMap (·.decls)).filter AstDecl.emits) ds
  | [], _, _, _, _, _, h => by
    obtain ⟨rfl, -⟩ := run_pure_ok h
    exact .nil
  | su :: sus, _ :: scopes, ctx, _, _, hl, h => by
    obtain ⟨_, _, h₁, k₁⟩ := run_bind_ok h
    cases h₁
    obtain ⟨ds, c₂, h₂, k₂⟩ := run_bind_ok k₁
    obtain ⟨_, c₃, h₃, k₃⟩ := run_bind_ok k₂
    obtain ⟨rfl, -⟩ := run_pure_ok k₃
    have hns : c₂.ns = ctx.ns := (checkDeclarations_steady env su.decls _ ds c₂ h₂).ns
    rw [List.flatMap_cons, List.filter_append]
    exact List.rel_append (checkDeclarations_emits env h₂)
      (hns ▸ checkSubunits_emits (Nat.le_of_succ_le_succ hl) h₃)
  | _ :: _, [], _, _, _, hl, _ => absurd hl (by simp)

end Check

/-! ## The scan pass -/

/-- The identifier and type of an `O_DECL` or `O_TYPE` object. -/
def ScopeObject.key (o : ScopeObject) : Option (Identifier × TypeRef) :=
  match o.otype with
  | .decl | .type => some (o.ident, o.type)
  | .bind | .const => none

namespace Context

/-- The objects of the unit scope. -/
def unitObjects (ctx : Context) : List ScopeObject :=
  match ctx.unit with
  | some u => (ctx.scopeAt u).objects
  | none => []

/-- The identifiers and types of the `O_DECL` and `O_TYPE` objects of the unit scope, in
the order they were inserted. -/
def unitKeys (ctx : Context) : List (Identifier × TypeRef) := ctx.unitObjects.filterMap ScopeObject.key

/-- The unit scope is set and allocated. -/
def UnitOpen (ctx : Context) : Prop := ∃ u, ctx.unit = some u ∧ u < ctx.scopes.length

/-- The unit scope is set and allocated and another scope is current: the state the scan
pass scans a declaration in. -/
def Scanning (ctx : Context) : Prop :=
  ∃ u, ctx.unit = some u ∧ u < ctx.scopes.length ∧ ctx.scope ≠ some u

@[simp] theorem unitKeys_push (ctx : Context) : ctx.push.2.unitKeys = ctx.unitKeys := by
  simp only [unitKeys, unitObjects, push_snd_unit]
  split <;> simp

/-- A scope just pushed and made the unit scope has no objects. -/
theorem unitKeys_pushUnit (ctx : Context) : { ctx.push.2 with unit := some ctx.push.1 }.unitKeys = [] := by
  show (ctx.push.2.scopeAt ctx.scopes.length).objects.filterMap ScopeObject.key = []
  rw [scopeAt_push_self]
  rfl

end Context

/-- A stretch of the scan pass that appends `keys` to the keys of the unit scope. -/
def ScanAppends (keys : List (Identifier × TypeRef)) (ctx ctx' : Context) : Prop :=
  ctx.Scanning → ctx'.Scanning ∧ ctx'.unitKeys = ctx.unitKeys ++ keys

namespace ScanAppends

theorem trans {k₁ k₂ : List (Identifier × TypeRef)} {c₁ c₂ c₃ : Context} (h₁ : ScanAppends k₁ c₁ c₂)
    (h₂ : ScanAppends k₂ c₂ c₃) : ScanAppends (k₁ ++ k₂) c₁ c₃ := fun hs =>
  let ⟨hs₂, hk₂⟩ := h₁ hs
  let ⟨hs₃, hk₃⟩ := h₂ hs₂
  ⟨hs₃, by rw [hk₃, hk₂, List.append_assoc]⟩

instance : IsPreorder Context (ScanAppends []) where
  refl _ hs := ⟨hs, (List.append_nil _).symm⟩
  trans _ _ _ h₁ h₂ := trans h₁ h₂

/-- A check run while another scope is current leaves the unit scope alone. -/
theorem of_frame {c c' : Context} (h : Frame c c') : ScanAppends [] c c' := by
  rintro ⟨u, hu, hlt, hne⟩
  refine ⟨⟨u, h.unit ▸ hu, Nat.lt_of_lt_of_le hlt h.length_le, h.scope ▸ hne⟩, ?_⟩
  simp only [Context.unitKeys, Context.unitObjects, h.unit, hu, h.objects u hlt (Ne.symm hne),
    List.append_nil]

/-- Inserting into the unit scope appends the object's key. -/
theorem insert {c : Context} {s : ScopeRef} {o : ScopeObject} {keys : List (Identifier × TypeRef)}
    (hu : c.unit = some s) (hk : o.key.toList = keys) : ScanAppends keys c (c.insert s o).2 := by
  rintro ⟨u, hu', hlt, hne⟩
  obtain rfl : s = u := Option.some_inj.mp (hu.symm.trans hu')
  refine ⟨⟨s, hu, by simpa using hlt, hne⟩, ?_⟩
  simp only [Context.unitKeys, Context.unitObjects, Context.insert_unit, hu,
    c.scopeAt_insert_self o hlt, List.filterMap_append, ← hk]
  cases hk : o.key <;> simp [List.filterMap_cons, hk]

/-- Inserting an object without key anywhere leaves the keys of the unit scope alone. -/
theorem insert_keyless {c : Context} {s : ScopeRef} {o : ScopeObject} (hk : o.key = none) :
    ScanAppends [] c (c.insert s o).2 := by
  rintro ⟨u, hu, hlt, hne⟩
  refine ⟨⟨u, hu, by simpa using hlt, hne⟩, ?_⟩
  simp only [Context.unitKeys, Context.unitObjects, Context.insert_unit, hu, List.append_nil]
  by_cases hs : s = u
  · subst hs
    simp [c.scopeAt_insert_self o hlt, List.filterMap_cons, hk]
  · rw [c.scopeAt_insert_of_ne o hs]

theorem insert_const {c : Context} {s : ScopeRef} {ident name : Identifier} {type : TypeRef}
    {value : Option Expression} : ScanAppends [] c (c.insert s ⟨.const, ident, name, type, value⟩).2 :=
  insert_keyless rfl

protected theorem rfl {c : Context} : ScanAppends [] c c := refl c

end ScanAppends

section Scan

variable (env : Env)

/-- `scan_const` inserts an `O_CONST` object, which has no key. -/
theorem scanConst_scanAppends (decl : AstGlobalDecl) : Keeps (ScanAppends []) (scanConst env decl) :=
  fun _ _ _ h => by
    obtain ⟨_, _, _, _, _, _, -, -, hexpr, -, -, -, -, rfl⟩ := scanConst_run_ok env h
    exact trans_of (ScanAppends []) (.of_frame (checkExpression_frame env _ _ _ _ _ hexpr)) .insert_const

/-- Scanning a declaration appends its scan key to the keys of the unit scope. -/
theorem scanDecl_scanAppends {decl : AstDecl} {c c' : Context} {u : PUnit}
    (h : (scanDecl env decl).run c = .ok (u, c')) :
    ScanAppends ([decl].filterMap (AstDecl.scanKey env c.ns)) c c' := by
  unfold scanDecl at h
  cases hd : decl.decl with
  | constant g =>
    simp only [hd] at h
    simpa [AstDecl.scanKey, hd] using scanConst_scanAppends env g c _ c' h
  | function f =>
    simp only [hd, scanFunction] at h
    obtain ⟨_, _, h₁, k₁⟩ := run_bind_ok h
    cases h₁
    obtain ⟨s, hs, rfl⟩ := scopeInsert_pure_run_ok k₁
    exact ScanAppends.insert hs (by simp [AstDecl.scanKey, ScopeObject.key, hd])
  | global g =>
    simp only [hd, scanGlobal] at h
    obtain ⟨_, _, h₁, k₁⟩ := run_bind_ok h
    cases h₁
    obtain ⟨s, hs, rfl⟩ := scopeInsert_pure_run_ok k₁
    exact ScanAppends.insert hs (by simp [AstDecl.scanKey, ScopeObject.key, hd])
  | type t =>
    simp only [hd] at h
    obtain ⟨s, hs, rfl⟩ := scanType_run_ok env h
    have hk : [decl].filterMap (AstDecl.scanKey env c.ns) =
        (some (mkident c.ns t.ident, env.lookupAtype t.type)).toList ++ [] := by
      simp [AstDecl.scanKey, hd]
    rw [hk]
    exact (ScanAppends.insert hs rfl).trans (Context.foldl_insert (P := ScanAppends [] _)
      (fun _ _ h' => trans_of (ScanAppends []) h' .insert_const) _ ScanAppends.rfl)

theorem scanDeclarations_scanAppends : ∀ {decls : List AstDecl} {c c' : Context} {u : PUnit},
    (scanDeclarations env decls).run c = .ok (u, c') →
      ScanAppends (decls.filterMap (AstDecl.scanKey env c.ns)) c c'
  | [], _, _, _, h => by
    obtain ⟨-, rfl⟩ := run_pure_ok h
    exact ScanAppends.rfl
  | decl :: decls, c, _, _, h => by
    obtain ⟨_, c₁, h₁, k₁⟩ := run_bind_ok h
    have hns : c₁.ns = c.ns := (scanDecl_steady env decl c _ c₁ h₁).ns
    rw [← List.singleton_append, List.filterMap_append]
    exact (scanDecl_scanAppends env h₁).trans (hns ▸ scanDeclarations_scanAppends k₁)

/-- Scanning a subunit, in a scope of its own, appends the scan keys of its declarations to
the keys of the unit scope. -/
theorem scanSubunit_unitKeys {su : AstSubunit} {c c' : Context} {r : ScopeRef}
    (h : (scanSubunit env su).run c = .ok (r, c')) (hu : c.UnitOpen) :
    c'.UnitOpen ∧ c'.unitKeys = c.unitKeys ++ su.decls.filterMap (AstDecl.scanKey env c.ns) := by
  unfold scanSubunit at h
  obtain ⟨_, _, h₁, k₁⟩ := run_bind_ok h
  obtain ⟨rfl, rfl⟩ := scopePush_run_ok h₁
  obtain ⟨_, _, h₂, k₂⟩ := run_bind_ok k₁
  obtain ⟨-, rfl⟩ := assertC_run_ok h₂
  obtain ⟨_, _, h₃, k₃⟩ := run_bind_ok k₂
  obtain ⟨-, rfl⟩ := scopePop_run_ok k₃
  obtain ⟨u, hu, hlt⟩ := hu
  have hs : c.push.2.Scanning :=
    ⟨u, hu, by rw [Context.push_snd_length]; exact Nat.lt_succ_of_lt hlt, by simp [Nat.ne_of_gt hlt]⟩
  obtain ⟨⟨u', hu', hlt', -⟩, hk⟩ := scanDeclarations_scanAppends env h₃ hs
  exact ⟨⟨u', hu', hlt'⟩, hk.trans (by rw [Context.unitKeys_push]; rfl)⟩

theorem scanSubunits_unitKeys : ∀ {sus : List AstSubunit} {c c' : Context} {scopes : List ScopeRef},
    (sus.mapM (scanSubunit env)).run c = .ok (scopes, c') → c.UnitOpen →
      c'.UnitOpen ∧ c'.unitKeys = c.unitKeys ++ (sus.flatMap (·.decls)).filterMap (AstDecl.scanKey env c.ns)
  | [], _, _, _, h, hu => by
    obtain ⟨-, rfl⟩ := run_pure_ok h
    exact ⟨hu, by simp⟩
  | su :: sus, c, _, _, h, hu => by
    rw [List.mapM_cons] at h
    obtain ⟨_, c₁, h₁, k₁⟩ := run_bind_ok h
    obtain ⟨_, _, h₂, k₂⟩ := run_bind_ok k₁
    obtain ⟨-, rfl⟩ := run_pure_ok k₂
    have hns : c₁.ns = c.ns := (scanSubunit_steady env su c _ c₁ h₁).ns
    obtain ⟨hu₁, hk₁⟩ := scanSubunit_unitKeys env h₁ hu
    obtain ⟨hu₂, hk₂⟩ := scanSubunits_unitKeys h₂ hu₁
    refine ⟨hu₂, ?_⟩
    rw [hk₂, hk₁, hns, List.flatMap_cons, List.filterMap_append, List.append_assoc]

/-- The scan pass leaves the namespace set, gives one scope for each subunit, and leaves in
the unit scope one `O_DECL` or `O_TYPE` object for each function, global and type of the
unit, in order, with its scan key. -/
theorem scanPass_spec {ns : Option Identifier} {aunit : AstUnit} {ctx ctx₁ : Context}
    {scopes : List ScopeRef} (h : (scanPass env ns aunit).run ctx = .ok (scopes, ctx₁)) :
    ctx₁.ns = ns ∧ scopes.length = aunit.subunits.length ∧
      ctx₁.unitKeys = aunit.decls.filterMap (AstDecl.scanKey env ns) := by
  unfold scanPass at h
  obtain ⟨_, _, h₁, k₁⟩ := run_bind_ok h
  cases h₁
  obtain ⟨_, _, h₂, k₂⟩ := run_bind_ok k₁
  obtain ⟨rfl, rfl⟩ := scopePush_run_ok h₂
  obtain ⟨_, _, h₃, k₃⟩ := run_bind_ok k₂
  cases h₃
  obtain ⟨-, hkeys⟩ := scanSubunits_unitKeys env k₃ ⟨_, rfl, by simp⟩
  refine ⟨((Keeps.mapM fun su _ => scanSubunit_steady env su) _ _ _ k₃).ns, mapM_run_length k₃, ?_⟩
  rw [hkeys, Context.unitKeys_pushUnit]
  rfl

/-- Each declaration `check` emits is emitted for the AST declaration at its position among
those that emit one. -/
theorem check_emittedFor {ns : Option Identifier} {aunit : AstUnit} {ctx ctx' : Context}
    {u : TypedUnit} (h : (check env ns aunit).run ctx = .ok (u, ctx')) :
    List.Forall₂ (Declaration.EmittedFor env ns) (aunit.decls.filter AstDecl.emits) u.declarations := by
  obtain ⟨scopes, c₁, h₁, k₁⟩ := run_bind_ok h
  obtain ⟨ds, c₂, h₂, k₂⟩ := run_bind_ok k₁
  obtain ⟨rfl, -⟩ := run_pure_ok k₂
  obtain ⟨hns, hlen, -⟩ := scanPass_spec env h₁
  exact hns ▸ checkSubunits_emits env hlen.ge h₂

/-- The scan pass and the check pass name and type each declaration alike: the `O_DECL`
and `O_TYPE` objects the scan pass leaves in the unit scope are those of the unit's
functions, globals and types, in order, each with its scan key, and each declaration
`check` emits has the scan key of its AST declaration.  The store interns an AST type
by a function of it, so equal AST types are one type. -/
theorem check_scanAndCheckAgree {ns : Option Identifier} {aunit : AstUnit} {ctx ctx' : Context}
    {u : TypedUnit} (h : (check env ns aunit).run ctx = .ok (u, ctx')) :
    ∃ scopes ctx₁, (scanPass env ns aunit).run ctx = .ok (scopes, ctx₁) ∧
      ctx₁.unitKeys = aunit.decls.filterMap (AstDecl.scanKey env ns) ∧
      List.Forall₂ (fun adecl d => adecl.scanKey env ns = some (d.ident, d.type))
        (aunit.decls.filter AstDecl.emits) u.declarations := by
  obtain ⟨scopes, c₁, h₁, -⟩ := run_bind_ok h
  exact ⟨scopes, c₁, h₁, (scanPass_spec env h₁).2.2, (check_emittedFor env h).imp fun _ _ e => e.key⟩

end Scan

open Reference

/-- A unit with a declaration of each kind, functions and globals with and without
`@symbol`:
`fn f() void = return; @symbol("gsym") export fn g() void = return; let x: int = 1;
@symbol("ysym") let y: int = 2; export type t = int; def C: int = 3; fn p() int; let z: int;`.
The constant, the prototype and the global without initializer emit no declaration. -/
def mixedDeclarationsUnit : AstUnit :=
  ⟨[⟨[], [functionDecl "f" .void (.return here none),
    ⟨here, true, .function ⟨some "gsym", ⟨"g", none⟩, ⟨builtinType .void, [], .none⟩,
      some (.return here none), ⟨false, false, false⟩⟩⟩,
    ⟨here, false, .global ⟨none, ⟨"x", none⟩, builtinType .int, some (const .int (.ival 1))⟩⟩,
    ⟨here, false, .global ⟨some "ysym", ⟨"y", none⟩, builtinType .int, some (const .int (.ival 2))⟩⟩,
    ⟨here, true, .type ⟨⟨"t", none⟩, builtinType .int⟩⟩,
    ⟨here, false, .constant ⟨none, ⟨"C", none⟩, builtinType .int, some (const .int (.ival 3))⟩⟩,
    prototypeDecl "p" ⟨builtinType .int, [], .none⟩,
    ⟨here, false, .global ⟨none, ⟨"z", none⟩, builtinType .int, none⟩⟩]⟩]⟩

theorem scanPass_mixedDeclarationsUnit :
    (scanPass env none mixedDeclarationsUnit).run initialContext = .ok ([1], scannedContext
      [declObject "f" 9, ⟨.decl, ⟨"gsym", none⟩, ⟨"g", none⟩, 9, none⟩, declObject "x" 2,
        ⟨.decl, ⟨"ysym", none⟩, ⟨"y", none⟩, 2, none⟩, ⟨.type, ⟨"t", none⟩, ⟨"t", none⟩, 2, none⟩,
        ⟨.const, ⟨"C", none⟩, ⟨"C", none⟩, 2, some (.mk (some 2) false (.constant (.ival 3) []))⟩,
        declObject "p" 8, declObject "z" 2]) :=
  scanPass_run_of_inserts <| .cons (fun _ => rfl) <| .cons (fun _ => rfl) <| .cons (fun _ => rfl) <|
    .cons (fun _ => rfl) <| .cons (fun _ => rfl) <| .cons (fun _ => rfl) <| .cons (fun _ => rfl) <|
    .cons (fun _ => rfl) .nil

theorem check_mixedDeclarationsUnit_ok :
    ∃ u ctx', (check env none mixedDeclarationsUnit).run initialContext = .ok (u, ctx') :=
  exists_run_ok_of_isOk (by rw [check_run, scanPass_mixedDeclarationsUnit]; decide)

theorem check_mixedDeclarationsUnit_scanAndCheckAgree :
    ∃ u ctx', (check env none mixedDeclarationsUnit).run initialContext = .ok (u, ctx') ∧
      ∃ scopes ctx₁, (scanPass env none mixedDeclarationsUnit).run initialContext = .ok (scopes, ctx₁) ∧
        ctx₁.unitKeys = mixedDeclarationsUnit.decls.filterMap (AstDecl.scanKey env none) ∧
        List.Forall₂ (fun adecl d => adecl.scanKey env none = some (d.ident, d.type))
          (mixedDeclarationsUnit.decls.filter AstDecl.emits) u.declarations :=
  let ⟨u, c, h⟩ := check_mixedDeclarationsUnit_ok
  ⟨u, c, h, check_scanAndCheckAgree env h⟩

end Harec
