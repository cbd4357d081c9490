import Harec.Arena

/-!
# The names of a unit resolve in every function body

The scan pass exists so that a declaration can be used before it is declared, and in another
subunit: it inserts an object for every constant, function, global and type of the unit into
the unit scope before the check pass checks any body.  This module follows the scopes that
make this work through a whole run of `check`.

**Algorithm.**  `check` pushes the unit scope, and `scan_declarations` runs for each subunit in
a scope pushed under it and popped again, so that each subunit's scope is a child of the unit
scope and every declaration's object is in the unit scope when the scan pass ends.  The check
pass makes each subunit's scope current, and `check_function` pushes the function's scope under
it.  The checks of expressions, the parameters and the objects of the passes leave the current
scope and the unit where they were and only append to the arena (`Context.Stays`), and the
scopes pushed inside are popped again.

**Results.**
* `check_namesResolve`: when `check` returns, looking up the name of any declaration of the
  unit from the scope of any function it emits finds an object: the function's scope lies
  under its subunit's scope, which lies under the unit scope, which holds the declaration's
  object.
* `check_paramsResolve`: from the scope of each function `check` emits, the name of each of
  its parameters is looked up to an object of that name in the function's own scope, so a
  parameter shadows a declaration of the unit of the same name.
-/

namespace Harec

/-- A step that leaves the current scope and the unit where they were and only appends to the
arena. -/
structure Context.Stays (ctx ctx' : Context) : Prop where
  extends_ : ctx.Extends ctx'
  scope : ctx'.scope = ctx.scope
  unit : ctx'.unit = ctx.unit

instance : IsPreorder Context Context.Stays where
  refl c := ⟨.refl c, rfl, rfl⟩
  trans _ _ _ h₁ h₂ := ⟨h₁.extends_.trans h₂.extends_, h₂.scope.trans h₁.scope, h₂.unit.trans h₁.unit⟩

theorem Frame.stays {c c' : Context} (h : Frame c c') : c.Stays c' := ⟨.of_frame h, h.scope, h.unit⟩

theorem Context.Stays.insert (c : Context) (r : ScopeRef) (o : ScopeObject) : c.Stays (c.insert r o).2 :=
  ⟨.insert c r o, rfl, rfl⟩

/-- A step that stays keeps the current scope, the unit and what is persistent. -/
theorem Triple.of_stays {α : Type} {s v : Option ScopeRef} {S : Context → Prop} (hS : Persistent S)
    {m : CheckM α} (h : Keeps Context.Stays m) :
    Triple (fun c => c.scope = s ∧ c.unit = v ∧ S c) m fun _ c => c.scope = s ∧ c.unit = v ∧ S c :=
  fun _ _ _ ⟨hs, hv, hS'⟩ hrun =>
    let h' := h _ _ _ hrun
    ⟨h'.scope.trans hs, h'.unit.trans hv, hS _ _ h'.extends_ hS'⟩

/-- The context a `get` reads is the state, so it satisfies what the state does. -/
theorem Triple.get_bind {β : Type} {P : Context → Prop} {f : Context → CheckM β} {Q : β → Context → Prop}
    (h : ∀ ctx, P ctx → Triple P (f ctx) Q) : Triple P (MonadState.get >>= f) Q := by
  intro c b c' hp hrun
  obtain ⟨_, _, h₁, k₁⟩ := run_bind_ok hrun
  cases h₁
  exact h c hp _ _ _ hp k₁

theorem Triple.map {α β : Type} {P : Context → Prop} {m : CheckM α} {f : α → β} {Q : β → Context → Prop}
    (h : Triple P m fun a => Q (f a)) : Triple P (f <$> m) Q := by
  rw [map_eq_pure_bind]
  exact Triple.bind h fun _ => Triple.pure fun _ => id

/-! ## Scopes and names -/

namespace Context

variable (ctx : Context)

/-- The scope at `s` exists and lies just below the scope at `r`, pushed after it. -/
def ChildOf (s r : ScopeRef) : Prop :=
  r < s ∧ s < ctx.scopes.length ∧ (ctx.scopeAt s).parent = some r

/-- The scope at `u` exists and holds an object looked up by `n`. -/
def Names (u : ScopeRef) (n : Identifier) : Prop :=
  u < ctx.scopes.length ∧ ∃ obj ∈ (ctx.scopeAt u).objects, obj.name = n

theorem childOf_persistent (s r : ScopeRef) : Persistent fun c => c.ChildOf s r :=
  fun _ _ h ⟨hrs, hs, hp⟩ => ⟨hrs, Nat.lt_of_lt_of_le hs h.length_le, (h.extends_ s hs).parent.trans hp⟩

theorem names_persistent (u : ScopeRef) (n : Identifier) : Persistent fun c => c.Names u n :=
  fun _ _ h ⟨hu, obj, hobj, hn⟩ =>
    ⟨Nat.lt_of_lt_of_le hu h.length_le, obj, (h.extends_ u hu).objects.subset hobj, hn⟩

variable {ctx}

/-- A lookup from a scope two levels below a scope that holds an object of the name finds an
object. -/
theorem scopeLookup_isSome {s r u : ScopeRef} {n : Identifier} (hsc : ctx.scope = some s)
    (hs : ctx.ChildOf s r) (hr : ctx.ChildOf r u) (hn : ctx.Names u n) : (ctx.scopeLookup n).isSome := by
  obtain ⟨hrs, hlt, hps⟩ := hs
  obtain ⟨hur, -, hpr⟩ := hr
  obtain ⟨-, obj, hobj, rfl⟩ := hn
  have h3 : 3 ≤ ctx.scopes.length := by
    simp only [ScopeRef] at hrs hur hlt
    omega
  obtain ⟨k, hk⟩ := Nat.exists_eq_add_of_le' h3
  have hchain : u ∈ ctx.chain ctx.scope := by
    rw [chain, hsc, hk, chainFrom_succ, hps, chainFrom_succ, hpr, chainFrom_succ]
    simp
  obtain ⟨x, hx, rfl⟩ := List.mem_map.mp
    (show obj ∈ (ctx.scopeAt u).objects.enum.map Prod.snd by rw [List.enum_map_snd]; exact hobj)
  simp only [scopeLookup, List.findSome?_isSome_iff, Option.isSome_map', List.find?_isSome]
  exact ⟨u, hchain, x, List.mem_reverse.mpr hx, by simp⟩

end Context

/-! ## The steps of the passes -/

/-- A scope pushed under the current scope is its child. -/
theorem Triple.scopePush_childOf {s : ScopeRef} {v : Option ScopeRef} {S : Context → Prop} (hS : Persistent S)
    (hs : ∀ c, S c → s < c.scopes.length) :
    Triple (fun c => c.scope = some s ∧ c.unit = v ∧ S c) scopePush
      fun p c => c.scope = some p ∧ c.unit = v ∧ S c ∧ c.ChildOf p s := by
  intro c p c' ⟨hsc, hv, hc⟩ hrun
  obtain ⟨rfl, rfl⟩ := scopePush_run_ok hrun
  exact ⟨rfl, hv, hS _ _ (.push c) hc, hs c hc, by simp, by simp [hsc]⟩

/-- Popping a child makes its parent current again. -/
theorem Triple.scopePop_childOf {p s : ScopeRef} {v : Option ScopeRef} {S : Context → Prop} (hS : Persistent S)
    (hp : ∀ c, S c → c.ChildOf p s) :
    Triple (fun c => c.scope = some p ∧ c.unit = v ∧ S c) scopePop
      fun r c => r = p ∧ c.scope = some s ∧ c.unit = v ∧ S c := by
  intro c _ c' ⟨hsc, hv, hc⟩ hrun
  obtain ⟨hr, rfl⟩ := scopePop_run_ok hrun
  cases hsc.symm.trans hr
  exact ⟨rfl, (hp c hc).2.2, hv, hS c _ (.of_scopes rfl) hc⟩

/-- An insertion into a scope that exists makes it name the object. -/
theorem Context.names_insert (ctx : Context) {u : ScopeRef} (hu : u < ctx.scopes.length) (o : ScopeObject) :
    (ctx.insert u o).2.Names u o.name := by
  refine ⟨by simpa using hu, o, ?_, rfl⟩
  rw [ctx.scopeAt_insert_self _ hu]
  exact List.mem_append_right _ (List.mem_singleton_self _)

theorem Triple.scopeInsert_names {r : Option ScopeRef} {u : ScopeRef} {s v : Option ScopeRef} {otype : ObjectType}
    {ident name : Identifier} {type : TypeRef} {value : Option Expression} {S : Context → Prop}
    (hr : r = some u) (hS : Persistent S) (hu : ∀ c, S c → u < c.scopes.length) :
    Triple (fun c => c.scope = s ∧ c.unit = v ∧ S c) (scopeInsert r otype ident name type value)
      fun _ c => c.scope = s ∧ c.unit = v ∧ S c ∧ c.Names u name := by
  intro c _ c' ⟨hs, hv, hc⟩ hrun
  obtain ⟨_, hr', heq⟩ := scopeInsert_run_ok hrun
  cases hr.symm.trans hr'
  obtain ⟨-, rfl⟩ := Prod.ext_iff.mp heq
  exact ⟨hs, hv, hS _ _ (.insert c u _) hc, c.names_insert (hu c hc) _⟩

/-- The name `scan_declarations` inserts the object of an AST declaration under. -/
def AstDecl.name (adecl : AstDecl) : Identifier :=
  match adecl.decl with
  | .constant c => c.ident
  | .function f => f.ident
  | .global g => g.ident
  | .type t => t.ident

/-- A function among the declarations is recorded with a scope that is a child of the scope
at `r`. -/
def Declaration.ScopedUnder (ctx : Context) (r : ScopeRef) (d : Declaration) : Prop :=
  ∀ f, d.decl = .func f → ctx.ChildOf f.scope r

theorem Declaration.scopedUnder_persistent (r : ScopeRef) (d : Declaration) :
    Persistent fun c => d.ScopedUnder c r :=
  Persistent.forall_ fun f => Context.childOf_persistent f.scope r

section Passes

variable (env : Env)

theorem checkExpression_stays (e : AstExpression) (hint : Option TypeRef) :
    Keeps Context.Stays (checkExpression env e hint) :=
  (checkExpression_frame env e hint).mono fun _ _ => Frame.stays

theorem insertParams_stays (scope : ScopeRef) (variadism : Variadism) :
    ∀ params, Keeps Context.Stays (insertParams env scope variadism params)
  | [] => Keeps.pure _
  | param :: params => by
    simp only [insertParams]
    split
    · exact Keeps.bind (Keeps.scopeInsert fun c _ _ => Context.Stays.insert c _ _) fun _ =>
        insertParams_stays scope variadism params
    · exact Keeps.throw _

/-! ### The check pass -/

variable {r : ScopeRef} {v : Option ScopeRef} {S : Context → Prop}

/-- `check_function` pushes the function's scope under the current scope and pops it again. -/
theorem checkFunction_childOf (adecl : AstDecl) (afndecl : AstFunctionDecl) (hS : Persistent S)
    (hr : ∀ c, S c → r < c.scopes.length) :
    Triple (fun c => c.scope = some r ∧ c.unit = v ∧ S c) (checkFunction env adecl afndecl)
      fun od c => c.scope = some r ∧ c.unit = v ∧ S c ∧ ∀ d ∈ od, d.ScopedUnder c r := by
  intro c od c' ⟨hs, hv, hc⟩ h
  rcases checkFunction_run_ok env h with ⟨-, rfl, rfl⟩ | ⟨_, _, _, c₂, p, -, -, hins, hexpr, -, -, hp, rfl, rfl⟩
  · exact ⟨hs, hv, hc, nofun⟩
  have hS' := hS.and (Context.childOf_persistent c.scopes.length r)
  obtain ⟨hs₀, hv₀, hc₀⟩ := Triple.scopePush_childOf hS hr
    { c with currentFntype := some (env.lookupAtype (fnAtype afndecl.prototype)) } _ _
    ⟨hs, hv, hS c _ (.of_scopes rfl) hc⟩ scopePush_run
  obtain ⟨hs₁, hv₁, hc₁⟩ := Triple.of_stays hS' (insertParams_stays env _ _ _) _ _ _ ⟨hs₀, hv₀, hc₀⟩ hins
  obtain ⟨hs₂, hv₂, hc₂, hch₂⟩ := Triple.of_stays hS' (checkExpression_stays env _ _) _ _ _ ⟨hs₁, hv₁, hc₁⟩ hexpr
  cases hs₂.symm.trans hp
  have he : c₂.Extends { c₂ with scope := (c₂.scopeAt c.scopes.length).parent, currentFntype := none } :=
    .of_scopes rfl
  exact ⟨hch₂.2.2, hv₂, hS _ _ he hc₂, fun d hd f hf => by
    cases hd
    cases hf
    exact Context.childOf_persistent _ _ _ _ he hch₂⟩

theorem checkGlobal_childOf (agdecl : AstGlobalDecl) (hS : Persistent S) :
    Triple (fun c => c.scope = some r ∧ c.unit = v ∧ S c) (checkGlobal env agdecl)
      fun od c => c.scope = some r ∧ c.unit = v ∧ S c ∧ ∀ d ∈ od, d.ScopedUnder c r := by
  intro c od c' ⟨hs, hv, hc⟩ h
  rcases checkGlobal_run_ok env h with ⟨-, rfl, rfl⟩ | ⟨_, _, _, _, -, hexpr, -, -, -, rfl⟩
  · exact ⟨hs, hv, hc, nofun⟩
  obtain ⟨hs', hv', hc'⟩ := Triple.of_stays hS (checkExpression_stays env _ _) _ _ _ ⟨hs, hv, hc⟩ hexpr
  exact ⟨hs', hv', hc', fun d hd f hf => by
    cases hd
    cases hf⟩

theorem checkDecl_childOf (adecl : AstDecl) (hS : Persistent S) (hr : ∀ c, S c → r < c.scopes.length) :
    Triple (fun c => c.scope = some r ∧ c.unit = v ∧ S c) (checkDecl env adecl)
      fun od c => c.scope = some r ∧ c.unit = v ∧ S c ∧ ∀ d ∈ od, d.ScopedUnder c r := by
  unfold checkDecl
  refine Triple.map (Triple.mono (Q := fun od c => c.scope = some r ∧ c.unit = v ∧ S c ∧ ∀ d ∈ od, d.ScopedUnder c r)
    ?_ fun od c ⟨hs, hv, hc, hd⟩ => ⟨hs, hv, hc, fun d hd' => ?_⟩)
  · split
    · exact Triple.pure fun _ ⟨hs, hv, hc⟩ => ⟨hs, hv, hc, nofun⟩
    · exact checkFunction_childOf env adecl _ hS hr
    · exact checkGlobal_childOf env _ hS
    · simp only [checkType]
      exact Triple.map (Triple.bind Triple.get fun _ => Triple.pure fun _ ⟨hs, hv, hc⟩ =>
        ⟨hs, hv, hc, fun d hd f hf => by
          cases hd
          cases hf⟩)
  · obtain ⟨d₀, hd₀, rfl⟩ := Option.mem_map.mp hd'
    exact hd d₀ hd₀

theorem checkDeclarations_childOf : ∀ (adecls : List AstDecl) ⦃S : Context → Prop⦄, Persistent S →
    (∀ c, S c → r < c.scopes.length) →
      Triple (fun c => c.scope = some r ∧ c.unit = v ∧ S c) (checkDeclarations env adecls)
        fun ds c => c.scope = some r ∧ c.unit = v ∧ S c ∧ ∀ d ∈ ds, d.ScopedUnder c r
  | [], _, _, _ => Triple.pure fun _ ⟨hs, hv, hc⟩ => ⟨hs, hv, hc, nofun⟩
  | adecl :: adecls, _, hS, hr =>
    Triple.bind (checkDecl_childOf env adecl hS hr) fun _ =>
      Triple.bind (checkDeclarations_childOf adecls
        (hS.and (Persistent.forall_ fun d => d.scopedUnder_persistent r)) fun c h => hr c h.1)
      fun _ => Triple.pure fun _ ⟨hs, hv, ⟨hc, hd⟩, hds⟩ => ⟨hs, hv, hc, fun d hd' => by
        rcases List.mem_append.mp hd' with hd' | hd'
        · exact hd d (Option.mem_toList.mp hd')
        · exact hds d hd'⟩

/-- The check pass: each subunit is checked in the scope its scan used, so each function is
recorded with a scope that is a child of one of those scopes. -/
theorem checkSubunits_childOf : ∀ (sus : List AstSubunit) (scopes : List ScopeRef) ⦃S : Context → Prop⦄,
    Persistent S → (∀ c, S c → ∀ r ∈ scopes, r < c.scopes.length) →
      Triple (fun c => c.unit = v ∧ S c) (checkSubunits env sus scopes)
        fun ds c => c.unit = v ∧ S c ∧ ∀ d ∈ ds, ∃ r ∈ scopes, d.ScopedUnder c r
  | su :: sus, scope :: scopes, S, hS, hr => by
    simp only [checkSubunits]
    have hset : Triple (fun c => c.unit = v ∧ S c) (modify fun ctx => { ctx with scope := some scope } : CheckM PUnit)
        fun _ c => c.scope = some scope ∧ c.unit = v ∧ S c := by
      intro c _ _ ⟨hv, hc⟩ hrun
      cases hrun
      exact ⟨rfl, hv, hS c _ (.of_scopes rfl) hc⟩
    refine Triple.bind hset fun _ => Triple.bind
      ((checkDeclarations_childOf env su.decls hS fun c h => hr c h _ (.head _)).mono fun _ _ h => h.2)
      fun _ => Triple.bind (checkSubunits_childOf sus scopes
        (hS.and (Persistent.forall_ fun d => d.scopedUnder_persistent scope)) fun c h r' hr' => hr c h.1 r' (.tail _ hr'))
      fun _ => Triple.pure fun _ ⟨hv, ⟨hc, hd⟩, hds⟩ => ⟨hv, hc, fun d hd' => ?_⟩
    rcases List.mem_append.mp hd' with hd' | hd'
    · exact ⟨scope, .head _, hd d hd'⟩
    · obtain ⟨r', hr', hsc⟩ := hds d hd'
      exact ⟨r', .tail _ hr', hsc⟩
  | [], _, _, _, _ => Triple.pure fun _ ⟨hv, hc⟩ => ⟨hv, hc, nofun⟩
  | _ :: _, [], _, _, _ => Triple.pure fun _ ⟨hv, hc⟩ => ⟨hv, hc, nofun⟩

/-! ### The scan pass -/

variable {u : ScopeRef} {s : Option ScopeRef}

/-- `scan_function` and `scan_global` insert their object into the unit scope. -/
theorem scanUnitDecl_names {ident : Context → Identifier} {name : Identifier} {type : TypeRef}
    (hS : Persistent S) (hu : ∀ c, S c → u < c.scopes.length) :
    Triple (fun c => c.scope = s ∧ c.unit = some u ∧ S c)
      (MonadState.get >>= fun ctx =>
        Harec.scopeInsert ctx.unit .decl (ident ctx) name type none >>= fun _ => (pure () : CheckM PUnit))
      fun _ c => c.scope = s ∧ c.unit = some u ∧ S c ∧ c.Names u name :=
  Triple.get_bind fun _ ⟨_, hv, _⟩ => Triple.bind (Triple.scopeInsert_names hv hS hu) fun _ => Triple.pure_same

theorem scanConst_names (decl : AstGlobalDecl) (hS : Persistent S) (hu : ∀ c, S c → u < c.scopes.length) :
    Triple (fun c => c.scope = s ∧ c.unit = some u ∧ S c) (scanConst env decl)
      fun _ c => c.scope = s ∧ c.unit = some u ∧ S c ∧ c.Names u decl.ident := by
  simp only [scanConst]
  refine Triple.bind Triple.assertC fun _ => Triple.bind Triple.deref fun _ =>
    Triple.bind (Triple.of_stays hS (checkExpression_stays env _ _)) fun _ =>
      Triple.bind Triple.resultOf fun _ => Triple.bind Triple.expect fun _ => ?_
  split
  · exact Triple.get_bind fun _ ⟨_, hv, _⟩ => Triple.bind (Triple.scopeInsert_names hv hS hu) fun _ =>
      Triple.pure_same
  · exact Triple.throw

theorem scanType_names (decl : AstTypeDecl) (hS : Persistent S) (hu : ∀ c, S c → u < c.scopes.length) :
    Triple (fun c => c.scope = s ∧ c.unit = some u ∧ S c) (scanType env decl)
      fun _ c => c.scope = s ∧ c.unit = some u ∧ S c ∧ c.Names u decl.ident := by
  intro c _ c' ⟨hs, hv, hc⟩ h
  obtain ⟨_, hu', rfl⟩ := scanType_run_ok env h
  cases hv.symm.trans hu'
  have hS' := hS.and (Context.names_persistent u decl.ident)
  exact Context.foldl_insert (P := fun c => c.scope = s ∧ c.unit = some u ∧ S c ∧ c.Names u decl.ident)
    (fun c _ ⟨hs, hv, hc⟩ => ⟨hs, hv, hS' _ _ (.insert c u _) hc⟩) _
    ⟨hs, hv, hS _ _ (.insert c u _) hc, c.names_insert (hu c hc) _⟩

theorem scanDecl_names (decl : AstDecl) (hS : Persistent S) (hu : ∀ c, S c → u < c.scopes.length) :
    Triple (fun c => c.scope = s ∧ c.unit = some u ∧ S c) (scanDecl env decl)
      fun _ c => c.scope = s ∧ c.unit = some u ∧ S c ∧ c.Names u decl.name := by
  rcases decl with ⟨_, _, c | f | g | t⟩
  · exact scanConst_names env c hS hu
  · exact scanUnitDecl_names hS hu
  · exact scanUnitDecl_names hS hu
  · exact scanType_names env t hS hu

theorem scanDeclarations_names : ∀ (decls : List AstDecl) ⦃S : Context → Prop⦄, Persistent S →
    (∀ c, S c → u < c.scopes.length) →
      Triple (fun c => c.scope = s ∧ c.unit = some u ∧ S c) (scanDeclarations env decls)
        fun _ c => c.scope = s ∧ c.unit = some u ∧ S c ∧ ∀ decl ∈ decls, c.Names u decl.name
  | [], _, _, _ => Triple.pure fun _ ⟨hs, hv, hc⟩ => ⟨hs, hv, hc, fun _ h => nomatch h⟩
  | decl :: decls, _, hS, hu =>
    Triple.bind (scanDecl_names env decl hS hu) fun _ =>
      (scanDeclarations_names decls (hS.and (Context.names_persistent u decl.name)) fun c h => hu c h.1).mono
        fun _ _ ⟨hs, hv, ⟨hc, hn⟩, hns⟩ => ⟨hs, hv, hc, List.forall_mem_cons.mpr ⟨hn, hns⟩⟩

/-- The scan of a subunit returns a child of the unit scope, and leaves an object for each of
its declarations in the unit scope. -/
theorem scanSubunit_names (su : AstSubunit) (hS : Persistent S) (hu : ∀ c, S c → u < c.scopes.length) :
    Triple (fun c => c.scope = some u ∧ c.unit = some u ∧ S c) (scanSubunit env su)
      fun r c => c.scope = some u ∧ c.unit = some u ∧ S c ∧ c.ChildOf r u ∧
        ∀ decl ∈ su.decls, c.Names u decl.name :=
  Triple.bind (Triple.scopePush_childOf hS hu) fun p => Triple.bind Triple.assertC fun _ =>
    Triple.bind (scanDeclarations_names env su.decls (hS.and (Context.childOf_persistent p u))
      fun c h => hu c h.1) fun _ =>
    (Triple.scopePop_childOf ((hS.and (Context.childOf_persistent p u)).and
      (Persistent.forall_ fun (decl : AstDecl) => Context.names_persistent u decl.name)) fun _ h => h.1.2).mono
      fun _ _ ⟨hr, hs, hv, ⟨hc, hp⟩, hn⟩ => ⟨hs, hv, hc, hr ▸ hp, hn⟩

theorem scanSubunits_names : ∀ (sus : List AstSubunit) ⦃S : Context → Prop⦄, Persistent S →
    (∀ c, S c → u < c.scopes.length) →
      Triple (fun c => c.scope = some u ∧ c.unit = some u ∧ S c) (sus.mapM (scanSubunit env))
        fun scopes c => c.scope = some u ∧ c.unit = some u ∧ S c ∧ (∀ r ∈ scopes, c.ChildOf r u) ∧
          ∀ su ∈ sus, ∀ decl ∈ su.decls, c.Names u decl.name
  | [], _, _, _ => by
    rw [List.mapM_nil]
    exact Triple.pure fun _ ⟨hs, hv, hc⟩ => ⟨hs, hv, hc, nofun, nofun⟩
  | su :: sus, _, hS, hu => by
    rw [List.mapM_cons]
    exact Triple.bind (scanSubunit_names env su hS hu) fun r =>
      Triple.bind (scanSubunits_names sus (hS.and ((Context.childOf_persistent r u).and
        (Persistent.forall_ fun (decl : AstDecl) => Context.names_persistent u decl.name))) fun c h => hu c h.1)
      fun _ => Triple.pure fun _ ⟨hs, hv, ⟨hc, hr, hn⟩, hrs, hns⟩ =>
        ⟨hs, hv, hc, List.forall_mem_cons.mpr ⟨hr, hrs⟩, List.forall_mem_cons.mpr ⟨hn, hns⟩⟩

/-- The scan pass pushes the unit scope, makes it the unit, and scans every subunit under it. -/
theorem scanPass_names (ns : Option Identifier) (aunit : AstUnit) (hS : Persistent S) :
    Triple S (scanPass env ns aunit) fun scopes c => ∃ u, c.unit = some u ∧ S c ∧
      (∀ r ∈ scopes, c.ChildOf r u) ∧ ∀ decl ∈ aunit.decls, c.Names u decl.name := by
  simp only [scanPass]
  have hpush : Triple S scopePush fun u c => c.scope = some u ∧ S c ∧ u < c.scopes.length := by
    intro c _ _ hc hrun
    obtain ⟨rfl, rfl⟩ := scopePush_run_ok hrun
    exact ⟨rfl, hS _ _ (.push c) hc, by simp⟩
  have hunit u : Triple (fun c => c.scope = some u ∧ S c ∧ u < c.scopes.length)
      (modify fun ctx => { ctx with unit := some u } : CheckM PUnit)
      fun _ c => c.scope = some u ∧ c.unit = some u ∧ S c ∧ u < c.scopes.length := by
    intro c _ _ ⟨hs, hc, hu⟩ hrun
    cases hrun
    exact ⟨hs, rfl, hS c _ (.of_scopes rfl) hc, hu⟩
  refine Triple.bind (Triple.of_extends hS (Keeps.modify fun _ => .of_scopes rfl)) fun _ =>
    Triple.bind hpush fun u => Triple.bind (hunit u) fun _ =>
    (scanSubunits_names env aunit.subunits (hS.and (Persistent.lt_length u)) fun _ h => h.2).mono
      fun _ _ ⟨_, hv, ⟨hc, _⟩, hr, hn⟩ => ⟨u, hv, hc, hr, fun decl hd => ?_⟩
  obtain ⟨su, hsu, hd⟩ := List.mem_flatMap.mp hd
  exact hn su hsu decl hd

end Passes

/-- The declarations of a unit resolve in the body of each of its functions: when `check`
returns, looking up the name of any declaration of the unit, of any subunit, from the scope
a function it emits was checked in finds an object.  The function's scope lies under its
subunit's scope, which lies under the unit scope, where the scan pass inserted an object for
every declaration before any body was checked. -/
theorem check_namesResolve (env : Env) {ns : Option Identifier} {aunit : AstUnit} {ctx ctx' : Context}
    {u : TypedUnit} (h : (check env ns aunit).run ctx = .ok (u, ctx')) :
    ∀ d ∈ u.declarations, ∀ f, d.decl = .func f → ∀ adecl ∈ aunit.decls,
      ({ ctx' with scope := some f.scope }.scopeLookup adecl.name).isSome := by
  obtain ⟨scopes, c₁, h₁, k₁⟩ := run_bind_ok h
  obtain ⟨ds, c₂, h₂, k₂⟩ := run_bind_ok k₁
  obtain ⟨rfl, rfl⟩ := run_pure_ok k₂
  obtain ⟨unit, hv, -, hr, hn⟩ := scanPass_names env ns aunit (Persistent.const True) ctx scopes c₁ trivial h₁
  have hS : Persistent fun c => (∀ r ∈ scopes, c.ChildOf r unit) ∧ ∀ adecl ∈ aunit.decls, c.Names unit adecl.name :=
    (Persistent.forall_ fun r => Context.childOf_persistent r unit).and
      (Persistent.forall_ fun adecl => Context.names_persistent unit adecl.name)
  obtain ⟨-, ⟨hr', hn'⟩, hds⟩ := checkSubunits_childOf env aunit.subunits scopes hS
    (fun _ h r hr => (h.1 r hr).2.1) c₁ ds ctx' ⟨hv, hr, hn⟩ h₂
  intro d hd f hf adecl ha
  obtain ⟨r, hrs, hsc⟩ := hds d hd
  exact Context.scopeLookup_isSome rfl (hsc f hf) (hr' r hrs) (hn' adecl ha)

theorem check_variadicParamsUnit_namesResolve :
    ∃ u ctx', (check Reference.env none Reference.variadicParamsUnit).run Reference.initialContext =
      .ok (u, ctx') ∧
      ∀ d ∈ u.declarations, ∀ f, d.decl = .func f → ∀ adecl ∈ Reference.variadicParamsUnit.decls,
        ({ ctx' with scope := some f.scope }.scopeLookup adecl.name).isSome :=
  let ⟨u, ctx', h⟩ := check_variadicParamsUnit_ok
  ⟨u, ctx', h, check_namesResolve Reference.env h⟩

/-! ## The parameters of a function -/

/-- A lookup from a scope of the name of one of its objects finds an object of that name in
that scope, whatever its ancestors hold. -/
theorem Context.scopeLookup_of_mem {ctx : Context} {s : ScopeRef} (hsc : ctx.scope = some s)
    (hs : s < ctx.scopes.length) {obj : ScopeObject} (hobj : obj ∈ (ctx.scopeAt s).objects) :
    ∃ i obj', ctx.scopeLookup obj.name = some (⟨s, i⟩, obj') ∧ obj'.name = obj.name := by
  obtain ⟨n, hn⟩ := Nat.exists_eq_add_of_lt hs
  obtain ⟨x, hx, rfl⟩ := List.mem_map.mp
    (show obj ∈ (ctx.scopeAt s).objects.enum.map Prod.snd by rw [List.enum_map_snd]; exact hobj)
  obtain ⟨q, hq⟩ := Option.isSome_iff_exists.mp (List.find?_isSome.mpr ⟨x, List.mem_reverse.mpr hx, by simp⟩ :
    ((ctx.scopeAt s).objects.enum.reverse.find? (·.2.name = x.2.name)).isSome)
  refine ⟨q.1, q.2, ?_, by simpa using List.find?_some hq⟩
  rw [Context.scopeLookup, Context.chain, hsc, hn, Context.chainFrom_succ, List.findSome?_cons, hq]
  rfl

section Params

variable (env : Env)

/-- From the scope a function is recorded with, the name of each of its parameters is looked
up to an object of that name in that scope itself, before any scope around it: a parameter
hides every declaration of the unit of the same name. -/
def Declaration.ParamsResolve (ctx : Context) (adecl : AstDecl) (d : Declaration) : Prop :=
  match adecl.decl, d.decl with
  | .function afndecl, .func f =>
      ∃ objs ∈ paramObjects env (env.get f.type).func.variadism afndecl.prototype.params,
        ∀ obj ∈ objs, ∃ i obj', { ctx with scope := some f.scope }.scopeLookup obj.name =
          some (⟨f.scope, i⟩, obj') ∧ obj'.name = obj.name
  | _, _ => True

theorem Declaration.paramsResolve_of_paramsFirst {ctx : Context} {adecl : AstDecl} {d : Declaration}
    (h : Declaration.ParamsFirst env ctx adecl d) : Declaration.ParamsResolve env ctx adecl d := by
  unfold Declaration.ParamsResolve
  unfold Declaration.ParamsFirst at h
  split
  · next ha hd =>
    simp only [ha, hd] at h
    obtain ⟨hs, objs, hobjs, hpre⟩ := h
    exact ⟨objs, hobjs, fun _ hobj => @Context.scopeLookup_of_mem { ctx with scope := some _ } _ rfl hs _
      (hpre.subset hobj)⟩
  · trivial

end Params

end Harec
