import Harec.Runs
import Harec.Frame

/-!
# What the passes do to the context

Once `check` has set the unit's namespace and pushed the unit scope, no step of either
pass changes them, the counter of static bindings does not go down, and the static
objects stay numbered: `Steady` is that relation, a preorder that every checked
expression keeps (it is weaker than `Frame`) and that every declaration of the scan and
check passes keeps, by one lemma per function of `check.c`.
-/

namespace Harec

/-- What every step of `check` keeps once the unit scope is set. -/
structure Steady (ctx ctx' : Context) : Prop where
  ns : ctx'.ns = ctx.ns
  unit : ctx'.unit = ctx.unit
  id_le : ctx.id ≤ ctx'.id
  staticOk : ∀ b, StaticOk b ctx → StaticOk b ctx'

instance : IsPreorder Context Steady where
  refl _ := ⟨rfl, rfl, Nat.le_refl _, fun _ => id⟩
  trans _ _ _ h₁ h₂ := ⟨h₂.ns.trans h₁.ns, h₂.unit.trans h₁.unit, Nat.le_trans h₁.id_le h₂.id_le,
    fun b h => h₂.staticOk b (h₁.staticOk b h)⟩

theorem Frame.steady {ctx ctx' : Context} (h : Frame ctx ctx') : Steady ctx ctx' :=
  ⟨h.ns, h.unit, h.id_le, h.staticOk⟩

namespace Steady

variable (ctx : Context)

/-- A step that leaves the arena, unit and counter alone. -/
theorem of_scopes {ctx' : Context} (hs : ctx'.scopes = ctx.scopes) (hn : ctx'.ns = ctx.ns)
    (hu : ctx'.unit = ctx.unit) (hid : ctx'.id = ctx.id) : Steady ctx ctx' :=
  ⟨hn, hu, hid ▸ Nat.le_refl _, fun _ h => h.of_scopes hs hu (hid ▸ Nat.le_refl _)⟩

theorem push : Steady ctx ctx.push.2 :=
  ⟨rfl, rfl, Nat.le_refl _, fun _ h => h.of_staticAt ctx.staticAt_push (Nat.le_refl _)⟩

theorem insert {r : ScopeRef} {obj : ScopeObject} (h : obj.otype ≠ .decl ∨ some r = ctx.unit) :
    Steady ctx (ctx.insert r obj).2 :=
  ⟨rfl, rfl, Nat.le_refl _, fun _ hs => hs.of_staticAt (ctx.staticAt_insert_of_not h) (Nat.le_refl _)⟩

end Steady

namespace Keeps

variable {R : Context → Context → Prop} [IsPreorder Context R] {α : Type}

omit [IsPreorder Context R] in
theorem mono {S : Context → Context → Prop} {m : CheckM α} (hRS : ∀ c c', R c c' → S c c')
    (h : Keeps R m) : Keeps S m :=
  fun ctx a ctx' hrun => hRS _ _ (h ctx a ctx' hrun)

omit [IsPreorder Context R] in
theorem modify {f : Context → Context} (h : ∀ c, R c (f c)) : Keeps R (modify f : CheckM PUnit) := by
  intro ctx a ctx' hrun
  cases hrun
  exact h _

omit [IsPreorder Context R] in
theorem scopePush (h : ∀ c, R c c.push.2) : Keeps R scopePush := by
  intro ctx a ctx' hrun
  cases hrun
  exact h _

omit [IsPreorder Context R] in
theorem scopePop (h : ∀ c r, R c { c with scope := (c.scopeAt r).parent }) : Keeps R scopePop := by
  intro ctx a ctx' hrun
  obtain ⟨-, rfl⟩ := scopePop_run_ok hrun
  exact h _ _

omit [IsPreorder Context R] in
theorem scopeInsert {r : Option ScopeRef} {otype : ObjectType} {ident name : Identifier}
    {type : TypeRef} {value : Option Expression}
    (h : ∀ c s, r = some s → R c (c.insert s ⟨otype, ident, name, type, value⟩).2) :
    Keeps R (Harec.scopeInsert r otype ident name type value) := by
  intro ctx a ctx' hrun
  obtain ⟨s, hs, heq⟩ := scopeInsert_run_ok hrun
  cases heq
  exact h _ _ hs

omit [IsPreorder Context R] in
/-- After reading the context, the continuation runs from what was read. -/
theorem get_bind {f : Context → CheckM α}
    (h : ∀ c a c', (f c).run c = .ok (a, c') → R c c') : Keeps R (MonadState.get >>= f) := by
  intro ctx a ctx' hrun
  obtain ⟨c, _, hc, hrun⟩ := run_bind_ok hrun
  cases hc
  exact h _ _ _ hrun

end Keeps

section Passes

variable (env : Env)

/-- What a relation between contexts needs for every step of the scan and check passes to
keep it: a pushed scope; a step that leaves the arena, the unit, the namespace and the
counter alone (setting the current scope or function, popping a scope); an insertion that is
not of an `O_DECL` object outside the unit scope; and every check of an expression. -/
structure PassStep (R : Context → Context → Prop) : Prop where
  push : ∀ c : Context, R c c.push.2
  of_scopes : ∀ c c' : Context, c'.scopes = c.scopes → c'.ns = c.ns → c'.unit = c.unit →
    c'.id = c.id → R c c'
  insert : ∀ (c : Context) (r : ScopeRef) (obj : ScopeObject),
    obj.otype ≠ .decl ∨ some r = c.unit → R c (c.insert r obj).2
  expression : ∀ e hint, Keeps R (checkExpression env e hint)

variable {env} {R : Context → Context → Prop} [IsPreorder Context R]

theorem insertParams_keeps (hR : PassStep env R) (scope : ScopeRef) (variadism : Variadism) :
    ∀ params, Keeps R (insertParams env scope variadism params)
  | [] => Keeps.pure _
  | param :: params => by
    simp only [insertParams]
    split
    · exact Keeps.bind (Keeps.scopeInsert fun c _ _ => hR.insert c _ _ (.inl nofun)) fun _ =>
        insertParams_keeps hR scope variadism params
    · exact Keeps.throw _

theorem checkFunction_keeps (hR : PassStep env R) (adecl : AstDecl) (afndecl : AstFunctionDecl) :
    Keeps R (checkFunction env adecl afndecl) := fun c _ _ h => by
  rcases checkFunction_run_ok env h with ⟨-, -, rfl⟩ | ⟨_, _, _, _, _, -, -, hins, hexpr, -, -, -, rfl, -⟩
  · exact refl_of R _
  · have hset : R c { c with currentFntype := some (env.lookupAtype (fnAtype afndecl.prototype)) } :=
      hR.of_scopes c _ rfl rfl rfl rfl
    have hbody := trans_of R (trans_of R (trans_of R hset (hR.push _)) (insertParams_keeps hR _ _ _ _ _ _ hins))
      (hR.expression _ _ _ _ _ hexpr)
    exact trans_of R hbody (by exact hR.of_scopes _ _ rfl rfl rfl rfl)

theorem checkGlobal_keeps (hR : PassStep env R) (agdecl : AstGlobalDecl) : Keeps R (checkGlobal env agdecl) :=
  fun c _ _ h => by
    rcases checkGlobal_run_ok env h with ⟨-, -, rfl⟩ | ⟨_, _, _, _, -, hexpr, -⟩
    · exact refl_of R _
    · exact hR.expression _ _ _ _ _ hexpr

theorem checkDecl_keeps (hR : PassStep env R) (adecl : AstDecl) : Keeps R (checkDecl env adecl) := by
  unfold checkDecl
  refine Keeps.map _ ?_
  split
  · exact Keeps.pure _
  · exact checkFunction_keeps hR _ _
  · exact checkGlobal_keeps hR _
  · exact Keeps.map _ fun c _ _ h => (checkType_run_ok env h).1 ▸ refl_of R c

theorem checkDeclarations_keeps (hR : PassStep env R) : ∀ adecls, Keeps R (checkDeclarations env adecls)
  | [] => Keeps.pure _
  | adecl :: adecls =>
    Keeps.bind (checkDecl_keeps hR adecl) fun _ =>
      Keeps.bind (checkDeclarations_keeps hR adecls) fun _ => Keeps.pure _

theorem checkSubunits_keeps (hR : PassStep env R) : ∀ sus scopes, Keeps R (checkSubunits env sus scopes)
  | _ :: sus, _ :: scopes =>
    Keeps.bind (Keeps.modify fun c => hR.of_scopes c _ rfl rfl rfl rfl) fun _ =>
      Keeps.bind (checkDeclarations_keeps hR _) fun _ =>
        Keeps.bind (checkSubunits_keeps hR sus scopes) fun _ => Keeps.pure _
  | [], _ => Keeps.pure _
  | _ :: _, [] => Keeps.pure _

theorem scanConst_keeps (hR : PassStep env R) (decl : AstGlobalDecl) : Keeps R (scanConst env decl) :=
  fun _ _ _ h => by
    obtain ⟨_, _, _, _, _, _, -, -, hexpr, -, -, -, -, rfl⟩ := scanConst_run_ok env h
    exact trans_of R (hR.expression _ _ _ _ _ hexpr) (hR.insert _ _ _ (.inl (by exact nofun)))

omit [IsPreorder Context R] in
/-- `scan_function` and `scan_global` insert their `O_DECL` object into the unit scope. -/
theorem scanUnitDecl_keeps (hR : PassStep env R) {ident : Context → Identifier} {name : Identifier}
    {type : TypeRef} :
    Keeps R (MonadState.get >>= fun ctx =>
      Harec.scopeInsert ctx.unit .decl (ident ctx) name type none >>= fun _ => (pure () : CheckM PUnit)) := by
  refine Keeps.get_bind fun c _ c' hrun => ?_
  obtain ⟨s, hs, rfl⟩ := scopeInsert_pure_run_ok hrun
  exact hR.insert c _ _ (.inr hs.symm)

theorem scanType_keeps (hR : PassStep env R) (decl : AstTypeDecl) : Keeps R (scanType env decl) :=
  fun c _ _ h => by
    obtain ⟨_, -, rfl⟩ := scanType_run_ok env h
    exact Context.foldl_insert (P := R c) (fun _ _ h' => trans_of R h' (hR.insert _ _ _ (.inl (by exact nofun)))) _
      (hR.insert c _ _ (.inl nofun))

theorem scanDecl_keeps (hR : PassStep env R) (decl : AstDecl) : Keeps R (scanDecl env decl) := by
  unfold scanDecl
  split
  · exact scanConst_keeps hR _
  · exact scanUnitDecl_keeps hR
  · exact scanUnitDecl_keeps hR
  · exact scanType_keeps hR _

theorem scanDeclarations_keeps (hR : PassStep env R) : ∀ decls, Keeps R (scanDeclarations env decls)
  | [] => Keeps.pure _
  | decl :: decls => Keeps.bind (scanDecl_keeps hR decl) fun _ => scanDeclarations_keeps hR decls

theorem scanSubunit_keeps (hR : PassStep env R) (su : AstSubunit) : Keeps R (scanSubunit env su) :=
  Keeps.bind (Keeps.scopePush hR.push) fun _ => Keeps.bind (Keeps.assertC _) fun _ =>
    Keeps.bind (scanDeclarations_keeps hR _) fun _ =>
      Keeps.scopePop fun c _ => hR.of_scopes c _ rfl rfl rfl rfl

variable (env)

/-- Every step of the passes keeps `Steady`. -/
theorem steady_passStep : PassStep env Steady :=
  ⟨Steady.push, fun c _ hs hn hu hid => Steady.of_scopes c hs hn hu hid, fun c _ _ h => Steady.insert c h,
    fun e hint => (checkExpression_frame env e hint).mono fun _ _ => Frame.steady⟩

theorem checkDecl_steady (adecl : AstDecl) : Keeps Steady (checkDecl env adecl) :=
  checkDecl_keeps (steady_passStep env) adecl

theorem checkDeclarations_steady (adecls : List AstDecl) : Keeps Steady (checkDeclarations env adecls) :=
  checkDeclarations_keeps (steady_passStep env) adecls

theorem checkSubunits_steady (sus : List AstSubunit) (scopes : List ScopeRef) :
    Keeps Steady (checkSubunits env sus scopes) :=
  checkSubunits_keeps (steady_passStep env) sus scopes

theorem scanDecl_steady (decl : AstDecl) : Keeps Steady (scanDecl env decl) :=
  scanDecl_keeps (steady_passStep env) decl

theorem scanSubunit_steady (su : AstSubunit) : Keeps Steady (scanSubunit env su) :=
  scanSubunit_keeps (steady_passStep env) su

end Passes

end Harec
