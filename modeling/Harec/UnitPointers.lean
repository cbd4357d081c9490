import Harec.Pointers
import Harec.Runs

/-!
# The typed unit against the scope arena

`check` checks the initializer of every constant in the scan pass and stores its evaluated
value in the unit scope, and then checks the body of every function, in a scope of its own
that holds the parameters, and the initializer of every global.  Every step of the two passes
keeps the arena coherent: the objects they insert hold no value (a function, a global, a
type, a parameter) or the value `eval_expr` gave a checked tree (a constant, an enum value),
which has sound pointers.  So a constant that a later tree names is inlined with sound
pointers, and `check_pointersSound` lifts `checkExpression_pointersSound` to the whole unit:
every declaration `check` emits has sound pointers in the context `check` ends in, the body
of a function together with the scope it was checked in.
-/

namespace Harec

/-- Whether the trees of a declaration have sound pointers in `ctx`: the body of a function,
whose scope is in the arena, and the value of a global. -/
def Declaration.pointersSound (ctx : Context) (d : Declaration) : Bool :=
  match d.decl with
  | .func f => f.body.all ctx.pointerSound && decide (f.scope < ctx.scopes.length)
  | .global g => g.value.all ctx.pointerSound
  | .type _ => true

theorem Declaration.pointersSound_persistent (d : Declaration) :
    Persistent fun c => d.pointersSound c = true := by
  intro c c' h hd
  obtain ⟨_, _, _, decl⟩ := d
  cases decl <;> simp only [Declaration.pointersSound, Bool.and_eq_true, decide_eq_true_eq] at hd ⊢
  · exact ⟨Expression.pointersSound_persistent _ _ _ h hd.1, Nat.lt_of_lt_of_le hd.2 h.length_le⟩
  · exact Expression.pointersSound_persistent _ _ _ h hd

theorem Persistent.lt_length (r : ScopeRef) : Persistent fun c => r < c.scopes.length :=
  fun _ _ h hr => Nat.lt_of_lt_of_le hr h.length_le

/-! ## The steps of the passes -/

namespace SoundRun

theorem scopePush : SoundRun Harec.scopePush fun r c => r < c.scopes.length := by
  intro S hS ctx r ctx' ⟨hc, hs⟩ hrun
  obtain ⟨rfl, rfl⟩ := scopePush_run_ok hrun
  exact ⟨hc.push, hS _ _ (.push ctx) hs, by simp⟩

/-- Popping returns the scope that was current, which exists. -/
theorem scopePop : SoundRun Harec.scopePop fun r c => r < c.scopes.length := by
  intro S hS ctx r ctx' ⟨hc, hs⟩ hrun
  obtain ⟨hr, rfl⟩ := scopePop_run_ok hrun
  exact ⟨hc.pop hr, hS ctx _ (.of_scopes rfl) hs, hc.wellScoped.current r hr⟩

theorem map {α β : Type} {m : CheckM α} {O : α → Context → Prop} {O' : β → Context → Prop} {f : α → β}
    (h : SoundRun m O) (hf : ∀ a c, O a c → O' (f a) c) : SoundRun (f <$> m) O' := by
  intro S hS
  rw [map_eq_pure_bind]
  exact Triple.bind (h hS) fun a => Triple.pure fun c ⟨hc, hs, ho⟩ => ⟨hc, hs, hf a c ho⟩

/-- A sound run keeps what is persistent, whatever it returns. -/
theorem keeps {α : Type} {m : CheckM α} {O : α → Context → Prop} (h : SoundRun m O) {S : Context → Prop}
    (hS : Persistent S) : Triple (fun c => c.Coherent ∧ S c) m fun _ c => c.Coherent ∧ S c :=
  (h hS).mono fun _ _ h => ⟨h.1, h.2.1⟩

end SoundRun

/-- Inserting an object whose value, if any, has sound pointers where it is inserted. -/
theorem Triple.scopeInsert_coherent {r : Option ScopeRef} {otype : ObjectType} {ident name : Identifier}
    {type : TypeRef} {value : Option Expression} {S : Context → Prop} (hS : Persistent S)
    (hv : ∀ c, S c → ∀ v ∈ value, v.all c.pointerSound = true) :
    Triple (fun c => c.Coherent ∧ S c) (scopeInsert r otype ident name type value) fun _ c => c.Coherent ∧ S c := by
  intro ctx o ctx' ⟨hc, hs⟩ hrun
  obtain ⟨s, -, heq⟩ := scopeInsert_run_ok hrun
  obtain ⟨-, rfl⟩ := Prod.ext_iff.mp heq
  exact ⟨hc.insert s (hv ctx hs), hS _ _ (.insert ctx s _) hs⟩

/-- Making a scope that exists current. -/
theorem Triple.setScope_coherent {r : ScopeRef} {S : Context → Prop} (hS : Persistent S)
    (hr : ∀ c, S c → r < c.scopes.length) :
    Triple (fun c => c.Coherent ∧ S c) (modify fun ctx => { ctx with scope := some r } : CheckM PUnit)
      fun _ c => c.Coherent ∧ S c := by
  intro ctx _ ctx' ⟨hc, hs⟩ hrun
  cases hrun
  exact ⟨hc.of_scopes rfl fun _ h => Option.some.inj h ▸ hr ctx hs, hS ctx _ (.of_scopes rfl) hs⟩

/-- A loop whose every step keeps `P` keeps it. -/
theorem Triple.forIn_same {P : Context → Prop} {γ β : Type} {l : List γ} {init : β}
    {f : γ → β → CheckM (ForInStep β)} (h : ∀ x b, Triple P (f x b) fun _ => P) :
    Triple P (forIn l init f) fun _ => P := by
  induction l generalizing init with
  | nil => exact Triple.pure_same
  | cons x l ih =>
    rw [List.forIn_cons]
    refine Triple.bind (h x init) fun step => ?_
    cases step with
    | done b => exact Triple.pure_same
    | yield b => exact ih

/-! ## The check pass -/

section Passes

variable (env : Env) (henv : env.EvalSound)
include henv

omit henv in
theorem insertParams_soundRun (scope : ScopeRef) (variadism : Variadism) :
    ∀ params, SoundRun (insertParams env scope variadism params) fun _ _ => True
  | [] => fun _ _ => Triple.pure fun _ h => ⟨h.1, h.2, trivial⟩
  | param :: params => by
    intro S hS
    simp only [insertParams]
    split
    · exact Triple.bind (Triple.scopeInsert_coherent hS fun _ _ _ => nofun) fun _ =>
        insertParams_soundRun scope variadism params hS
    · exact Triple.throw

theorem checkFunction_soundRun (adecl : AstDecl) (afndecl : AstFunctionDecl) :
    SoundRun (checkFunction env adecl afndecl) fun od c => ∀ d ∈ od, d.pointersSound c = true := by
  intro S hS c od c' ⟨hc, hs⟩ h
  rcases checkFunction_run_ok env h with ⟨-, rfl, rfl⟩ | ⟨abody, _, _, c₂, r, -, -, hins, hexpr, -, -, hr, rfl, rfl⟩
  · exact ⟨hc, hs, nofun⟩
  have hS' := hS.and (Persistent.lt_length c.scopes.length)
  obtain ⟨hc₁, hs₁, -⟩ := insertParams_soundRun env _ _ _ hS' _ _ _ (by
    exact ⟨Context.Coherent.push (hc.of_scopes rfl hc.wellScoped.current),
      hS _ _ (.push _) (hS c _ (.of_scopes rfl) hs), by simp⟩) hins
  obtain ⟨hc₂, ⟨hs₂, hlt⟩, hb⟩ := checkExpression_soundRun env henv abody _ hS' _ _ _ ⟨hc₁, hs₁⟩ hexpr
  have hp := hc₂.pop hr
  have he : c₂.Extends { c₂ with scope := (c₂.scopeAt r).parent, currentFntype := none } := .of_scopes rfl
  refine ⟨hp.of_scopes rfl hp.wellScoped.current, hS _ _ he hs₂, fun d hd => ?_⟩
  cases hd
  simp only [Declaration.pointersSound, Bool.and_eq_true, decide_eq_true_eq]
  exact ⟨by split <;> simpa using Expression.pointersSound_persistent _ _ _ he hb, hlt⟩

theorem checkGlobal_soundRun (agdecl : AstGlobalDecl) :
    SoundRun (checkGlobal env agdecl) fun od c => ∀ d ∈ od, d.pointersSound c = true := by
  intro S hS c od c' ⟨hc, hs⟩ h
  rcases checkGlobal_run_ok env h with ⟨-, rfl, rfl⟩ | ⟨init, _, _, _, -, hexpr, -, -, heval, rfl⟩
  · exact ⟨hc, hs, nofun⟩
  obtain ⟨hc', hs', hi⟩ := checkExpression_soundRun env henv init _ hS _ _ _ ⟨hc, hs⟩ hexpr
  exact ⟨hc', hs', fun d hd => by
    cases hd
    exact henv _ _ _ heval (by simpa using hi)⟩

theorem checkDecl_soundRun (adecl : AstDecl) :
    SoundRun (checkDecl env adecl) fun od c => ∀ d ∈ od, d.pointersSound c = true := by
  unfold checkDecl
  refine SoundRun.map (O := fun od c => ∀ d ∈ od, d.pointersSound c = true) ?_ fun od c h d hd => ?_
  · split
    · exact fun _ _ => Triple.pure fun _ h => ⟨h.1, h.2, nofun⟩
    · exact checkFunction_soundRun env henv adecl _
    · exact checkGlobal_soundRun env henv _
    · refine SoundRun.map (O := fun d c => d.pointersSound c = true) (fun _ _ => ?_) fun _ _ h d hd => ?_
      · simp only [checkType]
        exact Triple.bind Triple.get fun _ => Triple.pure fun c h => ⟨h.1, h.2, rfl⟩
      · cases hd
        exact h
  · obtain ⟨d', hd', rfl⟩ := Option.mem_map.mp hd
    exact h d' hd'

theorem checkDeclarations_soundRun :
    ∀ adecls, SoundRun (checkDeclarations env adecls) fun ds c => ∀ d ∈ ds, d.pointersSound c = true
  | [] => fun _ _ => Triple.pure fun _ h => ⟨h.1, h.2, nofun⟩
  | adecl :: adecls => fun _ hS =>
    Triple.bind (checkDecl_soundRun env henv adecl hS) fun _ =>
      Triple.bind (checkDeclarations_soundRun adecls
        (hS.and (Persistent.forall_ fun d => d.pointersSound_persistent)))
      fun _ => Triple.pure fun c ⟨hc, ⟨hs, hd⟩, hds⟩ => ⟨hc, hs, fun d hd' => by
        rcases List.mem_append.mp hd' with hd' | hd'
        · exact hd d (Option.mem_toList.mp hd')
        · exact hds d hd'⟩

/-- The check pass, each subunit in the scope its scan used, which exists. -/
theorem checkSubunits_soundRun : ∀ (sus : List AstSubunit) (scopes : List ScopeRef) ⦃S : Context → Prop⦄,
    Persistent S → (∀ c, S c → ∀ r ∈ scopes, r < c.scopes.length) →
      Triple (fun c => c.Coherent ∧ S c) (checkSubunits env sus scopes)
        fun ds c => c.Coherent ∧ S c ∧ ∀ d ∈ ds, d.pointersSound c = true
  | su :: sus, scope :: scopes, S, hS, hr => by
    simp only [checkSubunits]
    refine Triple.bind (Triple.setScope_coherent hS fun c h => hr c h _ (.head _)) fun _ =>
      Triple.bind (checkDeclarations_soundRun env henv su.decls hS) fun _ =>
        Triple.bind (checkSubunits_soundRun sus scopes
          (hS.and (Persistent.forall_ fun d => d.pointersSound_persistent))
          fun c h r hr' => hr c h.1 r (.tail _ hr')) fun _ =>
        Triple.pure fun c ⟨hc, ⟨hs, hd⟩, hds⟩ => ⟨hc, hs, fun d hd' => ?_⟩
    rcases List.mem_append.mp hd' with hd' | hd'
    · exact hd d hd'
    · exact hds d hd'
  | [], _, _, _, _ => Triple.pure fun _ h => ⟨h.1, h.2, nofun⟩
  | _ :: _, [], _, _, _ => Triple.pure fun _ h => ⟨h.1, h.2, nofun⟩

/-! ## The scan pass -/

theorem scanConst_soundRun (decl : AstGlobalDecl) : SoundRun (scanConst env decl) fun _ _ => True := by
  intro S hS
  simp only [scanConst]
  have hev : ∀ {e v : Expression} (c : Context), env.eval e = some v → e.all c.pointerSound = true →
      v.all c.pointerSound = true := fun c => henv _ _ c
  refine Triple.bind Triple.assertC fun _ => Triple.bind Triple.deref fun init =>
    Triple.bind (checkExpression_soundRun env henv init _ hS) fun initializer =>
      Triple.bind Triple.resultOf fun _ => Triple.bind Triple.expect fun _ => ?_
  split
  · next value heval =>
    refine Triple.bind Triple.get fun _ => Triple.bind
      (Triple.scopeInsert_coherent (hS.and (Expression.pointersSound_persistent initializer))
        fun c h v hv => ?_) fun _ => Triple.pure fun c h => ⟨h.1, h.2.1, trivial⟩
    cases hv
    exact hev c heval (by simpa using h.2)
  · exact Triple.throw

omit henv in
theorem scanType_soundRun (decl : AstTypeDecl) : SoundRun (scanType env decl) fun _ _ => True := by
  intro S hS
  simp only [scanType]
  refine Triple.bind Triple.get fun _ => Triple.bind (Triple.scopeInsert_coherent hS fun _ _ _ => nofun) fun _ => ?_
  split
  · refine Triple.bind (Triple.forIn_same fun value _ => ?_) fun _ => Triple.pure fun _ h => ⟨h.1, h.2, trivial⟩
    refine Triple.bind Triple.get fun _ => Triple.bind (Triple.scopeInsert_coherent hS fun _ _ v hv => ?_)
      fun _ => Triple.pure_same
    cases hv
    simp [enumConstant, Context.pointerSound, ExpressionNode.all]
  · exact Triple.pure fun _ h => ⟨h.1, h.2, trivial⟩

theorem scanDecl_soundRun (decl : AstDecl) : SoundRun (scanDecl env decl) fun _ _ => True := by
  intro S hS
  unfold scanDecl
  split
  · exact scanConst_soundRun env henv _ hS
  · exact Triple.bind Triple.get fun _ => Triple.bind (Triple.scopeInsert_coherent hS fun _ _ _ => nofun) fun _ =>
      Triple.pure fun _ h => ⟨h.1, h.2, trivial⟩
  · exact Triple.bind Triple.get fun _ => Triple.bind (Triple.scopeInsert_coherent hS fun _ _ _ => nofun) fun _ =>
      Triple.pure fun _ h => ⟨h.1, h.2, trivial⟩
  · exact scanType_soundRun env _ hS

theorem scanDeclarations_soundRun : ∀ decls, SoundRun (scanDeclarations env decls) fun _ _ => True
  | [] => fun _ _ => Triple.pure fun _ h => ⟨h.1, h.2, trivial⟩
  | decl :: decls => fun _ hS => Triple.bind ((scanDecl_soundRun env henv decl).keeps hS) fun _ =>
      scanDeclarations_soundRun decls hS

/-- The scan of a subunit returns its scope, which exists. -/
theorem scanSubunit_soundRun (su : AstSubunit) :
    SoundRun (scanSubunit env su) fun r c => r < c.scopes.length := by
  intro S hS
  have hS' r := hS.and (Persistent.lt_length r)
  exact Triple.bind (SoundRun.scopePush hS) fun r => Triple.bind Triple.assertC fun _ =>
    Triple.bind ((scanDeclarations_soundRun env henv su.decls).keeps (hS' r)) fun _ =>
      (SoundRun.scopePop (hS' r)).mono fun _ _ h => ⟨h.1, h.2.1.1, h.2.2⟩

theorem scanPass_soundRun (ns : Option Identifier) (aunit : AstUnit) :
    SoundRun (scanPass env ns aunit) fun scopes c => ∀ r ∈ scopes, r < c.scopes.length := by
  intro S hS
  simp only [scanPass]
  refine Triple.bind (Triple.modify_coherent (by exact fun _ => ⟨rfl, rfl⟩) hS) fun _ =>
    Triple.bind (SoundRun.scopePush.keeps hS) fun _ =>
    Triple.bind (Triple.modify_coherent (by exact fun _ => ⟨rfl, rfl⟩) hS) fun _ =>
    (SoundRun.mapM (fun _ r => Persistent.lt_length r) (fun su _ => scanSubunit_soundRun env henv su) hS).mono
      fun _ _ ⟨hc, hs, h⟩ => ⟨hc, hs, fun r hr => let ⟨_, _, hr'⟩ := h r hr; hr'⟩

/-! ## The whole unit -/

theorem check_soundRun (ns : Option Identifier) (aunit : AstUnit) :
    SoundRun (check env ns aunit) fun u c => ∀ d ∈ u.declarations, d.pointersSound c = true := by
  intro S hS
  refine Triple.bind (scanPass_soundRun env henv ns aunit hS) fun scopes => Triple.bind
    (checkSubunits_soundRun env henv aunit.subunits scopes
      (hS.and (Persistent.forall_ fun r => Persistent.lt_length r)) fun _ h => h.2)
    fun _ => Triple.pure fun _ ⟨hc, ⟨hs, _⟩, hd⟩ => ⟨hc, hs, hd⟩

end Passes

/-- `fn f() int = { let x: int = 1; x };` -/
def Reference.letAccessUnit : AstUnit :=
  Reference.unitOf (Reference.functionDecl "f" .int Reference.letAccessBlock)

theorem check_letAccessUnit_ok :
    ∃ u ctx', (check Reference.env none Reference.letAccessUnit).run Reference.initialContext = .ok (u, ctx') :=
  exists_run_ok_of_isOk (by rw [check_run, Reference.letAccessUnit, Reference.scanPass_functionDecl_int]; decide)

end Harec
