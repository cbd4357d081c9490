import Harec.Labels
import Harec.Declarations

/-!
# Loop labels over a unit

`check` checks the initializer of every constant in the scan pass, and the body of every
function and the initializer of every global in the check pass.  Each of them is checked
in the scope of its subunit, or in the scope `check_function` pushes under it, and none of
these scopes is the scope of a loop: each expression is checked with no loop around it, so
its labels resolve among its own loops only.  `check_declarationLabels` lifts
`checkExpression_resolves` to the whole unit: `check` succeeds only when the labels of every
declaration resolve with no enclosing loop, and when it stops on a label diagnostic some
declaration's labels do not.

A `for` inside an initializer is a loop like any other, so a `break` inside it passes
`check_expr_control`; such a global is rejected, if at all, by the evaluation of its
initializer (`check_globalForBreak_evaluated`).

Two facts about the passes carry this.  No step removes a scope or gives one a new parent,
kind or label (`Context.Grows`), so a scope with no loop around it keeps none; and every
step, from a current scope with no loop around it, ends in one.
-/

namespace Harec

/-! ## The arena only grows -/

/-- No scope is removed, and none gets a new parent, kind or label. -/
structure Context.Grows (ctx ctx' : Context) : Prop where
  length_le : ctx.scopes.length ≤ ctx'.scopes.length
  shape : ∀ r < ctx.scopes.length, (ctx'.scopeAt r).shape = (ctx.scopeAt r).shape

instance : IsPreorder Context Context.Grows where
  refl _ := ⟨Nat.le_refl _, fun _ _ => rfl⟩
  trans _ _ _ h₁ h₂ := ⟨Nat.le_trans h₁.length_le h₂.length_le,
    fun r hr => (h₂.shape r (Nat.lt_of_lt_of_le hr h₁.length_le)).trans (h₁.shape r hr)⟩

theorem Frame.grows {ctx ctx' : Context} (h : Frame ctx ctx') : ctx.Grows ctx' :=
  ⟨h.length_le, fun r hr => (h.extends_ r hr).shape_eq⟩

/-- Every step of the two passes lets the arena only grow. -/
theorem grows_passStep (env : Env) : PassStep env Context.Grows where
  push c := ⟨by simp, fun r hr => by rw [c.scopeAt_push_of_lt hr]⟩
  of_scopes c c' hs _ _ _ := ⟨hs ▸ Nat.le_refl _, fun r _ => by simp only [Context.scopeAt, hs]⟩
  insert c r obj _ := ⟨by simp, fun r' _ => (c.extends_insert r obj r').shape_eq⟩
  expression e hint := (checkExpression_frame env e hint).mono fun _ _ => Frame.grows

/-- The loops around a scope stay as they were while the arena grows. -/
theorem InLoops.of_grows {L : List (ScopeRef × Option String)} {c c' : Context} {s : Option ScopeRef}
    (h : InLoops L { c with scope := s }) (hg : c.Grows c') (hw : c'.WellScoped) :
    InLoops L { c' with scope := s } := by
  refine ⟨⟨hw.ranked, fun r hr => Nat.lt_of_lt_of_le (h.wellScoped.current r hr) hg.length_le,
    hw.labelled⟩, ?_⟩
  rw [Context.loops_setScope, ← h.loops, Context.loops_setScope]
  cases s with
  | none => simp
  | some r =>
    have hlt : r < c.scopes.length := h.wellScoped.current r rfl
    exact @Context.loopsFrom_congr c c' h.wellScoped.ranked r hlt (Nat.lt_of_lt_of_le hlt hg.length_le)
      fun r' hr' => hg.shape r' (Nat.lt_of_le_of_lt hr' hlt)

/-- The scopes `S` have no loop around them. -/
def Context.LoopFree (S : List ScopeRef) (ctx : Context) : Prop :=
  ∀ r ∈ S, InLoops [] { ctx with scope := some r }

theorem Context.LoopFree.of_grows {S : List ScopeRef} {c c' : Context} (h : c.LoopFree S)
    (hg : c.Grows c') (hw : c'.WellScoped) : c'.LoopFree S :=
  fun r hr => (h r hr).of_grows hg hw

/-- A run with no loop around it that lets the arena only grow keeps the scopes `S` free of
loops. -/
theorem Yields.loopFree {α : Type} {m : CheckM α} {Q : α → Prop} {E : Abort → Prop}
    (h : Yields (InLoops []) m Q E) (hg : Keeps Context.Grows m) (S : List ScopeRef) :
    Yields (fun c => InLoops [] c ∧ c.LoopFree S) m Q E where
  ok _ _ _ hc hrun :=
    let ⟨h₁, h₂⟩ := h.ok _ _ _ hc.1 hrun
    ⟨⟨h₁, hc.2.of_grows (hg _ _ _ hrun) h₁.wellScoped⟩, h₂⟩
  error _ _ hc hrun := h.error _ _ hc.1 hrun

/-! ## The labels of a declaration -/

/-- Whether a declaration is a constant, checked by the scan pass. -/
def AstDecl.isConstant (d : AstDecl) : Bool :=
  match d.decl with
  | .constant _ => true
  | _ => false

/-- Whether the loop labels of a declaration resolve: those of a constant's or a global's
initializer, or of a function's body, with no loop around it. -/
def AstDecl.labelsResolve (d : AstDecl) : Bool :=
  match d.decl with
  | .constant c => c.init.all (·.labelsResolve [])
  | .function f => f.body.all (·.labelsResolve [])
  | .global g => g.init.all (·.labelsResolve [])
  | .type _ => true

/-- A label diagnostic of a part of a list blames the list. -/
theorem Abort.blames.all {e : Abort} {α : Type} {p : α → Bool} {l l' : List α}
    (h : e.blames (l.all p)) (hl : ∀ x ∈ l, x ∈ l') : e.blames (l'.all p) := fun hlab => by
  obtain ⟨x, hx, hpx⟩ := List.all_eq_false.mp (h hlab)
  exact List.all_eq_false.mpr ⟨x, hl x hx, hpx⟩

/-- A diagnostic that does not depend on where a node lies blames no labels. -/
theorem Abort.blames_of_isPlacement {e : Abort} {R : Bool} (h : e.isPlacement = false) : e.blames R :=
  fun hl => absurd (h.symm.trans (Abort.isPlacement_of_isLabel e hl)) Bool.false_ne_true

theorem Abort.blames.head {e : Abort} {α : Type} {p : α → Bool} {x : α} {l : List α}
    (h : e.blames (p x)) : e.blames ((x :: l).all p) :=
  fun hlab => by rw [List.all_cons, h hlab, Bool.false_and]

theorem Abort.blames.tail {e : Abort} {α : Type} {p : α → Bool} {x : α} {l : List α}
    (h : e.blames (l.all p)) : e.blames ((x :: l).all p) :=
  h.all fun _ => List.mem_cons_of_mem x

section Declarations

variable (env : Env)

/-- An expression checked with no loop around it. -/
theorem checkExpression_noLoops (e : AstExpression) (hint : Option TypeRef) :
    Yields (InLoops []) (checkExpression env e hint) (fun _ => e.labelsResolve [] = true)
      fun err => err.blames (e.labelsResolve []) :=
  checkExpression_resolves env e hint []

theorem insertParams_noLoops (scope : ScopeRef) (variadism : Variadism) (R : Bool) :
    ∀ params, Yields (InLoops []) (insertParams env scope variadism params) (fun _ => True)
      fun e => e.blames R
  | [] => Yields.pure trivial
  | param :: params => by
    simp only [insertParams]
    split
    · exact Yields.bind (Yields.scopeInsert (fun c s h => h.insert s _) Abort.blames_nullDeref) fun _ _ =>
        insertParams_noLoops scope variadism R params
    · exact Yields.throw (Abort.blames_of_not rfl)

/-- A function's body is checked in a scope pushed under the current one, with no loop
around it. -/
theorem checkFunction_noLoops (adecl : AstDecl) (afndecl : AstFunctionDecl) :
    Yields (InLoops []) (checkFunction env adecl afndecl)
      (fun _ => afndecl.body.all (·.labelsResolve []) = true)
      fun e => e.blames (afndecl.body.all (·.labelsResolve [])) where
  ok c _ _ hL h := by
    rcases checkFunction_run_ok env h with ⟨hb, -, rfl⟩ | ⟨abody, _, _, _, _, hb, -, hins, hexpr, -, -, hr, rfl, -⟩
    · exact ⟨hL, by rw [hb]; rfl⟩
    · have hL₁ := ((insertParams_noLoops env _ _ true _).ok _ _ _ (by exact InLoops.push (hL.of_scopes rfl rfl)) hins).1
      obtain ⟨hL₂, hres⟩ := (checkExpression_noLoops env abody _).ok _ _ _ hL₁ hexpr
      exact ⟨(hL₂.pop hr).of_scopes rfl rfl, by rw [hb]; exact hres⟩
  error c _ hL h := by
    rcases checkFunction_run_error env h with hp | ⟨abody, _, hb, hins, hexpr⟩
    · exact Abort.blames_of_isPlacement hp
    · have hL₁ := ((insertParams_noLoops env _ _ true _).ok _ _ _ (by exact InLoops.push (hL.of_scopes rfl rfl)) hins).1
      rw [hb]
      exact (checkExpression_noLoops env abody _).error _ _ hL₁ hexpr

theorem checkGlobal_noLoops (agdecl : AstGlobalDecl) :
    Yields (InLoops []) (checkGlobal env agdecl) (fun _ => agdecl.init.all (·.labelsResolve []) = true)
      fun e => e.blames (agdecl.init.all (·.labelsResolve [])) where
  ok c _ _ hL h := by
    rcases checkGlobal_run_ok env h with ⟨hi, -, rfl⟩ | ⟨init, _, _, _, hi, hexpr, -⟩
    · exact ⟨hL, by rw [hi]; rfl⟩
    · rw [hi]
      exact (checkExpression_noLoops env init _).ok _ _ _ hL hexpr
  error c _ hL h := by
    rcases checkGlobal_run_error env h with hp | ⟨init, hi, hexpr⟩
    · exact Abort.blames_of_isPlacement hp
    · rw [hi]
      exact (checkExpression_noLoops env init _).error _ _ hL hexpr

/-- The check pass checks every declaration but the constants. -/
theorem checkDecl_noLoops (adecl : AstDecl) :
    Yields (InLoops []) (checkDecl env adecl) (fun _ => adecl.isConstant = false → adecl.labelsResolve = true)
      fun e => e.blames adecl.labelsResolve := by
  obtain ⟨loc, exported, decl⟩ := adecl
  cases decl with
  | constant c => exact Yields.map (Yields.pure fun h => absurd h.symm Bool.false_ne_true)
  | function f => exact Yields.map ((checkFunction_noLoops env _ f).mono (fun _ h _ => h) fun _ => id)
  | global g => exact Yields.map ((checkGlobal_noLoops env g).mono (fun _ h _ => h) fun _ => id)
  | type t => exact Yields.map (Yields.map (Yields.bind Yields.get fun _ _ => Yields.pure fun _ => rfl))

theorem checkDeclarations_noLoops : ∀ adecls : List AstDecl,
    Yields (InLoops []) (checkDeclarations env adecls)
      (fun _ => ∀ d ∈ adecls, d.isConstant = false → d.labelsResolve = true)
      fun e => e.blames (adecls.all AstDecl.labelsResolve)
  | [] => Yields.pure (List.forall_mem_nil _)
  | adecl :: adecls =>
    Yields.bind ((checkDecl_noLoops env adecl).mono (fun _ => id) fun _ => Abort.blames.head)
      fun _ h₁ => Yields.bind ((checkDeclarations_noLoops adecls).mono (fun _ => id)
        fun _ => Abort.blames.tail) fun _ h₂ => Yields.pure (List.forall_mem_cons.mpr ⟨h₁, h₂⟩)

theorem scanConst_noLoops (decl : AstGlobalDecl) :
    Yields (InLoops []) (scanConst env decl) (fun _ => decl.init.all (·.labelsResolve []) = true)
      fun e => e.blames (decl.init.all (·.labelsResolve [])) where
  ok c _ _ hL h := by
    obtain ⟨init, _, _, _, _, s, -, hi, hexpr, -, -, -, -, rfl⟩ := scanConst_run_ok env h
    obtain ⟨hL₁, hres⟩ := (checkExpression_noLoops env init _).ok _ _ _ hL hexpr
    exact ⟨hL₁.insert s _, by rw [hi]; exact hres⟩
  error c _ hL h := by
    rcases scanConst_run_error env h with hp | ⟨init, hi, hexpr⟩
    · exact Abort.blames_of_isPlacement hp
    · rw [hi]
      exact (checkExpression_noLoops env init _).error _ _ hL hexpr

/-- The scan pass checks the constants only. -/
theorem scanDecl_noLoops (decl : AstDecl) :
    Yields (InLoops []) (scanDecl env decl) (fun _ => decl.isConstant = true → decl.labelsResolve = true)
      fun e => e.blames decl.labelsResolve := by
  obtain ⟨loc, exported, decl⟩ := decl
  have unitDecl : ∀ {ident : Context → Identifier} {name : Identifier} {type : TypeRef} {R : Bool},
      Yields (InLoops []) (MonadState.get >>= fun ctx =>
        scopeInsert ctx.unit .decl (ident ctx) name type none >>= fun _ => (pure () : CheckM PUnit))
        (fun _ => false = true → R = true) fun e => e.blames R :=
    Yields.bind Yields.get fun _ _ => Yields.bind (Yields.scopeInsert (fun c s h => h.insert s _)
      Abort.blames_nullDeref) fun _ _ => Yields.pure fun h => absurd h Bool.false_ne_true
  cases decl with
  | constant c => exact (scanConst_noLoops env c).mono (fun _ h _ => h) fun _ => id
  | function f => exact unitDecl
  | global g => exact unitDecl
  | type t =>
    refine ⟨fun c _ _ hL h => ⟨?_, fun hc => absurd hc Bool.false_ne_true⟩, fun _ _ _ h => ?_⟩
    · obtain ⟨s, -, rfl⟩ := scanType_run_ok env h
      exact Context.foldl_insert (fun _ _ h' => h'.insert s _) _ (hL.insert s _)
    · rw [scanType_run_error env h]
      exact Abort.blames_nullDeref

theorem scanDeclarations_noLoops : ∀ decls : List AstDecl,
    Yields (InLoops []) (scanDeclarations env decls)
      (fun _ => ∀ d ∈ decls, d.isConstant = true → d.labelsResolve = true)
      fun e => e.blames (decls.all AstDecl.labelsResolve)
  | [] => Yields.pure (List.forall_mem_nil _)
  | decl :: decls =>
    Yields.bind ((scanDecl_noLoops env decl).mono (fun _ => id) fun _ => Abort.blames.head)
      fun _ h₁ => ((scanDeclarations_noLoops decls).mono (fun _ h₂ => List.forall_mem_cons.mpr ⟨h₁, h₂⟩)
        fun _ => Abort.blames.tail)

theorem scanSubunit_noLoops (su : AstSubunit) :
    Yields (InLoops []) (scanSubunit env su)
      (fun _ => ∀ d ∈ su.decls, d.isConstant = true → d.labelsResolve = true)
      fun e => e.blames (su.decls.all AstDecl.labelsResolve) :=
  Yields.bind (Yields.scopePush fun _ h => h.push) fun _ _ =>
    Yields.bind (Yields.assertC Abort.blames_assertion) fun _ _ =>
      Yields.bind (scanDeclarations_noLoops env su.decls) fun _ h =>
        (Yields.scopePop (fun _ _ h hs => h.pop hs) Abort.blames_nullDeref).mono (fun _ _ => h) fun _ => id

/-- The scope a subunit was scanned in has no loop around it. -/
theorem scanSubunit_loopFree {su : AstSubunit} {c c' : Context} {r : ScopeRef} (h : InLoops [] c)
    (hrun : (scanSubunit env su).run c = .ok (r, c')) : InLoops [] { c' with scope := some r } := by
  obtain ⟨_, c₁, h₁, k₁⟩ := run_bind_ok hrun
  obtain ⟨_, c₂, h₂, k₂⟩ := run_bind_ok k₁
  obtain ⟨_, c₃, h₃, k₃⟩ := run_bind_ok k₂
  obtain ⟨-, rfl⟩ := scopePush_run_ok h₁
  obtain ⟨-, rfl⟩ := assertC_run_ok h₂
  have hL₃ := ((scanDeclarations_noLoops env su.decls).ok _ _ _ h.push h₃).1
  obtain ⟨hs, rfl⟩ := scopePop_run_ok k₃
  exact hL₃.of_scopes rfl hs.symm

theorem scanSubunits_loopFree : ∀ {sus : List AstSubunit} {c c' : Context} {S : List ScopeRef},
    InLoops [] c → (sus.mapM (scanSubunit env)).run c = .ok (S, c') → InLoops [] c' ∧ c'.LoopFree S
  | [], _, _, _, h, hrun => by
    obtain ⟨rfl, rfl⟩ := run_pure_ok hrun
    exact ⟨h, fun _ h => absurd h (List.not_mem_nil _)⟩
  | su :: sus, c, c', S, h, hrun => by
    rw [List.mapM_cons] at hrun
    obtain ⟨r, c₁, h₁, k₁⟩ := run_bind_ok hrun
    obtain ⟨S', c₂, h₂, k₂⟩ := run_bind_ok k₁
    obtain ⟨rfl, rfl⟩ := run_pure_ok k₂
    have hL₁ := ((scanSubunit_noLoops env su).ok _ _ _ h h₁).1
    obtain ⟨hL₂, hfree⟩ := scanSubunits_loopFree hL₁ h₂
    have hg := (Keeps.mapM fun su _ => scanSubunit_keeps (grows_passStep env) su) _ _ _ h₂
    refine ⟨hL₂, fun r' hr' => ?_⟩
    rcases List.mem_cons.mp hr' with rfl | hr'
    · exact (scanSubunit_loopFree env h h₁).of_grows hg hL₂.wellScoped
    · exact hfree r' hr'

/-- The scan pass checks the constants of every subunit. -/
theorem scanPass_noLoops (ns : Option Identifier) (aunit : AstUnit) :
    Yields (InLoops []) (scanPass env ns aunit)
      (fun _ => ∀ su ∈ aunit.subunits, ∀ d ∈ su.decls, d.isConstant = true → d.labelsResolve = true)
      fun e => e.blames (aunit.decls.all AstDecl.labelsResolve) :=
  Yields.bind (Yields.modify fun _ h => h.of_scopes rfl rfl) fun _ _ =>
    Yields.bind (Yields.scopePush fun _ h => h.push) fun _ _ =>
      Yields.bind (Yields.modify fun _ h => h.of_scopes rfl rfl) fun _ _ =>
        Yields.mapM_all fun su hsu => (scanSubunit_noLoops env su).mono (fun _ => id)
          fun _ h => h.all fun _ hd => List.mem_flatMap.mpr ⟨su, hsu, hd⟩

/-- The scan pass leaves one scope per subunit, each with no loop around it. -/
theorem scanPass_loopFree {ns : Option Identifier} {aunit : AstUnit} {c c' : Context} {S : List ScopeRef}
    (h : InLoops [] c) (hrun : (scanPass env ns aunit).run c = .ok (S, c')) :
    c'.LoopFree S ∧ S.length = aunit.subunits.length := by
  obtain ⟨_, c₁, h₁, k₁⟩ := run_bind_ok hrun
  obtain ⟨_, c₂, h₂, k₂⟩ := run_bind_ok k₁
  obtain ⟨_, c₃, h₃, k₃⟩ := run_bind_ok k₂
  cases h₁
  obtain ⟨-, rfl⟩ := scopePush_run_ok h₂
  cases h₃
  refine ⟨(scanSubunits_loopFree env ?_ k₃).2, mapM_run_length k₃⟩
  exact (InLoops.of_scopes h rfl rfl : InLoops [] { c with ns := ns }).push.of_scopes rfl rfl

/-- The check pass, from a context where the scopes `S` have no loop around them, checks
every declaration but the constants of the subunits it is given a scope of `S` for. -/
theorem checkSubunits_noLoops (S : List ScopeRef) : ∀ (sus : List AstSubunit) (scopes : List ScopeRef),
    (∀ r ∈ scopes, r ∈ S) → sus.length = scopes.length →
    Yields (fun c => InLoops [] c ∧ c.LoopFree S) (checkSubunits env sus scopes)
      (fun _ => ∀ su ∈ sus, ∀ d ∈ su.decls, d.isConstant = false → d.labelsResolve = true)
      fun e => e.blames ((sus.flatMap (·.decls)).all AstDecl.labelsResolve)
  | [], _, _, _ => Yields.pure (List.forall_mem_nil _)
  | su :: sus, r :: scopes, hS, hlen =>
    Yields.bind (Yields.modify fun _ hc => ⟨hc.2 r (hS r (.head _)), fun r' hr' => hc.2 r' hr'⟩) fun _ _ =>
      Yields.bind (((checkDeclarations_noLoops env su.decls).loopFree
          (checkDeclarations_keeps (grows_passStep env) _) S).mono (fun _ => id)
          fun _ h => h.all fun _ hd => List.mem_flatMap.mpr ⟨su, List.mem_cons_self _ _, hd⟩) fun _ h₁ =>
        Yields.bind ((checkSubunits_noLoops S sus scopes (fun r' hr' => hS r' (.tail _ hr'))
            (Nat.succ.inj hlen)).mono (fun _ => id) fun _ h => h.all fun _ hd =>
            let ⟨s, hs, hd⟩ := List.mem_flatMap.mp hd
            List.mem_flatMap.mpr ⟨s, List.mem_cons_of_mem _ hs, hd⟩) fun _ h₂ =>
          Yields.pure (List.forall_mem_cons.mpr ⟨h₁, h₂⟩)
  | _ :: _, [], _, hlen => nomatch hlen

/-- `check` checks every declaration's expression with no loop around it: from a current
scope with no loop around it, it succeeds only when the labels of every declaration resolve
with no enclosing loop, and a label diagnostic blames a declaration whose labels do not.
`check_expr_control`'s walk up the scopes stops at the innermost enclosing loop that is a
target. -/
theorem check_declarationLabels (ns : Option Identifier) (aunit : AstUnit) :
    Yields (InLoops []) (check env ns aunit) (fun _ => aunit.decls.all AstDecl.labelsResolve = true)
      (fun e => e.blames (aunit.decls.all AstDecl.labelsResolve)) ∧
    ∀ (L : List (ScopeRef × Option String)) (ctx : Context) (label : Option String), InLoops L ctx →
      (ctx.chain ctx.scope).find? (ctx.isControlTarget label) =
        (L.find? fun p => targets label p.2).map Prod.fst := by
  refine ⟨⟨fun ctx a ctx' h hrun => ?_, fun ctx e h hrun => ?_⟩, fun L ctx label h => ?_⟩
  · obtain ⟨S, c₁, h₁, k₁⟩ := run_bind_ok hrun
    obtain ⟨ds, c₂, h₂, k₂⟩ := run_bind_ok k₁
    obtain ⟨rfl, rfl⟩ := run_pure_ok k₂
    obtain ⟨hL₁, hscan⟩ := (scanPass_noLoops env ns aunit).ok _ _ _ h h₁
    obtain ⟨hfree, hlen⟩ := scanPass_loopFree env h h₁
    obtain ⟨⟨hL₂, -⟩, hcheck⟩ :=
      (checkSubunits_noLoops env S aunit.subunits S (fun _ => id) hlen.symm).ok _ _ _ ⟨hL₁, hfree⟩ h₂
    refine ⟨hL₂, List.all_eq_true.mpr fun d hd => ?_⟩
    obtain ⟨su, hsu, hd⟩ := List.mem_flatMap.mp hd
    cases hc : d.isConstant
    · exact hcheck su hsu d hd hc
    · exact hscan su hsu d hd hc
  · rcases run_bind_error hrun with h₁ | ⟨S, c₁, h₁, k₁⟩
    · exact (scanPass_noLoops env ns aunit).error _ _ h h₁
    have hL₁ := ((scanPass_noLoops env ns aunit).ok _ _ _ h h₁).1
    obtain ⟨hfree, hlen⟩ := scanPass_loopFree env h h₁
    rcases run_bind_error k₁ with h₂ | ⟨ds, c₂, h₂, k₂⟩
    · exact (checkSubunits_noLoops env S aunit.subunits S (fun _ => id) hlen.symm).error _ _ ⟨hL₁, hfree⟩ h₂
    · cases k₂
  · rw [Context.chain_find?_isControlTarget, ← h.loops]
    rfl

end Declarations

open Reference

theorem inLoops_initialContext : InLoops [] initialContext :=
  ⟨⟨fun r _ hp => (by rw [initialContext.scopeAt_of_le (Nat.zero_le r)] at hp; cases hp),
    fun _ hs => Option.noConfusion hs,
    fun r hl => absurd (by rw [initialContext.scopeAt_of_le (Nat.zero_le r)]; rfl) hl⟩, rfl⟩

/-- `fn f() void = for :outer (true) for :inner (true) break :outer;` -/
def nestedLoopsDecl : AstDecl :=
  functionDecl "f" .void (.for here (some "outer") here none (const .bool (.bval true)) none
    (.for here (some "inner") here none (const .bool (.bval true)) none (.control here .break (some "outer"))))

/-- `fn f() void = for :a (true) for :a (true) break;` -/
def duplicateLabelDecl : AstDecl :=
  functionDecl "f" .void (.for here (some "a") here none (const .bool (.bval true)) none
    (.for here (some "a") here none (const .bool (.bval true)) none (.control here .break none)))

/-- The context inside two nested loops, labelled `outer` and `inner`. -/
def nestedLoopsContext : Context :=
  (initialContext.enter .for (some "outer")).enter .for (some "inner")

/-- Nested labelled loops pass the label tests, and the declaration's labels resolve; a loop
inside a loop of the same label is a label diagnostic, which blames the declaration; and
inside the two loops, `break :outer` stops its walk at the outer loop's scope. -/
theorem check_declarationLabels_nestedLoops :
    (∃ u ctx', (check env none (unitOf nestedLoopsDecl)).run initialContext = .ok (u, ctx') ∧
        InLoops [] ctx' ∧ (unitOf nestedLoopsDecl).decls.all AstDecl.labelsResolve = true) ∧
      (∃ e, (check env none (unitOf duplicateLabelDecl)).run initialContext = .error e ∧ e.isLabel = true ∧
        e.blames ((unitOf duplicateLabelDecl).decls.all AstDecl.labelsResolve)) ∧
      InLoops [(1, some "inner"), (0, some "outer")] nestedLoopsContext ∧
      (nestedLoopsContext.chain nestedLoopsContext.scope).find?
        (nestedLoopsContext.isControlTarget (some "outer")) = some 0 := by
  obtain ⟨od, c, hf⟩ : ∃ od c, (checkDecl env nestedLoopsDecl).run (scanningContext [declObject "f" 9]) =
      .ok (od, c) := exists_run_ok_of_isOk (by decide)
  have h := check_unitOf_run (scanPass_functionDecl_void _ _) hf
  have hdup : (check env none (unitOf duplicateLabelDecl)).run initialContext =
      .error (.expect here "for loop label must be unique among its ancestors") :=
    check_unitOf_run_error (scanPass_functionDecl_void _ _) rfl
  have hL : InLoops [(1, some "inner"), (0, some "outer")] nestedLoopsContext :=
    (inLoops_initialContext.enter_for _).enter_for _
  refine ⟨⟨_, c, h, (check_declarationLabels env none (unitOf nestedLoopsDecl)).1.ok _ _ _ inLoops_initialContext h⟩,
    ⟨_, hdup, rfl, (check_declarationLabels env none (unitOf duplicateLabelDecl)).1.error _ _ inLoops_initialContext hdup⟩,
    hL, ?_⟩
  rw [(check_declarationLabels env none (unitOf nestedLoopsDecl)).2 _ _ _ hL]
  rfl

/-- `let g: void = for (true) break;` -/
def globalForBreakUnit : AstUnit :=
  unitOf ⟨here, false, .global ⟨none, ⟨"g", none⟩, builtinType .void,
    some (.for here none here none (const .bool (.bval true)) none (.control here .break none))⟩⟩

/-- `let g: void = break;` -/
def globalBreakUnit : AstUnit :=
  unitOf ⟨here, false, .global ⟨none, ⟨"g", none⟩, builtinType .void, some (.control here .break none)⟩⟩

/-- A `break` inside a `for` of a global's initializer passes the label test, and `check`
stops only at the evaluation of the initializer; a bare `break` there stops at the label
test. -/
theorem check_globalForBreak_evaluated :
    abortOf ((check env none globalForBreakUnit).run initialContext) =
        some (.expect here "Unable to evaluate global initializer at compile time") ∧
      abortOf ((check env none globalBreakUnit).run initialContext) =
        some (.expect here "Unknown label (null)") := by
  have hcheck : ∀ {init e}, (checkDecl env ⟨here, false, .global ⟨none, ⟨"g", none⟩, builtinType .void, init⟩⟩).run
      (scanningContext [declObject "g" 0]) = .error e →
      abortOf ((check env none (unitOf ⟨here, false, .global ⟨none, ⟨"g", none⟩, builtinType .void, init⟩⟩)).run
        initialContext) = some e := fun h => by
    rw [check_unitOf_run_error (by rfl) h]
    rfl
  exact ⟨hcheck rfl, hcheck rfl⟩

end Harec
