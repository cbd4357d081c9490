import Harec.Bindings
import Harec.Decides
import Harec.Reference

/-!
# Defers inside deferred expressions

`check_expr_defer` rejects a `defer` when the flag `ctx->deferring` is set, and sets the flag
around the check of its deferred expression, clearing it again afterwards (§4.4).  Every other
check leaves the flag as it found it.  So a `defer` is rejected for nesting exactly where it
lies inside the deferred expression of another one: `AstExpression.defersUnnested e d` says
that no `defer` of `e` is checked with the flag set, when the flag is `d` as the check of `e`
starts, and `checkExpression_unnests` proves that every check of `e` decides it.
-/

namespace Harec

/-- The diagnostic of `check_expr_defer` for a `defer` inside a deferred expression. -/
def Abort.isDeferNesting : Abort → Bool
  | .expect _ message => message == "Cannot defer within another defer expression."
  | _ => false

theorem Abort.isPlacement_of_isDeferNesting : ∀ e : Abort, e.isDeferNesting = true → e.isPlacement = true
  | .expect _ message, h => by
    rw [Abort.isDeferNesting, beq_iff_eq] at h
    subst h
    rfl
  | .assertion, h => absurd h Bool.false_ne_true
  | .nullDeref, h => absurd h Bool.false_ne_true

/-- The checker's flag `deferring` is `d`. -/
def Deferring (d : Bool) (ctx : Context) : Prop := ctx.deferring = d

mutual

/-- Whether no `defer` of a tree is checked with the flag `deferring` set, when the flag is
`d` as its check starts: with the flag clear, no `defer` lies inside the deferred expression
of another; with it set, the tree holds no `defer`.  Only the children the checker checks
are visited. -/
def AstExpression.defersUnnested : AstExpression → Bool → Bool
  | .accessIdentifier .., _ => true
  | .accessIndex _ array index, d => array.defersUnnested d && index.defersUnnested d
  | .accessField _ object _, d => object.defersUnnested d
  | .assert _ cond message, d =>
      AstExpression.optDefersUnnested cond d && AstExpression.optDefersUnnested message d
  | .assign _ _ _ object value, d => object.defersUnnested d && value.defersUnnested d
  | .binarithm _ _ lvalue rvalue, d => lvalue.defersUnnested d && rvalue.defersUnnested d
  | .binding _ bindings, d => AstExpression.bindingsDefersUnnested bindings d
  | .control .., _ => true
  | .call _ lvalue args, d => lvalue.defersUnnested d && AstExpression.argsDefersUnnested args d
  | .cast _ _ value _, d => value.defersUnnested d
  | .constant _ storage _ array, d => storage != .array || AstExpression.itemsDefersUnnested array d
  | .defer _ deferred, d => !d && deferred.defersUnnested true
  | .for _ _ _ bindings cond afterthought body, d =>
      AstExpression.optDefersUnnested bindings d && cond.defersUnnested d &&
        AstExpression.optDefersUnnested afterthought d && body.defersUnnested d
  | .if _ cond trueBranch falseBranch, d =>
      cond.defersUnnested d && trueBranch.defersUnnested d && AstExpression.optDefersUnnested falseBranch d
  | .list _ exprs, d => AstExpression.listDefersUnnested exprs d
  | .match _, _ => true
  | .measure _ op value _, d => op != .len || AstExpression.optDefersUnnested value d
  | .return _ value, d => AstExpression.optDefersUnnested value d
  | .slice _ object start «end», d =>
      object.defersUnnested d && AstExpression.optDefersUnnested start d &&
        AstExpression.optDefersUnnested «end» d
  | .struct _ _ _ fields, d => AstExpression.fieldsDefersUnnested fields d
  | .switch _ value cases, d => value.defersUnnested d && AstExpression.casesDefersUnnested cases d
  | .unarithm _ _ operand, d => operand.defersUnnested d

/-- `defersUnnested` on an optional child. -/
def AstExpression.optDefersUnnested : Option AstExpression → Bool → Bool
  | none, _ => true
  | some e, d => e.defersUnnested d

/-- `defersUnnested` on every expression of a list. -/
def AstExpression.listDefersUnnested : List AstExpression → Bool → Bool
  | [], _ => true
  | e :: es, d => e.defersUnnested d && AstExpression.listDefersUnnested es d

/-- `defersUnnested` on the initializers of bindings. -/
def AstExpression.bindingsDefersUnnested : List (AstBinding AstExpression) → Bool → Bool
  | [], _ => true
  | b :: bs, d => b.initializer.defersUnnested d && AstExpression.bindingsDefersUnnested bs d

/-- `defersUnnested` on the values of call arguments. -/
def AstExpression.argsDefersUnnested : List (AstCallArgument AstExpression) → Bool → Bool
  | [], _ => true
  | a :: as, d => a.value.defersUnnested d && AstExpression.argsDefersUnnested as d

/-- `defersUnnested` on the items of an array literal. -/
def AstExpression.itemsDefersUnnested : List (AstArrayConstant AstExpression) → Bool → Bool
  | [], _ => true
  | i :: is, d => i.value.defersUnnested d && AstExpression.itemsDefersUnnested is d

/-- `defersUnnested` on the values of a struct literal's fields. -/
def AstExpression.fieldsDefersUnnested : List (AstFieldValue AstExpression) → Bool → Bool
  | [], _ => true
  | f :: fs, d => f.initializer.defersUnnested d && AstExpression.fieldsDefersUnnested fs d

/-- `defersUnnested` on the options and bodies of switch cases. -/
def AstExpression.casesDefersUnnested : List (AstSwitchCase AstExpression) → Bool → Bool
  | [], _ => true
  | c :: cs, d => AstExpression.listDefersUnnested c.options d && c.value.defersUnnested d &&
      AstExpression.casesDefersUnnested cs d

end

/-- A child whose check decides whether the defers of its tree are unnested. -/
abbrev Child.Unnests (c : Child) : Prop :=
  c.Decides Deferring Abort.isDeferNesting AstExpression.defersUnnested

/-! ### The checks that read or set the flag -/

section Kinds

variable (env : Env)

theorem unknownLabel_not_isDeferNesting (loc : Location) (s : String) :
    (Abort.expect loc ("Unknown label " ++ s)).isDeferNesting = false := by
  refine beq_false_of_ne fun h => ?_
  have := congrArg (fun t : String => t.data.head?) h
  simp [String.data_append] at this

theorem checkExprControl_unnests (loc : Location) (type : ControlType) (label : Option String) :
    Decides Deferring Abort.isDeferNesting (checkExprControl loc type label) fun _ => true := fun _ =>
  Yields.bind Yields.get fun _ _ =>
    Yields.bind (Yields.expect (Abort.Blames.of_false (unknownLabel_not_isDeferNesting _ _))) fun _ _ =>
      Yields.pure rfl

theorem checkForLabel_unnests (labelLoc : Location) (scope : ScopeRef) (label : Option String) (d : Bool)
    {R : Bool} : Yields (Deferring d) (checkForLabel labelLoc scope label) (fun _ => True)
      fun e => e.Blames Abort.isDeferNesting R := by
  cases label with
  | none => exact Yields.pure trivial
  | some l =>
    refine Yields.bind Yields.get fun _ _ => Yields.bind (Yields.forIn fun _ _ => ?_) fun _ _ => Yields.pure trivial
    split
    · exact Yields.bind (Yields.expect (Abort.Blames.of_false rfl)) fun _ _ => Yields.pure trivial
    · exact Yields.bind (Yields.pure (Q := fun _ => True) trivial) fun _ _ => Yields.pure trivial

/-- A `defer` is accepted only with the flag clear, and its deferred expression is checked
with the flag set. -/
theorem checkExprDefer_unnests (loc : Location) {deferred : Child} (hd : deferred.Unnests) :
    Decides Deferring Abort.isDeferNesting (checkExprDefer env loc deferred) fun d =>
      !d && deferred.ast.defersUnnested true := by
  intro d
  constructor
  · intro ctx e ctx' (hc : ctx.deferring = d) hrun
    obtain ⟨hclear, _, _, h₃, rfl⟩ := checkExprDefer_run_ok env hrun
    subst hc
    rw [hclear]
    exact ⟨rfl, by simpa using ((hd none true).ok _ _ _ (by exact rfl) h₃).2⟩
  · intro ctx e (hc : ctx.deferring = d) hrun
    subst hc
    rcases checkExprDefer_run_error env hrun with ⟨hset, -⟩ | ⟨hclear, h₃⟩
    · rw [hset]
      exact fun _ => rfl
    · rw [hclear]
      exact fun hx => by simp [(hd none true).error _ _ (by exact rfl) h₃ hx]

theorem checkExprList_unnests {exprs : List Child} (h : ∀ c ∈ exprs, c.Unnests) :
    Decides Deferring Abort.isDeferNesting (checkExprList exprs) fun d => exprs.all (·.ast.defersUnnested d) :=
  inScope_decides Abort.isPlacement_of_isDeferNesting (fun _ _ h => h) (fun _ _ _ h => h) (fun _ _ _ h => h)
    fun _ d => Yields.bind (Yields.mapM_all fun c hc =>
      (h c hc).within none d fun hr => List.all_eq_true.mp hr c hc) fun _ hes =>
        Yields.bind (Yields.deref (Abort.Blames.nullDeref Abort.isPlacement_of_isDeferNesting)) fun _ _ =>
          Yields.pure (List.all_eq_true.mpr hes)

theorem checkExprFor_unnests (label : Option String) (labelLoc : Location)
    {bindings afterthought : Option Child} {cond body : Child} (hb : ∀ c ∈ bindings, c.Unnests)
    (hc : cond.Unnests) (ha : ∀ c ∈ afterthought, c.Unnests) (hd : body.Unnests) :
    Decides Deferring Abort.isDeferNesting (checkExprFor env label labelLoc bindings cond afterthought body)
      fun d => bindings.all (·.ast.defersUnnested d) && cond.ast.defersUnnested d &&
        afterthought.all (·.ast.defersUnnested d) && body.ast.defersUnnested d := by
  have hX := Abort.isPlacement_of_isDeferNesting
  refine inScope_decides hX (fun _ _ h => h) (fun _ _ _ h => h) (fun _ _ _ h => h) fun s d => ?_
  refine Yields.bind (checkForLabel_unnests labelLoc s label d) fun _ _ => ?_
  refine Yields.bind (checkOpt_decides hb none d fun hr => by
    simp only [Bool.and_eq_true] at hr; exact hr.1.1.1) fun _ hbind => ?_
  refine Yields.bind (hc.within _ _ fun hr => by
    simp only [Bool.and_eq_true] at hr; exact hr.1.1.2) fun _ hcond => ?_
  refine Yields.bind (Yields.resultOf (Abort.Blames.nullDeref hX)) fun _ _ =>
    Yields.bind (Yields.expect (Abort.Blames.of_not hX (by with_unfolding_all rfl))) fun _ _ => ?_
  refine Yields.bind (checkOpt_decides ha none d fun hr => by
    simp only [Bool.and_eq_true] at hr; exact hr.1.2) fun _ hafter => ?_
  refine Yields.bind (hd.within _ _ fun hr => by
    simp only [Bool.and_eq_true] at hr; exact hr.2) fun _ hbody => ?_
  exact Yields.pure (by simp only [Bool.and_eq_true]; exact ⟨⟨⟨hbind, hcond⟩, hafter⟩, hbody⟩)

end Kinds

/-! ### Every check -/

section Run

variable (env : Env) (d : Bool)

theorem optChild_defersUnnested (o : Option AstExpression) :
    (optChild env o).all (·.ast.defersUnnested d) = AstExpression.optDefersUnnested o d := by
  cases o <;> rfl

theorem children_defersUnnested : ∀ es : List AstExpression,
    (children env es).all (·.ast.defersUnnested d) = AstExpression.listDefersUnnested es d
  | [] => rfl
  | e :: es => by rw [children, List.all_cons, children_defersUnnested es]; rfl

theorem bindingChildren_defersUnnested : ∀ bs : List (AstBinding AstExpression),
    (bindingChildren env bs).all (·.initializer.ast.defersUnnested d) = AstExpression.bindingsDefersUnnested bs d
  | [] => rfl
  | b :: bs => by rw [bindingChildren, List.all_cons, bindingChildren_defersUnnested bs]; rfl

theorem AstExpression.optDefersUnnested_eq (o : Option AstExpression) :
    AstExpression.optDefersUnnested o d = o.toList.all (·.defersUnnested d) := by
  cases o <;> simp [AstExpression.optDefersUnnested]

theorem AstExpression.listDefersUnnested_eq (es : List AstExpression) :
    AstExpression.listDefersUnnested es d = es.all (·.defersUnnested d) := by
  induction es <;> simp [AstExpression.listDefersUnnested, *]

theorem AstExpression.argsDefersUnnested_eq (as : List (AstCallArgument AstExpression)) :
    AstExpression.argsDefersUnnested as d = (as.map (·.value)).all (·.defersUnnested d) := by
  induction as <;> simp [AstExpression.argsDefersUnnested, *]

theorem AstExpression.itemsDefersUnnested_eq (is : List (AstArrayConstant AstExpression)) :
    AstExpression.itemsDefersUnnested is d = (is.map (·.value)).all (·.defersUnnested d) := by
  induction is <;> simp [AstExpression.itemsDefersUnnested, *]

theorem AstExpression.fieldsDefersUnnested_eq (fs : List (AstFieldValue AstExpression)) :
    AstExpression.fieldsDefersUnnested fs d = (fs.map (·.initializer)).all (·.defersUnnested d) := by
  induction fs <;> simp [AstExpression.fieldsDefersUnnested, *]

theorem AstExpression.casesDefersUnnested_eq (cs : List (AstSwitchCase AstExpression)) :
    AstExpression.casesDefersUnnested cs d =
      (cs.flatMap fun c => c.options ++ [c.value]).all (·.defersUnnested d) := by
  induction cs <;>
    simp [AstExpression.casesDefersUnnested, AstExpression.listDefersUnnested_eq, Bool.and_assoc, *]

/-- The defers of a node of a kind that only checks its children are unnested where those of
its children are. -/
theorem AstExpression.defersUnnested_of_kids {e : AstExpression} {ks : List AstExpression} (h : e.kids = some ks) :
    e.defersUnnested d = ks.all (·.defersUnnested d) := by
  cases e <;> cases h <;>
    simp [AstExpression.defersUnnested, AstExpression.optDefersUnnested_eq, AstExpression.argsDefersUnnested_eq,
      AstExpression.itemsDefersUnnested_eq, AstExpression.fieldsDefersUnnested_eq,
      AstExpression.casesDefersUnnested_eq, Bool.and_assoc]
  all_goals split <;> simp [*]

open Abort (isPlacement_of_isDeferNesting)

/-- Every check of an expression decides whether the defers of its tree are unnested. -/
theorem checkExpression_unnests : ∀ e : AstExpression, Child.Unnests ⟨e, checkExpression env e⟩ := by
  intro e
  induction e using AstExpression.kidsInduction with
  | kids e _ he h =>
    exact fun hint => (Decides.of_checksChildren isPlacement_of_isDeferNesting
      (checkExpression_checksChildren env he hint) (List.forall_mem_map.mpr h)).congr
      (funext fun d => (all_map_childOf env _ _).trans (AstExpression.defersUnnested_of_kids d he).symm)
  | accessIdentifier loc ident =>
    exact fun _ => Decides.of_guard isPlacement_of_isDeferNesting (checkExprAccessIdentifier_guard env loc ident)
  | binding loc _ h =>
    exact fun _ => (checkExprBinding_decides env isPlacement_of_isDeferNesting (fun _ _ _ _ h => h)
      (fun _ _ _ h => h) loc (bindingChildren_forall env h)).congr
      (funext fun d => by rw [bindingChildren_defersUnnested]; rfl)
  | control loc type label => exact fun _ => checkExprControl_unnests loc type label
  | defer loc _ hd => exact fun _ => checkExprDefer_unnests env loc hd
  | «for» _ label labelLoc _ _ _ _ hb hc ha hd =>
    exact fun _ => (checkExprFor_unnests env label labelLoc (optChild_forall env hb) hc
      (optChild_forall env ha) hd).congr
      (funext fun d => by rw [optChild_defersUnnested, optChild_defersUnnested]; rfl)
  | list _ _ h =>
    exact fun _ => (checkExprList_unnests (children_forall env h)).congr
      (funext fun d => by rw [children_defersUnnested]; rfl)

end Run

/-! ### The frame of the recursive checker -/

/-- What a check of an expression does to the context.  A successful check keeps the current
scope, the flag `deferring` and the current function type, extends the scopes that existed
and appends to the current scope only the objects of the tree's bindings that lie outside a
`for` and a block, each after those of its own initializer.  Every check decides, from the
flag it starts with, whether a `defer` of the tree lies inside the deferred expression of
another, and a `defer` checked with the flag set is rejected for nesting. -/
theorem checkExpression_contextFrame (env : Env) (e : AstExpression) (hint : Option TypeRef) :
    Keeps (Appended e.boundNames) (checkExpression env e hint) ∧
      (∀ d, Yields (fun c => c.deferring = d) (checkExpression env e hint) (fun _ => e.defersUnnested d = true)
        fun err => err.isDeferNesting = true → e.defersUnnested d = false) ∧
      ∀ (loc : Location) (deferred : AstExpression) (ctx : Context), ctx.deferring = true →
        (checkExpression env (.defer loc deferred) hint).run ctx =
          .error (.expect loc "Cannot defer within another defer expression.") :=
  ⟨checkExpression_appended env e hint, checkExpression_unnests env e hint, fun loc deferred ctx h => by
    simp [checkExpression, checkExprDefer, expect, h]; rfl⟩

open Reference

/-- `let a: int = 1, b: int = 2`. -/
def letTwo : AstExpression :=
  .binding here [⟨"a", some (builtinType .int), ⟨false⟩, const .int (.ival 1), false⟩,
    ⟨"b", some (builtinType .int), ⟨false⟩, const .int (.ival 2), false⟩]

/-- `defer defer 1`. -/
def nestedDefer : AstExpression := .defer here (.defer here (const .int (.ival 1)))

/-- A `let` of two bindings, checked in a subunit's scope, appends `a` then `b` to that scope
and keeps the frame; the inner `defer` of `defer defer 1`, checked with the flag set, is
rejected for nesting, and so is the whole expression, checked with the flag clear. -/
theorem checkExpression_contextFrame_letAndNestedDefer :
    (∃ x c', (checkExpression env letTwo none).run (scanningContext []) = .ok (x, c') ∧
        Appended [⟨"a", none⟩, ⟨"b", none⟩] (scanningContext []) c' ∧
        ((c'.scopeAt 1).objects.map ScopeObject.name) = [⟨"a", none⟩, ⟨"b", none⟩]) ∧
      nestedDefer.defersUnnested false = false ∧
      abortOf ((checkExpression env nestedDefer none).run initialContext) =
        some (.expect here "Cannot defer within another defer expression.") ∧
      (checkExpression env (.defer here (const .int (.ival 1))) none).run { initialContext with deferring := true } =
        .error (.expect here "Cannot defer within another defer expression.") := by
  obtain ⟨x, c', h⟩ : ∃ x c', (checkExpression env letTwo none).run (scanningContext []) = .ok (x, c') :=
    exists_run_ok_of_isOk (by decide)
  have ha : Appended letTwo.boundNames (scanningContext []) c' :=
    (checkExpression_contextFrame env letTwo none).1 _ _ _ h
  exact ⟨⟨x, c', h, ha, ha.names 1 rfl (by decide)⟩, rfl, by decide,
    (checkExpression_contextFrame env nestedDefer none).2.2 here _ _ rfl⟩

end Harec
