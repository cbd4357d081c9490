import Harec.Loops
import Harec.Decides

/-!
# Loop labels

What `check_expr_for` and `check_expr_control` accept, over a whole syntax tree (§4.1,
§4.4): `AstExpression.labelsResolve ls e` says that, under enclosing loops labelled `ls`
(innermost first, `none` for a loop without label), every labelled loop of `e` has a label
that no loop around it has, and every `break` and `continue` of `e` lies in a loop that is
its target.  Only the children the checker checks are visited.

`checkExpression_resolves` proves that a check run in a context whose loops are `L` decides
exactly that: when it succeeds it keeps the loops `L` and the labels of the tree resolve under
the labels of `L`; when it aborts with a diagnostic of one of the two label tests they do not.
The kinds whose checks test types only are covered by the lemmas of `Decides`; the lemmas
below are for the loop, the block, `break` and `continue`, and `defer`.
-/

namespace Harec

/-- The diagnostics of the two label tests: a loop label that is not unique, and a `break`
or `continue` without target. -/
def Abort.isLabel : Abort → Bool
  | .expect _ message => message == "for loop label must be unique among its ancestors" ||
      "Unknown label ".data.isPrefixOf message.data
  | _ => false

/-- An abort blames the labels of a tree whose labels resolve by `R` when it is a label
diagnostic only if they do not. -/
def Abort.blames (e : Abort) (R : Bool) : Prop := e.isLabel = true → R = false

theorem Abort.blames_of_not {e : Abort} {R : Bool} (h : e.isLabel = false) : e.blames R :=
  fun h' => absurd (h.symm.trans h') Bool.false_ne_true

theorem Abort.blames_nullDeref {R : Bool} : Abort.nullDeref.blames R := Abort.blames_of_not rfl

theorem Abort.blames_assertion {R : Bool} : Abort.assertion.blames R := Abort.blames_of_not rfl

theorem Abort.isPlacement_of_isLabel : ∀ e : Abort, e.isLabel = true → e.isPlacement = true
  | .expect _ message, h => by
    simp only [Abort.isLabel, Abort.isPlacement] at h ⊢
    simp only [h, Bool.true_or]
  | .assertion, h => absurd h Bool.false_ne_true
  | .nullDeref, h => absurd h Bool.false_ne_true

mutual

/-- Whether the loop labels of a tree resolve under enclosing loops labelled `ls`: every
labelled loop has a label fresh among `ls`, its children are under its own label in
front, and every `break` and `continue` has a target in `ls`. -/
def AstExpression.labelsResolve : AstExpression → List (Option String) → Bool
  | .accessIdentifier .., _ => true
  | .accessIndex _ array index, ls => array.labelsResolve ls && index.labelsResolve ls
  | .accessField _ object _, ls => object.labelsResolve ls
  | .assert _ cond message, ls =>
      AstExpression.optLabelsResolve cond ls && AstExpression.optLabelsResolve message ls
  | .assign _ _ _ object value, ls => object.labelsResolve ls && value.labelsResolve ls
  | .binarithm _ _ lvalue rvalue, ls => lvalue.labelsResolve ls && rvalue.labelsResolve ls
  | .binding _ bindings, ls => AstExpression.bindingsLabelsResolve bindings ls
  | .control _ _ label, ls => ls.any (targets label)
  | .call _ lvalue args, ls => lvalue.labelsResolve ls && AstExpression.argsLabelsResolve args ls
  | .cast _ _ value _, ls => value.labelsResolve ls
  | .constant _ storage _ array, ls =>
      storage != .array || AstExpression.itemsLabelsResolve array ls
  | .defer _ deferred, ls => deferred.labelsResolve ls
  | .for _ label _ bindings cond afterthought body, ls =>
      freshLabel label ls && AstExpression.optLabelsResolve bindings (label :: ls) &&
        cond.labelsResolve (label :: ls) && AstExpression.optLabelsResolve afterthought (label :: ls) &&
        body.labelsResolve (label :: ls)
  | .if _ cond trueBranch falseBranch, ls =>
      cond.labelsResolve ls && trueBranch.labelsResolve ls &&
        AstExpression.optLabelsResolve falseBranch ls
  | .list _ exprs, ls => AstExpression.listLabelsResolve exprs ls
  | .match _, _ => true
  | .measure _ op value _, ls => op != .len || AstExpression.optLabelsResolve value ls
  | .return _ value, ls => AstExpression.optLabelsResolve value ls
  | .slice _ object start «end», ls =>
      object.labelsResolve ls && AstExpression.optLabelsResolve start ls &&
        AstExpression.optLabelsResolve «end» ls
  | .struct _ _ _ fields, ls => AstExpression.fieldsLabelsResolve fields ls
  | .switch _ value cases, ls => value.labelsResolve ls && AstExpression.casesLabelsResolve cases ls
  | .unarithm _ _ operand, ls => operand.labelsResolve ls

/-- `labelsResolve` on an optional child. -/
def AstExpression.optLabelsResolve : Option AstExpression → List (Option String) → Bool
  | none, _ => true
  | some e, ls => e.labelsResolve ls

/-- `labelsResolve` on every expression of a list. -/
def AstExpression.listLabelsResolve : List AstExpression → List (Option String) → Bool
  | [], _ => true
  | e :: es, ls => e.labelsResolve ls && AstExpression.listLabelsResolve es ls

/-- `labelsResolve` on the initializers of bindings. -/
def AstExpression.bindingsLabelsResolve : List (AstBinding AstExpression) → List (Option String) → Bool
  | [], _ => true
  | b :: bs, ls => b.initializer.labelsResolve ls && AstExpression.bindingsLabelsResolve bs ls

/-- `labelsResolve` on the values of call arguments. -/
def AstExpression.argsLabelsResolve : List (AstCallArgument AstExpression) → List (Option String) → Bool
  | [], _ => true
  | a :: as, ls => a.value.labelsResolve ls && AstExpression.argsLabelsResolve as ls

/-- `labelsResolve` on the items of an array literal. -/
def AstExpression.itemsLabelsResolve : List (AstArrayConstant AstExpression) → List (Option String) → Bool
  | [], _ => true
  | i :: is, ls => i.value.labelsResolve ls && AstExpression.itemsLabelsResolve is ls

/-- `labelsResolve` on the values of a struct literal's fields. -/
def AstExpression.fieldsLabelsResolve : List (AstFieldValue AstExpression) → List (Option String) → Bool
  | [], _ => true
  | f :: fs, ls => f.initializer.labelsResolve ls && AstExpression.fieldsLabelsResolve fs ls

/-- `labelsResolve` on the options and bodies of switch cases. -/
def AstExpression.casesLabelsResolve : List (AstSwitchCase AstExpression) → List (Option String) → Bool
  | [], _ => true
  | c :: cs, ls => AstExpression.listLabelsResolve c.options ls && c.value.labelsResolve ls &&
      AstExpression.casesLabelsResolve cs ls

end

/-- A check decides whether the labels resolve by `R`: from a context with loops `L`, a
successful run keeps the loops and the labels resolve under those of `L`, and a run that
aborts on a label test aborts where they do not. -/
def Resolving {α : Type} (m : CheckM α) (R : List (Option String) → Bool) : Prop :=
  ∀ L : List (ScopeRef × Option String),
    Yields (InLoops L) m (fun _ => R (L.map Prod.snd) = true) fun e => e.blames (R (L.map Prod.snd))

/-- A child whose check, whatever the hint, decides whether its tree's labels resolve. -/
abbrev Child.Resolves (c : Child) : Prop :=
  c.Decides InLoops Abort.isLabel fun e L => e.labelsResolve (L.map Prod.snd)

theorem Resolving.congr {α : Type} {m : CheckM α} {R R' : List (Option String) → Bool}
    (h : Resolving m R) (hR : R = R') : Resolving m R' :=
  hR ▸ h

/-- A child's check inside the check of a node whose labels resolve by `R` only if the
child's do. -/
theorem Child.Resolves.within {c : Child} (hc : c.Resolves) (hint : Option TypeRef)
    (L : List (ScopeRef × Option String)) {R : Bool}
    (hR : R = true → c.ast.labelsResolve (L.map Prod.snd) = true) :
    Yields (InLoops L) (c.check hint) (fun _ => c.ast.labelsResolve (L.map Prod.snd) = true)
      fun e => e.blames R :=
  (hc hint L).mono (fun _ => id) fun _ he hl =>
    Bool.eq_false_iff.mpr fun h => Bool.false_ne_true ((he hl).symm.trans (hR h))

theorem InLoops.withId {L : List (ScopeRef × Option String)} {c : Context} (h : InLoops L c) (n : Nat) :
    InLoops L { c with id := n } :=
  h.of_scopes rfl rfl

theorem InLoops.enter_for {L : List (ScopeRef × Option String)} {ctx : Context} (h : InLoops L ctx)
    (label : Option String) : InLoops ((ctx.scopes.length, label) :: L) (ctx.enter .for label) :=
  ⟨h.wellScoped.enter fun _ => rfl, by rw [Context.loops_enter h.wellScoped _ _ fun _ => rfl, h.loops]; rfl⟩

theorem InLoops.enter_list {L : List (ScopeRef × Option String)} {ctx : Context} (h : InLoops L ctx) :
    InLoops L (ctx.enter .list none) :=
  ⟨h.wellScoped.enter fun h' => absurd rfl h', by
    rw [Context.loops_enter h.wellScoped _ _ fun h' => absurd rfl h', h.loops]; rfl⟩

section Kinds

variable (env : Env)

theorem checkExprDefer_resolves (loc : Location) {deferred : Child} (hd : deferred.Resolves) :
    Resolving (checkExprDefer env loc deferred) fun ls => deferred.ast.labelsResolve ls := by
  intro L
  exact Yields.bind Yields.get fun _ _ => Yields.bind (Yields.expect (Abort.blames_of_not rfl)) fun _ _ =>
    Yields.bind (Yields.modify fun _ h => h.of_scopes rfl rfl) fun _ _ => Yields.bind (hd.within _ _ id) fun _ hd' =>
      Yields.bind (Yields.modify fun _ h => h.of_scopes rfl rfl) fun _ _ => Yields.pure hd'

theorem any_map_snd {β : Type} (L : List (ScopeRef × β)) (p : β → Bool) :
    (L.map Prod.snd).any p = L.any fun x => p x.2 := by
  induction L with
  | nil => rfl
  | cons x L ih => simp only [List.map_cons, List.any_cons, ih]

/-- A `break` or `continue` is accepted exactly when an enclosing loop is its target. -/
theorem checkExprControl_resolves (loc : Location) (type : ControlType) (label : Option String) :
    Resolving (checkExprControl loc type label) fun ls => ls.any (targets label) := by
  intro L
  simp only [any_map_snd]
  refine ⟨fun ctx a ctx' hL hrun => ?_, fun ctx e hL hrun => ?_⟩ <;>
    rw [checkExprControl_run hL] at hrun <;> split at hrun
  · cases hrun; exact ⟨hL, ‹_›⟩
  · cases hrun
  · cases hrun
  · cases hrun; exact fun _ => Bool.eq_false_iff.mpr ‹_›

/-- The elements of a block are checked in the block's scope, which is no loop. -/
theorem checkExprList_resolves {exprs : List Child} (h : ∀ c ∈ exprs, c.Resolves)
    (hf : ∀ c ∈ exprs, c.Keeps Frame) :
    Resolving (checkExprList exprs) fun ls => exprs.all (·.ast.labelsResolve ls) := by
  intro L
  refine inScope_yields (fun _ hL => hL.enter_list) (fun ctx _ => ?_) Abort.blames_nullDeref
  refine Yields.bind (Yields.mapM_all fun c hc =>
    ((h c hc).within none L fun hr => List.all_eq_true.mp hr c hc).frame (hf c hc none) _) fun _ hes => ?_
  exact Yields.bind (Yields.deref Abort.blames_nullDeref) fun _ _ => Yields.pure (List.all_eq_true.mpr hes)

/-- The children of a loop are checked in the loop's scope, under its label: the label test
passes when the label is fresh, and the children resolve under the loop's label. -/
theorem checkExprFor_resolves (label : Option String) (labelLoc : Location)
    {bindings afterthought : Option Child} {cond body : Child} (hb : ∀ c ∈ bindings, c.Resolves)
    (hc : cond.Resolves) (ha : ∀ c ∈ afterthought, c.Resolves) (hd : body.Resolves)
    (fb : ∀ c ∈ bindings, c.Keeps Frame) (fc : cond.Keeps Frame) (fa : ∀ c ∈ afterthought, c.Keeps Frame)
    (fd : body.Keeps Frame) :
    Resolving (checkExprFor env label labelLoc bindings cond afterthought body) fun ls =>
      freshLabel label ls && bindings.all (·.ast.labelsResolve (label :: ls)) &&
        cond.ast.labelsResolve (label :: ls) && afterthought.all (·.ast.labelsResolve (label :: ls)) &&
        body.ast.labelsResolve (label :: ls) := by
  intro L
  refine inScope_yields (fun _ hL => hL.enter_for label) (fun ctx hL => ?_) Abort.blames_nullDeref
  refine Yields.bind ((checkForLabel_yields hL labelLoc label).mono (fun _ => id)
    fun _ hfresh _ => by simp only [hfresh, Bool.false_and]) fun _ hfresh => ?_
  refine Yields.bind ((checkOpt_decides hb none _ fun hr => by
    simp only [Bool.and_eq_true] at hr; exact hr.1.1.1.2).frame (checkOpt_keeps fb none) _) fun _ hbind => ?_
  refine Yields.bind ((hc.within _ _ fun hr => by
    simp only [Bool.and_eq_true] at hr; exact hr.1.1.2).frame (fc _) _) fun _ hcond => ?_
  refine Yields.bind (Yields.resultOf Abort.blames_nullDeref) fun _ _ =>
    Yields.bind (Yields.expect (Abort.blames_of_not (by with_unfolding_all rfl))) fun _ _ => ?_
  refine Yields.bind ((checkOpt_decides ha none _ fun hr => by
    simp only [Bool.and_eq_true] at hr; exact hr.1.2).frame (checkOpt_keeps fa none) _) fun _ hafter => ?_
  refine Yields.bind ((hd.within _ _ fun hr => by
    simp only [Bool.and_eq_true] at hr; exact hr.2).frame (fd _) _) fun _ hbody => ?_
  exact Yields.pure (by simp only [Bool.and_eq_true]; exact ⟨⟨⟨⟨hfresh, hbind⟩, hcond⟩, hafter⟩, hbody⟩)

end Kinds


/-! ## The whole tree -/

section Tree

variable (env : Env) (ls : List (Option String))

theorem optChild_all (o : Option AstExpression) :
    (optChild env o).all (·.ast.labelsResolve ls) = AstExpression.optLabelsResolve o ls := by
  cases o <;> rfl

theorem children_all :
    ∀ es : List AstExpression, (children env es).all (·.ast.labelsResolve ls) = AstExpression.listLabelsResolve es ls
  | [] => rfl
  | e :: es => by rw [children, List.all_cons, children_all es]; rfl

theorem bindingChildren_all : ∀ bs : List (AstBinding AstExpression),
    (bindingChildren env bs).all (·.initializer.ast.labelsResolve ls) = AstExpression.bindingsLabelsResolve bs ls
  | [] => rfl
  | b :: bs => by rw [bindingChildren, List.all_cons, bindingChildren_all bs]; rfl

theorem AstExpression.optLabelsResolve_eq (o : Option AstExpression) :
    AstExpression.optLabelsResolve o ls = o.toList.all (·.labelsResolve ls) := by
  cases o <;> simp [AstExpression.optLabelsResolve]

theorem AstExpression.listLabelsResolve_eq (es : List AstExpression) :
    AstExpression.listLabelsResolve es ls = es.all (·.labelsResolve ls) := by
  induction es <;> simp [AstExpression.listLabelsResolve, *]

theorem AstExpression.argsLabelsResolve_eq (as : List (AstCallArgument AstExpression)) :
    AstExpression.argsLabelsResolve as ls = (as.map (·.value)).all (·.labelsResolve ls) := by
  induction as <;> simp [AstExpression.argsLabelsResolve, *]

theorem AstExpression.itemsLabelsResolve_eq (is : List (AstArrayConstant AstExpression)) :
    AstExpression.itemsLabelsResolve is ls = (is.map (·.value)).all (·.labelsResolve ls) := by
  induction is <;> simp [AstExpression.itemsLabelsResolve, *]

theorem AstExpression.fieldsLabelsResolve_eq (fs : List (AstFieldValue AstExpression)) :
    AstExpression.fieldsLabelsResolve fs ls = (fs.map (·.initializer)).all (·.labelsResolve ls) := by
  induction fs <;> simp [AstExpression.fieldsLabelsResolve, *]

theorem AstExpression.casesLabelsResolve_eq (cs : List (AstSwitchCase AstExpression)) :
    AstExpression.casesLabelsResolve cs ls =
      (cs.flatMap fun c => c.options ++ [c.value]).all (·.labelsResolve ls) := by
  induction cs <;> simp [AstExpression.casesLabelsResolve, AstExpression.listLabelsResolve_eq, Bool.and_assoc, *]

/-- The labels of a node of a kind that only checks its children resolve where those of its
children do. -/
theorem AstExpression.labelsResolve_of_kids {e : AstExpression} {ks : List AstExpression} (h : e.kids = some ks) :
    e.labelsResolve ls = ks.all (·.labelsResolve ls) := by
  cases e <;> cases h <;>
    simp [AstExpression.labelsResolve, AstExpression.optLabelsResolve_eq, AstExpression.argsLabelsResolve_eq,
      AstExpression.itemsLabelsResolve_eq, AstExpression.fieldsLabelsResolve_eq, AstExpression.casesLabelsResolve_eq,
      Bool.and_assoc]
  all_goals split <;> simp [*]

open Abort (isPlacement_of_isLabel)

/-- Every check of an expression decides whether the labels of its tree resolve. -/
theorem checkExpression_resolves : ∀ e : AstExpression, Child.Resolves ⟨e, checkExpression env e⟩ := by
  intro e
  induction e using AstExpression.kidsInduction with
  | kids e _ he h =>
    exact fun hint => (Decides.of_checksChildren isPlacement_of_isLabel (checkExpression_checksChildren env he hint)
      (List.forall_mem_map.mpr h)).congr
      (funext fun L => (all_map_childOf env _ _).trans (AstExpression.labelsResolve_of_kids _ he).symm)
  | accessIdentifier loc ident =>
    exact fun _ => Decides.of_guard isPlacement_of_isLabel (checkExprAccessIdentifier_guard env loc ident)
  | binding loc _ h =>
    exact fun _ => (checkExprBinding_decides env isPlacement_of_isLabel (fun _ _ r o h => h.insert r o)
      (fun _ _ n h => h.withId n) loc (bindingChildren_forall env h)).congr
      (funext fun L => by rw [bindingChildren_all]; rfl)
  | control loc type label => exact fun _ => checkExprControl_resolves loc type label
  | defer loc _ hd => exact fun _ => checkExprDefer_resolves env loc hd
  | «for» _ label labelLoc bindings cond afterthought body hb hc ha hd =>
    exact fun _ => (checkExprFor_resolves env label labelLoc (optChild_forall env hb) hc (optChild_forall env ha) hd
      (optChild_forall env fun e _ => checkExpression_frame env e) (checkExpression_frame env cond)
      (optChild_forall env fun e _ => checkExpression_frame env e) (checkExpression_frame env body)).congr
      (funext fun ls => by rw [optChild_all, optChild_all]; rfl)
  | list _ exprs h =>
    exact fun _ => (checkExprList_resolves (children_forall env h)
      (children_forall env fun e _ => checkExpression_frame env e)).congr
      (funext fun ls => by rw [children_all]; rfl)

end Tree

end Harec
