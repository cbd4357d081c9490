import Harec.Frame
import Harec.Yields

/-!
# The objects a check inserts

`check_expr_binding` inserts the object of each binding into the current scope once it has
checked the binding's initializer; `check_expr_for` and `check_expr_list` check their
children in a scope of their own, which they pop again; every other check runs its children
in the current scope (§4.1, §4.4).  So a check of a tree inserts into the current scope the
objects of the bindings of the tree that are not under a `for` or a list, in the order the
checker meets them: `AstExpression.boundNames`.

`Appended names ctx ctx'` says that a check went from `ctx` to `ctx'` keeping `Frame`, and
appended to the current scope objects named `names`, in order.  `checkExpression_appended`
proves it of every successful check.  A check that only runs its children and tests
(`ChecksChildren`) appends what its children append, each after the children before it; the
checks that insert, defer or open a scope are proved one by one.
-/

namespace Harec

mutual

/-- The names of the objects a check of a tree inserts into the current scope, in order:
each binding after the bindings of its own initializer, and nothing under a `for` or a list.
Only the children the checker checks are visited. -/
def AstExpression.boundNames : AstExpression → List Identifier
  | .accessIdentifier .. => []
  | .accessIndex _ array index => array.boundNames ++ index.boundNames
  | .accessField _ object _ => object.boundNames
  | .assert _ cond message => AstExpression.optBoundNames cond ++ AstExpression.optBoundNames message
  | .assign _ _ _ object value => object.boundNames ++ value.boundNames
  | .binarithm _ _ lvalue rvalue => lvalue.boundNames ++ rvalue.boundNames
  | .binding _ bindings => AstExpression.bindingsBoundNames bindings
  | .control .. => []
  | .call _ lvalue args => lvalue.boundNames ++ AstExpression.argsBoundNames args
  | .cast _ _ value _ => value.boundNames
  | .constant _ storage _ array => if storage = .array then AstExpression.itemsBoundNames array else []
  | .defer _ deferred => deferred.boundNames
  | .for .. => []
  | .if _ cond trueBranch falseBranch =>
      cond.boundNames ++ trueBranch.boundNames ++ AstExpression.optBoundNames falseBranch
  | .list .. => []
  | .match _ => []
  | .measure _ op value _ => if op = .len then AstExpression.optBoundNames value else []
  | .return _ value => AstExpression.optBoundNames value
  | .slice _ object start «end» =>
      object.boundNames ++ AstExpression.optBoundNames start ++ AstExpression.optBoundNames «end»
  | .struct _ _ _ fields => AstExpression.fieldsBoundNames fields
  | .switch _ value cases => value.boundNames ++ AstExpression.casesBoundNames cases
  | .unarithm _ _ operand => operand.boundNames

/-- `boundNames` of an optional child. -/
def AstExpression.optBoundNames : Option AstExpression → List Identifier
  | none => []
  | some e => e.boundNames

/-- `boundNames` of the expressions of a list, in order. -/
def AstExpression.listBoundNames : List AstExpression → List Identifier
  | [] => []
  | e :: es => e.boundNames ++ AstExpression.listBoundNames es

/-- The bindings of a `let`: each binding's name after the names of its initializer. -/
def AstExpression.bindingsBoundNames : List (AstBinding AstExpression) → List Identifier
  | [] => []
  | b :: bs => b.initializer.boundNames ++ ⟨b.name, none⟩ :: AstExpression.bindingsBoundNames bs

/-- `boundNames` of the values of call arguments. -/
def AstExpression.argsBoundNames : List (AstCallArgument AstExpression) → List Identifier
  | [] => []
  | a :: as => a.value.boundNames ++ AstExpression.argsBoundNames as

/-- `boundNames` of the items of an array literal. -/
def AstExpression.itemsBoundNames : List (AstArrayConstant AstExpression) → List Identifier
  | [] => []
  | i :: is => i.value.boundNames ++ AstExpression.itemsBoundNames is

/-- `boundNames` of the values of a struct literal's fields. -/
def AstExpression.fieldsBoundNames : List (AstFieldValue AstExpression) → List Identifier
  | [] => []
  | f :: fs => f.initializer.boundNames ++ AstExpression.fieldsBoundNames fs

/-- `boundNames` of the options and bodies of switch cases. -/
def AstExpression.casesBoundNames : List (AstSwitchCase AstExpression) → List Identifier
  | [] => []
  | c :: cs => AstExpression.listBoundNames c.options ++ c.value.boundNames ++
      AstExpression.casesBoundNames cs

end

/-- A check went from `ctx` to `ctx'` keeping `Frame`, and appended to the current scope
objects named `names`, in order. -/
structure Appended (names : List Identifier) (ctx ctx' : Context) : Prop where
  frame : Frame ctx ctx'
  names : ∀ r, ctx.scope = some r → r < ctx.scopes.length →
    ((ctx'.scopeAt r).objects.drop (ctx.scopeAt r).objects.length).map ScopeObject.name = names

namespace Appended

theorem refl (ctx : Context) : Appended [] ctx ctx := ⟨Frame.refl ctx, fun _ _ _ => by simp⟩

theorem congr {n n' : List Identifier} {ctx ctx' : Context} (h : Appended n ctx ctx') (hn : n = n') :
    Appended n' ctx ctx' :=
  hn ▸ h

theorem trans {n₁ n₂ : List Identifier} {c₁ c₂ c₃ : Context} (h₁ : Appended n₁ c₁ c₂)
    (h₂ : Appended n₂ c₂ c₃) : Appended (n₁ ++ n₂) c₁ c₃ where
  frame := h₁.frame.trans h₂.frame
  names r hs hr := by
    have hs₂ : c₂.scope = some r := h₁.frame.scope.trans hs
    have hr₂ : r < c₂.scopes.length := Nat.lt_of_lt_of_le hr h₁.frame.length_le
    obtain ⟨t₁, ht₁⟩ := (h₁.frame.extends_ r hr).objects
    obtain ⟨t₂, ht₂⟩ := (h₂.frame.extends_ r hr₂).objects
    rw [← h₁.names r hs hr, ← h₂.names r hs₂ hr₂, ← ht₂, ← ht₁]
    simp

/-- The step of a binding that is not static: its object inserted into the current scope. -/
theorem insert {ctx : Context} {r : ScopeRef} {obj : ScopeObject} (hr : ctx.scope = some r)
    (hd : obj.otype ≠ .decl) : Appended [obj.name] ctx (ctx.insert r obj).2 where
  frame := Frame.insert hr hd
  names r' hr' hlt := by
    rw [hr, Option.some.injEq] at hr'
    subst hr'
    simp [ctx.scopeAt_insert_self obj hlt]

/-- The step of a static binding: the counter bumped, and its object inserted into the
current scope. -/
theorem insertStatic {ctx : Context} {r : ScopeRef} {name : Identifier} {type : TypeRef}
    (hr : ctx.scope = some r) :
    Appended [name] ctx (({ ctx with id := ctx.id + 1 } : Context).insert r
      ⟨.decl, staticIdent ctx.id, name, type, none⟩).2 where
  frame := Frame.insertStatic hr
  names r' hr' hlt := by
    rw [hr, Option.some.injEq] at hr'
    subst hr'
    have hat : ∀ x, ({ ctx with id := ctx.id + 1 } : Context).scopeAt x = ctx.scopeAt x := fun _ => rfl
    simp [Context.scopeAt_insert_self ({ ctx with id := ctx.id + 1 } : Context) _ hlt, hat]

/-- Popping a scope that was pushed onto `ctx` appends nothing to the scopes of `ctx`. -/
theorem popped {ctx ctx' : Context} {type : ExprType} {label : Option String}
    (h : Frame (ctx.push.2.setKind ctx.scopes.length type label) ctx') :
    Appended [] ctx { ctx' with scope := (ctx'.scopeAt ctx.scopes.length).parent } where
  frame := Frame.popped h
  names r _ hr := by
    have hold : (ctx.push.2.setKind ctx.scopes.length type label).scopeAt r = ctx.scopeAt r := by
      rw [Context.scopeAt_setKind_of_ne _ _ _ (Nat.ne_of_gt hr), Context.scopeAt_push_of_lt _ hr]
    have hobj := h.objects r (by simpa using Nat.lt_succ_of_lt hr) (by simpa using Nat.ne_of_lt hr)
    rw [hold] at hobj
    show ((ctx'.scopeAt r).objects.drop _).map _ = []
    simp [hobj]

end Appended

namespace Keeps

variable {α β γ : Type} {m : CheckM α} {N : List Identifier}

/-- A check that appends `N`, run after checks that appended `G`. -/
theorem triple (h : Keeps (Appended N) m) {G : List Identifier} {c₀ : Context} :
    Triple (Appended G c₀) m fun _ => Appended (G ++ N) c₀ :=
  fun _ _ _ hc hrun => hc.trans (h _ _ _ hrun)

theorem of_triple (h : ∀ c₀, Triple (Appended [] c₀) m fun _ => Appended N c₀) : Keeps (Appended N) m :=
  fun c _ _ hrun => h c c _ _ (Appended.refl c) hrun

theorem names_congr {N' : List Identifier} (h : Keeps (Appended N) m) (hN : N = N') : Keeps (Appended N') m :=
  hN ▸ h

/-- A `mapM` appends the names of its runs, in order. -/
theorem mapM_appended {f : γ → CheckM β} {g : γ → List Identifier} :
    ∀ {l : List γ}, (∀ x ∈ l, Keeps (Appended (g x)) (f x)) →
      Keeps (Appended (l.flatMap g)) (l.mapM f)
  | [], _ => by rw [List.mapM_nil]; exact of_triple fun _ => Triple.pure_same
  | x :: l, h => by
    rw [List.mapM_cons]
    exact of_triple fun _ => Triple.bind (h x (.head _)).triple fun _ =>
      Triple.bind (mapM_appended fun y hy => h y (.tail _ hy)).triple fun _ =>
        Triple.pure fun _ hc => hc.congr (by simp)

end Keeps

/-- A child whose check, whatever the hint, appends the names its tree binds. -/
@[reducible] def Child.Appends (c : Child) : Prop :=
  ∀ hint, Harec.Keeps (Appended c.ast.boundNames) (c.check hint)

theorem Child.Appends.frame {c : Child} (h : c.Appends) : c.Keeps Frame :=
  fun hint => fun _ _ _ hrun => (h hint _ _ _ hrun).frame

/-! ### The checks that run their children in the current scope -/

section Kinds

variable (env : Env)

/-- Checks of children that each append the names their trees bind, one after another, append
all those names in order. -/
theorem ChildRuns.appended {kids : List Child} {c c' : Context} {es : List Expression}
    (h : ChildRuns kids c es c') (hk : ∀ k ∈ kids, k.Appends) :
    Appended (kids.flatMap (·.ast.boundNames)) c c' := by
  induction h with
  | nil c => exact Appended.refl c
  | cons hint h _ ih => exact (hk _ (.head _) hint _ _ _ h).trans (ih fun k hk' => hk k (.tail _ hk'))

theorem Keeps.appended_of_checksChildren {α : Type} {kids : List Child} {B : List Expression → α → Prop}
    {m : CheckM α} (h : ChecksChildren kids B m) (hk : ∀ k ∈ kids, k.Appends) :
    Keeps (Appended (kids.flatMap (·.ast.boundNames))) m :=
  fun c a c' hrun => let ⟨_, hr, _⟩ := h.ok c a c' hrun; hr.appended hk

theorem Keeps.appended_of_guard {α : Type} {m : CheckM α} (h : Guard m) : Keeps (Appended []) m :=
  fun c a c' hrun => h.same c a c' hrun ▸ Appended.refl c

theorem checkExprControl_appends (loc : Location) (type : ControlType) (label : Option String) :
    Keeps (Appended []) (checkExprControl loc type label) :=
  fun c a c' hrun => checkExprControl_keeps (R := Eq) loc type label c a c' hrun ▸ Appended.refl c

theorem AstExpression.optBoundNames_eq (o : Option AstExpression) :
    AstExpression.optBoundNames o = o.toList.flatMap AstExpression.boundNames := by
  cases o <;> simp [AstExpression.optBoundNames]

theorem AstExpression.listBoundNames_eq (es : List AstExpression) :
    AstExpression.listBoundNames es = es.flatMap AstExpression.boundNames := by
  induction es <;> simp [AstExpression.listBoundNames, *]

theorem AstExpression.argsBoundNames_eq (as : List (AstCallArgument AstExpression)) :
    AstExpression.argsBoundNames as = (as.map (·.value)).flatMap AstExpression.boundNames := by
  induction as <;> simp [AstExpression.argsBoundNames, *]

theorem AstExpression.itemsBoundNames_eq (is : List (AstArrayConstant AstExpression)) :
    AstExpression.itemsBoundNames is = (is.map (·.value)).flatMap AstExpression.boundNames := by
  induction is <;> simp [AstExpression.itemsBoundNames, *]

theorem AstExpression.fieldsBoundNames_eq (fs : List (AstFieldValue AstExpression)) :
    AstExpression.fieldsBoundNames fs = (fs.map (·.initializer)).flatMap AstExpression.boundNames := by
  induction fs <;> simp [AstExpression.fieldsBoundNames, *]

theorem AstExpression.casesBoundNames_eq (cs : List (AstSwitchCase AstExpression)) :
    AstExpression.casesBoundNames cs =
      (cs.flatMap fun c => c.options ++ [c.value]).flatMap AstExpression.boundNames := by
  induction cs <;> simp [AstExpression.casesBoundNames, AstExpression.listBoundNames_eq, *]

/-- The names a node of a kind that only checks its children binds are those its children
bind, in order. -/
theorem AstExpression.boundNames_of_kids {e : AstExpression} {ks : List AstExpression} (h : e.kids = some ks) :
    e.boundNames = ks.flatMap AstExpression.boundNames := by
  cases e <;> cases h <;>
    simp [AstExpression.boundNames, AstExpression.optBoundNames_eq, AstExpression.argsBoundNames_eq,
      AstExpression.itemsBoundNames_eq, AstExpression.fieldsBoundNames_eq, AstExpression.casesBoundNames_eq]
  all_goals split <;> rfl

end Kinds

/-! ### The checks that insert, defer or open a scope -/

section Writes

variable (env : Env)

/-- A binding inserts its object once its initializer has inserted the objects of its own
bindings. -/
theorem checkBinding_appends (loc : Location) {b : AstBinding Child} (hi : b.initializer.Appends) :
    Keeps (Appended (b.initializer.ast.boundNames ++ [⟨b.name, none⟩])) (checkBinding env loc b) := by
  intro ctx e ctx' h
  obtain ⟨_, _, _, _, r, h₁, hr, rfl | rfl, -⟩ := checkBinding_run_ok env h
  · exact (hi _ _ _ _ h₁).trans (Appended.congr (Appended.insert hr (by simp)) rfl)
  · exact (hi _ _ _ _ h₁).trans (Appended.insertStatic hr)

theorem checkExprBinding_appends (loc : Location) {bindings : List (AstBinding Child)}
    (h : ∀ b ∈ bindings, b.initializer.Appends) :
    Keeps (Appended (bindings.flatMap fun b => b.initializer.ast.boundNames ++ [⟨b.name, none⟩]))
      (checkExprBinding env loc bindings) := by
  refine Keeps.of_triple fun c₀ => ?_
  dsimp only [checkExprBinding]
  split
  · exact Triple.throw_bind
  · exact Triple.bind Triple.pure_same fun _ =>
      Triple.bind (Keeps.mapM_appended fun b hb => checkBinding_appends env loc (h b hb)).triple fun _ =>
        Triple.pure fun _ h => h.congr (by simp)

/-- The deferred expression is checked in the current scope, with the flag set around it. -/
theorem checkExprDefer_appends (loc : Location) {deferred : Child} (hd : deferred.Appends) :
    Keeps (Appended deferred.ast.boundNames) (checkExprDefer env loc deferred) := by
  intro ctx e ctx' hrun
  refine ⟨checkExprDefer_frame env loc hd.frame _ _ _ hrun, fun r hs hr => ?_⟩
  obtain ⟨-, _, _, h₃, rfl⟩ := checkExprDefer_run_ok env hrun
  exact (hd _ _ _ _ h₃).names r hs hr

theorem checkExprList_appends {exprs : List Child} (h : ∀ c ∈ exprs, c.Appends) :
    Keeps (Appended []) (checkExprList exprs) :=
  checkExprList_keeps Appended.popped fun c hc => (h c hc).frame

theorem checkExprFor_appends (label : Option String) (labelLoc : Location) {bindings : Option Child}
    {cond : Child} {afterthought : Option Child} {body : Child} (hb : ∀ c ∈ bindings, c.Appends)
    (hc : cond.Appends) (ha : ∀ c ∈ afterthought, c.Appends) (hd : body.Appends) :
    Keeps (Appended []) (checkExprFor env label labelLoc bindings cond afterthought body) :=
  checkExprFor_keeps env Appended.popped label labelLoc (fun c h => (hb c h).frame) hc.frame
    (fun c h => (ha c h).frame) hd.frame

end Writes


/-! ### Every check -/

section Run

variable (env : Env)

theorem bindingChildren_boundNames (bs : List (AstBinding AstExpression)) :
    (bindingChildren env bs).flatMap (fun b => b.initializer.ast.boundNames ++ [⟨b.name, none⟩]) =
      AstExpression.bindingsBoundNames bs := by
  induction bs with
  | nil => rfl
  | cons b bs ih =>
    simp only [bindingChildren, List.flatMap_cons, ih, AstExpression.bindingsBoundNames, List.append_assoc,
      List.singleton_append]

/-- Every successful check of an expression keeps `Frame` and appends to the current scope
the objects of the tree's bindings, in the order of `AstExpression.boundNames`. -/
theorem checkExpression_appended : ∀ (e : AstExpression) (hint : Option TypeRef),
    Keeps (Appended e.boundNames) (checkExpression env e hint) := by
  intro e
  induction e using AstExpression.kidsInduction with
  | kids e _ he h =>
    exact fun hint => (Keeps.appended_of_checksChildren (checkExpression_checksChildren env he hint)
      (List.forall_mem_map.mpr h)).names_congr (by rw [AstExpression.boundNames_of_kids he, List.flatMap_map]; rfl)
  | accessIdentifier loc ident => exact fun _ => Keeps.appended_of_guard (checkExprAccessIdentifier_guard env loc ident)
  | binding loc bindings h =>
    exact fun _ => (checkExprBinding_appends env loc (bindingChildren_forall env h)).names_congr
      (bindingChildren_boundNames env bindings)
  | control loc type label => exact fun _ => checkExprControl_appends loc type label
  | defer loc _ hd => exact fun _ => checkExprDefer_appends env loc hd
  | «for» _ label labelLoc _ _ _ _ hb hc ha hd =>
    exact fun _ => checkExprFor_appends env label labelLoc (optChild_forall env hb) hc (optChild_forall env ha) hd
  | list _ _ h => exact fun _ => checkExprList_appends (children_forall env h)

end Run

end Harec
