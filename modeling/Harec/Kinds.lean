import Harec.Monad
import Harec.Induction
import Harec.Tree

/-!
# What the check of each kind of expression does

Apart from identifiers, bindings, `break` and `continue`, `defer`, loops and blocks, every
kind of expression is checked the same way (§4.4): its `check_expr_*` function checks the
node's children in order, each with some hint, and between and after those checks only reads
the context and tests the types that came back.  So a successful check of such a node is a
run of its children's checks one after another (`ChildRuns`) that returns a tree built from
theirs (`Expression.BuiltFrom`), and a failed one aborted in a child's check after the
children before it succeeded (`ChildAborts`), or with a diagnostic that does not depend on
where the node lies in the tree (`Abort.isPlacement`).

`ChecksChildren kids B m` says both of a check `m` with children `kids`.  It is proved below
once for the check of each such kind, by one step per statement of its `check_expr_*`
function: a child's check (`ChecksChildren.child_bind`), a test or a read (`Guard`), or a
helper that itself checks children (`ChecksChildren.bind`).  These lemmas are the only
place where the `check_expr_*` functions of these kinds are unfolded; every invariant of
checks (the frame a check keeps, the bindings it appends, the flags it decides, the pointers
of the tree it returns) is proved once for all of them from `ChecksChildren`.
-/

namespace Harec

/-- The diagnostics whose verdict depends on where a node lies in the tree: the two label
tests and the test against nested defers. -/
def Abort.isPlacement : Abort → Bool
  | .expect _ message => message == "for loop label must be unique among its ancestors" ||
      "Unknown label ".data.isPrefixOf message.data ||
      message == "Cannot defer within another defer expression."
  | _ => false

/-! ## Runs of the children -/

/-- The successful checks of `kids`, one after another from `c` to `c'`, each with some hint,
returning `es`. -/
inductive ChildRuns : List Child → Context → List Expression → Context → Prop
  | nil (c : Context) : ChildRuns [] c [] c
  | cons {k : Child} {ks : List Child} {c c₁ c' : Context} {e : Expression} {es : List Expression}
      (hint : Option TypeRef) : (k.check hint).run c = .ok (e, c₁) → ChildRuns ks c₁ es c' →
      ChildRuns (k :: ks) c (e :: es) c'

/-- The checks of `kids`, one after another from `c`, until one aborts with `err`. -/
inductive ChildAborts : List Child → Context → Abort → Prop
  | here {k : Child} {ks : List Child} {c : Context} {err : Abort} (hint : Option TypeRef) :
      (k.check hint).run c = .error err → ChildAborts (k :: ks) c err
  | later {k : Child} {ks : List Child} {c c₁ : Context} {e : Expression} {err : Abort}
      (hint : Option TypeRef) : (k.check hint).run c = .ok (e, c₁) → ChildAborts ks c₁ err →
      ChildAborts (k :: ks) c err

namespace ChildRuns

variable {ks₁ ks₂ : List Child} {c c₁ c' : Context} {es₁ es₂ : List Expression}

theorem append (h₁ : ChildRuns ks₁ c es₁ c₁) (h₂ : ChildRuns ks₂ c₁ es₂ c') :
    ChildRuns (ks₁ ++ ks₂) c (es₁ ++ es₂) c' := by
  induction h₁ with
  | nil => exact h₂
  | cons hint h _ ih => exact .cons hint h (ih h₂)

/-- Checks that abort after the checks of `ks₁` succeeded abort in those of `ks₁ ++ ks₂`. -/
theorem aborts {err : Abort} (h₁ : ChildRuns ks₁ c es₁ c₁) (h₂ : ChildAborts ks₂ c₁ err) :
    ChildAborts (ks₁ ++ ks₂) c err := by
  induction h₁ with
  | nil => exact h₂
  | cons hint h _ ih => exact .later hint h (ih h₂)

end ChildRuns

theorem ChildAborts.append {ks₁ : List Child} {c : Context} {err : Abort} (h : ChildAborts ks₁ c err)
    (ks₂ : List Child) : ChildAborts (ks₁ ++ ks₂) c err := by
  induction h with
  | here hint h => exact .here hint h
  | later hint h _ ih => exact .later hint h ih

/-! ## Trees built from the children's -/

/-- Whether a node holds a pointer into the scope arena: an identifier access, a binding, a
loop or a block. -/
def ExpressionNode.holdsPointer : ExpressionNode → Bool
  | .accessIdentifier _ | .binding _ | .for .. | .list .. => true
  | _ => false

/-- A test of the nodes of trees that every node without a pointer passes and that the
constant evaluator keeps. -/
structure NodeTest (env : Env) (p : Expression → Bool) : Prop where
  free : ∀ e, e.node.holdsPointer = false → p e = true
  eval : ∀ e v, env.eval e = some v → e.all p = true → v.all p = true

/-- `e` is built from the trees `es`: it passes every node test they all pass. -/
def Expression.BuiltFrom (env : Env) (es : List Expression) (e : Expression) : Prop :=
  ∀ p, NodeTest env p → (∀ x ∈ es, x.all p = true) → e.all p = true

namespace NodeTest

variable {env : Env} {p : Expression → Bool}

theorem all_mk (hp : NodeTest env p) {n : ExpressionNode} (hn : n.holdsPointer = false)
    (r : Option TypeRef) (t : Bool) : (Expression.mk r t n).all p = n.all p := by
  rw [Expression.all_mk, hp.free (.mk r t n) hn, Bool.true_and]

theorem all_lowerImplicitCast (hp : NodeTest env p) (t : TypeRef) (e : Expression) :
    (lowerImplicitCast t e).all p = e.all p := by
  unfold lowerImplicitCast
  split
  · rfl
  · rw [hp.all_mk (show ExpressionNode.holdsPointer (.cast .cast e none) = false from rfl)]
    rfl

end NodeTest

namespace Expression.BuiltFrom

variable {env : Env} {es es' : List Expression} {e : Expression}

theorem of_mem (h : e ∈ es) : e.BuiltFrom env es := fun _ _ hes => hes e h

theorem mono (h : e.BuiltFrom env es) (hs : ∀ x ∈ es, x ∈ es') : e.BuiltFrom env es' :=
  fun p hp hes => h p hp fun x hx => hes x (hs x hx)

theorem lowerImplicitCast (h : e.BuiltFrom env es) (t : TypeRef) :
    (Harec.lowerImplicitCast t e).BuiltFrom env es :=
  fun p hp hes => (hp.all_lowerImplicitCast t e).trans (h p hp hes)

theorem eval {v : Expression} (h : e.BuiltFrom env es) (hv : env.eval e = some v) : v.BuiltFrom env es :=
  fun p hp hes => hp.eval e v hv (h p hp hes)

/-- A node without a pointer is built from the trees its children are built from. -/
theorem node {n : ExpressionNode} {r : Option TypeRef} {t : Bool} (hn : n.holdsPointer = false)
    (h : ∀ p, NodeTest env p → (∀ x ∈ es, x.all p = true) → n.all p = true) :
    (Expression.mk r t n).BuiltFrom env es :=
  fun p hp hes => (hp.all_mk hn r t).trans (h p hp hes)

end Expression.BuiltFrom

/-! ## Checks that check their children and test -/

/-- A step that only reads the context and tests: it leaves the context as it was and aborts
only with a diagnostic that does not depend on where the node lies. -/
structure Guard {α : Type} (m : CheckM α) : Prop where
  same : ∀ c a c', m.run c = .ok (a, c') → c' = c
  error : ∀ c err, m.run c = .error err → err.isPlacement = false

namespace Guard

variable {α : Type}

theorem pure (a : α) : Guard (pure a : CheckM α) :=
  ⟨fun _ _ _ h => (run_pure_ok h).2, fun _ _ h => nomatch h⟩

theorem get : Guard (MonadState.get : CheckM Context) :=
  ⟨fun _ _ _ h => (by cases h; rfl), fun _ _ h => nomatch h⟩

theorem throw {err : Abort} (h : err.isPlacement = false) : Guard (throw err : CheckM α) :=
  ⟨fun _ _ _ h => (nomatch h), fun _ _ h' => (by cases h'; exact h)⟩

theorem expect {loc : Location} {message : String} {c : Bool}
    (h : (Abort.expect loc message).isPlacement = false) : Guard (Harec.expect loc c message) :=
  ⟨fun _ _ _ hrun => (expect_run_ok hrun).2, fun _ _ hrun => (expect_run_error hrun).2 ▸ h⟩

theorem assertC (c : Bool) : Guard (Harec.assertC c) := by
  refine ⟨fun _ _ _ h => (assertC_run_ok h).2, fun _ _ h => ?_⟩
  unfold Harec.assertC at h
  split at h <;> cases h
  rfl

theorem resultOf (e : Expression) : Guard (Harec.resultOf e) := by
  refine ⟨fun _ _ _ h => (resultOf_run_ok h).2, fun _ _ h => ?_⟩
  unfold Harec.resultOf at h
  split at h <;> cases h
  rfl

theorem deref (o : Option α) : Guard (Harec.deref o) := by
  refine ⟨fun _ _ _ h => (deref_run_ok h).2, fun _ _ h => ?_⟩
  cases o <;> cases h
  rfl

theorem bind {β : Type} {m : CheckM α} {f : α → CheckM β} (hm : Guard m) (hf : ∀ a, Guard (f a)) :
    Guard (m >>= f) where
  same c b c' hrun := by
    obtain ⟨a, c₁, h₁, h₂⟩ := run_bind_ok hrun
    exact ((hf a).same _ _ _ h₂).trans (hm.same _ _ _ h₁)
  error c err hrun := by
    rcases run_bind_error hrun with h₁ | ⟨a, c₁, h₁, h₂⟩
    · exact hm.error _ _ h₁
    · exact (hf a).error _ _ h₂

theorem ite {c : Prop} [Decidable c] {m₁ m₂ : CheckM α} (h₁ : c → Guard m₁) (h₂ : ¬c → Guard m₂) :
    Guard (if c then m₁ else m₂) := by
  split
  · exact h₁ ‹_›
  · exact h₂ ‹_›

end Guard

/-- A check that checks the children `kids` in order and otherwise only reads and tests: a
successful run is a run of the children's checks returning trees that `B` relates to the
result, and a failed run aborted in a child's check or with a diagnostic that does not depend
on the node's place. -/
structure ChecksChildren {α : Type} (kids : List Child) (B : List Expression → α → Prop)
    (m : CheckM α) : Prop where
  ok : ∀ c a c', m.run c = .ok (a, c') → ∃ es, ChildRuns kids c es c' ∧ B es a
  error : ∀ c err, m.run c = .error err → ChildAborts kids c err ∨ err.isPlacement = false

namespace ChecksChildren

variable {α β : Type} {ks ks₁ ks₂ : List Child} {B : List Expression → β → Prop}

theorem pure {b : β} (h : B [] b) : ChecksChildren [] B (pure b) :=
  ⟨fun _ _ _ hrun => (by obtain ⟨rfl, rfl⟩ := run_pure_ok hrun; exact ⟨[], .nil _, h⟩),
    fun _ _ hrun => nomatch hrun⟩

theorem throw {err : Abort} (h : err.isPlacement = false) : ChecksChildren ks B (throw err) :=
  ⟨fun _ _ _ hrun => (nomatch hrun), fun _ _ hrun => (by cases hrun; exact .inr h)⟩

theorem throw_bind {err : Abort} {f : α → CheckM β} (h : err.isPlacement = false) :
    ChecksChildren ks B (MonadExcept.throw err >>= f) :=
  ⟨fun _ _ _ hrun => (by cases hrun), fun _ _ hrun => (by cases hrun; exact .inr h)⟩

/-- The check of one child, returning its tree. -/
theorem child (k : Child) (hint : Option TypeRef) : ChecksChildren [k] (fun es e => e ∈ es) (k.check hint) where
  ok _ e _ hrun := ⟨[e], .cons hint hrun (.nil _), .head _⟩
  error _ _ hrun := .inl (.here hint hrun)

theorem guard_bind {g : CheckM α} {f : α → CheckM β} (hg : Guard g) (hf : ∀ a, ChecksChildren ks B (f a)) :
    ChecksChildren ks B (g >>= f) where
  ok c b c' hrun := by
    obtain ⟨a, c₁, h₁, h₂⟩ := run_bind_ok hrun
    obtain rfl := hg.same _ _ _ h₁
    exact (hf a).ok _ _ _ h₂
  error c err hrun := by
    rcases run_bind_error hrun with h₁ | ⟨a, c₁, h₁, h₂⟩
    · exact .inr (hg.error _ _ h₁)
    · obtain rfl := hg.same _ _ _ h₁
      exact (hf a).error _ _ h₂

theorem child_bind (k : Child) (hint : Option TypeRef) {f : Expression → CheckM β}
    (hf : ∀ e, ChecksChildren ks (fun es b => B (e :: es) b) (f e)) :
    ChecksChildren (k :: ks) B (k.check hint >>= f) where
  ok c b c' hrun := by
    obtain ⟨e, c₁, h₁, h₂⟩ := run_bind_ok hrun
    obtain ⟨es, hes, hB⟩ := (hf e).ok _ _ _ h₂
    exact ⟨e :: es, .cons hint h₁ hes, hB⟩
  error c err hrun := by
    rcases run_bind_error hrun with h₁ | ⟨e, c₁, h₁, h₂⟩
    · exact .inl (.here hint h₁)
    · exact ((hf e).error _ _ h₂).imp_left (.later hint h₁)

theorem bind {Q : List Expression → α → Prop} {m : CheckM α} {f : α → CheckM β}
    (hm : ChecksChildren ks₁ Q m)
    (hf : ∀ es₁ a, Q es₁ a → ChecksChildren ks₂ (fun es₂ b => B (es₁ ++ es₂) b) (f a)) :
    ChecksChildren (ks₁ ++ ks₂) B (m >>= f) where
  ok c b c' hrun := by
    obtain ⟨a, c₁, h₁, h₂⟩ := run_bind_ok hrun
    obtain ⟨es₁, hr₁, hQ⟩ := hm.ok _ _ _ h₁
    obtain ⟨es₂, hr₂, hB⟩ := (hf es₁ a hQ).ok _ _ _ h₂
    exact ⟨es₁ ++ es₂, hr₁.append hr₂, hB⟩
  error c err hrun := by
    rcases run_bind_error hrun with h₁ | ⟨a, c₁, h₁, h₂⟩
    · exact (hm.error _ _ h₁).imp_left (·.append ks₂)
    · obtain ⟨es₁, hr₁, hQ⟩ := hm.ok _ _ _ h₁
      exact ((hf es₁ a hQ).error _ _ h₂).imp_left hr₁.aborts

/-- A helper that checks children, followed by tests only. -/
theorem bind_nil {Q : List Expression → α → Prop} {m : CheckM α} {f : α → CheckM β}
    (hm : ChecksChildren ks Q m) (hf : ∀ es a, Q es a → ChecksChildren [] (fun es₂ b => B (es ++ es₂) b) (f a)) :
    ChecksChildren ks B (m >>= f) :=
  (List.append_nil ks) ▸ hm.bind hf

/-- A helper that checks children, whose value the check returns. -/
theorem bind_pure {Q : List Expression → α → Prop} {m : CheckM α} {f : α → β} (hm : ChecksChildren ks Q m)
    (hf : ∀ es a, Q es a → B es (f a)) : ChecksChildren ks B (m >>= fun a => Pure.pure (f a)) :=
  hm.bind_nil fun es a hq => pure (by simpa using hf es a hq)

/-- An expectation, after which its condition holds. -/
theorem expect_bind {loc : Location} {message : String} {c : Bool} {f : PUnit → CheckM β}
    (h : (Abort.expect loc message).isPlacement = false) (hf : c = true → ChecksChildren ks B (f ())) :
    ChecksChildren ks B (Harec.expect loc c message >>= f) where
  ok _ _ _ hrun := by
    obtain ⟨_, _, h₁, h₂⟩ := run_bind_ok hrun
    obtain ⟨hc, rfl⟩ := expect_run_ok h₁
    exact (hf hc).ok _ _ _ h₂
  error _ _ hrun := by
    rcases run_bind_error hrun with h₁ | ⟨_, _, h₁, h₂⟩
    · exact .inr ((expect_run_error h₁).2 ▸ h)
    · obtain ⟨hc, rfl⟩ := expect_run_ok h₁
      exact (hf hc).error _ _ h₂

/-- A read through a pointer, after which the pointer is known not to be null. -/
theorem pure_bind {a : α} {f : α → CheckM β} (h : ChecksChildren ks B (f a)) :
    ChecksChildren ks B (Pure.pure a >>= f) := by
  rwa [LawfulMonad.pure_bind]

theorem deref_bind {o : Option α} {f : α → CheckM β} (hf : ∀ a, o = some a → ChecksChildren ks B (f a)) :
    ChecksChildren ks B (Harec.deref o >>= f) := by
  cases o with
  | none => exact ⟨fun _ _ _ hrun => (by cases hrun), fun _ _ hrun => (by cases hrun; exact .inr rfl)⟩
  | some a => exact hf a rfl

theorem mono {B' : List Expression → β → Prop} {m : CheckM β} (h : ChecksChildren ks B m)
    (hB : ∀ es b, B es b → B' es b) : ChecksChildren ks B' m :=
  ⟨fun c b c' hrun => let ⟨es, hr, hb⟩ := h.ok c b c' hrun; ⟨es, hr, hB es b hb⟩, h.error⟩

theorem of_kids {ks' : List Child} {m : CheckM β} (h : ChecksChildren ks B m) (hk : ks = ks') :
    ChecksChildren ks' B m :=
  hk ▸ h

theorem map {B : List Expression → β → Prop} {m : CheckM α} {f : α → β}
    (h : ChecksChildren ks (fun es a => B es (f a)) m) : ChecksChildren ks B (f <$> m) := by
  rw [map_eq_pure_bind]
  exact h.bind_pure fun _ _ => id

/-- The checks of the elements of a list, one after another, each checking its own children. -/
theorem mapM {γ δ : Type} {f : γ → CheckM δ} {k : γ → List Child} {Q : γ → List Expression → δ → Prop}
    (hQ : ∀ x es es' d, Q x es d → (∀ y ∈ es, y ∈ es') → Q x es' d) :
    ∀ {l : List γ}, (∀ x ∈ l, ChecksChildren (k x) (Q x) (f x)) →
      ChecksChildren (l.flatMap k) (fun es ds => ∀ d ∈ ds, ∃ x ∈ l, Q x es d) (l.mapM f)
  | [], _ => by rw [List.mapM_nil]; exact pure nofun
  | x :: l, h => by
    rw [List.mapM_cons, List.flatMap_cons]
    refine (h x (.head _)).bind fun es₁ d hd => (mapM hQ fun y hy => h y (.tail _ hy)).bind_pure fun es₂ ds hds => ?_
    rintro _ (_ | ⟨_, hd'⟩)
    · exact ⟨x, .head _, hQ _ _ _ _ hd fun _ => List.mem_append_left _⟩
    · obtain ⟨y, hy, hq⟩ := hds _ hd'
      exact ⟨y, .tail _ hy, hQ _ _ _ _ hq fun _ => List.mem_append_right _⟩

/-- A check that checks a prefix of `kids`, and all of them when it succeeds. -/
theorem of_initialKids {ks' : List Child} {m : CheckM β} (h : ChecksChildren ks (fun es b => ks = ks' ∧ B es b) m)
    (hp : ks <+: ks') : ChecksChildren ks' B m where
  ok c b c' hrun := by
    obtain ⟨es, hr, rfl, hb⟩ := h.ok c b c' hrun
    exact ⟨es, hr, hb⟩
  error c err hrun := by
    obtain ⟨t, rfl⟩ := hp
    exact (h.error c err hrun).imp_left (·.append t)

theorem of_guard {m : CheckM β} (h : Guard m) : ChecksChildren [] (fun _ _ => True) m :=
  ⟨fun _ _ _ hrun => ⟨[], by rw [h.same _ _ _ hrun]; exact .nil _, trivial⟩,
    fun _ _ hrun => .inr (h.error _ _ hrun)⟩

end ChecksChildren

/-! ## The kinds -/

/-- How many arguments the argument loop of `check_expr_call` checks: all that are left once it
lowers them into the variadic parameter, otherwise one for each parameter. -/
def argsChecked (variadism : Variadism) : List TypeRef → List (AstCallArgument Child) → Nat
  | _ :: params, aarg :: aargs =>
    if params.isEmpty && variadism = .hare && !aarg.variadic then aargs.length + 1
    else argsChecked variadism params aargs + 1
  | _, _ => 0

section Kinds

variable (env : Env)

theorem forall_mem_markExpand {P : Expression → Prop} {items : List (ArrayConstant Expression)} :
    (∀ i ∈ markExpand items, P i.value) ↔ ∀ i ∈ items, P i.value := by
  cases items <;> simp [markExpand]

/-- An identifier access reads the context only. -/
theorem checkExprAccessIdentifier_guard (loc : Location) (ident : Identifier) :
    Guard (checkExprAccessIdentifier env loc ident) := by
  refine .bind .get fun ctx => ?_
  split
  · split
    · exact .deref _
    · exact .pure _
    · exact .pure _
    · exact .throw rfl
  · exact .throw rfl

theorem checkExprAccessIndex_checksChildren (array index : Child) :
    ChecksChildren [array, index] (fun es e => e.BuiltFrom env es) (checkExprAccessIndex env array index) := by
  refine .child_bind array none fun a => .child_bind index none fun i => .guard_bind (.resultOf a) fun _ => ?_
  split
  · refine .guard_bind (.resultOf i) fun _ => .guard_bind (.expect rfl) fun _ =>
      .guard_bind (.expect rfl) fun _ => .guard_bind (.deref _) fun _ => .pure ?_
    exact .node rfl (fun p hp hes => by simp [ExpressionNode.all, hp.all_lowerImplicitCast, hes])
  · exact .throw rfl

theorem checkExprAccessField_checksChildren (object : Child) (name : String) :
    ChecksChildren [object] (fun es e => e.BuiltFrom env es) (checkExprAccessField env object name) := by
  refine .child_bind object none fun o => .guard_bind (.resultOf o) fun _ => ?_
  split
  · refine .guard_bind (.expect rfl) fun _ => ?_
    split
    · exact .pure (.node rfl (fun p _ hes => by simp [ExpressionNode.all, hes]))
    · exact .throw rfl
  · exact .throw rfl

theorem checkExprBinarithm_checksChildren (op : BinarithmOperator) (lvalue rvalue : Child) :
    ChecksChildren [lvalue, rvalue] (fun es e => e.BuiltFrom env es) (checkExprBinarithm env op lvalue rvalue) :=
  .child_bind lvalue none fun l => .child_bind rvalue none fun r => .guard_bind (.resultOf l) fun _ =>
    .guard_bind (.resultOf r) fun _ => .guard_bind (.assertC _) fun _ =>
      .pure (.node rfl (fun p _ hes => by simp [ExpressionNode.all, hes]))

theorem checkExprAssert_checksChildren (loc : Location) (cond message : Option Child) :
    ChecksChildren (cond.toList ++ message.toList) (fun es e => e.BuiltFrom env es)
      (checkExprAssert env loc cond message) := by
  have hc : ∀ {p} r v, NodeTest env p → p (.mk r false (.constant v [])) = true := fun _ _ hp => hp.free _ rfl
  cases cond <;> cases message
  · exact .pure_bind (.pure_bind (.pure (.node rfl fun p hp _ => by simp [ExpressionNode.all, hc _ _ hp])))
  · exact .pure_bind (.child_bind _ _ fun m => .guard_bind (.resultOf m) fun _ =>
      .guard_bind (.expect rfl) fun _ => .pure_bind (.pure (.node rfl fun p _ hes => by simp [ExpressionNode.all, hes])))
  · exact .child_bind _ _ fun c => .guard_bind (.resultOf c) fun _ => .guard_bind (.expect rfl) fun _ =>
      .pure_bind (.pure_bind (.pure (.node rfl fun p hp hes => by simp [ExpressionNode.all, hes, hc _ _ hp])))
  · exact .child_bind _ _ fun c => .guard_bind (.resultOf c) fun _ => .guard_bind (.expect rfl) fun _ =>
      .pure_bind (.child_bind _ _ fun m => .guard_bind (.resultOf m) fun _ =>
        .guard_bind (.expect rfl) fun _ => .pure_bind (.pure (.node rfl fun p _ hes => by simp [ExpressionNode.all, hes])))

theorem checkExprAssign_checksChildren (loc : Location) (op : Option BinarithmOperator) (indirect : Bool)
    (object value : Child) :
    ChecksChildren [object, value] (fun es e => e.BuiltFrom env es)
      (checkExprAssign env loc op indirect object value) := by
  refine .child_bind object none fun o => .child_bind value o.result fun v => ?_
  have hb : ∀ t, (Expression.mk (some env.builtinVoid) false (.assign op indirect o (lowerImplicitCast t v))).BuiltFrom
      env [o, v] := fun t => .node rfl fun p hp hes => by
    simp [ExpressionNode.all, hp.all_lowerImplicitCast, hes]
  split
  · exact .guard_bind (.resultOf o) fun _ => .guard_bind (.expect rfl) fun _ => .guard_bind (.expect rfl) fun _ =>
      .guard_bind (.resultOf v) fun _ => .guard_bind (.expect rfl) fun _ => .pure (hb _)
  · exact .guard_bind (.assertC _) fun _ => .guard_bind (.resultOf o) fun _ => .guard_bind (.expect rfl) fun _ =>
      .guard_bind (.resultOf v) fun _ => .guard_bind (.expect rfl) fun _ => .pure (hb _)

theorem checkExprCast_checksChildren (kind : CastKind) (value : Child) (type : AstType) :
    ChecksChildren [value] (fun es e => e.BuiltFrom env es) (checkExprCast env kind value type) := by
  refine .child_bind value _ fun v => .guard_bind (.resultOf v) fun _ => .guard_bind (.expect rfl) fun _ => ?_
  have hb : ∀ t, (Expression.mk (some t) false (.cast kind v (some (env.lookupAtype type)))).BuiltFrom env [v] :=
    fun _ => .node rfl fun p _ hes => by simp [ExpressionNode.all, hes]
  dsimp only
  split
  · exact .guard_bind (.resultOf v) fun _ => .guard_bind (.expect rfl) fun _ => .guard_bind (.expect rfl) fun _ =>
      .pure (hb _)
  · exact .guard_bind (.pure _) fun _ => .pure (hb _)

theorem checkExprUnarithm_checksChildren (op : UnarithmOperator) (operand : Child) :
    ChecksChildren [operand] (fun es e => e.BuiltFrom env es) (checkExprUnarithm env op operand) := by
  refine .child_bind operand none fun o => .guard_bind (.resultOf o) fun _ => ?_
  have hb : ∀ t, (Expression.mk (some t) false (.unarithm op o)).BuiltFrom env [o] := fun _ =>
    .node rfl fun p _ hes => by simp [ExpressionNode.all, hes]
  cases op <;> dsimp only
  · exact .guard_bind (.pure _) fun _ => .pure (hb _)
  · exact .guard_bind (.expect rfl) fun _ => .guard_bind (.expect rfl) fun _ => .guard_bind (.pure _) fun _ =>
      .pure (hb _)
  · exact .guard_bind (.expect rfl) fun _ => .guard_bind (.expect rfl) fun _ => .guard_bind (.pure _) fun _ =>
      .pure (hb _)
  · exact .guard_bind (.expect rfl) fun _ => .guard_bind (.pure _) fun _ => .pure (hb _)
  · exact .guard_bind (.expect rfl) fun _ => .guard_bind (.expect rfl) fun _ => .guard_bind (.pure _) fun _ =>
      .pure (hb _)
  · exact .guard_bind (.expect rfl) fun _ => .guard_bind (.expect rfl) fun _ => .guard_bind (.pure _) fun _ =>
      .pure (hb _)

theorem checkExprIf_checksChildren (cond trueBranch : Child) (falseBranch : Option Child) :
    ChecksChildren (cond :: trueBranch :: falseBranch.toList) (fun es e => e.BuiltFrom env es)
      (checkExprIf env cond trueBranch falseBranch) := by
  refine .child_bind cond _ fun c => .child_bind trueBranch none fun t => ?_
  cases falseBranch with
  | none =>
    exact .guard_bind (.resultOf c) fun _ => .guard_bind (.expect rfl) fun _ =>
      .pure (.node rfl fun p _ hes => by simp [ExpressionNode.all, hes])
  | some falseBranch =>
    refine .child_bind falseBranch none fun f => ?_
    have hb : ∀ r, (Expression.mk r false (.if c t (some f))).BuiltFrom env [c, t, f] := fun _ =>
      .node rfl fun p _ hes => by simp [ExpressionNode.all, hes]
    dsimp only
    repeat' split
    iterate 3 exact .pure_bind (.guard_bind (.resultOf c) fun _ => .guard_bind (.expect rfl) fun _ => .pure (hb _))
    exact .guard_bind (.assertC _) fun _ =>
      .pure_bind (.guard_bind (.resultOf c) fun _ => .guard_bind (.expect rfl) fun _ => .pure (hb _))

theorem checkExprMeasure_checksChildren (op : MeasureOperator) (value : Option Child) (type : Option AstType) :
    ChecksChildren (if op = .len then value.toList else []) (fun es e => e.BuiltFrom env es)
      (checkExprMeasure env op value type) := by
  cases op with
  | len =>
    refine .deref_bind fun v hv => ?_
    subst hv
    exact .child_bind v none fun v => .guard_bind (.resultOf v) fun _ => .guard_bind (.expect rfl) fun _ =>
      .guard_bind (.expect rfl) fun _ => .pure (.node rfl fun p _ hes => by simp [ExpressionNode.all, hes])
  | size => exact .guard_bind (.deref _) fun _ => .pure (.node rfl fun p _ _ => by simp [ExpressionNode.all])
  | offset => exact .throw rfl

theorem checkExprReturn_checksChildren (value : Option Child) :
    ChecksChildren value.toList (fun es e => e.BuiltFrom env es) (checkExprReturn env value) := by
  cases value with
  | none => exact .pure (.node rfl fun p _ _ => by simp [ExpressionNode.all])
  | some value =>
    refine .guard_bind .get fun _ => .guard_bind (.deref _) fun _ => .child_bind value _ fun r =>
      .guard_bind (.resultOf r) fun _ => .guard_bind (.expect rfl) fun _ => .pure (.node rfl fun p hp hes => ?_)
    split <;> simp [ExpressionNode.all, hp.all_lowerImplicitCast, hes]

theorem checkSliceBound_checksChildren (bound : Option Child) :
    ChecksChildren bound.toList (fun es b => ∀ x ∈ b, x.BuiltFrom env es) (checkSliceBound env bound) := by
  cases bound with
  | none => exact .pure nofun
  | some bound =>
    exact .child_bind bound none fun b => .guard_bind (.resultOf b) fun _ => .guard_bind (.expect rfl) fun _ =>
      .pure fun _ h => by cases h; exact (Expression.BuiltFrom.of_mem (.head _)).lowerImplicitCast _

theorem checkExprSlice_checksChildren (object : Child) (start «end» : Option Child) :
    ChecksChildren (object :: (start.toList ++ «end».toList)) (fun es e => e.BuiltFrom env es)
      (checkExprSlice env object start «end») :=
  .child_bind object none fun o => .guard_bind (.resultOf o) fun _ => .guard_bind (.expect rfl) fun _ =>
    .guard_bind (.expect rfl) fun _ => (checkSliceBound_checksChildren env start).bind fun es₁ s hs =>
      (checkSliceBound_checksChildren env «end»).bind_nil fun es₂ e he => .guard_bind (.deref _) fun _ =>
        .pure (.node rfl fun p hp hes => by
          obtain ⟨ho, h₁, h₂⟩ : o.all p = true ∧ (∀ x ∈ es₁, x.all p = true) ∧ ∀ x ∈ es₂, x.all p = true := by
            simpa [or_imp, forall_and] using hes
          simp only [ExpressionNode.all, ho, Bool.true_and, Bool.and_eq_true, Expression.allOpt_eq_true]
          exact ⟨fun x hx => hs x hx p hp h₁, fun x hx => he x hx p hp h₂⟩)

theorem checkArrayItems_checksChildren : ∀ (type : Option TypeRef) (items : List (AstArrayConstant Child)),
    ChecksChildren (items.map (·.value)) (fun es r => ∀ i ∈ r.1, i.value.BuiltFrom env es)
      (checkArrayItems env type items)
  | _, [] => .pure nofun
  | type, item :: rest => by
    have ih := fun t => checkArrayItems_checksChildren t rest
    refine .child_bind item.value type fun value => ?_
    have hk : ∀ cur, cur.BuiltFrom env [value] → ∀ t, ChecksChildren (rest.map (·.value))
        (fun es r => ∀ i ∈ r.1, i.value.BuiltFrom env (value :: es))
        (checkArrayItems env t rest >>= fun r => Pure.pure (⟨cur, false⟩ :: r.1, r.2.1, item.expand || r.2.2)) :=
      fun cur hc t => (ih t).bind_pure fun es r hr => by
        rintro _ (_ | ⟨_, hi⟩)
        · exact hc.mono fun _ h => List.mem_cons.mpr (.inl (List.mem_singleton.mp h))
        · exact (hr _ hi).mono fun _ => List.mem_cons_of_mem _
    dsimp only
    split
    · refine .pure_bind ?_
      split
      · exact .guard_bind (.assertC _) fun _ => hk _ (.of_mem (.head _)) _
      · exact .pure_bind (hk _ (.of_mem (.head _)) _)
    · refine .guard_bind (.resultOf value) fun _ => .guard_bind (.expect rfl) fun _ => .pure_bind ?_
      split
      · exact .guard_bind (.assertC _) fun _ => hk _ ((Expression.BuiltFrom.of_mem (.head _)).lowerImplicitCast _) _
      · exact .pure_bind (hk _ ((Expression.BuiltFrom.of_mem (.head _)).lowerImplicitCast _) _)

theorem checkExprArray_checksChildren (loc : Location) (items : List (AstArrayConstant Child))
    (hint : Option TypeRef) :
    ChecksChildren (items.map (·.value)) (fun es e => e.BuiltFrom env es) (checkExprArray env loc items hint) := by
  refine (checkArrayItems_checksChildren env _ items).bind_nil fun es r hr => ?_
  obtain ⟨values, type, expandable⟩ := r
  have hb : ∀ t items, (∀ i ∈ items, i.value.BuiltFrom env es) →
      (Expression.mk (some t) false (.constant .none items)).BuiltFrom env (es ++ []) := fun _ _ hi =>
    .node rfl fun p hp hes => by simpa [ExpressionNode.all] using fun i h => hi i h p hp (by simpa using hes)
  dsimp only
  split
  · split
    · exact .guard_bind (.expect rfl) fun _ => .guard_bind (.deref _) fun _ => .pure (hb _ _ (forall_mem_markExpand.mpr hr))
    · exact .throw rfl
  · exact .guard_bind (.deref _) fun _ => .pure (hb _ _ hr)

theorem checkExprConstant_checksChildren (loc : Location) (storage : Storage) (value : ConstValue)
    (array : List (AstArrayConstant Child)) (hint : Option TypeRef) :
    ChecksChildren (if storage = .array then array.map (·.value) else []) (fun es e => e.BuiltFrom env es)
      (checkExprConstant env loc storage value array hint) := by
  by_cases hs : storage = .array
  · subst hs
    exact (checkExprArray_checksChildren env loc array hint).of_kids (if_pos rfl).symm
  · rw [if_neg hs]
    have hb : ∀ r v, (Expression.mk r false (.constant v [])).BuiltFrom env [] := fun _ _ =>
      .node rfl fun p _ _ => by simp [ExpressionNode.all]
    -- the three arms of the source's switch: a scalar, the array literal, and the rest
    cases storage <;> first | exact absurd rfl hs | exact .pure (hb _ _) | exact .throw rfl

theorem lowerVaargs_checksChildren (loc : Location) (aargs : List (AstCallArgument Child)) (type : Option TypeRef) :
    ChecksChildren (aargs.map (·.value)) (fun es e => e.BuiltFrom env es) (lowerVaargs env loc aargs type) := by
  refine .guard_bind (.deref _) fun _ =>
    ((checkExprConstant_checksChildren env loc .array .none _ _).bind_nil fun es v hv => ?_).of_kids ?_
  · exact .guard_bind (.resultOf v) fun _ => .guard_bind (.assertC _) fun _ => .guard_bind (.expect rfl) fun _ =>
      .pure (by simpa using hv)
  · simp [Function.comp_def]

theorem checkCallArgs_checksChildren (variadism : Variadism) :
    ∀ (params : List TypeRef) (aargs : List (AstCallArgument Child)),
      ChecksChildren ((aargs.take (argsChecked variadism params aargs)).map (·.value))
        (fun es r => r.2.1 = aargs.drop (argsChecked variadism params aargs) ∧ ∀ x ∈ r.1, x.BuiltFrom env es)
        (checkCallArgs env variadism params aargs)
  | param :: params, aarg :: aargs => by
    unfold checkCallArgs argsChecked
    split
    · exact ((lowerVaargs_checksChildren env _ (aarg :: aargs) _).bind_pure fun es v hv =>
        ⟨by simp, by simpa using hv.lowerImplicitCast param⟩).of_kids (by simp)
    · refine .child_bind aarg.value _ fun v => .guard_bind (.resultOf v) fun _ => .guard_bind (.expect ?_) fun _ =>
        (checkCallArgs_checksChildren variadism params aargs).bind_pure fun es r hr => ⟨by simpa using hr.1, ?_⟩
      · rfl
      rintro _ (_ | ⟨_, hx⟩)
      · exact (Expression.BuiltFrom.of_mem (.head _)).lowerImplicitCast _
      · exact (hr.2 _ hx).mono fun _ => List.mem_cons_of_mem _
  | [], _ => .pure ⟨rfl, nofun⟩
  | _ :: _, [] => .pure ⟨rfl, nofun⟩

theorem checkExprCall_checksChildren (loc : Location) (lvalue : Child) (aargs : List (AstCallArgument Child)) :
    ChecksChildren (lvalue :: aargs.map (·.value)) (fun es e => e.BuiltFrom env es)
      (checkExprCall env loc lvalue aargs) := by
  refine .child_bind lvalue none fun l => .guard_bind (.resultOf l) fun _ => ?_
  split
  · refine .guard_bind (.expect rfl) fun _ =>
      .of_initialKids ((checkCallArgs_checksChildren env _ _ aargs).bind_nil fun es r hr => ?_) ((List.take_prefix _ _).map _)
    refine .expect_bind rfl fun hempty => .guard_bind (.expect rfl) fun _ => .pure ⟨?_, .node rfl fun p hp hes => ?_⟩
    · rw [List.take_of_length_le (List.drop_eq_nil_iff.mp (hr.1 ▸ List.isEmpty_iff.mp hempty))]
    · obtain ⟨hl, h⟩ : l.all p = true ∧ ∀ x ∈ es, x.all p = true := by simpa using hes
      simpa [ExpressionNode.all, hl] using fun x hx => hr.2 x hx p hp h
  · exact .throw rfl

theorem checkStructField_checksChildren (loc : Location) (stype : TypeRef) (afield : AstFieldValue Child)
    (value : Expression) :
    ChecksChildren [] (fun _ sf => ∃ t, sf.value = lowerImplicitCast t value)
      (checkStructField env loc stype afield value) := by
  unfold checkStructField
  split
  · exact .guard_bind (.resultOf value) fun _ => .guard_bind (.expect rfl) fun _ => .pure ⟨_, rfl⟩
  · exact .throw rfl

theorem checkExprStruct_checksChildren (loc : Location) (autofill : Bool) (typeName : Option String)
    (fields : List (AstFieldValue Child)) :
    ChecksChildren (fields.map (·.initializer)) (fun es e => e.BuiltFrom env es)
      (checkExprStruct env loc autofill typeName fields) := by
  refine .guard_bind (.assertC _) fun _ => .guard_bind (.assertC _) fun _ =>
    ((ChecksChildren.mapM (k := fun (f : AstFieldValue Child) => [f.initializer]) (Q := fun _ es e => e.BuiltFrom env es)
      (fun _ _ _ _ h hs => h.mono hs) fun f _ => .guard_bind (.assertC _) fun _ =>
        (ChecksChildren.child _ _).mono fun _ _ => .of_mem).bind_nil fun es values hv => ?_).of_kids
      (List.map_eq_flatMap _ _).symm
  dsimp only
  split
  · exact .throw_bind rfl
  refine .pure_bind (((ChecksChildren.mapM (k := fun _ => []) (fun _ _ _ _ h _ => h)
    fun x _ => checkStructField_checksChildren env loc _ x.1 x.2).bind_pure fun _ sfs hs =>
      .node rfl fun p hp hes => ?_).of_kids (by simp))
  simp only [ExpressionNode.all, Expression.allFields_eq_true]
  intro sf hsf
  obtain ⟨⟨afield, v⟩, hx, t, ht⟩ := hs sf hsf
  obtain ⟨_, _, hvb⟩ := hv v (List.of_mem_zip hx).2
  rw [ht, hp.all_lowerImplicitCast]
  exact hvb p hp fun y hy => hes y (by simp [hy])

theorem checkCaseOptions_checksChildren (type : Option TypeRef) (options : List Child) :
    ChecksChildren options (fun es vs => ∀ v ∈ vs, v.BuiltFrom env es) (checkCaseOptions env type options) := by
  refine ((ChecksChildren.mapM (k := fun o => [o]) (Q := fun _ es e => e.BuiltFrom env es)
    (fun _ _ _ _ h hs => h.mono hs) fun o _ => ?_).mono fun es vs h v hv => ?_).of_kids (List.flatMap_singleton' _)
  · refine .child_bind o type fun v => .guard_bind (.expect rfl) fun _ => ?_
    split
    · exact .pure ((Expression.BuiltFrom.of_mem (.head _)).eval ‹_›)
    · exact .throw rfl
  · obtain ⟨_, _, h⟩ := h v hv
    exact h

theorem checkSwitchCases_checksChildren (type : Option TypeRef) :
    ∀ (result : Option TypeRef) (cases : List (AstSwitchCase Child)),
      ChecksChildren (cases.flatMap fun c => c.options ++ [c.value])
        (fun es r => ∀ c ∈ r.1, (∀ o ∈ c.options, o.BuiltFrom env es) ∧ c.value.BuiltFrom env es)
        (checkSwitchCases env type result cases)
  | _, [] => .pure nofun
  | _, acase :: rest => by
    rw [List.flatMap_cons, List.append_assoc, List.singleton_append]
    refine (checkCaseOptions_checksChildren env type acase.options).bind fun es₁ options ho =>
      .child_bind acase.value type fun body => ?_
    have hk : ∀ r, ChecksChildren (rest.flatMap fun c => c.options ++ [c.value])
        (fun es₂ r => ∀ c ∈ r.1, (∀ o ∈ c.options, o.BuiltFrom env (es₁ ++ body :: es₂)) ∧
          c.value.BuiltFrom env (es₁ ++ body :: es₂))
        (checkSwitchCases env type r rest >>= fun p => Pure.pure (⟨options, body⟩ :: p.1, p.2)) :=
      fun r => (checkSwitchCases_checksChildren type r rest).bind_pure fun es₂ p hp => by
        rintro _ (_ | ⟨_, hc⟩)
        · exact ⟨fun o h => (ho o h).mono fun _ => List.mem_append_left _, .of_mem (by simp)⟩
        · exact (hp _ hc).imp (fun h o ho => (h o ho).mono fun _ h => by simp [h])
            fun h => h.mono fun _ h => by simp [h]
    dsimp only
    split
    · exact .pure_bind (hk _)
    · split
      · exact .pure_bind (hk _)
      · exact .guard_bind (.assertC _) fun _ => .pure_bind (hk _)

theorem checkExprSwitch_checksChildren (value : Child) (cases : List (AstSwitchCase Child)) :
    ChecksChildren (value :: cases.flatMap fun c => c.options ++ [c.value]) (fun es e => e.BuiltFrom env es)
      (checkExprSwitch env value cases) := by
  refine .child_bind value none fun v => (checkSwitchCases_checksChildren env _ _ cases).bind_nil fun es r hr => ?_
  obtain ⟨cs, result⟩ := r
  have hb : ∀ r t, (Expression.mk r t (.switch v cs)).BuiltFrom env (v :: (es ++ [])) := fun _ _ =>
    .node rfl fun p hp hes => by
      obtain ⟨hv, h⟩ : v.all p = true ∧ ∀ x ∈ es, x.all p = true := by simpa using hes
      simpa [ExpressionNode.all, hv] using fun c hc => And.intro (fun o ho => (hr c hc).1 o ho p hp h) ((hr c hc).2 p hp h)
  cases result
  · exact .pure (hb _ _)
  · exact .pure (hb _ _)

end Kinds

/-! ## Every such node -/

/-- The children that the check of a node checks, in order, when that and reading and testing
is all it does; `none` for identifiers, bindings, `break` and `continue`, `defer`, loops and
blocks. -/
def AstExpression.kids : AstExpression → Option (List AstExpression)
  | .accessIdentifier .. | .binding .. | .control .. | .defer .. | .for .. | .list .. => none
  | .accessIndex _ array index => some [array, index]
  | .accessField _ object _ => some [object]
  | .assert _ cond message => some (cond.toList ++ message.toList)
  | .assign _ _ _ object value => some [object, value]
  | .binarithm _ _ lvalue rvalue => some [lvalue, rvalue]
  | .call _ lvalue args => some (lvalue :: args.map (·.value))
  | .cast _ _ value _ => some [value]
  | .constant _ storage _ array => some (if storage = .array then array.map (·.value) else [])
  | .if _ cond trueBranch falseBranch => some (cond :: trueBranch :: falseBranch.toList)
  | .match _ => some []
  | .measure _ op value _ => some (if op = .len then value.toList else [])
  | .return _ value => some value.toList
  | .slice _ object start «end» => some (object :: (start.toList ++ «end».toList))
  | .struct _ _ _ fields => some (fields.map (·.initializer))
  | .switch _ value cases => some (value :: cases.flatMap fun c => c.options ++ [c.value])
  | .unarithm _ _ operand => some [operand]

/-- Induction over syntax trees with one case for all the kinds whose check only checks their
children and tests, and one case for each of the others. -/
theorem AstExpression.kidsInduction {motive : AstExpression → Prop}
    (kids : ∀ e ks, e.kids = some ks → (∀ a ∈ ks, motive a) → motive e)
    (accessIdentifier : ∀ loc ident, motive (.accessIdentifier loc ident))
    (binding : ∀ loc bindings, (∀ b ∈ bindings, motive b.initializer) → motive (.binding loc bindings))
    (control : ∀ loc type label, motive (.control loc type label))
    (defer : ∀ loc deferred, motive deferred → motive (.defer loc deferred))
    («for» : ∀ loc label labelLoc bindings cond afterthought body, (∀ e ∈ bindings, motive e) → motive cond →
      (∀ e ∈ afterthought, motive e) → motive body → motive (.for loc label labelLoc bindings cond afterthought body))
    (list : ∀ loc exprs, (∀ e ∈ exprs, motive e) → motive (.list loc exprs)) :
    ∀ e, motive e := by
  intro e
  induction e using AstExpression.induction with
  | accessIdentifier loc ident => exact accessIdentifier loc ident
  | binding loc _ h => exact binding loc _ h
  | control loc type label => exact control loc type label
  | defer loc _ h => exact defer loc _ h
  | «for» loc label labelLoc _ _ _ _ hb hc ha hd => exact «for» loc label labelLoc _ _ _ _ hb hc ha hd
  | list loc _ h => exact list loc _ h
  | accessIndex _ _ _ ha hi => exact kids _ _ rfl (by simp [ha, hi])
  | accessField _ _ _ ho => exact kids _ _ rfl (by simp [ho])
  | assert _ _ _ hc hm => exact kids _ _ rfl (by simpa [or_imp, forall_and] using ⟨hc, hm⟩)
  | assign _ _ _ _ _ ho hv => exact kids _ _ rfl (by simp [ho, hv])
  | binarithm _ _ _ _ hl hr => exact kids _ _ rfl (by simp [hl, hr])
  | call _ _ _ hl h => exact kids _ _ rfl (by simpa [hl] using h)
  | cast _ _ _ _ hv => exact kids _ _ rfl (by simp [hv])
  | constant _ _ _ _ h => exact kids _ _ rfl (by split; exact List.forall_mem_map.mpr h; exact nofun)
  | «if» _ _ _ _ hc ht hf => exact kids _ _ rfl (by simpa [hc, ht] using hf)
  | «match» => exact kids _ _ rfl nofun
  | measure _ _ _ _ h => exact kids _ _ rfl (by split; exact fun a ha => h a (by simpa using ha); exact nofun)
  | «return» _ _ h => exact kids _ _ rfl (by simpa using h)
  | slice _ _ _ _ ho hs he => exact kids _ _ rfl (by simpa [ho, or_imp, forall_and] using ⟨hs, he⟩)
  | struct _ _ _ _ h => exact kids _ _ rfl (by simpa using h)
  | switch _ _ _ hv h =>
    refine kids _ _ rfl (List.forall_mem_cons.mpr ⟨hv, fun a ha => ?_⟩)
    obtain ⟨c, hc, ha⟩ := List.mem_flatMap.mp ha
    rcases List.mem_append.mp ha with ha | ha
    · exact (h c hc).1 a ha
    · exact List.mem_singleton.mp ha ▸ (h c hc).2
  | unarithm _ _ _ ho => exact kids _ _ rfl (by simp [ho])

section Every

variable (env : Env)

/-- The child `check_expression` builds for a subtree. -/
def childOf (e : AstExpression) : Child := ⟨e, checkExpression env e⟩

theorem all_map_childOf (ks : List AstExpression) (g : AstExpression → Bool) :
    (ks.map (childOf env)).all (fun k => g k.ast) = ks.all g := by
  induction ks with
  | nil => rfl
  | cons k ks ih => exact congrArg (g k && ·) ih

theorem optChild_eq (o : Option AstExpression) : optChild env o = o.map (childOf env) := by
  cases o <;> rfl

theorem children_eq (es : List AstExpression) : children env es = es.map (childOf env) := by
  induction es with
  | nil => rfl
  | cons e es ih => exact congrArg _ ih

theorem argChildren_values (as : List (AstCallArgument AstExpression)) :
    (argChildren env as).map (·.value) = (as.map (·.value)).map (childOf env) := by
  induction as with
  | nil => rfl
  | cons a as ih => exact congrArg _ ih

theorem itemChildren_values (is : List (AstArrayConstant AstExpression)) :
    (itemChildren env is).map (·.value) = (is.map (·.value)).map (childOf env) := by
  induction is with
  | nil => rfl
  | cons i is ih => exact congrArg _ ih

theorem fieldChildren_initializers (fs : List (AstFieldValue AstExpression)) :
    (fieldChildren env fs).map (·.initializer) = (fs.map (·.initializer)).map (childOf env) := by
  induction fs with
  | nil => rfl
  | cons f fs ih => exact congrArg _ ih

theorem caseChildren_children (cs : List (AstSwitchCase AstExpression)) :
    (caseChildren env cs).flatMap (fun c => c.options ++ [c.value]) =
      (cs.flatMap fun c => c.options ++ [c.value]).map (childOf env) := by
  induction cs with
  | nil => rfl
  | cons c cs ih => simp [caseChildren, children_eq, ih, childOf]

/-- The check of a node of a kind that only checks its children and tests. -/
theorem checkExpression_checksChildren {e : AstExpression} {ks : List AstExpression} (h : e.kids = some ks)
    (hint : Option TypeRef) :
    ChecksChildren (ks.map (childOf env)) (fun es x => x.BuiltFrom env es) (checkExpression env e hint) := by
  cases e <;> cases h
  case accessIndex => exact checkExprAccessIndex_checksChildren env _ _
  case accessField => exact checkExprAccessField_checksChildren env _ _
  case assert loc cond message =>
    exact (checkExprAssert_checksChildren env loc _ _).of_kids (by cases cond <;> cases message <;> rfl)
  case assign => exact checkExprAssign_checksChildren env _ _ _ _ _
  case binarithm => exact checkExprBinarithm_checksChildren env _ _ _
  case call loc lvalue args =>
    exact (checkExprCall_checksChildren env loc _ _).of_kids (by rw [argChildren_values]; rfl)
  case cast => exact checkExprCast_checksChildren env _ _ _
  case constant loc storage value array =>
    exact (checkExprConstant_checksChildren env loc storage value _ hint).of_kids
      (by split <;> simp [itemChildren_values])
  case «if» cond trueBranch falseBranch =>
    exact (checkExprIf_checksChildren env _ _ _).of_kids (by cases falseBranch <;> rfl)
  case «match» => exact .throw rfl
  case measure op value type =>
    exact (checkExprMeasure_checksChildren env op _ type).of_kids (by cases value <;> split <;> rfl)
  case «return» value => exact (checkExprReturn_checksChildren env _).of_kids (by cases value <;> rfl)
  case slice object start «end» =>
    exact (checkExprSlice_checksChildren env _ _ _).of_kids (by cases start <;> cases «end» <;> rfl)
  case struct loc autofill typeName fields =>
    exact (checkExprStruct_checksChildren env loc autofill typeName _).of_kids (fieldChildren_initializers env fields)
  case switch value cases =>
    exact (checkExprSwitch_checksChildren env _ _).of_kids (by rw [caseChildren_children]; rfl)
  case unarithm => exact checkExprUnarithm_checksChildren env _ _

end Every

end Harec
