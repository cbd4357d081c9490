import Harec.Loops
import Harec.Reference
import Harec.Tree

/-!
# The typed tree against the scope arena

The tree the checker builds holds pointers into the scope arena (§1, §4.1): an identifier
access points at the scope object its name resolved to, each binding of a `let` at the object
it inserted, and a `for` loop and a block at the scope they pushed.  `Context.pointerSound ctx`
says that the pointers of a node are sound in the context `ctx`: the object exists, is a
variable (an `O_BIND` or `O_DECL` object: a constant is inlined, a type is rejected) and has
the type the tree gives it; the scope exists and has the kind and the label of its node.

`checkExpression_pointersSound` proves that a check returns a tree whose every node has sound
pointers in the context the check ends in, whenever the arena it starts in is coherent
(`Context.Coherent`: well formed, and the values stored in its objects with sound pointers)
and `eval_expr` adds no pointer of its own (`Env.EvalSound`).

No step of the checker removes a scope or an object, or changes a scope's parent, kind or
label (`Context.Extends`), so a pointer that is sound when a child's check returns stays
sound while the children after it are checked.  `SoundRun m O` says that a run of `m` keeps
the arena coherent and every such `Persistent` fact, and returns a value that `O` accepts
where it ends.  A check that only checks its children and tests returns a tree built from
theirs (`ChecksChildren`), whose nodes without pointers are sound anywhere
(`SoundRun.of_checksChildren`); the checks that point into the arena or write it are proved one
by one, and the whole-tree theorem is one induction over them.
-/

namespace Harec

/-! ## The arena only grows -/

/-- The arena of `ctx'` extends that of `ctx`: every scope of `ctx` is still there, with its
parent, kind and label, and objects only appended to it. -/
structure Context.Extends (ctx ctx' : Context) : Prop where
  length_le : ctx.scopes.length ≤ ctx'.scopes.length
  extends_ : ∀ r < ctx.scopes.length, (ctx.scopeAt r).Extends (ctx'.scopeAt r)

namespace Context.Extends

theorem refl (ctx : Context) : ctx.Extends ctx := ⟨Nat.le_refl _, fun _ _ => .refl _⟩

theorem trans {c₁ c₂ c₃ : Context} (h₁ : c₁.Extends c₂) (h₂ : c₂.Extends c₃) : c₁.Extends c₃ :=
  ⟨Nat.le_trans h₁.length_le h₂.length_le,
    fun r hr => (h₁.extends_ r hr).trans (h₂.extends_ r (Nat.lt_of_lt_of_le hr h₁.length_le))⟩

theorem of_frame {c c' : Context} (h : Frame c c') : c.Extends c' := ⟨h.length_le, h.extends_⟩

/-- A step that leaves the arena alone: setting the current scope, function or flag. -/
theorem of_scopes {c c' : Context} (h : c'.scopes = c.scopes) : c.Extends c' :=
  ⟨h ▸ Nat.le_refl _, fun r _ => by simp only [Context.scopeAt, h]; exact .refl _⟩

theorem push (c : Context) : c.Extends c.push.2 :=
  ⟨by simp, fun r hr => by rw [c.scopeAt_push_of_lt hr]; exact .refl _⟩

theorem enter (c : Context) (type : ExprType) (label : Option String) : c.Extends (c.enter type label) :=
  ⟨by simp, fun r hr => by rw [c.scopeAt_enter, if_neg (Nat.ne_of_lt hr)]; exact .refl _⟩

theorem insert (c : Context) (r : ScopeRef) (o : ScopeObject) : c.Extends (c.insert r o).2 :=
  ⟨by simp, fun r' _ => c.extends_insert r o r'⟩

end Context.Extends

/-- A fact about the context that holds on in every extension of its arena. -/
def Persistent (S : Context → Prop) : Prop := ∀ c c', c.Extends c' → S c → S c'

namespace Persistent

theorem and {S T : Context → Prop} (hS : Persistent S) (hT : Persistent T) :
    Persistent fun c => S c ∧ T c :=
  fun c c' h hc => ⟨hS c c' h hc.1, hT c c' h hc.2⟩

theorem forall_ {ι : Sort _} {s : ι → Prop} {T : ι → Context → Prop} (h : ∀ i, Persistent (T i)) :
    Persistent fun c => ∀ i, s i → T i c :=
  fun c c' hc hT i hi => h i c c' hc (hT i hi)

theorem exists_ {ι : Sort _} {s : ι → Prop} {T : ι → Context → Prop} (h : ∀ i, Persistent (T i)) :
    Persistent fun c => ∃ i, s i ∧ T i c :=
  fun c c' hc ⟨i, hi, hT⟩ => ⟨i, hi, h i c c' hc hT⟩

theorem const (p : Prop) : Persistent fun _ => p := fun _ _ _ => id

end Persistent

/-! ## Sound pointers -/

namespace Context

variable (ctx : Context)

/-- Whether `o` points at a variable of type `type`: an `O_BIND` or `O_DECL` object. -/
def holdsVariable (o : ObjectRef) (type : Option TypeRef) : Bool :=
  match ctx.objectAt o with
  | some obj => (obj.otype == .bind || obj.otype == .decl) && type == some obj.type
  | none => false

/-- Whether the scope at `r` was given the kind `type` and the label `label`. -/
def isScopeOf (r : ScopeRef) (type : ExprType) (label : Option String) : Bool :=
  (ctx.scopeAt r).type == some type && (ctx.scopeAt r).label == label

/-- Whether the pointers a typed node holds into the arena are sound in `ctx`. -/
def pointerSound (e : Expression) : Bool :=
  match e.node with
  | .accessIdentifier ref => ctx.holdsVariable ref e.result
  | .binding bindings => bindings.all fun b => ctx.holdsVariable b.object b.initializer.result
  | .for label scope _ _ _ _ => ctx.isScopeOf scope .for label
  | .list scope _ => ctx.isScopeOf scope .list none
  | _ => true

/-- The object `scope_lookup` returns is at the pointer it returns. -/
theorem scopeLookup_objectAt {ident : Identifier} {ref : ObjectRef} {obj : ScopeObject}
    (h : ctx.scopeLookup ident = some (ref, obj)) : ctx.objectAt ref = some obj := by
  obtain ⟨r, -, hr⟩ := List.exists_of_findSome?_eq_some h
  obtain ⟨p, hp, hpe⟩ := Option.map_eq_some'.mp hr
  cases hpe
  simpa [objectAt] using List.mem_enum_iff_getElem?.mp (List.mem_reverse.mp (List.mem_of_find?_eq_some hp))

theorem objectAt_mem {o : ObjectRef} {obj : ScopeObject} (h : ctx.objectAt o = some obj) :
    obj ∈ (ctx.scopeAt o.scope).objects :=
  List.get?_mem h

theorem mem_objects_insert {r r' : ScopeRef} {o obj : ScopeObject}
    (h : obj ∈ ((ctx.insert r o).2.scopeAt r').objects) : obj ∈ (ctx.scopeAt r').objects ∨ obj = o := by
  by_cases hr : r = r'
  · subst hr
    by_cases hlt : r < ctx.scopes.length
    · rw [ctx.scopeAt_insert_self o hlt] at h
      simpa using h
    · have hs : (ctx.insert r o).2.scopes = ctx.scopes := List.modify_eq_self (Nat.le_of_not_lt hlt)
      exact .inl (by simpa only [Context.scopeAt, hs] using h)
  · rw [ctx.scopeAt_insert_of_ne o hr] at h
    exact .inl h

/-- The pointer `scope_insert` returns points at the inserted object, when the scope exists. -/
theorem objectAt_insert_self {r : ScopeRef} (o : ScopeObject) (h : r < ctx.scopes.length) :
    (ctx.insert r o).2.objectAt ⟨r, (ctx.scopeAt r).objects.length⟩ = some o := by
  rw [objectAt_insert, if_pos ⟨rfl, h⟩]

variable {ctx} {c' : Context}

theorem objectAt_of_extends (h : ctx.Extends c') {o : ObjectRef} {obj : ScopeObject}
    (ho : ctx.objectAt o = some obj) : c'.objectAt o = some obj := by
  have hlt : o.scope < ctx.scopes.length := Nat.lt_of_not_le fun hn => by
    rw [objectAt, ctx.scopeAt_of_le hn] at ho
    cases ho
  obtain ⟨t, ht⟩ := (h.extends_ _ hlt).objects
  simp only [objectAt, List.get?_eq_getElem?] at ho ⊢
  rw [← ht, List.getElem?_append_left (List.getElem?_eq_some_iff.mp ho).1]
  exact ho

theorem holdsVariable_of_extends (h : ctx.Extends c') {o : ObjectRef} {type : Option TypeRef}
    (ho : ctx.holdsVariable o type = true) : c'.holdsVariable o type = true := by
  unfold holdsVariable at ho ⊢
  split at ho
  · next obj hobj => rwa [objectAt_of_extends h hobj]
  · cases ho

theorem isScopeOf_of_extends (h : ctx.Extends c') {r : ScopeRef} {type : ExprType} {label : Option String}
    (hr : ctx.isScopeOf r type label = true) : c'.isScopeOf r type label = true := by
  have hlt : r < ctx.scopes.length := Nat.lt_of_not_le fun hn => by
    simp [isScopeOf, ctx.scopeAt_of_le hn] at hr
  have he := h.extends_ r hlt
  simpa only [isScopeOf, he.type, he.label] using hr

theorem pointerSound_of_extends (h : ctx.Extends c') (e : Expression) (he : ctx.pointerSound e = true) :
    c'.pointerSound e = true := by
  obtain ⟨result, t, node⟩ := e
  cases node <;> try exact rfl
  · exact holdsVariable_of_extends h he
  · exact List.all_eq_true.mpr fun b hb => holdsVariable_of_extends h (List.all_eq_true.mp he b hb)
  · exact isScopeOf_of_extends h he
  · exact isScopeOf_of_extends h he

end Context

theorem Expression.pointersSound_persistent (e : Expression) :
    Persistent fun c => e.all c.pointerSound = true :=
  fun _ _ h => Expression.all_imp (Context.pointerSound_of_extends h) e

theorem Context.holdsVariable_persistent (o : ObjectRef) (type : Option TypeRef) :
    Persistent fun c => c.holdsVariable o type = true :=
  fun _ _ h => Context.holdsVariable_of_extends h

theorem Context.isScopeOf_persistent (r : ScopeRef) (type : ExprType) (label : Option String) :
    Persistent fun c => c.isScopeOf r type label = true :=
  fun _ _ h => Context.isScopeOf_of_extends h

theorem Context.pointerSound_of_scopes {c c' : Context} (h : c'.scopes = c.scopes) :
    c'.pointerSound = c.pointerSound := by
  funext e
  cases hc : c.pointerSound e
  · cases hc' : c'.pointerSound e
    · rfl
    · rw [← hc, Context.pointerSound_of_extends (.of_scopes h.symm) e hc']
  · exact Context.pointerSound_of_extends (.of_scopes h) e hc

@[simp] theorem Expression.all_lowerImplicitCast (ctx : Context) (t : TypeRef) (e : Expression) :
    (lowerImplicitCast t e).all ctx.pointerSound = e.all ctx.pointerSound := by
  unfold lowerImplicitCast
  split
  · rfl
  · simp [Context.pointerSound, ExpressionNode.all]

/-! ## Coherent arenas -/

/-- The arena a check runs in: well formed, with the values stored in its objects (the value
of a constant, inlined where the constant is named) pointing soundly into it. -/
structure Context.Coherent (ctx : Context) : Prop where
  wellScoped : ctx.WellScoped
  values : ∀ r, ∀ obj ∈ (ctx.scopeAt r).objects, ∀ v ∈ obj.value, v.all ctx.pointerSound = true

namespace Context.Coherent

variable {ctx : Context}

/-- A step that leaves the arena alone and sets a current scope that exists. -/
theorem of_scopes {c : Context} (hc : c.Coherent) (hs : ctx.scopes = c.scopes)
    (hsc : ∀ r, ctx.scope = some r → r < ctx.scopes.length) : ctx.Coherent := by
  have hat : ctx.scopeAt = c.scopeAt := funext fun r => by simp only [Context.scopeAt, hs]
  refine ⟨⟨hat ▸ hc.wellScoped.ranked, hsc, hat ▸ hc.wellScoped.labelled⟩, ?_⟩
  rw [hat, Context.pointerSound_of_scopes hs]
  exact hc.values

theorem pop (hc : ctx.Coherent) {r : ScopeRef} (hr : ctx.scope = some r) :
    ({ ctx with scope := (ctx.scopeAt r).parent } : Context).Coherent :=
  hc.of_scopes rfl fun p hp => Nat.lt_trans (hc.wellScoped.ranked r p hp) (hc.wellScoped.current r hr)

theorem push (hc : ctx.Coherent) : ctx.push.2.Coherent where
  wellScoped := hc.wellScoped.push
  values r obj hobj v hv := by
    rw [Context.objects_push] at hobj
    exact Expression.pointersSound_persistent v _ _ (.push ctx) (hc.values r obj hobj v hv)

theorem enter (hc : ctx.Coherent) {type : ExprType} {label : Option String} (hl : label ≠ none → type = .for) :
    (ctx.enter type label).Coherent where
  wellScoped := hc.wellScoped.enter hl
  values r obj hobj v hv := by
    rw [Context.enter, Context.objects_setKind, Context.objects_push] at hobj
    exact Expression.pointersSound_persistent v _ _ (.enter ctx type label) (hc.values r obj hobj v hv)

/-- Inserting an object whose value, if any, points soundly into the arena. -/
theorem insert (hc : ctx.Coherent) (r : ScopeRef) {o : ScopeObject}
    (hv : ∀ v ∈ o.value, v.all ctx.pointerSound = true) : (ctx.insert r o).2.Coherent where
  wellScoped := hc.wellScoped.insert r o
  values r' obj hobj v hvo := by
    refine Expression.pointersSound_persistent v _ _ (.insert ctx r o) ?_
    rcases ctx.mem_objects_insert hobj with hobj | rfl
    · exact hc.values r' obj hobj v hvo
    · exact hv v hvo

end Context.Coherent

/-- `eval_expr` adds no pointer into the arena: what it returns for a tree with sound pointers
has sound pointers too.  An evaluator that returns constants, or its argument, has it. -/
def Env.EvalSound (env : Env) : Prop :=
  ∀ e v (c : Context), env.eval e = some v → e.all c.pointerSound = true → v.all c.pointerSound = true

/-! ## Sound runs -/

/-- Every successful run of `m` from a coherent context satisfying a persistent `S` ends in a
coherent context satisfying `S`, with a result that `O` accepts there. -/
@[reducible] def SoundRun {α : Type} (m : CheckM α) (O : α → Context → Prop) : Prop :=
  ∀ ⦃S : Context → Prop⦄, Persistent S →
    Triple (fun c => c.Coherent ∧ S c) m fun a c => c.Coherent ∧ S c ∧ O a c

/-- A child whose check, whatever the hint, returns a tree with sound pointers. -/
@[reducible] def Child.PointersSound (c : Child) : Prop :=
  ∀ hint, SoundRun (c.check hint) fun e ctx => e.all ctx.pointerSound = true

namespace SoundRun

variable {γ β : Type}

/-- The results of a `mapM` each come from an element, by what the run on it returns. -/
theorem mapM {f : γ → CheckM β} {O : γ → β → Context → Prop} (hO : ∀ x b, Persistent (O x b)) :
    ∀ {l : List γ}, (∀ x ∈ l, SoundRun (f x) (O x)) →
      SoundRun (l.mapM f) fun bs c => ∀ b ∈ bs, ∃ x ∈ l, O x b c
  | [], _, _, _ => by
    rw [List.mapM_nil]
    exact Triple.pure fun c hc => ⟨hc.1, hc.2, nofun⟩
  | x :: l, h, _, hS => by
    rw [List.mapM_cons]
    refine Triple.bind (h x (.head _) hS) fun b => Triple.bind
      (mapM hO (fun y hy => h y (.tail _ hy)) (hS.and (hO x b))) fun bs =>
        Triple.pure fun c ⟨hc, ⟨hs, hb⟩, hbs⟩ => ⟨hc, hs, fun b' hb' => ?_⟩
    rcases List.mem_cons.mp hb' with rfl | hb'
    · exact ⟨x, .head _, hb⟩
    · obtain ⟨y, hy, h'⟩ := hbs b' hb'
      exact ⟨y, .tail _ hy, h'⟩

/-- A scope of its own: the check inside it runs with the new scope current, of its kind and
label, and the scope is popped after it. -/
theorem inScope {α : Type} {type : ExprType} {label : Option String} (hl : label ≠ none → type = .for)
    {m : ScopeRef → CheckM α} {O : α → Context → Prop} (hO : ∀ a, Persistent (O a))
    (hm : ∀ s ⦃S : Context → Prop⦄, Persistent S → (∀ c, S c → c.isScopeOf s type label = true) →
      Triple (fun c => c.Coherent ∧ S c) (m s) fun a c => c.Coherent ∧ S c ∧ O a c) :
    SoundRun (Harec.inScope type label m) O := by
  intro S hS ctx a ctx' ⟨hc, hs⟩ hrun
  obtain ⟨c, r, h₁, hr, rfl⟩ := inScope_run_ok hrun
  have hk : (ctx.enter type label).isScopeOf ctx.scopes.length type label = true := by
    simp [Context.isScopeOf, Context.scopeAt_enter]
  obtain ⟨hc₁, ⟨hs₁, -⟩, ho⟩ := hm _ (hS.and (Context.isScopeOf_persistent _ _ _)) (fun _ h => h.2) _ _ _
    ⟨hc.enter hl, hS _ _ (.enter ctx type label) hs, hk⟩ h₁
  have he : c.Extends { c with scope := (c.scopeAt r).parent } := .of_scopes rfl
  exact ⟨hc₁.pop hr, hS _ _ he hs₁, hO a _ _ he ho⟩

end SoundRun

/-- A step that leaves the arena and the current scope alone. -/
theorem Triple.modify_coherent {f : Context → Context} (hf : ∀ c, (f c).scopes = c.scopes ∧ (f c).scope = c.scope)
    {S : Context → Prop} (hS : Persistent S) :
    Triple (fun c => c.Coherent ∧ S c) (modify f : CheckM PUnit) fun _ c => c.Coherent ∧ S c := by
  intro ctx _ ctx' ⟨hc, hs⟩ hrun
  cases hrun
  exact ⟨hc.of_scopes (hf ctx).1 fun r hr => (hf ctx).1 ▸ hc.wellScoped.current r ((hf ctx).2 ▸ hr),
    hS _ _ (.of_scopes (hf ctx).1) hs⟩

/-! ## Every check -/

section Kinds

variable (env : Env)

theorem checkExprAccessIdentifier_pointersSound (loc : Location) (ident : Identifier) :
    SoundRun (checkExprAccessIdentifier env loc ident) fun e c => e.all c.pointerSound = true := by
  intro S hS ctx e ctx' ⟨hc, hs⟩ hrun
  simp only [checkExprAccessIdentifier] at hrun
  obtain ⟨_, _, h₀, hrun⟩ := run_bind_ok hrun
  cases h₀
  split at hrun
  · next ref obj hlook =>
    have hobj := Context.scopeLookup_objectAt _ hlook
    split at hrun
    · obtain ⟨hv, rfl⟩ := deref_run_ok hrun
      exact ⟨hc, hs, hc.values _ obj (Context.objectAt_mem _ hobj) e hv⟩
    all_goals cases hrun
    all_goals exact ⟨hc, hs, by simp [Context.pointerSound, ExpressionNode.all, Context.holdsVariable, hobj, *]⟩
  · cases hrun

/-- A binding points at the object it inserted, whose type its stored initializer has. -/
theorem checkBinding_pointersSound (loc : Location) {b : AstBinding Child} (hi : b.initializer.PointersSound) :
    SoundRun (checkBinding env loc b) fun eb c =>
      c.holdsVariable eb.object eb.initializer.result = true ∧ eb.initializer.all c.pointerSound = true := by
  intro S hS ctx eb ctx' ⟨hc, hs⟩ hrun
  obtain ⟨hint, init, c, type, r, h₁, hr, hctx, rfl⟩ := checkBinding_run_ok env hrun
  obtain ⟨hc₁, hs₁, hinit⟩ := hi hint hS _ _ _ ⟨hc, hs⟩ h₁
  have hlt := hc₁.wellScoped.current r hr
  rcases hctx with rfl | rfl
  · have he := Context.Extends.insert c r ⟨.bind, ⟨b.name, none⟩, ⟨b.name, none⟩, type, none⟩
    refine ⟨hc₁.insert r nofun, hS _ _ he hs₁, ?_, Expression.pointersSound_persistent _ _ _ he (by simpa using hinit)⟩
    simp [Context.holdsVariable, Context.objectAt_insert_self _ _ hlt]
  · have hc₂ : ({ c with id := c.id + 1 } : Context).Coherent := hc₁.of_scopes rfl hc₁.wellScoped.current
    have he := Context.Extends.insert { c with id := c.id + 1 } r ⟨.decl, staticIdent c.id, ⟨b.name, none⟩, type, none⟩
    have he' := (show c.Extends { c with id := c.id + 1 } from .of_scopes rfl).trans he
    refine ⟨hc₂.insert r nofun, hS _ _ he' hs₁, ?_, Expression.pointersSound_persistent _ _ _ he' (by simpa using hinit)⟩
    have ho : (({ c with id := c.id + 1 } : Context).insert r ⟨.decl, staticIdent c.id, ⟨b.name, none⟩, type, none⟩).2.objectAt
        ⟨r, (c.scopeAt r).objects.length⟩ = some ⟨.decl, staticIdent c.id, ⟨b.name, none⟩, type, none⟩ :=
      Context.objectAt_insert_self _ _ hlt
    simp [Context.holdsVariable, ho]

theorem checkExprBinding_pointersSound (loc : Location) {bindings : List (AstBinding Child)}
    (h : ∀ b ∈ bindings, b.initializer.PointersSound) :
    SoundRun (checkExprBinding env loc bindings) fun e c => e.all c.pointerSound = true := by
  intro S hS
  simp only [checkExprBinding]
  have hO : ∀ (b : AstBinding Child) (eb : ExpressionBinding Expression),
      Persistent fun c => c.holdsVariable eb.object eb.initializer.result = true ∧ eb.initializer.all c.pointerSound = true :=
    fun _ eb => (Context.holdsVariable_persistent _ _).and (Expression.pointersSound_persistent eb.initializer)
  split
  · exact Triple.throw_bind
  refine Triple.bind Triple.pure_same fun _ => Triple.bind
    (SoundRun.mapM hO (fun b hb => checkBinding_pointersSound env loc (h b hb)) hS) fun bs =>
      Triple.pure fun c ⟨hc, hs, hbs⟩ => ⟨hc, hs, ?_⟩
  simp only [Expression.all_mk, Context.pointerSound, Expression.node_mk, ExpressionNode.all, Bool.and_eq_true,
    List.all_eq_true, Expression.allBindings_eq_true]
  exact ⟨fun eb heb => (hbs eb heb).elim fun _ h => h.2.1, fun eb heb => (hbs eb heb).elim fun _ h => h.2.2⟩

theorem checkExprControl_pointersSound (loc : Location) (type : ControlType) (label : Option String) :
    SoundRun (checkExprControl loc type label) fun e c => e.all c.pointerSound = true := by
  intro S hS
  simp only [checkExprControl]
  exact Triple.bind Triple.get fun _ => Triple.bind Triple.expect fun _ =>
    Triple.pure fun c h => ⟨h.1, h.2, rfl⟩

theorem checkExprDefer_pointersSound (loc : Location) {deferred : Child} (hd : deferred.PointersSound) :
    SoundRun (checkExprDefer env loc deferred) fun e c => e.all c.pointerSound = true := fun S hS =>
  Triple.bind Triple.get fun _ => Triple.bind Triple.expect fun _ =>
    Triple.bind (Triple.modify_coherent (by exact fun _ => ⟨rfl, rfl⟩) hS) fun _ => Triple.bind (hd _ hS) fun d =>
      Triple.bind (Triple.modify_coherent (by exact fun _ => ⟨rfl, rfl⟩) (hS.and (Expression.pointersSound_persistent d)))
        fun _ => Triple.pure fun _ h => ⟨h.1, h.2.1, by simp [Context.pointerSound, ExpressionNode.all, h.2.2]⟩

theorem checkOpt_pointersSound {c : Option Child} (hc : ∀ c' ∈ c, c'.PointersSound) (hint : Option TypeRef) :
    SoundRun (Child.checkOpt c hint) fun o ctx => ∀ e ∈ o, e.all ctx.pointerSound = true := by
  intro S hS
  cases c with
  | none => exact Triple.pure fun c h => ⟨h.1, h.2, nofun⟩
  | some c =>
    simp only [Child.checkOpt, map_eq_pure_bind]
    exact Triple.bind (hc c rfl hint hS) fun e => Triple.pure fun x h =>
      ⟨h.1, h.2.1, fun e' he' => by cases he'; exact h.2.2⟩

theorem checkExprFor_pointersSound (label : Option String) (labelLoc : Location) {bindings : Option Child}
    {cond : Child} {afterthought : Option Child} {body : Child} (hb : ∀ c ∈ bindings, c.PointersSound)
    (hc : cond.PointersSound) (ha : ∀ c ∈ afterthought, c.PointersSound) (hd : body.PointersSound) :
    SoundRun (checkExprFor env label labelLoc bindings cond afterthought body)
      fun e c => e.all c.pointerSound = true := by
  refine SoundRun.inScope (fun _ => rfl) Expression.pointersSound_persistent fun s S hS hk => ?_
  have hl : ∀ P, Triple P (checkForLabel labelLoc s label) fun _ => P :=
    fun _ => Triple.of_eq fun _ _ _ h => (checkForLabel_keeps (R := Eq) labelLoc s label _ _ _ h).symm
  have hopt (o : Option Expression) : Persistent fun c => ∀ e ∈ o, e.all c.pointerSound = true :=
    Persistent.forall_ fun e => Expression.pointersSound_persistent e
  refine Triple.bind (hl _) fun _ => Triple.bind (checkOpt_pointersSound hb none hS) fun b =>
    Triple.bind (hc _ (hS.and (hopt b))) fun c => Triple.bind Triple.resultOf fun _ =>
      Triple.bind Triple.expect fun _ => Triple.bind (checkOpt_pointersSound ha none
        ((hS.and (hopt b)).and (Expression.pointersSound_persistent c))) fun a =>
      Triple.bind (hd _ (((hS.and (hopt b)).and (Expression.pointersSound_persistent c)).and (hopt a))) fun d =>
        Triple.pure fun c' ⟨hc', ⟨⟨⟨hs, hb'⟩, hc''⟩, ha'⟩, hd'⟩ => ⟨hc', hs, ?_⟩
  simp only [Expression.all_mk, Context.pointerSound, Expression.node_mk, ExpressionNode.all, Bool.and_eq_true,
    Expression.allOpt_eq_true]
  exact ⟨hk c' hs, ⟨⟨hb', hc''⟩, ha'⟩, hd'⟩

theorem checkExprList_pointersSound {exprs : List Child} (h : ∀ c ∈ exprs, c.PointersSound) :
    SoundRun (checkExprList exprs) fun e c => e.all c.pointerSound = true := by
  refine SoundRun.inScope nofun Expression.pointersSound_persistent fun s S hS hk => ?_
  refine Triple.bind (SoundRun.mapM (fun _ e => Expression.pointersSound_persistent e) (fun e he => h e he none) hS)
    fun es => Triple.bind Triple.deref fun _ => Triple.pure fun c ⟨hc, hs, hes⟩ => ⟨hc, hs, ?_⟩
  simp only [Expression.all_mk, Context.pointerSound, Expression.node_mk, ExpressionNode.all, Bool.and_eq_true,
    Expression.allList_eq_true]
  exact ⟨hk c hs, fun e he => (hes e he).elim fun _ h => h.2⟩

/-- The pointers of a node that holds none are sound in any context, and the evaluator adds
none: soundness in a context is a test that the trees of checks pass when their children's
do. -/
theorem Context.nodeTest_pointerSound (henv : env.EvalSound) (c : Context) : NodeTest env c.pointerSound where
  free := fun ⟨_, _, n⟩ hn => by cases n <;> first | rfl | cases hn
  eval e v hv he := henv e v c hv he

/-- Checks of children that are sound runs, one after another, keep the arena coherent and
every persistent fact, and return trees with sound pointers where they end. -/
theorem ChildRuns.sound {kids : List Child} {c c' : Context} {es : List Expression} (h : ChildRuns kids c es c')
    (hk : ∀ k ∈ kids, k.PointersSound) {S : Context → Prop} (hS : Persistent S) (hc : c.Coherent ∧ S c) :
    c'.Coherent ∧ S c' ∧ ∀ x ∈ es, x.all c'.pointerSound = true := by
  induction h generalizing S with
  | nil => exact ⟨hc.1, hc.2, nofun⟩
  | cons hint h _ ih =>
    obtain ⟨hc₁, hs₁, he⟩ := hk _ (.head _) hint hS _ _ _ hc h
    obtain ⟨hc', ⟨hs', he'⟩, hes⟩ :=
      ih (fun k hk' => hk k (.tail _ hk')) (hS.and (Expression.pointersSound_persistent _)) ⟨hc₁, hs₁, he⟩
    exact ⟨hc', hs', List.forall_mem_cons.mpr ⟨he', hes⟩⟩

/-- A check that only checks its children and tests returns a tree with sound pointers when
its children do. -/
theorem SoundRun.of_checksChildren (henv : env.EvalSound) {kids : List Child} {m : CheckM Expression}
    (h : ChecksChildren kids (fun es e => e.BuiltFrom env es) m) (hk : ∀ k ∈ kids, k.PointersSound) :
    SoundRun m fun e c => e.all c.pointerSound = true := fun _ hS c _ c' hc hrun =>
  let ⟨_, hr, hb⟩ := h.ok c _ c' hrun
  let ⟨hc', hs', hes⟩ := hr.sound hk hS hc
  ⟨hc', hs', hb _ (Context.nodeTest_pointerSound env henv c') hes⟩

end Kinds

/-! ## The whole tree -/

section Run

variable (env : Env)

/-- Every check of an expression keeps the arena coherent and returns a tree with sound
pointers. -/
theorem checkExpression_soundRun (henv : env.EvalSound) :
    ∀ e : AstExpression, Child.PointersSound ⟨e, checkExpression env e⟩ := by
  intro e
  induction e using AstExpression.kidsInduction with
  | kids e _ he h =>
    exact fun hint => SoundRun.of_checksChildren env henv (checkExpression_checksChildren env he hint)
      (List.forall_mem_map.mpr h)
  | accessIdentifier loc ident => exact fun _ => checkExprAccessIdentifier_pointersSound env loc ident
  | binding loc _ h => exact fun _ => checkExprBinding_pointersSound env loc (bindingChildren_forall env h)
  | control loc type label => exact fun _ => checkExprControl_pointersSound loc type label
  | defer loc _ hd => exact fun _ => checkExprDefer_pointersSound env loc hd
  | «for» _ label labelLoc _ _ _ _ hb hc ha hd =>
    exact fun _ => checkExprFor_pointersSound env label labelLoc (optChild_forall env hb) hc
      (optChild_forall env ha) hd
  | list _ _ h => exact fun _ => checkExprList_pointersSound (children_forall env h)

/-- The reference evaluator returns a constant as it is. -/
theorem Reference.env_evalSound : Reference.env.EvalSound := fun e v _ h he => by
  simp only [Reference.env] at h
  split at h <;> cases h
  exact he

/-- The context a driver starts from holds no scope. -/
theorem Reference.initialContext_coherent : Reference.initialContext.Coherent :=
  ⟨⟨fun _ _ => nofun, nofun, fun _ h => absurd rfl h⟩, fun _ _ => nofun⟩

/-- `{ let x: int = 1; x }`, a block that binds a name and reads it back. -/
def Reference.letAccessBlock : AstExpression :=
  .list Reference.here [.binding Reference.here [⟨"x", some (Reference.builtinType .int), ⟨false⟩,
      Reference.const .int (.ival 1), false⟩],
    .accessIdentifier Reference.here ⟨"x", none⟩]

theorem checkExpression_letAccessBlock_ok :
    ∃ e' ctx', (checkExpression Reference.env Reference.letAccessBlock none).run Reference.initialContext =
      .ok (e', ctx') :=
  exists_run_ok_of_isOk (by decide)

end Run

end Harec
