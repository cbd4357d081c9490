import Mathlib.Order.Defs.Unbundled
import Harec.Kinds

/-!
# What a check does to the context

Checking an expression pushes and pops scopes, inserts objects and bumps the static
counter, and nothing else: once it returns, the current scope, the unit, the namespace,
the current function and the `defer` flag are as they were, no scope that existed has a
new parent, kind or label, only the current scope has new objects, and the counter has not
gone down.  `Frame` is that relation between the context a check starts from and the one
it ends in; `checkExpression_frame` proves it of every successful check, by one lemma per
expression kind.

`Keeps R m` says that every successful run of `m` relates its two contexts by `R`.  For a
preorder `R` it is closed under `>>=`, so a check that only runs its children and tests
keeps `R` when its children do; `for` and blocks, which push a scope, and bindings and
`defer`, which write the context, are proved by hand.

The static names of §4.4 are tracked here as well: `StaticOk b ctx` says that the `O_DECL`
objects outside the unit scope, which only static bindings insert, are named `static.N`
for pairwise different `N` from `b` up to the counter.
-/

namespace Harec

namespace Context

variable (ctx : Context)

@[simp] theorem push_fst : ctx.push.1 = ctx.scopes.length := rfl

@[simp] theorem push_snd_scope : ctx.push.2.scope = some ctx.scopes.length := rfl

@[simp] theorem push_snd_unit : ctx.push.2.unit = ctx.unit := rfl

@[simp] theorem push_snd_length : ctx.push.2.scopes.length = ctx.scopes.length + 1 := by
  simp [push]

theorem scopeAt_push_of_lt {r : ScopeRef} (h : r < ctx.scopes.length) :
    ctx.push.2.scopeAt r = ctx.scopeAt r := by
  simp [push, scopeAt, List.getElem?_append_left h]

@[simp] theorem scopeAt_push_self : ctx.push.2.scopeAt ctx.scopes.length = ⟨ctx.scope, none, none, []⟩ := by
  simp [push, scopeAt]

@[simp] theorem setKind_scope (r : ScopeRef) (type : ExprType) (label : Option String) :
    (ctx.setKind r type label).scope = ctx.scope := rfl

@[simp] theorem setKind_unit (r : ScopeRef) (type : ExprType) (label : Option String) :
    (ctx.setKind r type label).unit = ctx.unit := rfl

@[simp] theorem setKind_id (r : ScopeRef) (type : ExprType) (label : Option String) :
    (ctx.setKind r type label).id = ctx.id := rfl

@[simp] theorem setKind_length (r : ScopeRef) (type : ExprType) (label : Option String) :
    (ctx.setKind r type label).scopes.length = ctx.scopes.length := by
  simp [setKind]

theorem scopeAt_setKind_of_ne {r r' : ScopeRef} (type : ExprType) (label : Option String) (h : r ≠ r') :
    (ctx.setKind r type label).scopeAt r' = ctx.scopeAt r' := by
  simp [setKind, scopeAt, List.getElem?_modify_ne _ _ h]

theorem scopeAt_setKind_self {r : ScopeRef} (type : ExprType) (label : Option String)
    (h : r < ctx.scopes.length) :
    (ctx.setKind r type label).scopeAt r = { ctx.scopeAt r with type := some type, label := label } := by
  simp [setKind, scopeAt, List.getElem?_eq_getElem h]

@[simp] theorem insert_id (r : ScopeRef) (o : ScopeObject) : (ctx.insert r o).2.id = ctx.id := rfl

@[simp] theorem insert_unit (r : ScopeRef) (o : ScopeObject) : (ctx.insert r o).2.unit = ctx.unit := rfl

@[simp] theorem insert_scope (r : ScopeRef) (o : ScopeObject) : (ctx.insert r o).2.scope = ctx.scope := rfl

@[simp] theorem insert_length (r : ScopeRef) (o : ScopeObject) :
    (ctx.insert r o).2.scopes.length = ctx.scopes.length := by
  simp [insert]

theorem scopeAt_insert_of_ne {r r' : ScopeRef} (o : ScopeObject) (h : r ≠ r') :
    (ctx.insert r o).2.scopeAt r' = ctx.scopeAt r' := by
  simp [insert, scopeAt, List.getElem?_modify_ne _ _ h]

theorem scopeAt_insert_self {r : ScopeRef} (o : ScopeObject) (h : r < ctx.scopes.length) :
    (ctx.insert r o).2.scopeAt r = { ctx.scopeAt r with objects := (ctx.scopeAt r).objects ++ [o] } := by
  simp [insert, scopeAt, List.getElem?_eq_getElem h]

theorem objectAt_insert (r : ScopeRef) (obj : ScopeObject) (o : ObjectRef) :
    (ctx.insert r obj).2.objectAt o =
      if o = (ctx.insert r obj).1 ∧ r < ctx.scopes.length then some obj else ctx.objectAt o := by
  obtain ⟨r', i⟩ := o
  simp only [objectAt, insert, ObjectRef.mk.injEq]
  by_cases hr : r = r'
  · subst hr
    by_cases hlt : r < ctx.scopes.length
    · have := scopeAt_insert_self ctx obj hlt
      simp only [insert] at this
      simp only [this, true_and, hlt, and_true, List.get?_eq_getElem?]
      split
      · subst i; simp
      · rcases Nat.lt_or_gt_of_ne ‹_› with h | h
        · simp [List.getElem?_append_left h]
        · rw [List.getElem?_eq_none (by simp; omega), List.getElem?_eq_none (by omega)]
    · have : ctx.scopes.modify (fun s => { s with objects := s.objects ++ [obj] }) r = ctx.scopes :=
        List.modify_eq_self (Nat.le_of_not_lt hlt)
      simp [scopeAt, this, hlt]
  · have := scopeAt_insert_of_ne ctx obj hr
    simp only [insert] at this
    simp [this, Ne.symm hr]

@[simp] theorem objects_push (r : ScopeRef) : (ctx.push.2.scopeAt r).objects = (ctx.scopeAt r).objects := by
  rcases Nat.lt_trichotomy r ctx.scopes.length with h | rfl | h
  · rw [scopeAt_push_of_lt _ h]
  · rw [scopeAt_push_self, scopeAt, List.getD_eq_getElem?_getD, List.getElem?_eq_none (Nat.le_refl _)]
    rfl
  · have h₁ : ctx.scopes[r]? = none := List.getElem?_eq_none (by omega)
    have h₂ : ctx.push.2.scopes[r]? = none := List.getElem?_eq_none (by simp; omega)
    simp [scopeAt, h₁, h₂]

@[simp] theorem objects_setKind (r r' : ScopeRef) (type : ExprType) (label : Option String) :
    ((ctx.setKind r type label).scopeAt r').objects = (ctx.scopeAt r').objects := by
  by_cases h : r = r'
  · subst h
    by_cases hlt : r < ctx.scopes.length
    · simp [scopeAt_setKind_self _ _ _ hlt]
    · simp [setKind, List.modify_eq_self (Nat.le_of_not_lt hlt)]
  · rw [scopeAt_setKind_of_ne _ _ _ h]

/-- The identifier of the object at `o` when it is an `O_DECL` object outside the unit
scope. -/
def staticAt (o : ObjectRef) : Option Identifier :=
  (ctx.objectAt o).bind fun obj =>
    if obj.otype = .decl ∧ some o.scope ≠ ctx.unit then some obj.ident else none

theorem staticAt_congr {ctx' : Context} (h : ∀ r, (ctx'.scopeAt r).objects = (ctx.scopeAt r).objects)
    (hu : ctx'.unit = ctx.unit) : ctx'.staticAt = ctx.staticAt := by
  funext o
  simp [staticAt, objectAt, h, hu]

@[simp] theorem staticAt_push : ctx.push.2.staticAt = ctx.staticAt :=
  staticAt_congr ctx (objects_push ctx) rfl

@[simp] theorem staticAt_setKind (r : ScopeRef) (type : ExprType) (label : Option String) :
    (ctx.setKind r type label).staticAt = ctx.staticAt :=
  staticAt_congr ctx (objects_setKind ctx r · type label) rfl

theorem staticAt_insert (r : ScopeRef) (obj : ScopeObject) (o : ObjectRef) :
    (ctx.insert r obj).2.staticAt o =
      if o = (ctx.insert r obj).1 ∧ r < ctx.scopes.length then
        (if obj.otype = .decl ∧ some r ≠ ctx.unit then some obj.ident else none)
      else ctx.staticAt o := by
  simp only [staticAt, objectAt_insert]
  split
  · next h => obtain ⟨rfl, -⟩ := h; rfl
  · rfl

/-- The slot an insertion fills was empty. -/
theorem objectAt_insert_fst (r : ScopeRef) (obj : ScopeObject) : ctx.objectAt (ctx.insert r obj).1 = none := by
  simp [objectAt, insert, List.getElem?_eq_none]

/-- Inserting an object that is not an `O_DECL` one, or one into the unit scope, adds no
static object. -/
theorem staticAt_insert_of_not {r : ScopeRef} {obj : ScopeObject}
    (h : obj.otype ≠ .decl ∨ some r = ctx.unit) : (ctx.insert r obj).2.staticAt = ctx.staticAt := by
  funext o
  rw [staticAt_insert]
  split
  · next ho =>
    obtain ⟨rfl, -⟩ := ho
    rw [staticAt, objectAt_insert_fst, if_neg (fun hd => h.elim (· hd.1) (hd.2 ·))]
    rfl
  · rfl

end Context

/-- A numbering of the static objects of a context: each is named `static.N` for its
number `N`, from `b` up to the counter, and no two share a number. -/
structure StaticNumbering (b : Nat) (ctx : Context) (num : ObjectRef → Nat) : Prop where
  named : ∀ o x, ctx.staticAt o = some x → x = staticIdent (num o)
  bounded : ∀ o x, ctx.staticAt o = some x → b ≤ num o ∧ num o < ctx.id
  injective : ∀ o o', (ctx.staticAt o).isSome → (ctx.staticAt o').isSome → num o = num o' → o = o'

/-- The static objects of `ctx` are numbered from `b`, which the counter has reached. -/
def StaticOk (b : Nat) (ctx : Context) : Prop := b ≤ ctx.id ∧ ∃ num, StaticNumbering b ctx num

theorem StaticOk.of_scopes {b : Nat} {ctx ctx' : Context} (h : StaticOk b ctx)
    (hs : ctx'.scopes = ctx.scopes) (hu : ctx'.unit = ctx.unit) (hid : ctx.id ≤ ctx'.id) :
    StaticOk b ctx' := by
  obtain ⟨hb, num, hn⟩ := h
  have h : ctx'.staticAt = ctx.staticAt := by
    funext o
    simp [Context.staticAt, Context.objectAt, Context.scopeAt, hs, hu]
  refine ⟨Nat.le_trans hb hid, num, fun o x hx => hn.named o x (h ▸ hx), fun o x hx => ?_,
    fun o o' => h ▸ hn.injective o o'⟩
  have := hn.bounded o x (h ▸ hx)
  omega

theorem StaticOk.of_staticAt {b : Nat} {ctx ctx' : Context} (h : ctx'.staticAt = ctx.staticAt)
    (hid : ctx.id ≤ ctx'.id) : StaticOk b ctx → StaticOk b ctx' := by
  rintro ⟨hb, num, hn⟩
  refine ⟨Nat.le_trans hb hid, num, fun o x hx => hn.named o x (h ▸ hx), fun o x hx => ?_,
    fun o o' => h ▸ hn.injective o o'⟩
  have := hn.bounded o x (h ▸ hx)
  omega

/-- A static binding's object, named after the counter, keeps the static objects numbered
once the counter is bumped. -/
theorem StaticOk.insert_static {b : Nat} {ctx : Context} {r : ScopeRef} {name : Identifier}
    {type : TypeRef} :
    StaticOk b ctx →
      StaticOk b (({ ctx with id := ctx.id + 1 } : Context).insert r
        ⟨.decl, staticIdent ctx.id, name, type, none⟩).2 := by
  rintro ⟨hb, num, hn⟩
  let ctx₁ : Context := { ctx with id := ctx.id + 1 }
  let obj : ScopeObject := ⟨.decl, staticIdent ctx.id, name, type, none⟩
  let new := (ctx₁.insert r obj).1
  have h₁ : ctx₁.staticAt = ctx.staticAt := Context.staticAt_congr ctx (fun _ => rfl) rfl
  have hnew : ctx.staticAt new = none := by
    rw [← h₁, Context.staticAt, Context.objectAt_insert_fst]; rfl
  have key : ∀ o x, (ctx₁.insert r obj).2.staticAt o = some x →
      (o = new ∧ x = staticIdent ctx.id) ∨ (o ≠ new ∧ ctx.staticAt o = some x) := by
    intro o x hx
    rw [Context.staticAt_insert, h₁] at hx
    split at hx
    · next ho =>
      split at hx
      · exact .inl ⟨ho.1, (Option.some.inj hx).symm⟩
      · cases hx
    · exact .inr ⟨fun h => by simp [h, hnew] at hx, hx⟩
  refine ⟨Nat.le_succ_of_le hb, fun o => if o = new then ctx.id else num o, ⟨?_, ?_, ?_⟩⟩
  · intro o x hx
    rcases key o x hx with ⟨rfl, rfl⟩ | ⟨hne, hx⟩
    · simp
    · simp only [if_neg hne]; exact hn.named o x hx
  · intro o x hx
    rcases key o x hx with ⟨rfl, -⟩ | ⟨hne, hx⟩
    · simp [ctx₁, hb]
    · have := hn.bounded o x hx
      rw [if_neg hne]
      exact ⟨this.1, Nat.lt_succ_of_lt this.2⟩
  · intro o o' ho ho' heq
    obtain ⟨x, hx⟩ := Option.isSome_iff_exists.mp ho
    obtain ⟨x', hx'⟩ := Option.isSome_iff_exists.mp ho'
    rcases key o x hx with ⟨rfl, -⟩ | ⟨hne, hx⟩ <;> rcases key o' x' hx' with ⟨rfl, -⟩ | ⟨hne', hx'⟩
    · rfl
    · have := (hn.bounded o' x' hx').2; simp only [if_neg hne', if_pos] at heq; omega
    · have := (hn.bounded o x hx).2; simp only [if_neg hne, if_pos] at heq; omega
    · simp only [if_neg hne, if_neg hne'] at heq
      exact hn.injective o o' (by simp [hx]) (by simp [hx']) heq

/-- A scope as it may be found later: the same parent, kind and label, and objects
appended. -/
structure Scope.Extends (s s' : Scope) : Prop where
  parent : s'.parent = s.parent
  type : s'.type = s.type
  label : s'.label = s.label
  objects : s.objects <+: s'.objects

theorem Scope.Extends.refl (s : Scope) : s.Extends s := ⟨rfl, rfl, rfl, List.prefix_refl _⟩

theorem Scope.Extends.trans {s₁ s₂ s₃ : Scope} (h₁ : s₁.Extends s₂) (h₂ : s₂.Extends s₃) :
    s₁.Extends s₃ :=
  ⟨h₂.parent.trans h₁.parent, h₂.type.trans h₁.type, h₂.label.trans h₁.label,
    h₁.objects.trans h₂.objects⟩

/-- What a successful check of an expression keeps, from the context it starts in to the
one it ends in. -/
structure Frame (ctx ctx' : Context) : Prop where
  scope : ctx'.scope = ctx.scope
  unit : ctx'.unit = ctx.unit
  ns : ctx'.ns = ctx.ns
  currentFntype : ctx'.currentFntype = ctx.currentFntype
  deferring : ctx'.deferring = ctx.deferring
  id_le : ctx.id ≤ ctx'.id
  length_le : ctx.scopes.length ≤ ctx'.scopes.length
  extends_ : ∀ r < ctx.scopes.length, (ctx.scopeAt r).Extends (ctx'.scopeAt r)
  objects : ∀ r < ctx.scopes.length, some r ≠ ctx.scope →
    (ctx'.scopeAt r).objects = (ctx.scopeAt r).objects
  staticOk : ∀ b, StaticOk b ctx → StaticOk b ctx'

theorem Frame.refl (ctx : Context) : Frame ctx ctx :=
  ⟨rfl, rfl, rfl, rfl, rfl, Nat.le_refl _, Nat.le_refl _, fun _ _ => .refl _, fun _ _ _ => rfl,
    fun _ => id⟩

theorem Frame.trans {ctx₁ ctx₂ ctx₃ : Context} (h₁ : Frame ctx₁ ctx₂) (h₂ : Frame ctx₂ ctx₃) :
    Frame ctx₁ ctx₃ where
  scope := h₂.scope.trans h₁.scope
  unit := h₂.unit.trans h₁.unit
  ns := h₂.ns.trans h₁.ns
  currentFntype := h₂.currentFntype.trans h₁.currentFntype
  deferring := h₂.deferring.trans h₁.deferring
  id_le := Nat.le_trans h₁.id_le h₂.id_le
  length_le := Nat.le_trans h₁.length_le h₂.length_le
  extends_ r hr := (h₁.extends_ r hr).trans (h₂.extends_ r (Nat.lt_of_lt_of_le hr h₁.length_le))
  objects r hr hs := by
    rw [h₂.objects r (Nat.lt_of_lt_of_le hr h₁.length_le) (h₁.scope ▸ hs), h₁.objects r hr hs]
  staticOk b h := h₂.staticOk b (h₁.staticOk b h)

theorem Context.extends_insert (ctx : Context) (r : ScopeRef) (obj : ScopeObject) (r' : ScopeRef) :
    (ctx.scopeAt r').Extends ((ctx.insert r obj).2.scopeAt r') := by
  by_cases h : r = r'
  · subst h
    by_cases hlt : r < ctx.scopes.length
    · rw [Context.scopeAt_insert_self _ _ hlt]
      exact ⟨rfl, rfl, rfl, List.prefix_append _ _⟩
    · have : (ctx.insert r obj).2.scopes = ctx.scopes := List.modify_eq_self (Nat.le_of_not_lt hlt)
      simp only [Context.scopeAt, this]
      exact .refl _
  · rw [Context.scopeAt_insert_of_ne _ _ h]
    exact .refl _

namespace Frame

/-- Inserting into the current scope an object that is not an `O_DECL` one. -/
theorem insert {ctx : Context} {r : ScopeRef} {obj : ScopeObject} (hr : ctx.scope = some r)
    (hd : obj.otype ≠ .decl) : Frame ctx (ctx.insert r obj).2 where
  scope := rfl
  unit := rfl
  ns := rfl
  currentFntype := rfl
  deferring := rfl
  id_le := Nat.le_refl _
  length_le := by simp
  extends_ r' _ := ctx.extends_insert r obj r'
  objects r' _ h := by rw [Context.scopeAt_insert_of_ne _ _ (by rintro rfl; exact h hr.symm)]
  staticOk b := StaticOk.of_staticAt (ctx.staticAt_insert_of_not (.inl hd)) (Nat.le_refl _)

/-- The step of a static binding: the counter bumped, and the object named after it inserted
into the current scope. -/
theorem insertStatic {ctx : Context} {r : ScopeRef} {name : Identifier} {type : TypeRef}
    (hr : ctx.scope = some r) :
    Frame ctx (({ ctx with id := ctx.id + 1 } : Context).insert r
      ⟨.decl, staticIdent ctx.id, name, type, none⟩).2 where
  scope := rfl
  unit := rfl
  ns := rfl
  currentFntype := rfl
  deferring := rfl
  id_le := Nat.le_succ _
  length_le := by simp
  extends_ r' _ := Context.extends_insert { ctx with id := ctx.id + 1 } r _ r'
  objects r' _ h := by
    rw [Context.scopeAt_insert_of_ne _ _ (by rintro rfl; exact h hr.symm)]
    rfl
  staticOk _ := StaticOk.insert_static

/-- A scope pushed, given a kind, and popped once the checks inside it kept `Frame`. -/
theorem popped {ctx ctx' : Context} {type : ExprType} {label : Option String}
    (h : Frame (ctx.push.2.setKind ctx.scopes.length type label) ctx') :
    Frame ctx { ctx' with scope := (ctx'.scopeAt ctx.scopes.length).parent } := by
  have hlt : ctx.scopes.length < (ctx.push.2.setKind ctx.scopes.length type label).scopes.length := by
    simp
  have hold : ∀ r < ctx.scopes.length,
      (ctx.push.2.setKind ctx.scopes.length type label).scopeAt r = ctx.scopeAt r := fun r hr => by
    rw [Context.scopeAt_setKind_of_ne _ _ _ (Nat.ne_of_gt hr), Context.scopeAt_push_of_lt _ hr]
  have hstatic : (ctx.push.2.setKind ctx.scopes.length type label).staticAt = ctx.staticAt := by simp
  refine ⟨?_, h.unit, h.ns, h.currentFntype, h.deferring, h.id_le,
    Nat.le_trans (Nat.le_succ _) (by simpa using h.length_le), fun r hr => ?_, fun r hr hs => ?_,
    fun b hb => ?_⟩
  · rw [(h.extends_ _ hlt).parent, Context.scopeAt_setKind_self _ _ _ (by simp)]
    simp
  · have := h.extends_ r (by simp; omega)
    rwa [hold r hr] at this
  · have := h.objects r (by simp; omega) (by simp [h.scope]; omega)
    rwa [hold r hr] at this
  · have := h.staticOk b (StaticOk.of_staticAt hstatic (Nat.le_refl _) hb)
    exact @StaticOk.of_staticAt b ctx' _ (Context.staticAt_congr ctx' (fun _ => rfl) rfl) (Nat.le_refl _) this

end Frame

instance : IsPreorder Context Frame where
  refl := Frame.refl
  trans _ _ _ := Frame.trans

/-- Every successful run of `m` relates the context it starts from to the one it ends in
by `R`. -/
def Keeps (R : Context → Context → Prop) {α : Type} (m : CheckM α) : Prop :=
  ∀ ctx a ctx', m.run ctx = .ok (a, ctx') → R ctx ctx'

/-- A child whose check keeps `R` whatever the hint. -/
@[reducible] def Child.Keeps (R : Context → Context → Prop) (c : Child) : Prop := ∀ hint, Harec.Keeps R (c.check hint)

namespace Keeps

variable {R : Context → Context → Prop} [IsPreorder Context R] {α β : Type}

theorem pure (a : α) : Keeps R (pure a : CheckM α) := by
  intro ctx b ctx' h
  obtain ⟨-, rfl⟩ := run_pure_ok h
  exact refl_of R _

theorem bind {m : CheckM α} {f : α → CheckM β} (hm : Keeps R m) (hf : ∀ a, Keeps R (f a)) :
    Keeps R (m >>= f) := by
  intro ctx b ctx' h
  obtain ⟨a, ctx₁, h₁, h₂⟩ := run_bind_ok h
  exact trans_of R (hm _ _ _ h₁) (hf a _ _ _ h₂)

theorem get : Keeps R (MonadState.get : CheckM Context) := by
  intro ctx a ctx' h
  cases h
  exact refl_of R _

omit [IsPreorder Context R] in
theorem throw (e : Abort) : Keeps R (throw e : CheckM α) := by
  intro ctx a ctx' h
  cases h

theorem expect (loc : Location) (c : Bool) (message : String) : Keeps R (Harec.expect loc c message) := by
  intro ctx a ctx' h
  rw [(expect_run_ok h).2]
  exact refl_of R _

theorem assertC (c : Bool) : Keeps R (Harec.assertC c) := by
  intro ctx a ctx' h
  rw [(assertC_run_ok h).2]
  exact refl_of R _

theorem resultOf (e : Expression) : Keeps R (Harec.resultOf e) := by
  intro ctx a ctx' h
  rw [(resultOf_run_ok h).2]
  exact refl_of R _

theorem deref (o : Option α) : Keeps R (Harec.deref o) := by
  intro ctx a ctx' h
  rw [(deref_run_ok h).2]
  exact refl_of R _

theorem mapM {f : α → CheckM β} : ∀ {l : List α}, (∀ a ∈ l, Keeps R (f a)) → Keeps R (l.mapM f)
  | [], _ => by simpa using Keeps.pure []
  | a :: l, h => by
    rw [List.mapM_cons]
    exact bind (h a (.head _)) fun _ =>
      bind (mapM fun b hb => h b (.tail _ hb)) fun _ => Keeps.pure _

theorem map {m : CheckM α} (f : α → β) (hm : Keeps R m) : Keeps R (f <$> m) := by
  rw [map_eq_pure_bind]
  exact bind hm fun _ => Keeps.pure _

omit [IsPreorder Context R] in
/-- After reading through a pointer, only the pointee matters. -/
theorem deref_bind {o : Option α} {f : α → CheckM β} (h : ∀ a, o = some a → Keeps R (f a)) :
    Keeps R (Harec.deref o >>= f) := by
  intro ctx b ctx' hrun
  obtain ⟨a, ctx₁, h₁, h₂⟩ := run_bind_ok hrun
  obtain ⟨rfl, rfl⟩ := deref_run_ok h₁
  exact h a rfl _ _ _ h₂

theorem forIn {γ : Type} {l : List γ} {init : β} {f : γ → β → CheckM (ForInStep β)}
    (h : ∀ x b, Keeps R (f x b)) : Keeps R (forIn l init f) := by
  induction l generalizing init with
  | nil => simpa using Keeps.pure init
  | cons x l ih =>
    rw [List.forIn_cons]
    refine bind (h x init) fun step => ?_
    cases step with
    | done b => exact Keeps.pure b
    | yield b => exact ih

end Keeps

/-! ### The checks that only run their children -/

section Children

variable {R : Context → Context → Prop} [IsPreorder Context R]

/-- Checks of children that each keep `R`, one after another, keep `R`. -/
theorem ChildRuns.keeps {kids : List Child} {c c' : Context} {es : List Expression}
    (h : ChildRuns kids c es c') (hk : ∀ k ∈ kids, k.Keeps R) : R c c' := by
  induction h with
  | nil c => exact refl_of R c
  | cons hint h _ ih => exact trans_of R (hk _ (.head _) hint _ _ _ h) (ih fun k hk' => hk k (.tail _ hk'))

theorem Keeps.of_checksChildren {α : Type} {kids : List Child} {B : List Expression → α → Prop} {m : CheckM α}
    (h : ChecksChildren kids B m) (hk : ∀ k ∈ kids, k.Keeps R) : Keeps R m :=
  fun c a c' hrun => let ⟨_, hr, _⟩ := h.ok c a c' hrun; hr.keeps hk

theorem Keeps.of_guard {α : Type} {m : CheckM α} (h : Guard m) : Keeps R m :=
  fun c a c' hrun => h.same c a c' hrun ▸ refl_of R c

theorem checkExprControl_keeps (loc : Location) (type : ControlType) (label : Option String) :
    Keeps R (checkExprControl loc type label) :=
  Keeps.bind Keeps.get fun _ => Keeps.bind (Keeps.expect _ _ _) fun _ => Keeps.pure _

theorem checkOpt_keeps {c : Option Child} (hc : ∀ c' ∈ c, c'.Keeps R) (hint : Option TypeRef) :
    Keeps R (Child.checkOpt c hint) := by
  cases c with
  | none => exact Keeps.pure _
  | some c => exact Keeps.map _ (hc c rfl hint)

theorem checkForLabel_keeps (labelLoc : Location) (scope : ScopeRef) (label : Option String) :
    Keeps R (checkForLabel labelLoc scope label) := by
  cases label with
  | none => exact Keeps.pure _
  | some l =>
    refine Keeps.bind Keeps.get fun _ => Keeps.bind (Keeps.forIn fun _ _ => ?_) fun _ => Keeps.pure _
    split
    · exact Keeps.bind (Keeps.expect _ _ _) fun _ => Keeps.pure _
    · exact Keeps.bind (Keeps.pure _) fun _ => Keeps.pure _

end Children

/-! ### The checks that write the context -/

section Writes

variable (env : Env)

/-- What popping a scope gives, from the context before the push to the one after the pop,
once the checks inside the scope kept `Frame`. -/
def Popped (R : Context → Context → Prop) : Prop :=
  ∀ {ctx ctx' : Context} {type : ExprType} {label : Option String},
    Frame (ctx.push.2.setKind ctx.scopes.length type label) ctx' →
      R ctx { ctx' with scope := (ctx'.scopeAt ctx.scopes.length).parent }

/-- A successful check in a scope of its own runs the check inside the new scope, pushed and
given its kind and label, and pops the scope that is current when that check returns. -/
theorem inScope_run_ok {α : Type} {type : ExprType} {label : Option String} {m : ScopeRef → CheckM α}
    {ctx ctx' : Context} {a : α} (h : (inScope type label m).run ctx = .ok (a, ctx')) :
    ∃ c r, (m ctx.scopes.length).run (ctx.push.2.setKind ctx.scopes.length type label) = .ok (a, c) ∧
      c.scope = some r ∧ ctx' = { c with scope := (c.scopeAt r).parent } := by
  obtain ⟨_, _, h₁, k₁⟩ := run_bind_ok h
  obtain ⟨rfl, rfl⟩ := scopePush_run_ok h₁
  obtain ⟨_, _, h₂, k₂⟩ := run_bind_ok k₁
  cases h₂
  obtain ⟨_, c, h₃, k₃⟩ := run_bind_ok k₂
  obtain ⟨_, _, h₄, k₄⟩ := run_bind_ok k₃
  obtain ⟨rfl, rfl⟩ := run_pure_ok k₄
  obtain ⟨hs, rfl⟩ := scopePop_run_ok h₄
  exact ⟨c, _, h₃, hs, rfl⟩

/-- A check in a scope of its own aborts where the check inside the scope does, or on popping
a null scope. -/
theorem inScope_run_error {α : Type} {type : ExprType} {label : Option String} {m : ScopeRef → CheckM α}
    {ctx : Context} {e : Abort} (h : (inScope type label m).run ctx = .error e) :
    (m ctx.scopes.length).run (ctx.push.2.setKind ctx.scopes.length type label) = .error e ∨
      e = .nullDeref := by
  rcases run_bind_error h with h₁ | ⟨_, _, h₁, k₁⟩
  · cases h₁
  obtain ⟨rfl, rfl⟩ := scopePush_run_ok h₁
  rcases run_bind_error k₁ with h₂ | ⟨_, _, h₂, k₂⟩
  · cases h₂
  cases h₂
  rcases run_bind_error k₂ with h₃ | ⟨_, _, -, k₃⟩
  · exact .inl h₃
  rcases run_bind_error k₃ with h₄ | ⟨_, _, -, k₄⟩
  · exact .inr (scopePop_run_error h₄)
  · cases k₄

/-- A check in a scope of its own relates its contexts by `R` when the checks inside the
scope keep `Frame` and popping gives `R`. -/
theorem inScope_keeps {R : Context → Context → Prop} (hR : Popped R) {α : Type} {type : ExprType}
    {label : Option String} {m : ScopeRef → CheckM α} (hm : ∀ s, Keeps Frame (m s)) :
    Keeps R (inScope type label m) := by
  intro ctx a ctx' hrun
  obtain ⟨c, r, h₃, hr, rfl⟩ := inScope_run_ok hrun
  have f₃ := hm _ _ _ _ h₃
  rw [f₃.scope] at hr
  simp only [Context.setKind_scope, Context.push_snd_scope, Option.some.injEq] at hr
  subst hr
  exact hR f₃

theorem checkExprList_keeps {R : Context → Context → Prop} (hR : Popped R) {exprs : List Child}
    (h : ∀ c ∈ exprs, c.Keeps Frame) : Keeps R (checkExprList exprs) :=
  inScope_keeps hR fun _ => Keeps.bind (Keeps.mapM fun c hc => h c hc none) fun _ =>
    Keeps.bind (Keeps.deref _) fun _ => Keeps.pure _

theorem checkExprList_frame {exprs : List Child} (h : ∀ c ∈ exprs, c.Keeps Frame) :
    Keeps Frame (checkExprList exprs) :=
  checkExprList_keeps Frame.popped h

theorem checkExprFor_keeps {R : Context → Context → Prop} (hR : Popped R) (label : Option String)
    (labelLoc : Location) {bindings : Option Child} {cond : Child} {afterthought : Option Child}
    {body : Child} (hb : ∀ c ∈ bindings, c.Keeps Frame) (hc : cond.Keeps Frame)
    (ha : ∀ c ∈ afterthought, c.Keeps Frame) (hd : body.Keeps Frame) :
    Keeps R (checkExprFor env label labelLoc bindings cond afterthought body) := by
  exact inScope_keeps hR fun s => Keeps.bind (checkForLabel_keeps labelLoc s label) fun _ =>
    Keeps.bind (checkOpt_keeps hb none) fun _ => Keeps.bind (hc _) fun _ => Keeps.bind (Keeps.resultOf _) fun _ =>
      Keeps.bind (Keeps.expect _ _ _) fun _ => Keeps.bind (checkOpt_keeps ha none) fun _ =>
        Keeps.bind (hd _) fun _ => Keeps.pure _

theorem checkExprFor_frame (label : Option String) (labelLoc : Location) {bindings : Option Child}
    {cond : Child} {afterthought : Option Child} {body : Child} (hb : ∀ c ∈ bindings, c.Keeps Frame)
    (hc : cond.Keeps Frame) (ha : ∀ c ∈ afterthought, c.Keeps Frame) (hd : body.Keeps Frame) :
    Keeps Frame (checkExprFor env label labelLoc bindings cond afterthought body) :=
  checkExprFor_keeps env Frame.popped label labelLoc hb hc ha hd

/-- A successful `defer` starts where the flag is clear, runs its child with the flag set and
clears it again. -/
theorem checkExprDefer_run_ok {loc : Location} {deferred : Child} {ctx ctx' : Context} {e : Expression}
    (h : (checkExprDefer env loc deferred).run ctx = .ok (e, ctx')) :
    ctx.deferring = false ∧ ∃ d c, (deferred.check none).run { ctx with deferring := true } = .ok (d, c) ∧
      ctx' = { c with deferring := false } := by
  obtain ⟨_, _, h₀, h⟩ := run_bind_ok h
  obtain ⟨_, _, h₁, h⟩ := run_bind_ok h
  obtain ⟨_, _, h₂, h⟩ := run_bind_ok h
  obtain ⟨d, c, h₃, h⟩ := run_bind_ok h
  obtain ⟨_, _, h₄, h⟩ := run_bind_ok h
  obtain ⟨-, rfl⟩ := run_pure_ok h
  cases h₀; cases h₂; cases h₄
  obtain ⟨hdef, rfl⟩ := expect_run_ok h₁
  exact ⟨by simpa using hdef, d, c, h₃, rfl⟩

/-- A `defer` aborts with its own diagnostic where the flag is set, and otherwise only where
its child, run with the flag set, aborts. -/
theorem checkExprDefer_run_error {loc : Location} {deferred : Child} {ctx : Context} {err : Abort}
    (h : (checkExprDefer env loc deferred).run ctx = .error err) :
    ctx.deferring = true ∧ err = .expect loc "Cannot defer within another defer expression." ∨
      ctx.deferring = false ∧ (deferred.check none).run { ctx with deferring := true } = .error err := by
  rcases run_bind_error h with h₀ | ⟨_, _, h₀, k₀⟩
  · cases h₀
  cases h₀
  rcases run_bind_error k₀ with h₁ | ⟨_, _, h₁, k₁⟩
  · obtain ⟨hset, rfl⟩ := expect_run_error h₁
    exact .inl ⟨by simpa using hset, rfl⟩
  obtain ⟨hclear, rfl⟩ := expect_run_ok h₁
  rcases run_bind_error k₁ with h₂ | ⟨_, _, h₂, k₂⟩
  · cases h₂
  cases h₂
  rcases run_bind_error k₂ with h₃ | ⟨_, _, -, k₃⟩
  · exact .inr ⟨by simpa using hclear, h₃⟩
  rcases run_bind_error k₃ with h₄ | ⟨_, _, h₄, k₄⟩
  · cases h₄
  · cases h₄; cases k₄

theorem checkExprDefer_frame (loc : Location) {deferred : Child} (hd : deferred.Keeps Frame) :
    Keeps Frame (checkExprDefer env loc deferred) := by
  intro ctx e ctx' hrun
  obtain ⟨hdef, _, _, h₃, rfl⟩ := checkExprDefer_run_ok env hrun
  have f := hd _ _ _ _ h₃
  exact ⟨f.scope, f.unit, f.ns, f.currentFntype, hdef.symm, f.id_le, f.length_le, f.extends_, f.objects,
    fun b hb => (f.staticOk b (hb.of_scopes rfl rfl (Nat.le_refl _))).of_scopes rfl rfl (Nat.le_refl _)⟩

/-- The type of a binding is computed without touching the context. -/
theorem bindingType_same (declared : Option TypeRef) (initializer : Expression) (flags : TypeFlags) :
    Keeps Eq (bindingType env declared initializer flags) := by
  unfold bindingType
  split
  · exact Keeps.pure _
  · exact Keeps.bind (Keeps.resultOf _) fun _ => Keeps.pure _

/-- A successful check of one binding checks the initializer, leaves the context alone while
it computes and tests the binding's type, and inserts the binding's object into the current
scope: an `O_BIND` object named by the binding, or for a static binding an `O_DECL` object
named `static.N` after the counter `N`, which it bumps.  The binding points at the inserted
object and stores the initializer cast to the binding's type. -/
theorem checkBinding_run_ok {loc : Location} {b : AstBinding Child} {ctx ctx' : Context}
    {eb : ExpressionBinding Expression} (h : (checkBinding env loc b).run ctx = .ok (eb, ctx')) :
    ∃ hint init c type r, (b.initializer.check hint).run ctx = .ok (init, c) ∧ c.scope = some r ∧
      (ctx' = (c.insert r ⟨.bind, ⟨b.name, none⟩, ⟨b.name, none⟩, type, none⟩).2 ∨
        ctx' = (({ c with id := c.id + 1 } : Context).insert r
          ⟨.decl, staticIdent c.id, ⟨b.name, none⟩, type, none⟩).2) ∧
      eb = ⟨⟨r, (c.scopeAt r).objects.length⟩, lowerImplicitCast type init⟩ := by
  obtain ⟨_, c₁, h₁, k₁⟩ := run_bind_ok h
  obtain ⟨type, c₂, h₂, k₂⟩ := run_bind_ok k₁
  obtain ⟨_, c₃, h₃, k₃⟩ := run_bind_ok k₂
  obtain ⟨_, c₄, h₄, k₄⟩ := run_bind_ok k₃
  obtain ⟨_, c₅, h₅, k₅⟩ := run_bind_ok k₄
  have e₂ : c₁ = c₂ := bindingType_same env _ _ _ _ _ _ h₂
  have e₅ : c₂ = c₅ := ((expect_run_ok h₅).2.trans ((resultOf_run_ok h₄).2.trans (expect_run_ok h₃).2)).symm
  subst e₂ e₅
  split at k₅
  · obtain ⟨_, _, h₆, k₆⟩ := run_bind_ok k₅
    obtain ⟨_, _, h₇, k₇⟩ := run_bind_ok k₆
    obtain ⟨rfl, rfl⟩ := run_pure_ok k₇
    cases h₆
    obtain ⟨r, hr, heq⟩ := scopeInsert_run_ok h₇
    cases heq
    exact ⟨_, _, _, type, r, h₁, hr, .inl rfl, rfl⟩
  · split at k₅
    · obtain ⟨_, _, h₆, k₆⟩ := run_bind_ok k₅
      obtain ⟨_, _, h₇, k₇⟩ := run_bind_ok k₆
      obtain ⟨_, _, h₈, k₈⟩ := run_bind_ok k₇
      obtain ⟨_, _, h₉, k₉⟩ := run_bind_ok k₈
      obtain ⟨rfl, rfl⟩ := run_pure_ok k₉
      cases h₆; cases h₇; cases h₈
      obtain ⟨r, hr, heq⟩ := scopeInsert_run_ok h₉
      cases heq
      exact ⟨_, _, _, type, r, h₁, hr, .inr rfl, rfl⟩
    · cases k₅

theorem checkBinding_frame (loc : Location) {b : AstBinding Child} (hi : b.initializer.Keeps Frame) :
    Keeps Frame (checkBinding env loc b) := by
  intro ctx e ctx' h
  obtain ⟨_, _, _, _, r, h₁, hr, rfl | rfl, -⟩ := checkBinding_run_ok env h
  · exact (hi _ _ _ _ h₁).trans (Frame.insert hr (by simp))
  · exact (hi _ _ _ _ h₁).trans (Frame.insertStatic hr)

theorem checkExprBinding_frame (loc : Location) {bindings : List (AstBinding Child)}
    (h : ∀ b ∈ bindings, b.initializer.Keeps Frame) :
    Keeps Frame (checkExprBinding env loc bindings) := by
  dsimp only [checkExprBinding]
  split
  · exact fun _ _ _ hrun => by cases hrun
  · exact Keeps.bind (Keeps.pure _) fun _ =>
      Keeps.bind (Keeps.mapM fun b hb => checkBinding_frame env loc (h b hb)) fun _ => Keeps.pure _

end Writes

/-! ### Every check -/

section Run

variable (env : Env)

/-- Every successful check of an expression keeps `Frame`. -/
theorem checkExpression_frame : ∀ (e : AstExpression) (hint : Option TypeRef),
    Keeps Frame (checkExpression env e hint) := by
  intro e
  induction e using AstExpression.kidsInduction with
  | kids e _ he h =>
    exact fun hint => Keeps.of_checksChildren (checkExpression_checksChildren env he hint) (List.forall_mem_map.mpr h)
  | accessIdentifier loc ident => exact fun _ => Keeps.of_guard (checkExprAccessIdentifier_guard env loc ident)
  | binding loc _ h => exact fun _ => checkExprBinding_frame env loc (bindingChildren_forall env h)
  | control loc type label => exact fun _ => checkExprControl_keeps loc type label
  | defer loc _ hd => exact fun _ => checkExprDefer_frame env loc hd
  | «for» _ label labelLoc _ _ _ _ hb hc ha hd =>
    exact fun _ => checkExprFor_frame env label labelLoc (optChild_forall env hb) hc (optChild_forall env ha) hd
  | list _ _ h => exact fun _ => checkExprList_frame (children_forall env h)

end Run

end Harec
