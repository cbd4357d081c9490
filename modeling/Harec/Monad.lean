import Harec.Scope

/-!
# Runs of the checker

The inversion lemmas every proof about a run of the checker starts from: a successful
run of `m >>= f` is a successful run of `m` followed by one of `f`, and a successful
`expect`, `assertC`, `resultOf` or `deref` leaves the context as it was and establishes
what it tests.  Proofs peel a run apart with these and never unfold the monad.
-/

namespace Harec

variable {α β : Type} {ctx ctx' : Context}

theorem run_bind_ok {m : CheckM α} {f : α → CheckM β} {b : β}
    (h : (m >>= f).run ctx = .ok (b, ctx')) :
    ∃ a ctx₁, m.run ctx = .ok (a, ctx₁) ∧ (f a).run ctx₁ = .ok (b, ctx') := by
  rw [StateT.run_bind] at h
  cases hm : m.run ctx with
  | error e => rw [hm] at h; cases h
  | ok p => rw [hm] at h; exact ⟨p.1, p.2, rfl, h⟩

/-- A run through an action that succeeds continues with its value and state. -/
theorem run_bind_of_ok {m : CheckM α} {f : α → CheckM β} {a : α} {ctx₁ : Context}
    (h : m.run ctx = .ok (a, ctx₁)) : (m >>= f).run ctx = (f a).run ctx₁ := by
  rw [StateT.run_bind, h]
  rfl

/-- A run of `m >>= f` that aborts aborts in `m`, or in `f` after `m` succeeded. -/
theorem run_bind_error {m : CheckM α} {f : α → CheckM β} {e : Abort}
    (h : (m >>= f).run ctx = .error e) :
    m.run ctx = .error e ∨ ∃ a ctx₁, m.run ctx = .ok (a, ctx₁) ∧ (f a).run ctx₁ = .error e := by
  rw [StateT.run_bind] at h
  cases hm : m.run ctx with
  | error e' => rw [hm] at h; cases h; exact .inl rfl
  | ok p => rw [hm] at h; exact .inr ⟨p.1, p.2, rfl, h⟩

/-- A run that `decide` finds successful, as a result and a context. -/
theorem exists_run_ok_of_isOk {r : Except Abort (α × Context)} (h : r.isOk = true) :
    ∃ a ctx', r = .ok (a, ctx') := by
  cases r with
  | error e => cases h
  | ok p => exact ⟨p.1, p.2, rfl⟩

theorem run_pure_ok {a b : α} (h : (pure a : CheckM α).run ctx = .ok (b, ctx')) :
    b = a ∧ ctx' = ctx := by
  cases h; exact ⟨rfl, rfl⟩

theorem run_map_ok {m : CheckM α} {f : α → β} {b : β} (h : (f <$> m).run ctx = .ok (b, ctx')) :
    ∃ a, m.run ctx = .ok (a, ctx') ∧ b = f a := by
  rw [map_eq_pure_bind] at h
  obtain ⟨a, _, ha, h⟩ := run_bind_ok h
  obtain ⟨rfl, rfl⟩ := run_pure_ok h
  exact ⟨a, ha, rfl⟩

/-- A successful `mapM` returns one value for each element. -/
theorem mapM_run_length {f : α → CheckM β} :
    ∀ {l : List α} {ctx ctx' : Context} {bs : List β}, (l.mapM f).run ctx = .ok (bs, ctx') →
      bs.length = l.length
  | [], _, _, _, h => by
    obtain ⟨rfl, -⟩ := run_pure_ok h
    rfl
  | _ :: _, _, _, _, h => by
    rw [List.mapM_cons] at h
    obtain ⟨_, _, -, k₁⟩ := run_bind_ok h
    obtain ⟨_, _, h₂, k₂⟩ := run_bind_ok k₁
    obtain ⟨rfl, -⟩ := run_pure_ok k₂
    exact congrArg Nat.succ (mapM_run_length h₂)

theorem expect_run_ok {loc : Location} {c : Bool} {message : String} {u : PUnit}
    (h : (expect loc c message).run ctx = .ok (u, ctx')) : c = true ∧ ctx' = ctx := by
  unfold expect at h
  split at h
  · cases h; exact ⟨‹_›, rfl⟩
  · cases h

/-- An `expect` aborts only when its condition fails, with its own diagnostic. -/
theorem expect_run_error {loc : Location} {c : Bool} {message : String} {e : Abort}
    (h : (expect loc c message).run ctx = .error e) : c = false ∧ e = .expect loc message := by
  unfold expect at h
  split at h <;> cases h
  exact ⟨Bool.eq_false_iff.mpr ‹_›, rfl⟩

theorem assertC_run_ok {c : Bool} {u : PUnit} (h : (assertC c).run ctx = .ok (u, ctx')) :
    c = true ∧ ctx' = ctx := by
  unfold assertC at h
  split at h
  · cases h; exact ⟨‹_›, rfl⟩
  · cases h

theorem resultOf_run_ok {e : Expression} {t : TypeRef} (h : (resultOf e).run ctx = .ok (t, ctx')) :
    e.result = some t ∧ ctx' = ctx := by
  unfold resultOf at h
  split at h
  · cases h; exact ⟨‹_›, rfl⟩
  · cases h

theorem resultOf_run_error {e : Expression} {err : Abort} (h : (resultOf e).run ctx = .error err) :
    err = .nullDeref := by
  unfold resultOf at h
  split at h <;> cases h
  rfl

theorem assertC_run_error {c : Bool} {err : Abort} (h : (assertC c).run ctx = .error err) :
    err = .assertion := by
  unfold assertC at h
  split at h <;> cases h
  rfl

theorem deref_run_ok {o : Option α} {a : α} (h : (deref o).run ctx = .ok (a, ctx')) :
    o = some a ∧ ctx' = ctx := by
  cases o with
  | none => cases h
  | some a' => cases h; exact ⟨rfl, rfl⟩

theorem deref_run_error {o : Option α} {err : Abort} (h : (deref o).run ctx = .error err) :
    err = .nullDeref := by
  cases o <;> cases h
  rfl

/-- Every successful run of `m` returns a value satisfying `P`. -/
def Returns (m : CheckM α) (P : α → Prop) : Prop :=
  ∀ ctx a ctx', m.run ctx = .ok (a, ctx') → P a

namespace Returns

variable {P : β → Prop}

theorem of_run {m : CheckM β} {ctx ctx' : Context} {b : β} (hrun : m.run ctx = .ok (b, ctx'))
    (h : Returns m P) : P b :=
  h _ _ _ hrun

theorem bind {m : CheckM α} {f : α → CheckM β} (h : ∀ a, Returns (f a) P) : Returns (m >>= f) P := by
  intro ctx b ctx' hrun
  obtain ⟨a, _, -, hrun⟩ := run_bind_ok hrun
  exact h a _ _ _ hrun

theorem pure {b : β} (h : P b) : Returns (pure b : CheckM β) P := by
  intro ctx b' ctx' hrun
  obtain ⟨rfl, -⟩ := run_pure_ok hrun
  exact h

theorem throw (e : Abort) : Returns (throw e : CheckM β) P := by
  intro ctx b ctx' hrun
  cases hrun

theorem map {m : CheckM α} {f : α → β} (h : Returns m fun a => P (f a)) : Returns (f <$> m) P := by
  intro ctx b ctx' hrun
  obtain ⟨a, ha, rfl⟩ := run_map_ok hrun
  exact h _ _ _ ha

end Returns

@[simp] theorem scopePush_run : scopePush.run ctx = .ok ctx.push := rfl

theorem scopePush_run_ok {r : ScopeRef} (h : scopePush.run ctx = .ok (r, ctx')) :
    r = ctx.push.1 ∧ ctx' = ctx.push.2 := by
  rw [scopePush_run] at h
  obtain ⟨h₁, h₂⟩ := Prod.ext_iff.mp (Except.ok.inj h)
  exact ⟨h₁.symm, h₂.symm⟩

theorem scopePop_run_ok {r : ScopeRef} (h : scopePop.run ctx = .ok (r, ctx')) :
    ctx.scope = some r ∧ ctx' = { ctx with scope := (ctx.scopeAt r).parent } := by
  simp only [scopePop, StateT.run_bind] at h
  cases hs : ctx.scope with
  | none => simp [hs, deref] at h; cases h
  | some r' => simp [hs, deref] at h; obtain ⟨rfl, rfl⟩ := h; exact ⟨rfl, rfl⟩

/-- `scope_pop` aborts only by reading a null current scope. -/
theorem scopePop_run_error {e : Abort} (h : scopePop.run ctx = .error e) : e = .nullDeref := by
  rcases run_bind_error h with h₁ | ⟨c, c₁, h₁, k₁⟩
  · cases h₁
  cases h₁
  rcases run_bind_error k₁ with h₂ | ⟨r, c₂, h₂, k₂⟩
  · cases hs : ctx.scope <;> rw [hs] at h₂ <;> cases h₂
    rfl
  · obtain ⟨-, rfl⟩ := deref_run_ok h₂
    rcases run_bind_error k₂ with h₃ | ⟨_, _, -, k₃⟩
    · cases h₃
    · cases k₃

theorem scopeInsert_run_ok {r : Option ScopeRef} {otype : ObjectType} {ident name : Identifier}
    {type : TypeRef} {value : Option Expression} {o : ObjectRef}
    (h : (scopeInsert r otype ident name type value).run ctx = .ok (o, ctx')) :
    ∃ s, r = some s ∧ (o, ctx') = ctx.insert s ⟨otype, ident, name, type, value⟩ := by
  cases r with
  | none => cases h
  | some s => simp only [scopeInsert, deref] at h; cases h; exact ⟨s, rfl, rfl⟩

/-- `scope_insert` aborts only by reading a null scope. -/
theorem scopeInsert_run_error {r : Option ScopeRef} {otype : ObjectType} {ident name : Identifier}
    {type : TypeRef} {value : Option Expression} {err : Abort}
    (h : (scopeInsert r otype ident name type value).run ctx = .error err) : err = .nullDeref := by
  cases r <;> cases h
  rfl

/-- `scope_insert` as the last statement of a block. -/
theorem scopeInsert_pure_run_ok {r : Option ScopeRef} {otype : ObjectType} {ident name : Identifier}
    {type : TypeRef} {value : Option Expression} {b b' : β}
    (h : (scopeInsert r otype ident name type value >>= fun _ => (pure b : CheckM β)).run ctx =
      .ok (b', ctx')) :
    ∃ s, r = some s ∧ ctx' = (ctx.insert s ⟨otype, ident, name, type, value⟩).2 := by
  obtain ⟨_, _, h₁, k₁⟩ := run_bind_ok h
  obtain ⟨-, rfl⟩ := run_pure_ok k₁
  obtain ⟨s, hs, heq⟩ := scopeInsert_run_ok h₁
  exact ⟨s, hs, (Prod.ext_iff.mp heq).2⟩

end Harec
