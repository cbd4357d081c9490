import Mathlib.Data.List.Forall2
import Harec.Monad

/-!
# Specifications of runs

`Yields P m Q E` is a Hoare triple of the checker's monad whose precondition is an
invariant: every successful run of `m` from a context satisfying `P` ends in a context
satisfying `P` and returns a value satisfying `Q`, and every run from such a context that
aborts stops with a diagnostic satisfying `E`.  A check's specification is proved from its
children's by the rules below, one per construct of the monad: a bind passes the fact its
first action establishes on to the rest, a test establishes what it tests and aborts with
its own diagnostic, and a read of the context establishes `P` of what it read.

The whole-tree theorems about labels and casts are `Yields` statements, with `P` the
context a check may run in, `Q` what its result, or its syntax tree, satisfies, and `E`
what an abort says about the tree.
-/

namespace Harec

variable {α β γ : Type}

/-- What the runs of `m` from contexts satisfying `P` do: a successful run ends in a context
satisfying `P` and returns a value satisfying `Q`, and a run that aborts stops with a
diagnostic satisfying `E`. -/
structure Yields (P : Context → Prop) (m : CheckM α) (Q : α → Prop) (E : Abort → Prop) : Prop where
  ok : ∀ ctx a ctx', P ctx → m.run ctx = .ok (a, ctx') → P ctx' ∧ Q a
  error : ∀ ctx e, P ctx → m.run ctx = .error e → E e

namespace Yields

variable {P : Context → Prop} {Q Q' : α → Prop} {E E' : Abort → Prop}

theorem mono {m : CheckM α} (h : Yields P m Q E) (hq : ∀ a, Q a → Q' a) (he : ∀ e, E e → E' e) :
    Yields P m Q' E' :=
  ⟨fun ctx a ctx' hp hrun => (h.ok ctx a ctx' hp hrun).imp_right (hq a),
    fun ctx e hp hrun => he e (h.error ctx e hp hrun)⟩

theorem bind {m : CheckM α} {f : α → CheckM β} {Q₁ : α → Prop} {Q : β → Prop}
    (hm : Yields P m Q₁ E) (hf : ∀ a, Q₁ a → Yields P (f a) Q E) : Yields P (m >>= f) Q E where
  ok ctx b ctx' hp hrun := by
    obtain ⟨a, c₁, h₁, h₂⟩ := run_bind_ok hrun
    obtain ⟨hp₁, hq₁⟩ := hm.ok _ _ _ hp h₁
    exact (hf a hq₁).ok _ _ _ hp₁ h₂
  error ctx e hp hrun := by
    rcases run_bind_error hrun with h₁ | ⟨a, c₁, h₁, h₂⟩
    · exact hm.error _ _ hp h₁
    · obtain ⟨hp₁, hq₁⟩ := hm.ok _ _ _ hp h₁
      exact (hf a hq₁).error _ _ hp₁ h₂

theorem pure {a : α} (h : Q a) : Yields P (pure a) Q E where
  ok ctx b ctx' hp hrun := by
    obtain ⟨rfl, rfl⟩ := run_pure_ok hrun
    exact ⟨hp, h⟩
  error _ _ _ hrun := by cases hrun

theorem throw {e : Abort} (h : E e) : Yields P (throw e : CheckM α) Q E where
  ok _ _ _ _ hrun := by cases hrun
  error _ _ _ hrun := by cases hrun; exact h

/-- Reading the context returns a context satisfying the invariant. -/
theorem get : Yields P (MonadState.get : CheckM Context) P E where
  ok _ _ _ hp hrun := by cases hrun; exact ⟨hp, hp⟩
  error _ _ _ hrun := by cases hrun

theorem set {c : Context} (h : P c) : Yields P (set c : CheckM PUnit) (fun _ => True) E where
  ok _ _ _ _ hrun := by cases hrun; exact ⟨h, trivial⟩
  error _ _ _ hrun := by cases hrun

theorem modify {f : Context → Context} (h : ∀ c, P c → P (f c)) :
    Yields P (modify f : CheckM PUnit) (fun _ => True) E where
  ok _ _ _ hp hrun := by cases hrun; exact ⟨h _ hp, trivial⟩
  error _ _ _ hrun := by cases hrun

theorem expect {loc : Location} {c : Bool} {message : String} (h : E (.expect loc message)) :
    Yields P (Harec.expect loc c message) (fun _ => c = true) E where
  ok ctx a ctx' hp hrun := by
    obtain ⟨hc, rfl⟩ := expect_run_ok hrun
    exact ⟨hp, hc⟩
  error _ _ _ hrun := by
    unfold Harec.expect at hrun
    split at hrun <;> cases hrun
    exact h

theorem assertC {c : Bool} (h : E .assertion) : Yields P (Harec.assertC c) (fun _ => c = true) E where
  ok ctx a ctx' hp hrun := by
    obtain ⟨hc, rfl⟩ := assertC_run_ok hrun
    exact ⟨hp, hc⟩
  error _ _ _ hrun := by
    unfold Harec.assertC at hrun
    split at hrun <;> cases hrun
    exact h

theorem resultOf {e : Expression} (h : E .nullDeref) :
    Yields P (Harec.resultOf e) (fun t => e.result = some t) E where
  ok ctx a ctx' hp hrun := by
    obtain ⟨he, rfl⟩ := resultOf_run_ok hrun
    exact ⟨hp, he⟩
  error _ _ _ hrun := by
    unfold Harec.resultOf at hrun
    split at hrun <;> cases hrun
    exact h

theorem deref {o : Option α} (h : E .nullDeref) : Yields P (Harec.deref o) (fun a => o = some a) E where
  ok ctx a ctx' hp hrun := by
    obtain ⟨ho, rfl⟩ := deref_run_ok hrun
    exact ⟨hp, ho⟩
  error _ _ _ hrun := by
    cases o <;> cases hrun
    exact h

theorem scopeInsert {r : Option ScopeRef} {otype : ObjectType} {ident name : Identifier}
    {type : TypeRef} {value : Option Expression}
    (hp : ∀ c s, P c → P (c.insert s ⟨otype, ident, name, type, value⟩).2) (h : E .nullDeref) :
    Yields P (Harec.scopeInsert r otype ident name type value) (fun _ => True) E where
  ok ctx a ctx' hc hrun := by
    obtain ⟨s, -, heq⟩ := scopeInsert_run_ok hrun
    cases heq
    exact ⟨hp _ _ hc, trivial⟩
  error _ _ _ hrun := by
    cases r <;> cases hrun
    exact h

theorem scopePush (h : ∀ c, P c → P c.push.2) : Yields P Harec.scopePush (fun _ => True) E where
  ok ctx a ctx' hc hrun := by
    obtain ⟨-, rfl⟩ := scopePush_run_ok hrun
    exact ⟨h _ hc, trivial⟩
  error _ _ _ hrun := by cases hrun

/-- Popping reads the current scope, which is null only in a context the invariant allows. -/
theorem scopePop (h : ∀ c r, P c → c.scope = some r → P { c with scope := (c.scopeAt r).parent })
    (he : E .nullDeref) : Yields P Harec.scopePop (fun _ => True) E where
  ok ctx a ctx' hc hrun := by
    obtain ⟨hs, rfl⟩ := scopePop_run_ok hrun
    exact ⟨h _ _ hc hs, trivial⟩
  error _ _ _ hrun := by rw [scopePop_run_error hrun]; exact he

theorem map {m : CheckM α} {f : α → β} {Q : β → Prop} (h : Yields P m (fun a => Q (f a)) E) :
    Yields P (f <$> m) Q E := by
  rw [map_eq_pure_bind]
  exact bind h fun a ha => pure ha

/-- The results of `mapM` are related elementwise to the elements by what each run
establishes. -/
theorem mapM {f : γ → CheckM β} {Q : γ → β → Prop} :
    ∀ {l : List γ}, (∀ x ∈ l, Yields P (f x) (Q x) E) → Yields P (l.mapM f) (List.Forall₂ Q l) E
  | [], _ => by simpa using Yields.pure List.Forall₂.nil
  | x :: l, h => by
    rw [List.mapM_cons]
    exact bind (h x (.head _)) fun b hb =>
      bind (mapM fun y hy => h y (.tail _ hy)) fun bs hbs => Yields.pure (.cons hb hbs)

/-- A `mapM` whose every run establishes a fact of its element establishes it of all. -/
theorem mapM_all {f : γ → CheckM β} {p : γ → Prop} {l : List γ}
    (h : ∀ x ∈ l, Yields P (f x) (fun _ => p x) E) : Yields P (l.mapM f) (fun _ => ∀ x ∈ l, p x) E :=
  (mapM h).mono (fun _ hl => ((List.forall₂_and_left _ _).mp (hl.imp fun _ _ h => ⟨h, trivial⟩)).1) fun _ => id

theorem forIn {l : List γ} {init : β} {f : γ → β → CheckM (ForInStep β)}
    (h : ∀ x b, Yields P (f x b) (fun _ => True) E) : Yields P (forIn l init f) (fun _ => True) E := by
  induction l generalizing init with
  | nil => simpa using Yields.pure (P := P) (Q := fun _ : β => True) (E := E) trivial
  | cons x l ih =>
    rw [List.forIn_cons]
    refine bind (h x init) fun step _ => ?_
    cases step with
    | done b => exact Yields.pure trivial
    | yield b => exact ih

end Yields

/-! ## Pre- and postconditions

`Triple P m Q` is the Hoare triple of the successful runs: every successful run of `m` from a
context satisfying `P` ends in a context satisfying `Q` of its result.  Unlike `Yields`, the
condition after may differ from the one before, so that it can record what the run did. -/

/-- Every successful run of `m` from a context satisfying `P` ends in a context satisfying
`Q` of its result. -/
def Triple (P : Context → Prop) (m : CheckM α) (Q : α → Context → Prop) : Prop :=
  ∀ ctx a ctx', P ctx → m.run ctx = .ok (a, ctx') → Q a ctx'

namespace Triple

variable {P : Context → Prop} {Q : α → Context → Prop}

theorem bind {m : CheckM α} {f : α → CheckM β} {Q₁ : α → Context → Prop} {R : β → Context → Prop}
    (hm : Triple P m Q₁) (hf : ∀ a, Triple (Q₁ a) (f a) R) : Triple P (m >>= f) R := by
  intro ctx b ctx' hp hrun
  obtain ⟨a, c₁, h₁, h₂⟩ := run_bind_ok hrun
  exact hf a _ _ _ (hm _ _ _ hp h₁) h₂

theorem mono {m : CheckM α} {Q' : α → Context → Prop} (h : Triple P m Q) (hq : ∀ a c, Q a c → Q' a c) :
    Triple P m Q' :=
  fun _ _ _ hp hrun => hq _ _ (h _ _ _ hp hrun)

theorem pure {a : α} (h : ∀ c, P c → Q a c) : Triple P (pure a) Q := by
  intro ctx b ctx' hp hrun
  obtain ⟨rfl, rfl⟩ := run_pure_ok hrun
  exact h _ hp

theorem pure_same {a : α} : Triple P (Pure.pure a : CheckM α) fun _ => P := pure fun _ => id

theorem throw {e : Abort} : Triple P (throw e : CheckM α) Q := by
  intro _ _ _ _ hrun
  cases hrun

/-- A run that starts by aborting never succeeds. -/
theorem throw_bind {e : Abort} {f : α → CheckM β} {R : β → Context → Prop} :
    Triple P (MonadExcept.throw e >>= f) R := by
  intro _ _ _ _ hrun
  obtain ⟨_, _, h, -⟩ := run_bind_ok hrun
  cases h

/-- A step that leaves the context alone. -/
theorem of_eq {m : CheckM α} (h : ∀ ctx a ctx', m.run ctx = .ok (a, ctx') → ctx' = ctx) :
    Triple P m fun _ => P :=
  fun _ _ _ hp hrun => h _ _ _ hrun ▸ hp

theorem get : Triple P (MonadState.get : CheckM Context) fun _ => P :=
  of_eq fun _ _ _ h => by cases h; rfl

theorem expect {loc : Location} {c : Bool} {message : String} :
    Triple P (Harec.expect loc c message) fun _ => P :=
  of_eq fun _ _ _ h => (expect_run_ok h).2

theorem assertC {c : Bool} : Triple P (Harec.assertC c) fun _ => P :=
  of_eq fun _ _ _ h => (assertC_run_ok h).2

theorem resultOf {e : Expression} : Triple P (Harec.resultOf e) fun _ => P :=
  of_eq fun _ _ _ h => (resultOf_run_ok h).2

theorem deref {o : Option α} : Triple P (Harec.deref o) fun _ => P :=
  of_eq fun _ _ _ h => (deref_run_ok h).2

end Triple

end Harec
