import Mathlib.Data.Bool.Basic
import Harec.Kinds
import Harec.Yields

/-!
# Properties of the tree that a check decides

Two rules of `check.c` depend on where a node lies in the syntax tree rather than on the
types of its children: the label rules of `check_expr_for` and `check_expr_control`, and the
rule of `check_expr_defer` against nested defers (§4.1, §4.4).  Each is a Boolean property of
the tree, computed from a parameter that the nodes above it set (the enclosing loops, or
whether the node lies in a deferred expression), and a check decides it:
`Decides P X m R` says that from a context satisfying `P p` a successful run keeps `P p` and
`R p` holds, and that a run aborting with a diagnostic of `X` does so only where `R p` fails.

Every other kind of node tests the types of its children only, and raises none of these
diagnostics (`Abort.isPlacement`).  So its check decides the conjunction of what its
children's checks decide: `Decides.of_checksChildren`, once for every property of this form.
-/

namespace Harec

/-- An abort of `X` blames a tree whose flag is `R` only if the flag is clear. -/
def Abort.Blames (X : Abort → Bool) (e : Abort) (R : Bool) : Prop := X e = true → R = false

theorem Abort.Blames.of_false {X : Abort → Bool} {e : Abort} {R : Bool} (h : X e = false) : e.Blames X R :=
  fun hx => absurd (h.symm.trans hx) Bool.false_ne_true

theorem Abort.Blames.of_not {X : Abort → Bool} (hX : ∀ e, X e = true → e.isPlacement = true) {e : Abort}
    {R : Bool} (h : e.isPlacement = false) : e.Blames X R :=
  fun hx => absurd (h.symm.trans (hX e hx)) Bool.false_ne_true

theorem Abort.Blames.nullDeref {X : Abort → Bool} (hX : ∀ e, X e = true → e.isPlacement = true) {R : Bool} :
    Abort.nullDeref.Blames X R :=
  Abort.Blames.of_not hX rfl

theorem Abort.Blames.assertion {X : Abort → Bool} (hX : ∀ e, X e = true → e.isPlacement = true) {R : Bool} :
    Abort.assertion.Blames X R :=
  Abort.Blames.of_not hX rfl

/-- A check decides the flag `R p` for the diagnostics `X`, under the invariant `P p`. -/
def Decides {π α : Type} (P : π → Context → Prop) (X : Abort → Bool) (m : CheckM α) (R : π → Bool) : Prop :=
  ∀ p, Yields (P p) m (fun _ => R p = true) fun e => e.Blames X (R p)

theorem Decides.congr {π α : Type} {P : π → Context → Prop} {X : Abort → Bool} {m : CheckM α}
    {R R' : π → Bool} (h : Decides P X m R) (hR : R = R') : Decides P X m R' :=
  hR ▸ h

/-- A child whose check, whatever the hint, decides the flag `f` gives its tree. -/
def Child.Decides {π : Type} (P : π → Context → Prop) (X : Abort → Bool) (f : AstExpression → π → Bool)
    (c : Child) : Prop :=
  ∀ hint, Harec.Decides P X (c.check hint) (f c.ast)

/-- A child's check inside the check of a node whose flag `R` is set only if the child's is. -/
theorem Child.Decides.within {π : Type} {P : π → Context → Prop} {X : Abort → Bool}
    {f : AstExpression → π → Bool} {c : Child} (hc : c.Decides P X f) (hint : Option TypeRef) (p : π)
    {R : Bool} (hR : R = true → f c.ast p = true) :
    Yields (P p) (c.check hint) (fun _ => f c.ast p = true) fun e => e.Blames X R :=
  (hc hint p).mono (fun _ => id) fun _ he hl =>
    Bool.eq_false_iff.mpr fun h => Bool.false_ne_true ((he hl).symm.trans (hR h))

theorem bindingType_yields (env : Env) {P : Context → Prop} {E : Abort → Prop} (declared : Option TypeRef)
    (initializer : Expression) (flags : TypeFlags) (h : E .nullDeref) :
    Yields P (bindingType env declared initializer flags) (fun _ => True) E := by
  unfold bindingType
  split
  · exact Yields.pure trivial
  · exact Yields.bind (Yields.resultOf h) fun _ _ => Yields.pure trivial

/-! ### The checks that test types only -/

section Kinds

variable (env : Env) {π : Type} {P : π → Context → Prop} {X : Abort → Bool} {f : AstExpression → π → Bool}
  (hX : ∀ e, X e = true → e.isPlacement = true)

/-- Checks of children that each decide their flag, one after another from a context where
`P p` holds, keep `P p`, and every child's flag is set. -/
theorem ChildRuns.decides {kids : List Child} {c c' : Context} {es : List Expression}
    (h : ChildRuns kids c es c') (hk : ∀ k ∈ kids, k.Decides P X f) {p : π} (hp : P p c) :
    P p c' ∧ kids.all (f ·.ast p) = true := by
  induction h with
  | nil => exact ⟨hp, rfl⟩
  | cons hint h _ ih =>
    obtain ⟨hp₁, hf⟩ := (hk _ (.head _) hint p).ok _ _ _ hp h
    obtain ⟨hp', hfs⟩ := ih (fun k hk' => hk k (.tail _ hk')) hp₁
    exact ⟨hp', by simp [hf, hfs]⟩

/-- Checks of children that abort, one after another from a context where `P p` holds, abort
where the flag of one of them is clear. -/
theorem ChildAborts.blames {kids : List Child} {c : Context} {err : Abort} (h : ChildAborts kids c err)
    (hk : ∀ k ∈ kids, k.Decides P X f) {p : π} (hp : P p c) : err.Blames X (kids.all (f ·.ast p)) := by
  induction h with
  | here hint h => exact fun hx => by simp [(hk _ (.head _) hint p).error _ _ hp h hx]
  | later hint h _ ih =>
    obtain ⟨hp₁, -⟩ := (hk _ (.head _) hint p).ok _ _ _ hp h
    exact fun hx => by simp [ih (fun k hk' => hk k (.tail _ hk')) hp₁ hx]

include hX

/-- A check that only checks its children and tests decides the conjunction of their flags. -/
theorem Decides.of_checksChildren {α : Type} {kids : List Child} {B : List Expression → α → Prop}
    {m : CheckM α} (h : ChecksChildren kids B m) (hk : ∀ k ∈ kids, k.Decides P X f) :
    Decides P X m fun p => kids.all (f ·.ast p) := fun _ =>
  ⟨fun c a c' hp hrun => let ⟨_, hr, _⟩ := h.ok c a c' hrun; hr.decides hk hp,
    fun c err hp hrun => (h.error c err hrun).elim (·.blames hk hp) (Abort.Blames.of_not hX)⟩

theorem Decides.of_guard {α : Type} {m : CheckM α} (h : Guard m) : Decides P X m fun _ => true := fun _ =>
  ⟨fun c a c' hp hrun => ⟨h.same c a c' hrun ▸ hp, rfl⟩, fun c err _ hrun => Abort.Blames.of_not hX (h.error c err hrun)⟩

/-- A binding inserts into the current scope and may bump the counter: a check of a `let`
keeps an invariant that both keep. -/
theorem checkBinding_decides (hins : ∀ p c r o, P p c → P p (c.insert r o).2)
    (hid : ∀ p (c : Context) n, P p c → P p { c with id := n }) (loc : Location) {b : AstBinding Child}
    (hi : b.initializer.Decides P X f) (p : π) {R : Bool} (hR : R = true → f b.initializer.ast p = true) :
    Yields (P p) (checkBinding env loc b) (fun _ => f b.initializer.ast p = true) fun e => e.Blames X R := by
  refine Yields.bind (hi.within _ p hR) fun _ hf => Yields.bind (bindingType_yields env _ _ _ (.nullDeref hX))
    fun _ _ => Yields.bind (Yields.expect (.of_not hX rfl)) fun _ _ => Yields.bind (Yields.resultOf (.nullDeref hX))
      fun _ _ => Yields.bind (Yields.expect (.of_not hX rfl)) fun _ _ => ?_
  have hins' : ∀ {c : Context} {r o}, P p c → P p (c.insert r o).2 := fun h => hins _ _ _ _ h
  split
  · exact Yields.bind Yields.get fun _ _ =>
      Yields.bind (Yields.scopeInsert (fun _ _ h => hins' h) (.nullDeref hX)) fun _ _ => Yields.pure hf
  · split
    · exact Yields.bind Yields.get fun _ hc => Yields.bind (Yields.set (hid _ _ _ hc)) fun _ _ =>
        Yields.bind Yields.get fun _ _ =>
          Yields.bind (Yields.scopeInsert (fun _ _ h => hins' h) (.nullDeref hX)) fun _ _ => Yields.pure hf
    · exact Yields.throw (.of_not hX rfl)

theorem checkExprBinding_decides (hins : ∀ p c r o, P p c → P p (c.insert r o).2)
    (hid : ∀ p (c : Context) n, P p c → P p { c with id := n }) (loc : Location)
    {bindings : List (AstBinding Child)} (h : ∀ b ∈ bindings, b.initializer.Decides P X f) :
    Decides P X (checkExprBinding env loc bindings) fun p => bindings.all (f ·.initializer.ast p) := by
  intro p
  dsimp only [checkExprBinding]
  split
  · exact ⟨fun _ _ _ _ hrun => (by cases hrun), fun _ _ _ hrun => (by cases hrun; exact .nullDeref hX)⟩
  · exact Yields.bind (Yields.pure (Q := fun _ => True) trivial) fun _ _ =>
      Yields.bind (Yields.mapM_all fun b hb => checkBinding_decides env hX hins hid loc (h b hb) p fun hr =>
        List.all_eq_true.mp hr b hb) fun _ hall => Yields.pure (List.all_eq_true.mpr hall)

omit hX in
theorem checkOpt_decides {o : Option Child} (h : ∀ c ∈ o, c.Decides P X f) (hint : Option TypeRef)
    (p : π) {R : Bool} (hR : R = true → o.all (f ·.ast p) = true) :
    Yields (P p) (Child.checkOpt o hint) (fun _ => o.all (f ·.ast p) = true) fun e => e.Blames X R := by
  cases o with
  | none => exact Yields.pure rfl
  | some c => exact Yields.map ((h c rfl).within hint p hR)

/-- A check in a scope of its own decides what the checks inside it decide, for an
invariant that pushing a scope, giving it its kind and popping it keep. -/
theorem inScope_decides {α : Type} {type : ExprType} {label : Option String} {m : ScopeRef → CheckM α}
    {R : π → Bool} (hpush : ∀ p c, P p c → P p c.push.2)
    (hkind : ∀ p c r, P p c → P p (c.setKind r type label))
    (hpop : ∀ p (c : Context) r, P p c → P p { c with scope := (c.scopeAt r).parent })
    (hm : ∀ s, Decides P X (m s) R) : Decides P X (inScope type label m) R := fun p =>
  Yields.bind (Yields.scopePush (hpush p)) fun s _ =>
    Yields.bind (Yields.modify fun c hc => hkind p c s hc) fun _ _ =>
      Yields.bind (hm s p) fun _ ha =>
        Yields.bind (Yields.scopePop (fun c r hc _ => hpop p c r hc) (Abort.Blames.nullDeref hX)) fun _ _ =>
          Yields.pure ha

end Kinds

end Harec
