import Mathlib.Data.List.Basic
import Harec.Frame
import Harec.Yields

/-!
# The loops around a check

`check_expr_for` gives the scope it pushes the kind `EXPR_FOR` and the loop's label, after
testing that no scope above it carries that label; `check_expr_list` gives its scope the
kind `EXPR_LIST` and no label; `check_expr_control` walks up from the current scope to the
first `for` scope, with the label of the `break` or `continue` if it has one (§4.1, §4.4).

In an arena where every scope's parent was pushed before it (`Context.WellScoped`), the
walk up from a scope is the list of the scopes that enclose it, innermost first, and
`Context.loops` is the list of the `for` scopes among them with their labels: the loops
around the expression being checked.  This module says what each step of the checker does
to it: pushing a scope for a loop puts the loop in front (`loops_enter`), popping it
restores the loops of the context the loop was entered from (`InLoops.exit`), and the two
tests read it: a label is accepted by `check_expr_for` exactly when no enclosing loop has it
(`checkForLabel_yields`), and a `break` or `continue` is accepted exactly when an enclosing
loop is its target, the walk stopping at the innermost such loop
(`checkExprControl_run`, `chain_find?_isControlTarget`).
-/

namespace Harec

/-- What the walk up the scopes reads of a scope: its parent, its kind and its label. -/
def Scope.shape (s : Scope) : Option ScopeRef × Option ExprType × Option String :=
  (s.parent, s.type, s.label)

theorem Scope.Extends.shape_eq {s s' : Scope} (h : s.Extends s') : s'.shape = s.shape := by
  simp only [Scope.shape, h.parent, h.type, h.label]

namespace Context

variable (ctx : Context)

/-- The arena is well formed: every scope's parent was pushed before it, the current scope
exists, and only `for` scopes carry a label. -/
structure WellScoped : Prop where
  ranked : ∀ r p : Nat, (ctx.scopeAt r).parent = some p → p < r
  current : ∀ s : Nat, ctx.scope = some s → s < ctx.scopes.length
  labelled : ∀ r : Nat, (ctx.scopeAt r).label ≠ none → (ctx.scopeAt r).type = some .for

/-- The loop a scope is the scope of, if it is a `for` scope: the scope and its label. -/
def loopOf (r : ScopeRef) : Option (ScopeRef × Option String) :=
  if (ctx.scopeAt r).type = some .for then some (r, (ctx.scopeAt r).label) else none

/-- The loops enclosing a scope, innermost first. -/
def loopsFrom (r : Option ScopeRef) : List (ScopeRef × Option String) :=
  (ctx.chain r).filterMap ctx.loopOf

/-- The loops enclosing the current scope, innermost first. -/
def loops : List (ScopeRef × Option String) := ctx.loopsFrom ctx.scope

/-- The context `check_expr_for` and `check_expr_list` check their children in: a scope
pushed under the current one and given a kind and a label. -/
def enter (type : ExprType) (label : Option String) : Context :=
  ctx.push.2.setKind ctx.scopes.length type label

/-! ### The walk up the scopes -/

theorem chainFrom_succ (n : Nat) (r : ScopeRef) :
    ctx.chainFrom (n + 1) (some r) = r :: ctx.chainFrom n (ctx.scopeAt r).parent := rfl

@[simp] theorem chainFrom_none (n : Nat) : ctx.chainFrom n none = [] := by
  cases n <;> rfl

@[simp] theorem loopsFrom_none : ctx.loopsFrom none = [] := by
  simp [loopsFrom, chain]

theorem scopeAt_of_le {r : Nat} (h : ctx.scopes.length ≤ r) : ctx.scopeAt r = default := by
  simp [scopeAt, List.getD_eq_getElem?_getD, List.getElem?_eq_none h]

theorem scopeAt_push_of_ne {r : Nat} (h : r ≠ ctx.scopes.length) :
    ctx.push.2.scopeAt r = ctx.scopeAt r := by
  rcases Nat.lt_or_gt_of_ne h with h | h
  · exact ctx.scopeAt_push_of_lt h
  · rw [scopeAt_of_le _ (by simp; omega), scopeAt_of_le _ (Nat.le_of_lt h)]

/-- The scopes of the context a loop or a block checks its children in. -/
theorem scopeAt_enter (type : ExprType) (label : Option String) (r : Nat) :
    (ctx.enter type label).scopeAt r =
      if r = ctx.scopes.length then ⟨ctx.scope, some type, label, []⟩ else ctx.scopeAt r := by
  split
  · next h =>
    subst h
    rw [enter, scopeAt_setKind_self _ _ _ (by simp), scopeAt_push_self]
  · next h => rw [enter, scopeAt_setKind_of_ne _ _ _ (Ne.symm h), scopeAt_push_of_ne _ h]

@[simp] theorem enter_scope (type : ExprType) (label : Option String) :
    (ctx.enter type label).scope = some ctx.scopes.length := rfl

@[simp] theorem enter_length (type : ExprType) (label : Option String) :
    (ctx.enter type label).scopes.length = ctx.scopes.length + 1 := by
  simp [enter]

variable {ctx}

/-- In a ranked arena the walk from a scope does not depend on the fuel, once there is
enough of it. -/
theorem chainFrom_fuel (hr : ∀ r p : Nat, (ctx.scopeAt r).parent = some p → p < r) :
    ∀ {n m r : Nat}, r < n → r < m → ctx.chainFrom n (some r) = ctx.chainFrom m (some r)
  | n + 1, m + 1, r, hn, hm => by
    rw [chainFrom_succ, chainFrom_succ]
    cases hp : (ctx.scopeAt r).parent with
    | none => simp
    | some p =>
      have := hr r p hp
      rw [chainFrom_fuel hr (n := n) (m := m) (by omega) (by omega)]

/-- The walk from a scope reads the parents of that scope and of the scopes below it only. -/
theorem chainFrom_congr {ctx' : Context} (hr : ∀ r p : Nat, (ctx.scopeAt r).parent = some p → p < r)
    {r : Nat} (h : ∀ r' ≤ r, (ctx'.scopeAt r').parent = (ctx.scopeAt r').parent) :
    ∀ n, ctx'.chainFrom n (some r) = ctx.chainFrom n (some r)
  | 0 => rfl
  | n + 1 => by
    rw [chainFrom_succ, chainFrom_succ, h r (Nat.le_refl r)]
    cases hp : (ctx.scopeAt r).parent with
    | none => simp
    | some p =>
      have := hr r p hp
      rw [chainFrom_congr hr (r := p) (fun r' h' => h r' (by omega)) n]

/-- The scopes on the walk from `r` are at most `r`. -/
theorem le_of_mem_chainFrom (hr : ∀ r p : Nat, (ctx.scopeAt r).parent = some p → p < r) :
    ∀ {n r r' : Nat}, r' ∈ ctx.chainFrom n (some r) → r' ≤ r
  | n + 1, r, r', h => by
    rw [chainFrom_succ] at h
    rcases List.mem_cons.mp h with rfl | h
    · exact Nat.le_refl _
    · cases hp : (ctx.scopeAt r).parent with
      | none => rw [hp] at h; simp at h
      | some p =>
        rw [hp] at h
        exact Nat.le_of_lt (Nat.lt_of_le_of_lt (le_of_mem_chainFrom hr h) (hr r p hp))

theorem chain_some (hr : ∀ r p : Nat, (ctx.scopeAt r).parent = some p → p < r) {r : Nat}
    (h : r < ctx.scopes.length) : ctx.chain (some r) = r :: ctx.chain (ctx.scopeAt r).parent := by
  obtain ⟨n, hn⟩ : ∃ n, ctx.scopes.length = n + 1 := ⟨_, (Nat.succ_pred_eq_of_pos (by omega)).symm⟩
  rw [chain, chain, hn, chainFrom_succ]
  cases hp : (ctx.scopeAt r).parent with
  | none => simp
  | some p =>
    have := hr r p hp
    rw [chainFrom_fuel hr (n := n) (m := n + 1) (by omega) (by omega)]

theorem loopOf_congr {ctx' : Context} {r : Nat} (h : (ctx'.scopeAt r).shape = (ctx.scopeAt r).shape) :
    ctx'.loopOf r = ctx.loopOf r := by
  simp only [Scope.shape, Prod.mk.injEq] at h
  simp only [loopOf, h.2.1, h.2.2]

/-- The loops enclosing a scope depend only on the shapes of that scope and the scopes
below it. -/
theorem loopsFrom_congr {ctx' : Context} (hr : ∀ r p : Nat, (ctx.scopeAt r).parent = some p → p < r)
    {r : Nat} (h₁ : r < ctx.scopes.length) (h₂ : r < ctx'.scopes.length)
    (h : ∀ r' ≤ r, (ctx'.scopeAt r').shape = (ctx.scopeAt r').shape) :
    ctx'.loopsFrom (some r) = ctx.loopsFrom (some r) := by
  have hc : ctx'.chain (some r) = ctx.chain (some r) := by
    rw [chain, chain, chainFrom_congr hr (fun r' h' => congrArg Prod.fst (h r' h')),
      chainFrom_fuel hr h₂ h₁]
  rw [loopsFrom, loopsFrom, hc]
  exact List.filterMap_congr fun r' hr' => loopOf_congr (h r' (le_of_mem_chainFrom hr hr'))

theorem loopsFrom_some (hr : ∀ r p : Nat, (ctx.scopeAt r).parent = some p → p < r) {r : Nat}
    (h : r < ctx.scopes.length) :
    ctx.loopsFrom (some r) = (ctx.loopOf r).toList ++ ctx.loopsFrom (ctx.scopeAt r).parent := by
  rw [loopsFrom, chain_some hr h, List.filterMap_cons]
  cases ctx.loopOf r <;> rfl

/-- The walk up the scopes reads the arena only. -/
theorem chainFrom_of_scopes {c : Context} (hs : ctx.scopes = c.scopes) :
    ∀ (n : Nat) (r : Option ScopeRef), ctx.chainFrom n r = c.chainFrom n r
  | 0, _ => rfl
  | _ + 1, none => rfl
  | n + 1, some r => by
    rw [chainFrom_succ, chainFrom_succ, chainFrom_of_scopes hs n, scopeAt, scopeAt, hs]

theorem loops_of_scopes {c : Context} (hs : ctx.scopes = c.scopes) (hsc : ctx.scope = c.scope) :
    ctx.loops = c.loops := by
  have hat : ctx.scopeAt = c.scopeAt := funext fun r => by rw [scopeAt, scopeAt, hs]
  have hl : ctx.loopOf = c.loopOf := funext fun r => by simp only [loopOf, hat]
  simp only [loops, loopsFrom, chain, chainFrom_of_scopes hs, hs, hsc, hl]

/-- The loops around a scope made current. -/
theorem loops_setScope (s : Option ScopeRef) : ({ ctx with scope := s } : Context).loops = ctx.loopsFrom s := by
  have hl : ({ ctx with scope := s } : Context).loopOf = ctx.loopOf := rfl
  simp only [loops, loopsFrom, chain, @chainFrom_of_scopes { ctx with scope := s } ctx rfl, hl]

/-! ### Well-formed arenas -/

namespace WellScoped

theorem of_scopes {c : Context} (hw : c.WellScoped) (hs : ctx.scopes = c.scopes)
    (hsc : ctx.scope = c.scope) : ctx.WellScoped := by
  have hat : ctx.scopeAt = c.scopeAt := funext fun r => by rw [scopeAt, scopeAt, hs]
  refine ⟨?_, ?_, ?_⟩
  · rw [hat]; exact hw.ranked
  · rw [hsc, hs]; exact hw.current
  · rw [hat]; exact hw.labelled

theorem enter (hw : ctx.WellScoped) {type : ExprType} {label : Option String}
    (h : label ≠ none → type = .for) : (ctx.enter type label).WellScoped where
  ranked r p hp := by
    rw [scopeAt_enter] at hp
    split at hp
    · next hr => subst hr; exact hw.current p hp
    · exact hw.ranked r p hp
  current s hs := by
    simp only [enter_scope, Option.some.injEq] at hs
    simp [← hs]
  labelled r hl := by
    rw [scopeAt_enter] at hl ⊢
    split at hl
    · next hr => simp only [hr, if_true]; exact congrArg some (h hl)
    · next hr => simp only [hr, if_false]; exact hw.labelled r hl

theorem push (hw : ctx.WellScoped) : ctx.push.2.WellScoped where
  ranked r p hp := by
    by_cases hr : r = ctx.scopes.length
    · subst hr
      exact hw.current p (by simpa using hp)
    · rw [scopeAt_push_of_ne _ hr] at hp
      exact hw.ranked r p hp
  current s hs := by
    simp only [push_snd_scope, Option.some.injEq] at hs
    simp [← hs]
  labelled r hl := by
    by_cases hr : r = ctx.scopes.length
    · subst hr
      simp at hl
    · rw [scopeAt_push_of_ne _ hr] at hl ⊢
      exact hw.labelled r hl

theorem insert (hw : ctx.WellScoped) (r : ScopeRef) (o : ScopeObject) : (ctx.insert r o).2.WellScoped where
  ranked r' p hp := hw.ranked r' p (by rwa [(ctx.extends_insert r o r').parent] at hp)
  current s hs := by simpa using hw.current s hs
  labelled r' hl := by
    have he := ctx.extends_insert r o r'
    rw [he.label] at hl
    rw [he.type]
    exact hw.labelled r' hl

end WellScoped

/-- The loops around the children of a loop or a block: the loop in front of the loops
around it, or, for a block, the loops around it. -/
theorem loops_enter (hw : ctx.WellScoped) (type : ExprType) (label : Option String)
    (h : label ≠ none → type = .for) :
    (ctx.enter type label).loops = (if type = .for then [(ctx.scopes.length, label)] else []) ++ ctx.loops := by
  have hw' := hw.enter h
  rw [loops, enter_scope, loopsFrom_some hw'.ranked (by simp), scopeAt_enter, if_pos rfl]
  congr 1
  · by_cases ht : type = .for <;> simp [loopOf, scopeAt_enter, ht]
  · show (ctx.enter type label).loopsFrom ctx.scope = ctx.loopsFrom ctx.scope
    cases hs : ctx.scope with
    | none => simp
    | some s =>
      have hlt := hw.current s hs
      refine loopsFrom_congr hw.ranked hlt (by simp; omega) fun r' hr' => ?_
      rw [scopeAt_enter, if_neg (by omega)]

theorem loops_insert (hw : ctx.WellScoped) (r : ScopeRef) (o : ScopeObject) :
    (ctx.insert r o).2.loops = ctx.loops := by
  rw [loops, loops, insert_scope]
  cases hs : ctx.scope with
  | none => simp
  | some s =>
    have hlt := hw.current s hs
    exact loopsFrom_congr hw.ranked hlt (by simpa using hlt)
      fun r' _ => (ctx.extends_insert r o r').shape_eq

/-- A scope pushed without a kind adds no loop. -/
theorem loops_push (hw : ctx.WellScoped) : ctx.push.2.loops = ctx.loops := by
  have hnone : ctx.push.2.loopOf ctx.scopes.length = none := by simp [loopOf]
  rw [loops, push_snd_scope, loopsFrom_some hw.push.ranked (by simp), hnone, Option.toList_none,
    List.nil_append, scopeAt_push_self, loops]
  cases hs : ctx.scope with
  | none => simp
  | some s =>
    have hlt := hw.current s hs
    exact loopsFrom_congr hw.ranked hlt (by simp; omega) fun r' hr' =>
      ctx.scopeAt_push_of_lt (show r' < ctx.scopes.length by omega) ▸ rfl

end Context

/-- A check that keeps `Frame` keeps the loops around it. -/
theorem Frame.loops_eq {ctx ctx' : Context} (hf : Frame ctx ctx') (hw : ctx.WellScoped) :
    ctx'.loops = ctx.loops := by
  rw [Context.loops, Context.loops, hf.scope]
  cases hs : ctx.scope with
  | none => simp
  | some s =>
    have hlt := hw.current s hs
    exact Context.loopsFrom_congr hw.ranked hlt (Nat.lt_of_lt_of_le hlt hf.length_le)
      fun r' hr' => (hf.extends_ r' (by omega)).shape_eq

/-- The context of a check whose enclosing loops are `L`, innermost first: a well-formed
arena whose current scope has the loops `L` around it. -/
structure InLoops (L : List (ScopeRef × Option String)) (ctx : Context) : Prop where
  wellScoped : ctx.WellScoped
  loops : ctx.loops = L

namespace InLoops

variable {L : List (ScopeRef × Option String)} {ctx : Context}

/-- The loops around a check read the arena and the current scope only. -/
theorem of_scopes {c : Context} (h : InLoops L c) (hs : ctx.scopes = c.scopes) (hsc : ctx.scope = c.scope) :
    InLoops L ctx :=
  ⟨h.wellScoped.of_scopes hs hsc, (Context.loops_of_scopes hs hsc).trans h.loops⟩

theorem insert (h : InLoops L ctx) (r : ScopeRef) (o : ScopeObject) : InLoops L (ctx.insert r o).2 :=
  ⟨h.wellScoped.insert r o, (Context.loops_insert h.wellScoped r o).trans h.loops⟩

theorem push (h : InLoops L ctx) : InLoops L ctx.push.2 :=
  ⟨h.wellScoped.push, (Context.loops_push h.wellScoped).trans h.loops⟩

/-- Popping the current scope of a context with no loop around it leaves none. -/
theorem pop {r : ScopeRef} (h : InLoops [] ctx) (hs : ctx.scope = some r) :
    InLoops [] { ctx with scope := (ctx.scopeAt r).parent } := by
  have hlt := h.wellScoped.current r hs
  have hl : ctx.loopsFrom (some r) = [] := hs ▸ h.loops
  rw [Context.loopsFrom_some h.wellScoped.ranked hlt, List.append_eq_nil] at hl
  exact ⟨⟨h.wellScoped.ranked, fun p hp => Nat.lt_trans (h.wellScoped.ranked r p hp) hlt,
    h.wellScoped.labelled⟩, (Context.loops_setScope _).trans hl.2⟩

/-- Popping the scope of a loop or a block, once the checks inside it kept `Frame`, gives
back the loops it was entered with. -/
theorem exit {c : Context} {type : ExprType} {label : Option String} (h : InLoops L ctx)
    (hf : Frame (ctx.enter type label) c) (hw : c.WellScoped) :
    InLoops L { c with scope := (c.scopeAt ctx.scopes.length).parent } := by
  have hp := Frame.popped hf
  refine ⟨⟨hw.ranked, fun s hs => ?_, hw.labelled⟩, (hp.loops_eq h.wellScoped).trans h.loops⟩
  rw [hp.scope] at hs
  exact Nat.lt_of_lt_of_le (h.wellScoped.current s hs) hp.length_le

end InLoops

/-! ### Checks in a scope of their own -/

/-- A run whose every step keeps `Frame` keeps it from any context it starts in. -/
theorem Yields.frame {α : Type} {P : Context → Prop} {m : CheckM α} {Q : α → Prop} {E : Abort → Prop}
    (h : Yields P m Q E) (hf : Keeps Frame m) (c₀ : Context) :
    Yields (fun c => P c ∧ Frame c₀ c) m Q E where
  ok ctx a ctx' hp hrun :=
    let ⟨h₁, h₂⟩ := h.ok ctx a ctx' hp.1 hrun
    ⟨⟨h₁, hp.2.trans (hf _ _ _ hrun)⟩, h₂⟩
  error ctx e hp hrun := h.error ctx e hp.1 hrun

/-- A check in a scope of its own keeps the loops it starts with, when what it runs inside
the scope keeps `Frame` and the loops it was entered with. -/
theorem inScope_yields {α : Type} {L : List (ScopeRef × Option String)} {type : ExprType}
    {label : Option String} {m : ScopeRef → CheckM α} {Q : α → Prop} {E : Abort → Prop}
    {L' : Context → List (ScopeRef × Option String)}
    (hin : ∀ ctx, InLoops L ctx → InLoops (L' ctx) (ctx.enter type label))
    (hm : ∀ ctx, InLoops L ctx →
      Yields (fun c => InLoops (L' ctx) c ∧ Frame (ctx.enter type label) c) (m ctx.scopes.length) Q E)
    (hE : E .nullDeref) : Yields (InLoops L) (inScope type label m) Q E where
  ok ctx a ctx' hL hrun := by
    obtain ⟨c, r, h₃, hr, rfl⟩ := inScope_run_ok hrun
    obtain ⟨⟨hL₃, hf₃⟩, hq⟩ := (hm ctx hL).ok _ _ _ ⟨hin ctx hL, Frame.refl _⟩ h₃
    rw [hf₃.scope, Context.enter_scope, Option.some.injEq] at hr
    subst hr
    exact ⟨hL.exit hf₃ hL₃.wellScoped, hq⟩
  error ctx e hL hrun := by
    rcases inScope_run_error hrun with h₃ | rfl
    · exact (hm ctx hL).error _ _ ⟨hin ctx hL, Frame.refl _⟩ h₃
    · exact hE

/-! ### The label test of `check_expr_for` -/

/-- Whether a loop label is fresh: no enclosing loop carries it. -/
def freshLabel (label : Option String) (ls : List (Option String)) : Bool :=
  label.all fun l => !ls.contains (some l)

theorem contains_map_snd (L : List (ScopeRef × Option String)) (l : String) :
    (L.map Prod.snd).contains (some l) = L.any fun p => p.2 == some l := by
  rw [Bool.eq_iff_iff]
  simp

/-- A loop whose every step either passes on, leaving the context alone, or aborts with
`e`, aborts with `e` exactly when one of its elements makes a step abort. -/
theorem forIn_run_of_step {f : ScopeRef → PUnit → CheckM (ForInStep PUnit)} {p : ScopeRef → Bool}
    {e : Abort} (hf : ∀ r c, (f r ()).run c = if p r then .error e else .ok (.yield (), c)) :
    ∀ (rs : List ScopeRef) (c : Context),
      (forIn rs () f).run c = if rs.any p then .error e else .ok ((), c)
  | [], _ => rfl
  | r :: rs, c => by
    rw [List.forIn_cons, StateT.run_bind, hf, List.any_cons]
    cases p r
    · exact forIn_run_of_step hf rs c
    · rfl

/-- `check_expr_for`'s label test walks up from the parent of the loop's scope and aborts
at the first scope with the loop's label. -/
theorem checkForLabel_run (loc : Location) (s : ScopeRef) (l : String) (c : Context) :
    (checkForLabel loc s (some l)).run c =
      if (c.chain (c.scopeAt s).parent).any (fun r => (c.scopeAt r).label == some l) then
        .error (.expect loc "for loop label must be unique among its ancestors")
      else .ok ((), c) := by
  simp only [checkForLabel, StateT.run_bind, StateT.run_get, pure_bind]
  rw [forIn_run_of_step (p := fun r => (c.scopeAt r).label == some l)]
  · split <;> rfl
  · intro r c'
    split
    · next l' h =>
      simp only [h, StateT.run_bind, expect]
      by_cases hl : l' = l <;> simp [hl] <;> rfl
    · next h =>
      have hn : ((c.scopeAt r).label == some l) = false := by
        cases hh : (c.scopeAt r).label with
        | none => rfl
        | some l' => exact (h l' hh).elim
      rw [hn]
      rfl

namespace Context

variable {ctx : Context}

/-- Only loops carry labels, so the labels met on a walk up are those of the loops met. -/
theorem chain_any_label (hw : ctx.WellScoped) (r : Option ScopeRef) (l : String) :
    (ctx.chain r).any (fun r' => (ctx.scopeAt r').label == some l) =
      (ctx.loopsFrom r).any fun p => p.2 == some l := by
  rw [loopsFrom, List.any_filterMap]
  congr 1
  funext r'
  by_cases ht : (ctx.scopeAt r').type = some .for
  · simp [loopOf, ht]
  · have hl : (ctx.scopeAt r').label = none := by
      by_contra hl
      exact ht (hw.labelled r' hl)
    simp [loopOf, ht, hl]

/-- In the scope of a loop, the loops around the loop itself are those it was entered
with. -/
theorem loopsFrom_parent_of_frame {L : List (ScopeRef × Option String)} {c : Context}
    {type : ExprType} {label : Option String} (h : InLoops L ctx) (hf : Frame (ctx.enter type label) c)
    (hlab : label ≠ none → type = .for) :
    c.loopsFrom (c.scopeAt ctx.scopes.length).parent = L := by
  have hlen : ctx.scopes.length < (ctx.enter type label).scopes.length := by simp
  rw [(hf.extends_ _ hlen).parent, scopeAt_enter, if_pos rfl, ← h.loops, loops]
  cases hs : ctx.scope with
  | none => simp
  | some s =>
    have hlt := h.wellScoped.current s hs
    rw [loopsFrom_congr (h.wellScoped.enter hlab).ranked (by simp; omega)
      (by have := hf.length_le; simp at this; omega) fun r' hr' => (hf.extends_ r' (by simp; omega)).shape_eq]
    exact loopsFrom_congr h.wellScoped.ranked hlt (by simp; omega) fun r' hr' => by
      rw [scopeAt_enter, if_neg (by omega)]

end Context

/-- In the scope of a loop entered with loops `L`, the label test passes exactly when the
label is fresh among the labels of `L`. -/
theorem checkForLabel_yields {L L' : List (ScopeRef × Option String)} {ctx : Context}
    (h : InLoops L ctx) (loc : Location) (label : Option String) :
    Yields (fun c => InLoops L' c ∧ Frame (ctx.enter .for label) c) (checkForLabel loc ctx.scopes.length label)
      (fun _ => freshLabel label (L.map Prod.snd)) (fun _ => freshLabel label (L.map Prod.snd) = false) := by
  cases label with
  | none => exact Yields.pure rfl
  | some l =>
    have key : ∀ c, InLoops L' c ∧ Frame (ctx.enter .for (some l)) c →
        (checkForLabel loc ctx.scopes.length (some l)).run c =
          if freshLabel (some l) (L.map Prod.snd) then .ok ((), c)
          else .error (.expect loc "for loop label must be unique among its ancestors") := by
      intro c ⟨hL, hf⟩
      rw [checkForLabel_run, Context.chain_any_label hL.wellScoped,
        Context.loopsFrom_parent_of_frame h hf fun _ => rfl]
      simp only [freshLabel, Option.all_some, contains_map_snd]
      cases L.any (fun p => p.2 == some l) <;> rfl
    refine ⟨fun c a c' hc hrun => ?_, fun c e hc hrun => ?_⟩ <;> rw [key c hc] at hrun <;> split at hrun
    · next hfresh => cases hrun; exact ⟨hc, hfresh⟩
    · cases hrun
    · cases hrun
    · next hfresh => exact Bool.eq_false_iff.mpr hfresh

/-! ### The target of `break` and `continue` -/

/-- Whether a loop with label `l` is a target of a `break` or `continue` with label
`label`: any loop when it has none, a loop with its label otherwise. -/
def targets (label l : Option String) : Bool := label.all fun l' => l == some l'

namespace Context

variable (ctx : Context)

theorem isControlTarget_eq (label : Option String) (r : ScopeRef) :
    ctx.isControlTarget label r = (ctx.loopOf r).any fun p => targets label p.2 := by
  by_cases ht : (ctx.scopeAt r).type = some .for
  · cases label <;> simp [isControlTarget, loopOf, targets, ht, Bool.beq_eq_decide_eq]
  · simp [isControlTarget, loopOf, ht]

/-- `check_expr_control`'s test: some scope on the walk up is a target, exactly when some
enclosing loop is. -/
theorem chain_any_isControlTarget (label : Option String) (r : Option ScopeRef) :
    (ctx.chain r).any (ctx.isControlTarget label) = (ctx.loopsFrom r).any fun p => targets label p.2 := by
  rw [loopsFrom, List.any_filterMap]
  congr 1
  funext r'
  rw [isControlTarget_eq]
  cases ctx.loopOf r' <;> rfl

/-- The scope where the walk of `check_expr_control` stops is that of the innermost
enclosing loop that is a target. -/
theorem chain_find?_isControlTarget (label : Option String) (r : Option ScopeRef) :
    (ctx.chain r).find? (ctx.isControlTarget label) =
      ((ctx.loopsFrom r).find? fun p => targets label p.2).map Prod.fst := by
  rw [loopsFrom, List.find?_filterMap]
  have hp : (fun a => (ctx.loopOf a).any fun p => targets label p.2) = ctx.isControlTarget label :=
    funext fun a => (isControlTarget_eq ctx label a).symm
  rw [hp]
  cases hf : (ctx.chain r).find? (ctx.isControlTarget label) with
  | none => rfl
  | some r' =>
    have ht := List.find?_some hf
    simp only [isControlTarget, Bool.and_eq_true, decide_eq_true_eq] at ht
    simp [loopOf, ht.1]

end Context

/-- `check_expr_control` in a context with loops `L`: it accepts exactly when a loop of `L`
is a target. -/
theorem checkExprControl_run {L : List (ScopeRef × Option String)} {ctx : Context} (h : InLoops L ctx)
    (loc : Location) (type : ControlType) (label : Option String) :
    (checkExprControl loc type label).run ctx =
      if L.any (fun p => targets label p.2) then .ok (.mk none true (.control type label), ctx)
      else .error (.expect loc ("Unknown label " ++ label.getD "(null)")) := by
  simp only [checkExprControl, StateT.run_bind, StateT.run_get, pure_bind,
    Context.chain_any_isControlTarget, expect]
  rw [show ctx.loopsFrom ctx.scope = L from h.loops]
  cases L.any (fun p => targets label p.2) <;> rfl

end Harec
