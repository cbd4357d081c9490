import Harec.Expr

/-!
# Traversing typed trees

`Expression.all p e` holds when `p` holds at every node of `e`: the node itself and
every node below it, through all children of every expression kind.  The invariants
the specification states "at every node" of a typed tree are `all` of a node predicate.
-/

namespace Harec

mutual

/-- `p` holds at the node and at every node below it. -/
def Expression.all (p : Expression → Bool) : Expression → Bool
  | e@(.mk _ _ node) => p e && node.all p

/-- `p` holds at every node of the children of a payload. -/
def ExpressionNode.all (p : Expression → Bool) : ExpressionNode → Bool
  | .accessIdentifier _ => true
  | .accessIndex array index => array.all p && index.all p
  | .accessField object _ => object.all p
  | .assert cond message => Expression.allOpt p cond && message.all p
  | .assign _ _ object value => object.all p && value.all p
  | .binarithm _ lvalue rvalue => lvalue.all p && rvalue.all p
  | .binding bindings => Expression.allBindings p bindings
  | .control _ _ => true
  | .call lvalue args => lvalue.all p && Expression.allList p args
  | .cast _ value _ => value.all p
  | .constant _ array => Expression.allItems p array
  | .defer deferred => deferred.all p
  | .for _ _ bindings cond afterthought body =>
      Expression.allOpt p bindings && cond.all p && Expression.allOpt p afterthought && body.all p
  | .if cond trueBranch falseBranch =>
      cond.all p && trueBranch.all p && Expression.allOpt p falseBranch
  | .list _ exprs => Expression.allList p exprs
  | .measure _ value _ => Expression.allOpt p value
  | .return value => Expression.allOpt p value
  | .slice object start «end» => object.all p && Expression.allOpt p start && Expression.allOpt p «end»
  | .struct fields => Expression.allFields p fields
  | .switch value cases => value.all p && Expression.allCases p cases
  | .unarithm _ operand => operand.all p

/-- `all` of an optional child. -/
def Expression.allOpt (p : Expression → Bool) : Option Expression → Bool
  | none => true
  | some e => e.all p

/-- `all` of every expression of a list. -/
def Expression.allList (p : Expression → Bool) : List Expression → Bool
  | [] => true
  | e :: es => e.all p && Expression.allList p es

/-- `all` of the initializers of bindings. -/
def Expression.allBindings (p : Expression → Bool) : List (ExpressionBinding Expression) → Bool
  | [] => true
  | b :: bs => b.initializer.all p && Expression.allBindings p bs

/-- `all` of the items of an array constant. -/
def Expression.allItems (p : Expression → Bool) : List (ArrayConstant Expression) → Bool
  | [] => true
  | i :: is => i.value.all p && Expression.allItems p is

/-- `all` of the values of a struct literal. -/
def Expression.allFields (p : Expression → Bool) : List (ExpressionStruct Expression) → Bool
  | [] => true
  | f :: fs => f.value.all p && Expression.allFields p fs

/-- `all` of the options and bodies of switch cases. -/
def Expression.allCases (p : Expression → Bool) : List (SwitchCase Expression) → Bool
  | [] => true
  | c :: cs => Expression.allList p c.options && c.value.all p && Expression.allCases p cs

end

/-! ### Weakening the node predicate -/

/-- Two facts joined by `&&`, each weakened. -/
theorem and_weaken {a b c d : Bool} (f : a = true → c = true) (g : b = true → d = true) :
    (a && b) = true → (c && d) = true := fun h =>
  Bool.and_eq_true_iff.mpr ((Bool.and_eq_true_iff.mp h).imp f g)

section Weaken

variable {p q : Expression → Bool} (h : ∀ e, p e = true → q e = true)
include h

-- The cases reach the list helpers only through their calls back to `Expression.all_imp`.
set_option linter.unusedSectionVars false in
mutual

/-- A node predicate that implies another at every node implies it over the whole tree. -/
theorem Expression.all_imp : ∀ e : Expression, e.all p = true → e.all q = true
  | .mk _ _ node => and_weaken (h _) (ExpressionNode.all_imp node)
termination_by structural e => e

theorem ExpressionNode.all_imp : ∀ n : ExpressionNode, n.all p = true → n.all q = true
  | .accessIdentifier _ => id
  | .accessIndex array index => and_weaken (Expression.all_imp array) (Expression.all_imp index)
  | .accessField object _ => Expression.all_imp object
  | .assert cond message => and_weaken (Expression.allOpt_imp cond) (Expression.all_imp message)
  | .assign _ _ object value => and_weaken (Expression.all_imp object) (Expression.all_imp value)
  | .binarithm _ lvalue rvalue => and_weaken (Expression.all_imp lvalue) (Expression.all_imp rvalue)
  | .binding bindings => Expression.allBindings_imp bindings
  | .control _ _ => id
  | .call lvalue args => and_weaken (Expression.all_imp lvalue) (Expression.allList_imp args)
  | .cast _ value _ => Expression.all_imp value
  | .constant _ array => Expression.allItems_imp array
  | .defer deferred => Expression.all_imp deferred
  | .for _ _ bindings cond afterthought body =>
      and_weaken (and_weaken (and_weaken (Expression.allOpt_imp bindings) (Expression.all_imp cond))
        (Expression.allOpt_imp afterthought)) (Expression.all_imp body)
  | .if cond trueBranch falseBranch =>
      and_weaken (and_weaken (Expression.all_imp cond) (Expression.all_imp trueBranch))
        (Expression.allOpt_imp falseBranch)
  | .list _ exprs => Expression.allList_imp exprs
  | .measure _ value _ => Expression.allOpt_imp value
  | .return value => Expression.allOpt_imp value
  | .slice object start «end» =>
      and_weaken (and_weaken (Expression.all_imp object) (Expression.allOpt_imp start))
        (Expression.allOpt_imp «end»)
  | .struct fields => Expression.allFields_imp fields
  | .switch value cases => and_weaken (Expression.all_imp value) (Expression.allCases_imp cases)
  | .unarithm _ operand => Expression.all_imp operand
termination_by structural n => n

theorem Expression.allOpt_imp : ∀ o : Option Expression, Expression.allOpt p o = true → Expression.allOpt q o = true
  | none => id
  | some e => Expression.all_imp e
termination_by structural o => o

theorem Expression.allList_imp : ∀ es : List Expression, Expression.allList p es = true → Expression.allList q es = true
  | [] => id
  | e :: es => and_weaken (Expression.all_imp e) (Expression.allList_imp es)
termination_by structural es => es

theorem Expression.allBindings_imp : ∀ bs : List (ExpressionBinding Expression),
    Expression.allBindings p bs = true → Expression.allBindings q bs = true
  | [] => id
  | b :: bs => and_weaken (Expression.all_imp b.initializer) (Expression.allBindings_imp bs)
termination_by structural bs => bs

theorem Expression.allItems_imp : ∀ is : List (ArrayConstant Expression),
    Expression.allItems p is = true → Expression.allItems q is = true
  | [] => id
  | i :: is => and_weaken (Expression.all_imp i.value) (Expression.allItems_imp is)
termination_by structural is => is

theorem Expression.allFields_imp : ∀ fs : List (ExpressionStruct Expression),
    Expression.allFields p fs = true → Expression.allFields q fs = true
  | [] => id
  | f :: fs => and_weaken (Expression.all_imp f.value) (Expression.allFields_imp fs)
termination_by structural fs => fs

theorem Expression.allCases_imp : ∀ cs : List (SwitchCase Expression),
    Expression.allCases p cs = true → Expression.allCases q cs = true
  | [] => id
  | c :: cs => and_weaken (and_weaken (Expression.allList_imp c.options) (Expression.all_imp c.value))
      (Expression.allCases_imp cs)
termination_by structural cs => cs

end

end Weaken

/-! ### The list helpers as quantifiers -/

section Lists

variable (p : Expression → Bool)

@[simp] theorem Expression.all_mk (r : Option TypeRef) (t : Bool) (n : ExpressionNode) :
    (Expression.mk r t n).all p = (p (.mk r t n) && n.all p) := rfl

@[simp] theorem Expression.allOpt_eq_true (o : Option Expression) :
    Expression.allOpt p o = true ↔ ∀ e ∈ o, e.all p = true := by
  cases o <;> simp [Expression.allOpt]

@[simp] theorem Expression.allList_eq_true (es : List Expression) :
    Expression.allList p es = true ↔ ∀ e ∈ es, e.all p = true := by
  induction es <;> simp [Expression.allList, *]

@[simp] theorem Expression.allBindings_eq_true (bs : List (ExpressionBinding Expression)) :
    Expression.allBindings p bs = true ↔ ∀ b ∈ bs, b.initializer.all p = true := by
  induction bs <;> simp [Expression.allBindings, *]

@[simp] theorem Expression.allItems_eq_true (is : List (ArrayConstant Expression)) :
    Expression.allItems p is = true ↔ ∀ i ∈ is, i.value.all p = true := by
  induction is <;> simp [Expression.allItems, *]

@[simp] theorem Expression.allFields_eq_true (fs : List (ExpressionStruct Expression)) :
    Expression.allFields p fs = true ↔ ∀ f ∈ fs, f.value.all p = true := by
  induction fs <;> simp [Expression.allFields, *]

@[simp] theorem Expression.allCases_eq_true (cs : List (SwitchCase Expression)) :
    Expression.allCases p cs = true ↔ ∀ c ∈ cs, (∀ o ∈ c.options, o.all p = true) ∧ c.value.all p = true := by
  induction cs <;> simp [Expression.allCases, *]

end Lists

/-- The body of a function declaration. -/
def Declaration.body? (d : Declaration) : Option Expression :=
  match d.decl with
  | .func f => some f.body
  | _ => none

end Harec
