import Harec.Yields
import Harec.Reference
import Harec.Tree

/-!
# Arrays, slices and implicit casts

Three places where `check.c` reads the type of an array or the element type of a literal.

* `lower_implicit_cast` gives every conversion site a child of exactly its target type:
  the child itself when it has that type, a `C_CAST` node to it otherwise
  (`lowerImplicitCast_spec`).  `check_expr_array` without a hint does not cast the items
  it reads the element type from: while the element type is still null, an item is stored
  as it was checked, and an item without a result type, a `break` or `continue`, leaves the
  element type null for the next item to set.
* `check_expr_array` reads the element type from the array view of its hint's payload
  union whatever the hint's storage (`checkExprArray_of_members_none`), so a hint whose
  union holds something else there changes how a literal is elaborated.
* `check_expr_slice` dereferences the object's type to test that it is not a nullable
  pointer, but tests the storage of the object's own type, where indexing tests that of the
  dereferenced type: a pointer to an array can be indexed but not sliced.
-/

namespace Harec

section Casts

/-- `lower_implicit_cast` gives an expression of the target type: the expression itself when
it has that type, otherwise a `C_CAST` node with the expression's `terminates` flag. -/
theorem lowerImplicitCast_spec (t : TypeRef) (e : Expression) :
    (lowerImplicitCast t e).result = some t ∧
      (e.result = some t ∧ lowerImplicitCast t e = e ∨
        e.result ≠ some t ∧ lowerImplicitCast t e = .mk (some t) e.terminates (.cast .cast e none)) := by
  unfold lowerImplicitCast
  split
  · next h => exact ⟨h.symm, .inl ⟨h.symm, rfl⟩⟩
  · next h => exact ⟨rfl, .inr ⟨Ne.symm h, rfl⟩⟩

end Casts

section Hints

variable (env : Env)

/-- The item loop returns no expansion when no item is expanded. -/
theorem checkArrayItems_expandable :
    ∀ {items : List (AstArrayConstant Child)}, (∀ i ∈ items, i.expand = false) → ∀ type,
      Yields (fun _ => True) (checkArrayItems env type items) (fun r => r.2.2 = false) fun _ => True
  | [], _, _ => Yields.pure rfl
  | item :: rest, h, type => by
    have any : ∀ {α : Type} (m : CheckM α), Yields (fun _ => True) m (fun _ => True) fun _ => True :=
      fun _ => ⟨fun _ _ _ _ _ => ⟨trivial, trivial⟩, fun _ _ _ _ => trivial⟩
    simp only [checkArrayItems, h item (List.mem_cons_self _ _), Bool.false_eq_true, ↓reduceIte, pure_bind]
    have hrest := checkArrayItems_expandable (fun i hi => h i (List.mem_cons_of_mem _ hi))
    refine Yields.bind (any _) fun _ _ => ?_
    split
    · exact Yields.bind (hrest _) fun _ hr => Yields.pure (by simpa using hr)
    · exact Yields.bind (any _) fun _ _ => Yields.bind (any _) fun _ _ =>
        Yields.bind (hrest _) fun _ hr => Yields.pure (by simpa using hr)

/-- Under a hint whose union holds no array element type, a literal without expanded items
is elaborated as without a hint, whatever the hint's storage. -/
theorem checkExprArray_of_members_none {h : TypeRef} (hm : (env.get h).array.members = none)
    (loc : Location) {items : List (AstArrayConstant Child)} (hx : ∀ i ∈ items, i.expand = false)
    (ctx : Context) :
    (checkExprArray env loc items (some h)).run ctx = (checkExprArray env loc items none).run ctx := by
  simp only [checkExprArray, Option.some_bind, hm, Option.none_bind, StateT.run_bind]
  cases hr : (checkArrayItems env none items).run ctx with
  | error e => rfl
  | ok r =>
    obtain ⟨⟨values, type, expandable⟩, c⟩ := r
    have he : expandable = false := ((checkArrayItems_expandable env hx none).ok _ _ _ trivial hr).2
    subst he
    rfl

end Hints

section Slices

variable (env : Env)

/-- Slicing tests the storage of the object's own type: an object whose type is a pointer
that is not nullable, which indexing dereferences, is never sliced. -/
theorem checkExprSlice_pointer {object : Child} {start «end» : Option Child} {ctx c₁ : Context}
    {o : Expression} {t : TypeRef} (ho : (object.check none).run ctx = .ok (o, c₁)) (ht : o.result = some t)
    (hp : env.storage t = .pointer) (hn : (env.dereference t).isSome) :
    (checkExprSlice env object start «end»).run ctx =
      .error (.expect object.ast.loc "Cannot slice non-array, non-slice object") := by
  have hr : (resultOf o).run c₁ = .ok (t, c₁) := by simp only [resultOf, ht]; rfl
  simp only [checkExprSlice]
  rw [run_bind_of_ok ho, run_bind_of_ok hr]
  simp only [expect, hn, hp, StateT.run_bind]
  rfl

end Slices

open Reference

/-- The reference environment with one more type: `*[2]int`, numbered 15. -/
def pointerEnv : Env :=
  { env with get := fun t => if t = 15 then { record .pointer false 8 15 with pointer := ⟨14, false⟩ } else get t }

/-- A function scope holding the parameter `p: *[2]int`. -/
def pointerContext : Context :=
  ⟨[⟨none, none, none, [⟨.bind, ⟨"p", none⟩, ⟨"p", none⟩, 15, none⟩]⟩], some 0, none, none, none, false, 0⟩

/-- `p`. -/
def pointerObject : AstExpression := .accessIdentifier here ⟨"p", none⟩

/-- With `p: *[2]int`, `p[0]` is accepted and `p[0..1]` is rejected. -/
theorem check_pointerObject_indexNotSlice :
    abortOf ((checkExpression pointerEnv (.accessIndex here pointerObject (const .int (.ival 0))) none).run
        pointerContext) = none ∧
      abortOf ((checkExpression pointerEnv (.slice here pointerObject (some (const .int (.ival 0)))
        (some (const .int (.ival 1)))) none).run pointerContext) =
        some (.expect here "Cannot slice non-array, non-slice object") := by
  decide

/-- The reference environment with one more type, the tagged union `(int | str)` numbered
16, whose payload union is not empty in its array view: in C that view overlays the list of
the tagged union's members.  Here it reads as the element type `const int` (6). -/
def arrayViewEnv : Env :=
  { env with get := fun t => if t = 16 then
      { record .taggedUnion false 24 16 with tagged := [2, 4], array := ⟨0, some 6⟩ } else get t }

/-- `[1]`. -/
def oneItemArray : AstExpression := .constant here .array .none [⟨const .int (.ival 1), false⟩]

/-- Whether each item of an array constant was cast. -/
def castItems : Expression → List Bool
  | .mk _ _ (.constant _ items) => items.map fun i => match i.value with
    | .mk _ _ (.cast _ _ _) => true
    | _ => false
  | _ => []

/-- Under the hint `(int | str)`, the literal `[1]` reads the array view of the hint's union
and casts its item to `const int`; without a hint it casts nothing. -/
theorem checkExprArray_taggedHint_readsArrayView :
    arrayViewEnv.storage 16 = .taggedUnion ∧
      ((checkExpression arrayViewEnv oneItemArray (some 16)).run initialContext).toOption.map
        (castItems ·.1) = some [true] ∧
      ((checkExpression arrayViewEnv oneItemArray none).run initialContext).toOption.map
        (castItems ·.1) = some [false] := by
  decide

/-- `fn f() void = for (true) [break, 1];` -/
def forBreakArrayUnit : AstUnit :=
  unitOf (functionDecl "f" .void
    (.for here none here none (const .bool (.bval true)) none
      (.constant here .array .none [⟨.control here .break none, false⟩, ⟨const .int (.ival 1), false⟩])))

/-- `check` accepts `forBreakArrayUnit`: the literal has type `[2]int`, of element type
`int`, and its first item, the `break`, is stored uncast without a result type. -/
theorem check_forBreakArray_uncast :
    ((check env none forBreakArrayUnit).run initialContext).toOption.map
      (fun r => r.1.declarations.map fun d => d.body?.map fun body => match body.node with
        | .for _ _ _ _ _ loopBody => (loopBody.result, (get 14).array.members, match loopBody.node with
          | .constant _ items => items.map (·.value.result)
          | _ => [])
        | _ => (none, none, [])) = some [some (some 14, some 2, [none, some 2])] := by
  rw [check_run, forBreakArrayUnit, scanPass_functionDecl_void]
  decide

end Harec
