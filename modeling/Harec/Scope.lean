import Harec.Expr

/-!
# Scopes and the checker context

`scope.c` is not among the sources; the scope operations below are modelled from
the specification (§4.1): a scope has a parent pointer, the kind of expression that
pushed it, an optional label and an insertion-ordered list of objects; `push` makes a
new child of the current scope current, `pop` restores the parent, `insert` appends an
object, and `lookup` searches the current scope and then its ancestors for the first
object whose identifier, namespaces included, is the one asked for.

Nothing in the checker frees a scope: the scopes live in an arena, `Context.scopes`,
addressed by `ScopeRef`, and `struct context` (the transient state of the checker)
holds pointers into it.  A run of the checker is a function in `CheckM`, the state
monad over the context that stops with an `Abort` where the C code calls `abort()`:
a failed `expect`, a failed `assert`, or a read through a null pointer.
-/

namespace Harec

/-- `enum object_type`. -/
inductive ObjectType where
  | bind | const | decl | type
deriving DecidableEq, Repr

/-- `struct scope_object`: `ident` is the mangled identifier, `name` the identifier the
object is looked up by, `value` the evaluated constant of an `O_CONST`. -/
structure ScopeObject where
  otype : ObjectType
  ident : Identifier
  name : Identifier
  type : TypeRef
  value : Option Expression

/-- `enum expr_type`. -/
inductive ExprType where
  | access | assert | assign | binarithm | binding | «break» | call | cast | constant
  | «continue» | defer | «for» | «if» | list | «match» | measure | «return» | slice
  | struct | switch | unarithm
deriving DecidableEq, Repr

/-- `struct scope`.  `type` is set only by `check_expr_for` and `check_expr_list`; the
zeroed field of any other scope is `none`, which is not `EXPR_FOR`. -/
structure Scope where
  parent : Option ScopeRef
  type : Option ExprType
  label : Option String
  objects : List ScopeObject

instance : Inhabited Scope := ⟨⟨none, none, none, []⟩⟩

/-- `struct context`, with the scope arena it points into. -/
structure Context where
  scopes : List Scope
  scope : Option ScopeRef
  unit : Option ScopeRef
  ns : Option Identifier
  currentFntype : Option TypeRef
  deferring : Bool
  id : Nat

/-- Why a run of the checker stops: the diagnostic of a failed `expect`, a failed
`assert`, or a read through a null pointer. -/
inductive Abort where
  | expect (loc : Location) (message : String)
  | assertion
  | nullDeref
deriving DecidableEq

/-- The checker's monad. -/
abbrev CheckM := StateT Context (Except Abort)

namespace Context

variable (ctx : Context)

/-- The scope at an address. -/
def scopeAt (r : ScopeRef) : Scope := ctx.scopes.getD r default

/-- The walk along parent pointers from a scope, the scope first, as far as `fuel`
steps. -/
def chainFrom : Nat → Option ScopeRef → List ScopeRef
  | 0, _ => []
  | _ + 1, none => []
  | n + 1, some r => r :: chainFrom n (ctx.scopeAt r).parent

/-- A scope and its ancestors, innermost first. -/
def chain (r : Option ScopeRef) : List ScopeRef := ctx.chainFrom ctx.scopes.length r

/-- The object at an object pointer. -/
def objectAt (o : ObjectRef) : Option ScopeObject := (ctx.scopeAt o.scope).objects.get? o.index

/-- Modelled from the spec: `scope_lookup` (in `scope.c`, not in the sources).  The
first scope, from the current scope out through its ancestors, with an object whose
`name` is the identifier, and in it the object of that name inserted last: an insertion
of a name the scope already has overwrites the earlier object (§4.1). -/
def scopeLookup (ident : Identifier) : Option (ObjectRef × ScopeObject) :=
  (ctx.chain ctx.scope).findSome? fun r =>
    ((ctx.scopeAt r).objects.enum.reverse.find? (·.2.name = ident)).map fun p => (⟨r, p.1⟩, p.2)

/-- Modelled from the spec: `scope_push`.  A new scope under the current one becomes
the current scope. -/
def push : ScopeRef × Context :=
  (ctx.scopes.length,
    { ctx with scopes := ctx.scopes ++ [⟨ctx.scope, none, none, []⟩],
               scope := some ctx.scopes.length })

/-- Modelled from the spec: `scope_insert`.  The object is appended to the scope. -/
def insert (r : ScopeRef) (o : ScopeObject) : ObjectRef × Context :=
  (⟨r, (ctx.scopeAt r).objects.length⟩,
    { ctx with scopes := ctx.scopes.modify (fun s => { s with objects := s.objects ++ [o] }) r })

/-- Setting `scope->type` and `scope->label` of a scope just pushed. -/
def setKind (r : ScopeRef) (type : ExprType) (label : Option String) : Context :=
  { ctx with scopes := ctx.scopes.modify (fun s => { s with type := some type, label := label }) r }

end Context

/-- `expect(loc, constraint, message)`. -/
def expect (loc : Location) (constraint : Bool) (message : String) : CheckM PUnit :=
  if constraint then pure () else throw (.expect loc message)

/-- `assert(constraint)`. -/
def assertC (constraint : Bool) : CheckM PUnit :=
  if constraint then pure () else throw .assertion

/-- Reading through `expr->result`: null is a null-pointer read. -/
def resultOf (e : Expression) : CheckM TypeRef :=
  match e.result with
  | some t => pure t
  | none => throw .nullDeref

/-- Reading through a pointer that may be null. -/
def deref {α : Type} : Option α → CheckM α
  | some a => pure a
  | none => throw .nullDeref

/-- `scope_push(&ctx->scope)`. -/
def scopePush : CheckM ScopeRef := modifyGet Context.push

/-- `scope_pop(&ctx->scope)`: the popped scope. -/
def scopePop : CheckM ScopeRef := do
  let ctx ← get
  let r ← deref ctx.scope
  set { ctx with scope := (ctx.scopeAt r).parent }
  pure r

/-- `scope_insert(scope, otype, ident, name, type, value)` into a scope that may be
null. -/
def scopeInsert (r : Option ScopeRef) (otype : ObjectType) (ident name : Identifier)
    (type : TypeRef) (value : Option Expression) : CheckM ObjectRef := do
  let r ← deref r
  modifyGet (·.insert r ⟨otype, ident, name, type, value⟩)

/-- `mkident`: the identifier moved into the unit's namespace, when there is one. -/
def mkident (ns : Option Identifier) (ident : Identifier) : Identifier :=
  match ns with
  | some ns => ⟨ident.name, some ns⟩
  | none => ident

end Harec
