import Harec.Types

/-!
# The typed tree

`struct expression` and the declarations and unit the checker produces (`expr.h`,
`check.h`).  Every node carries its result type and its `terminates` flag next to
the payload of its kind.  The result type is a nullable pointer in the C code:
`check_expr_control` never sets it, so it is an `Option` here.

The checker also stores pointers to scopes (`struct scope *`, a `ScopeRef`) and to
scope objects (an `ObjectRef`) in the tree; both point into the scope arena of the
checker's context (`Harec.Scope`).
-/

namespace Harec

/-- `struct scope *`: the address of a scope in the scope arena. -/
abbrev ScopeRef := Nat

/-- `const struct scope_object *`: a scope and the object's position in its list. -/
structure ObjectRef where
  scope : ScopeRef
  index : Nat
deriving DecidableEq, Repr

/-- One link of `struct expression_binding`. -/
structure ExpressionBinding (E : Type) where
  object : ObjectRef
  initializer : E

/-- `struct array_constant`. -/
structure ArrayConstant (E : Type) where
  value : E
  expand : Bool

/-- `struct expression_struct`: a field descriptor and its value. -/
structure ExpressionStruct (E : Type) where
  field : StructField
  value : E

/-- `struct switch_case`: the evaluated options and the body. -/
structure SwitchCase (E : Type) where
  options : List E
  value : E

mutual
/-- `struct expression`: result type, `terminates` flag and payload. -/
inductive Expression where
  | mk (result : Option TypeRef) (terminates : Bool) (node : ExpressionNode)

/-- The payload of `struct expression`, one constructor per expression kind (per access
kind for `EXPR_ACCESS`).  `constant` holds the scalar or string member of the constant
union and the items of an array constant. -/
inductive ExpressionNode where
  | accessIdentifier (object : ObjectRef)
  | accessIndex (array index : Expression)
  | accessField (object : Expression) (field : StructField)
  | assert (cond : Option Expression) (message : Expression)
  | assign (op : Option BinarithmOperator) (indirect : Bool) (object value : Expression)
  | binarithm (op : BinarithmOperator) (lvalue rvalue : Expression)
  | binding (bindings : List (ExpressionBinding Expression))
  | control (type : ControlType) (label : Option String)
  | call (lvalue : Expression) (args : List Expression)
  | cast (kind : CastKind) (value : Expression) (secondary : Option TypeRef)
  | constant (value : ConstValue) (array : List (ArrayConstant Expression))
  | defer (deferred : Expression)
  | «for» (label : Option String) (scope : ScopeRef) (bindings : Option Expression)
      (cond : Expression) (afterthought : Option Expression) (body : Expression)
  | «if» (cond trueBranch : Expression) (falseBranch : Option Expression)
  | list (scope : ScopeRef) (exprs : List Expression)
  | measure (op : MeasureOperator) (value : Option Expression) (type : Option TypeRef)
  | «return» (value : Option Expression)
  | slice (object : Expression) (start «end» : Option Expression)
  | struct (fields : List (ExpressionStruct Expression))
  | switch (value : Expression) (cases : List (SwitchCase Expression))
  | unarithm (op : UnarithmOperator) (operand : Expression)
end

namespace Expression

/-- `expr->result`. -/
def result : Expression → Option TypeRef
  | mk r _ _ => r

/-- `expr->terminates`. -/
def terminates : Expression → Bool
  | mk _ t _ => t

/-- The payload of a node. -/
def node : Expression → ExpressionNode
  | mk _ _ n => n

@[simp] theorem result_mk (r : Option TypeRef) (t : Bool) (n : ExpressionNode) :
    (mk r t n).result = r := rfl

@[simp] theorem terminates_mk (r : Option TypeRef) (t : Bool) (n : ExpressionNode) :
    (mk r t n).terminates = t := rfl

@[simp] theorem node_mk (r : Option TypeRef) (t : Bool) (n : ExpressionNode) :
    (mk r t n).node = n := rfl

end Expression

/-- `expr->type == EXPR_ACCESS`. -/
def ExpressionNode.isAccess : ExpressionNode → Bool
  | .accessIdentifier _ | .accessIndex _ _ | .accessField _ _ => true
  | _ => false

/-- `lower_implicit_cast`: the expression itself if it already has the target type,
otherwise a `C_CAST` node to that type that inherits the `terminates` flag. -/
def lowerImplicitCast (target : TypeRef) (expr : Expression) : Expression :=
  if target = expr.result then expr
  else .mk (some target) expr.terminates (.cast .cast expr none)

@[simp] theorem lowerImplicitCast_result (target : TypeRef) (expr : Expression) :
    (lowerImplicitCast target expr).result = some target := by
  unfold lowerImplicitCast
  split
  · next h => exact h.symm
  · rfl

/-- `struct function_decl`. -/
structure FunctionDecl where
  type : TypeRef
  flags : FndeclFlags
  body : Expression
  scope : ScopeRef

/-- `struct global_decl`. -/
structure GlobalDecl where
  type : TypeRef
  value : Expression

/-- The payload union of `struct declaration`, tagged by `enum decl_type`. -/
inductive DeclarationKind where
  | func (func : FunctionDecl)
  | global (global : GlobalDecl)
  | type (type : TypeRef)

/-- `struct declaration`. -/
structure Declaration where
  ident : Identifier
  symbol : Option String
  exported : Bool
  decl : DeclarationKind

/-- `struct unit`: the typed unit. -/
structure TypedUnit where
  ns : Option Identifier
  declarations : List Declaration

end Harec
