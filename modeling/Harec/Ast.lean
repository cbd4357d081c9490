import Mathlib.Logic.Basic

/-!
# The syntax tree the checker consumes

This module transcribes the parts of the untyped syntax tree (`ast.h`) that
`check.c` reads or builds.  The parser is not modelled; its tree is the input.

* Every node of `struct ast_expression` carries its location; the payload of each
  expression kind is a record over the expression type, so that the checker can
  take one payload at a time and recurse structurally into its fields.
* Lists that the C tree embeds in their parent (the expressions of a block, the
  bindings of a `let`) are `List`s here.  The checker treats an empty one the way
  the C code treats the zeroed embedded element: as a read through a null pointer.
* Of `struct ast_type` only what the checker builds or reads is kept: types named
  by their storage class, aliases, function prototypes and struct/union literals'
  field lists.  Every other spelling of a type reaches the checker only through the
  type store's `lookup_atype`, which is a parameter of the model.
-/

namespace Harec

/-- `struct location`: the start of a syntax node. -/
structure Location where
  path : String
  lineno : Int
  colno : Int
deriving DecidableEq, Repr

/-- `struct identifier`: a name and an optional enclosing namespace. -/
structure Identifier where
  name : String
  ns : Option Identifier
deriving Repr

/-- Structural equality of identifiers (`identifier_eq`). -/
def Identifier.decEq : (a b : Identifier) → Decidable (a = b)
  | ⟨n, none⟩, ⟨m, none⟩ =>
      if h : n = m then isTrue (by rw [h]) else isFalse (fun e => h (by cases e; rfl))
  | ⟨n, some a⟩, ⟨m, some b⟩ =>
      match String.decEq n m, Identifier.decEq a b with
      | isTrue h, isTrue e => isTrue (by rw [h, e])
      | isFalse h, _ => isFalse (fun e => h (by cases e; rfl))
      | _, isFalse h => isFalse (fun e => h (by cases e; rfl))
  | ⟨_, none⟩, ⟨_, some _⟩ => isFalse (fun e => by cases e)
  | ⟨_, some _⟩, ⟨_, none⟩ => isFalse (fun e => by cases e)

instance : DecidableEq Identifier := Identifier.decEq

/-- `enum type_storage`. -/
inductive Storage where
  | void | bool | null
  | i8 | i16 | i32 | i64 | u8 | u16 | u32 | u64 | int | uint
  | rune | f32 | f64 | char | uintptr | size | string
  | pointer | slice | array | struct | union | taggedUnion | enum | function | alias
deriving DecidableEq, Repr

/-- `enum type_flags`: the checker reads and sets only `TYPE_CONST`. -/
structure TypeFlags where
  isConst : Bool
deriving DecidableEq, Repr

/-- The empty flag set. -/
def TypeFlags.none : TypeFlags := ⟨false⟩

/-- `flags | other`. -/
def TypeFlags.or (a b : TypeFlags) : TypeFlags := ⟨a.isConst || b.isConst⟩

/-- `enum variadism`. -/
inductive Variadism where
  | none | c | hare
deriving DecidableEq, Repr

/-- `struct ast_function_parameters`. -/
structure AstFunctionParameter (T : Type) where
  loc : Location
  name : Option String
  type : T
deriving Repr

/-- `struct ast_function_type`: a prototype. -/
structure AstFunctionType (T : Type) where
  result : T
  params : List (AstFunctionParameter T)
  variadism : Variadism
deriving Repr

/-- A field member of `struct ast_struct_union_type`. -/
structure AstStructField (T : Type) where
  name : String
  type : T
deriving Repr

/-- `struct ast_type`, as far as the checker builds or reads it. -/
inductive AstType where
  | builtin (loc : Location) (storage : Storage) (flags : TypeFlags)
  | alias (loc : Location) (flags : TypeFlags) (unwrap : Bool) (ident : Identifier)
  | function (loc : Location) (flags : TypeFlags) (func : AstFunctionType AstType)
  | structUnion (loc : Location) (storage : Storage) (flags : TypeFlags)
      (members : List (AstStructField AstType))
deriving Repr

/-- The location of a syntactic type. -/
def AstType.loc : AstType → Location
  | .builtin loc .. | .alias loc .. | .function loc .. | .structUnion loc .. => loc

/-- `enum binarithm_operator`. -/
inductive BinarithmOperator where
  | band | bor | div | greater | greatereq | land | lequal | less | lesseq | lor
  | lshift | lxor | minus | modulo | nequal | plus | rshift | times | bxor
deriving DecidableEq, Repr

/-- `enum unarithm_operator`. -/
inductive UnarithmOperator where
  | address | bnot | deref | lnot | minus | plus
deriving DecidableEq, Repr

/-- `enum cast_kind`. -/
inductive CastKind where
  | cast | assertion | test
deriving DecidableEq, Repr

/-- The two control expressions, `EXPR_BREAK` and `EXPR_CONTINUE`. -/
inductive ControlType where
  | «break» | «continue»
deriving DecidableEq, Repr

/-- The scalar and string members of the constant payload union. -/
inductive ConstValue where
  | none
  | ival (v : Int)
  | uval (v : Nat)
  | rune (v : Nat)
  | bval (v : Bool)
  | string (len : Nat) (value : List UInt8)
deriving DecidableEq, Repr

/-- `enum measure_operator`. -/
inductive MeasureOperator where
  | len | size | offset
deriving DecidableEq, Repr

/-- One link of `struct ast_expression_binding`. -/
structure AstBinding (E : Type) where
  name : String
  type : Option AstType
  flags : TypeFlags
  initializer : E
  isStatic : Bool
deriving Repr

/-- `struct ast_call_argument`. -/
structure AstCallArgument (E : Type) where
  value : E
  variadic : Bool
deriving Repr

/-- `struct ast_array_constant`. -/
structure AstArrayConstant (E : Type) where
  value : E
  expand : Bool
deriving Repr

/-- `struct ast_field_value`. -/
structure AstFieldValue (E : Type) where
  isEmbedded : Bool
  name : String
  type : AstType
  initializer : E
deriving Repr

/-- `struct ast_switch_case`. -/
structure AstSwitchCase (E : Type) where
  options : List E
  value : E
deriving Repr

/-- `struct ast_expression`: one constructor per expression kind (per access kind for
`EXPR_ACCESS`), with the fields of its payload.  In `constant`, `value` is the member of
the payload union the parser filled for a scalar or string, `array` the items of an
array literal.  In `measure`, `value` is the operand of `len` and `type` that of `size`. -/
inductive AstExpression where
  | accessIdentifier (loc : Location) (ident : Identifier)
  | accessIndex (loc : Location) (array index : AstExpression)
  | accessField (loc : Location) (object : AstExpression) (field : String)
  | assert (loc : Location) (cond message : Option AstExpression)
  | assign (loc : Location) (op : Option BinarithmOperator) (indirect : Bool)
      (object value : AstExpression)
  | binarithm (loc : Location) (op : BinarithmOperator) (lvalue rvalue : AstExpression)
  | binding (loc : Location) (bindings : List (AstBinding AstExpression))
  | control (loc : Location) (type : ControlType) (label : Option String)
  | call (loc : Location) (lvalue : AstExpression) (args : List (AstCallArgument AstExpression))
  | cast (loc : Location) (kind : CastKind) (value : AstExpression) (type : AstType)
  | constant (loc : Location) (storage : Storage) (value : ConstValue)
      (array : List (AstArrayConstant AstExpression))
  | defer (loc : Location) (deferred : AstExpression)
  | «for» (loc : Location) (label : Option String) (labelLoc : Location)
      (bindings : Option AstExpression) (cond : AstExpression)
      (afterthought : Option AstExpression) (body : AstExpression)
  | «if» (loc : Location) (cond trueBranch : AstExpression) (falseBranch : Option AstExpression)
  | list (loc : Location) (exprs : List AstExpression)
  | «match» (loc : Location)
  | measure (loc : Location) (op : MeasureOperator) (value : Option AstExpression)
      (type : Option AstType)
  | «return» (loc : Location) (value : Option AstExpression)
  | slice (loc : Location) (object : AstExpression) (start «end» : Option AstExpression)
  | struct (loc : Location) (autofill : Bool) (typeName : Option String)
      (fields : List (AstFieldValue AstExpression))
  | switch (loc : Location) (value : AstExpression) (cases : List (AstSwitchCase AstExpression))
  | unarithm (loc : Location) (op : UnarithmOperator) (operand : AstExpression)

/-- The location of an expression node. -/
def AstExpression.loc : AstExpression → Location
  | .accessIdentifier loc .. | .accessIndex loc .. | .accessField loc .. | .assert loc ..
  | .assign loc .. | .binarithm loc .. | .binding loc .. | .control loc .. | .call loc ..
  | .cast loc .. | .constant loc .. | .defer loc .. | .for loc .. | .if loc .. | .list loc ..
  | .match loc | .measure loc .. | .return loc .. | .slice loc .. | .struct loc ..
  | .switch loc .. | .unarithm loc .. => loc

/-- `enum fndecl_flags`: the `@init`, `@fini` and `@test` attributes. -/
structure FndeclFlags where
  init : Bool
  fini : Bool
  test : Bool
deriving DecidableEq, Repr

/-- `struct ast_function_decl`; `symbol` is the `@symbol` attribute. -/
structure AstFunctionDecl where
  symbol : Option String
  ident : Identifier
  prototype : AstFunctionType AstType
  body : Option AstExpression
  flags : FndeclFlags

/-- `struct ast_global_decl`, for constants and globals. -/
structure AstGlobalDecl where
  symbol : Option String
  ident : Identifier
  type : AstType
  init : Option AstExpression

/-- `struct ast_type_decl`. -/
structure AstTypeDecl where
  ident : Identifier
  type : AstType
deriving Repr

/-- The payload union of `struct ast_decl`, tagged by `decl_type`. -/
inductive AstDeclKind where
  | constant (decl : AstGlobalDecl)
  | function (decl : AstFunctionDecl)
  | global (decl : AstGlobalDecl)
  | type (decl : AstTypeDecl)

/-- `struct ast_decl`. -/
structure AstDecl where
  loc : Location
  exported : Bool
  decl : AstDeclKind

/-- `struct ast_subunit`: its imports and its declarations in source order. -/
structure AstSubunit where
  imports : List Identifier
  decls : List AstDecl

/-- `struct ast_unit`: the subunits in order. -/
structure AstUnit where
  subunits : List AstSubunit

end Harec
