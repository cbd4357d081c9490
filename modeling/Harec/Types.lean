import Harec.Ast

/-!
# Interned types and the type store

The checker never builds a type itself: it asks the type store (`type_store.c`)
to intern one and receives a pointer to an immutable `struct type`.  That store
is not part of `check.c`, so here it is a parameter, `TypeStore`, holding

* `get`, what the checker reads through a type pointer;
* the interning operations (`lookup_atype`, `lookup_with_flags`, `lookup_pointer`,
  `lookup_slice`, `lookup_array`) and the classifiers and relations of `types.c`
  (`dealias`, `is_integer`, `is_signed`, `is_numeric`, `is_assignable`,
  `is_castable`), of which the specification fixes only the interface;
* the builtin type table.

A type pointer is a `TypeRef`.  Interning makes pointer equality the equality of
types, and the checker compares types only by pointer, so `TypeRef` equality is
what `==` on types means in `check.c`.

`struct type` keeps its storage-specific payload in a C union.  `TypeRecord` has
one field per member of that union: the member named by `storage` is meaningful,
the others hold whatever the store left there, which is what `check.c` reads when
it looks at the wrong member.
-/

namespace Harec

/-- `const struct type *`. -/
abbrev TypeRef := Nat

/-- `struct type_func`: result, parameter types in order, variadism. -/
structure TypeFunc where
  result : TypeRef
  params : List TypeRef
  variadism : Variadism
deriving DecidableEq, Repr

/-- `struct type_pointer`; `nullable` is the `PTR_NULLABLE` flag. -/
structure TypePointer where
  referent : TypeRef
  nullable : Bool
deriving DecidableEq, Repr

/-- `struct type_array`, also the payload of slices. -/
structure TypeArray where
  length : Nat
  members : Option TypeRef
deriving DecidableEq, Repr

/-- `struct struct_field`: the field descriptor the checker attaches to field accesses
and struct literals. -/
structure StructField where
  name : String
  type : TypeRef
  offset : Nat
deriving DecidableEq, Repr

/-- `struct type_enum_value`; `ival` and `uval` are the two views of its value. -/
structure TypeEnumValue where
  name : String
  ival : Int
  uval : Nat
deriving DecidableEq, Repr

/-- `struct type`: storage class, flags, size, structural id, and one field per member
of the payload union. -/
structure TypeRecord where
  storage : Storage
  flags : TypeFlags
  size : Nat
  id : Nat
  array : TypeArray
  enumValues : List TypeEnumValue
  func : TypeFunc
  pointer : TypePointer
  structUnion : List StructField
  tagged : List TypeRef
deriving DecidableEq, Repr

/-- The type store and the type utilities of `types.c`, as the checker uses them. -/
structure TypeStore where
  /-- Reading the `struct type` a type pointer points to. -/
  get : TypeRef → TypeRecord
  /-- `type_store_lookup_atype`. -/
  lookupAtype : AstType → TypeRef
  /-- `type_store_lookup_with_flags`. -/
  lookupWithFlags : TypeRef → TypeFlags → TypeRef
  /-- `type_store_lookup_pointer`; the flag is `PTR_NULLABLE`. -/
  lookupPointer : TypeRef → Bool → TypeRef
  /-- `type_store_lookup_slice`. -/
  lookupSlice : TypeRef → TypeRef
  /-- `type_store_lookup_array`. -/
  lookupArray : TypeRef → Nat → TypeRef
  /-- `type_dealias`. -/
  dealias : TypeRef → TypeRef
  /-- `type_is_integer`. -/
  isInteger : TypeRef → Bool
  /-- `type_is_signed`. -/
  isSigned : TypeRef → Bool
  /-- `type_is_numeric`. -/
  isNumeric : TypeRef → Bool
  /-- `type_is_assignable(store, to, from)`. -/
  isAssignable : TypeRef → TypeRef → Bool
  /-- `type_is_castable(to, from)`. -/
  isCastable : TypeRef → TypeRef → Bool
  /-- `builtin_type_for_storage(storage, is_const)`; null for the composite classes. -/
  builtinForStorage : Storage → Bool → Option TypeRef
  /-- `builtin_type_void`. -/
  builtinVoid : TypeRef
  /-- `builtin_type_bool`. -/
  builtinBool : TypeRef
  /-- `builtin_type_size`. -/
  builtinSize : TypeRef
  /-- `builtin_type_str`. -/
  builtinStr : TypeRef
  /-- `builtin_type_const_str`. -/
  builtinConstStr : TypeRef
  /-- `SIZE_UNDEFINED`. -/
  sizeUndefined : Nat
  /-- `type_storage_unparse`. -/
  storageUnparse : Storage → String

namespace TypeStore

variable (s : TypeStore)

/-- The storage class of a type. -/
def storage (t : TypeRef) : Storage := (s.get t).storage

/-- Modelled from the spec: `type_dereference` (in `types.c`, not in the sources).  A
non-nullable pointer gives its referent, a nullable one gives null, any other type
itself. -/
def dereference (t : TypeRef) : Option TypeRef :=
  if s.storage t = .pointer then
    if (s.get t).pointer.nullable then none else some (s.get t).pointer.referent
  else some t

/-- Modelled from the spec: `type_get_field` (in `types.c`, not in the sources), the
descriptor of the field of that name, if any. -/
def getField (t : TypeRef) (name : String) : Option StructField :=
  (s.get t).structUnion.find? (·.name = name)

end TypeStore

end Harec
