import Mathlib.Data.List.Forall2
import Harec.Monad
import Harec.Unit

/-!
# A reference environment

A concrete `Env` to run the checker on: a type store that interns the builtin types
and the few composite types the runs below use, and a constant evaluator that accepts
constants as they are.  The runs of units of several declarations are evaluated declaration
by declaration (`scanPass_run_of_inserts`, `checkDeclarations_run_cons`), with the context
between two declarations written out, rather than in one reduction of the whole run.

Types are numbered as follows.

| ref | type | ref | type |
|---|---|---|---|
| 0 | `void` | 7 | `*const int` |
| 1 | `bool` | 8 | `fn() int` |
| 2 | `int` | 9 | `fn() void` |
| 3 | `size` | 10 | `fn(int, ...) int` (C-variadic) |
| 4 | `str` | 11 | `fn(int, int...) void` |
| 5 | `const str` | 12 | `[]int` |
| 6 | `const int` | 13 | `[*]int` |
| | | 14 | `[2]int` |

Assignability and castability ignore `const`, as the store's do: `const int` and `int` are
assignable to each other, and so are `const str` and `str`.
-/

namespace Harec

namespace Reference

/-- `SIZE_UNDEFINED` of a 64-bit target. -/
def sizeUndefined : Nat := Nat.pow 2 64 - 1

/-- A type record with no payload. -/
def record (storage : Storage) (isConst : Bool) (size id : Nat) : TypeRecord :=
  ⟨storage, ⟨isConst⟩, size, id, ⟨0, none⟩, [], ⟨0, [], .none⟩, ⟨0, false⟩, [], []⟩

/-- The interned types. -/
def get : TypeRef → TypeRecord
  | 0 => record .void false 0 0
  | 1 => record .bool false 1 1
  | 2 => record .int false 4 2
  | 3 => record .size false 8 3
  | 4 => record .string false 16 4
  | 5 => record .string true 16 5
  | 6 => record .int true 4 6
  | 7 => { record .pointer false 8 7 with pointer := ⟨6, false⟩ }
  | 8 => { record .function false 0 8 with func := ⟨2, [], .none⟩ }
  | 9 => { record .function false 0 9 with func := ⟨0, [], .none⟩ }
  | 10 => { record .function false 0 10 with func := ⟨2, [2], .c⟩ }
  | 11 => { record .function false 0 11 with func := ⟨0, [2, 12], .hare⟩ }
  | 12 => { record .slice false 16 12 with array := ⟨sizeUndefined, some 2⟩ }
  | 13 => { record .array false sizeUndefined 13 with array := ⟨sizeUndefined, some 2⟩ }
  | 14 => { record .array false 8 14 with array := ⟨2, some 2⟩ }
  | _ => record .void false 0 0

/-- The builtin type of a storage class. -/
def builtin : Storage → Bool → Option TypeRef
  | .void, false => some 0
  | .bool, false => some 1
  | .int, false => some 2
  | .size, false => some 3
  | .string, false => some 4
  | .string, true => some 5
  | .int, true => some 6
  | _, _ => none

/-- The type a syntactic type names, when it names a builtin type. -/
def builtinOf : AstType → Option TypeRef
  | .builtin _ storage flags => builtin storage flags.isConst
  | _ => none

/-- `lookup_atype` on the types of the table. -/
def lookupAtype : AstType → TypeRef
  | .function _ _ proto =>
      match builtinOf proto.result, proto.params.map (builtinOf ·.type), proto.variadism with
      | some 2, [], .none => 8
      | some 0, [], .none => 9
      | some 2, [some 2], .c => 10
      | some 0, [some 2, some 2], .hare => 11
      | _, _, _ => 0
  | t => (builtinOf t).getD 0

/-- `lookup_with_flags` on the table: `int` and `str` with and without `const`. -/
def lookupWithFlags (t : TypeRef) (flags : TypeFlags) : TypeRef :=
  match t, flags.isConst with
  | 2, true => 6
  | 6, false => 2
  | 4, true => 5
  | 5, false => 4
  | t, _ => t

/-- The reference type store. -/
def store : TypeStore where
  get := get
  lookupAtype := lookupAtype
  lookupWithFlags := lookupWithFlags
  lookupPointer t nullable := if t = 6 && !nullable then 7 else 0
  lookupSlice t := if t = 2 then 12 else 0
  lookupArray t n := if t = 2 && n = sizeUndefined then 13 else if t = 2 && n = 2 then 14 else 0
  dealias t := t
  isInteger t := t = 2 || t = 3 || t = 6
  isSigned t := t = 2 || t = 6
  isNumeric t := t = 2 || t = 3 || t = 6
  isAssignable a b := lookupWithFlags a TypeFlags.none = lookupWithFlags b TypeFlags.none
  isCastable a b := lookupWithFlags a TypeFlags.none = lookupWithFlags b TypeFlags.none
  builtinForStorage := builtin
  builtinVoid := 0
  builtinBool := 1
  builtinSize := 3
  builtinStr := 4
  builtinConstStr := 5
  sizeUndefined := sizeUndefined
  storageUnparse _ := "type"

/-- The reference environment: the store above, an evaluator that accepts constants,
and identifiers printed by their name. -/
def env : Env :=
  { store with
    eval := fun e => match e.node with
      | .constant _ _ => some e
      | _ => none
    identifierUnparse := Identifier.name }

/-- The diagnostic a run stopped with, if it stopped. -/
def abortOf {α : Type} : Except Abort α → Option Abort
  | .error e => some e
  | .ok _ => none

/-- The context a driver starts `check` from. -/
def initialContext : Context := ⟨[], none, none, none, none, false, 0⟩

/-- A location for the syntax trees of the runs. -/
def here : Location := ⟨"main.ha", 1, 1⟩

/-- A scalar constant. -/
def const (storage : Storage) (value : ConstValue) : AstExpression :=
  .constant here storage value []

/-- A type named by its storage class. -/
def builtinType (storage : Storage) : AstType := .builtin here storage ⟨false⟩

/-- `fn name() result = body;`, not exported, without attributes. -/
def functionDecl (name : String) (result : Storage) (body : AstExpression) : AstDecl :=
  ⟨here, false, .function ⟨none, ⟨name, none⟩, ⟨builtinType result, [], .none⟩, some body,
    ⟨false, false, false⟩⟩⟩

/-- `fn name(params) result;`, a prototype without body. -/
def prototypeDecl (name : String) (prototype : AstFunctionType AstType) : AstDecl :=
  ⟨here, false, .function ⟨none, ⟨name, none⟩, prototype, none, ⟨false, false, false⟩⟩⟩

/-- A parameter `name: int`. -/
def intParam (name : String) : AstFunctionParameter AstType := ⟨here, some name, builtinType .int⟩

/-- A unit of one subunit holding one declaration. -/
def unitOf (decl : AstDecl) : AstUnit := ⟨[⟨[], [decl]⟩]⟩

/-- The object `scan_function` and `scan_global` insert for `name` of type `type`. -/
def declObject (name : String) (type : TypeRef) : ScopeObject :=
  ⟨.decl, ⟨name, none⟩, ⟨name, none⟩, type, none⟩

/-- The context the scan pass leaves for a unit of one subunit: the unit scope holding
the objects of the declarations, and the subunit's scope below it. -/
def scannedContext (objects : List ScopeObject) : Context :=
  ⟨[⟨none, none, none, objects⟩, ⟨some 0, none, none, []⟩], some 0, some 0, none, none, false, 0⟩

/-- The context the scan pass of a unit of one subunit scans its declarations in: the
subunit's scope is current, under the unit scope, which holds the objects inserted so far. -/
def scanningContext (objects : List ScopeObject) : Context :=
  ⟨[⟨none, none, none, objects⟩, ⟨some 0, none, none, []⟩], some 1, some 0, none, none, false, 0⟩

theorem scanDeclarations_run_cons {decl : AstDecl} {decls : List AstDecl} {c c₁ : Context}
    (h : (scanDecl env decl).run c = .ok ((), c₁)) :
    (scanDeclarations env (decl :: decls)).run c = (scanDeclarations env decls).run c₁ :=
  run_bind_of_ok h

/-- Declarations each of which, scanned whatever the unit scope holds, inserts one object
into it, insert their objects in order. -/
theorem scanDeclarations_run_scanningContext {decls : List AstDecl} {objects : List ScopeObject}
    (h : List.Forall₂ (fun decl o => ∀ objs, (scanDecl env decl).run (scanningContext objs) =
      .ok ((), scanningContext (objs ++ [o]))) decls objects) (objs : List ScopeObject) :
    (scanDeclarations env decls).run (scanningContext objs) =
      .ok ((), scanningContext (objs ++ objects)) := by
  induction h generalizing objs with
  | nil => rw [List.append_nil]; rfl
  | cons hd _ ih => rw [scanDeclarations_run_cons (hd objs), ih, List.append_assoc]; rfl

/-- The scan pass of a unit of one subunit, run declaration by declaration: the passes of
the reference units below are evaluated through it rather than in one reduction. -/
theorem scanPass_run_of_inserts {decls : List AstDecl} {objects : List ScopeObject}
    (h : List.Forall₂ (fun decl o => ∀ objs, (scanDecl env decl).run (scanningContext objs) =
      .ok ((), scanningContext (objs ++ [o]))) decls objects) :
    (scanPass env none ⟨[⟨[], decls⟩]⟩).run initialContext = .ok ([1], scannedContext objects) := by
  have e : (scanPass env none ⟨[⟨[], decls⟩]⟩).run initialContext =
      (((scanDeclarations env decls).run (scanningContext [])).bind fun p => scopePop.run p.2).bind
        fun q => .ok ([q.1], q.2) := rfl
  rw [e, scanDeclarations_run_scanningContext h]
  rfl

theorem checkDeclarations_run_cons {adecl : AstDecl} {adecls : List AstDecl} {c c₁ : Context}
    {od : Option Declaration} (h : (checkDecl env adecl).run c = .ok (od, c₁)) :
    (checkDeclarations env (adecl :: adecls)).run c =
      ((checkDeclarations env adecls).run c₁).map fun p => (od.toList ++ p.1, p.2) := by
  rw [checkDeclarations, run_bind_of_ok h]
  rfl

/-- The check pass of a unit of one subunit checks its declarations in the context its scan
pass left, with the subunit's scope current again. -/
theorem check_run_of_checkDeclarations {decls : List AstDecl} {objects : List ScopeObject}
    {ds : List Declaration} {ctx' : Context}
    (h : (scanPass env none ⟨[⟨[], decls⟩]⟩).run initialContext = .ok ([1], scannedContext objects))
    (hc : (checkDeclarations env decls).run (scanningContext objects) = .ok (ds, ctx')) :
    (check env none ⟨[⟨[], decls⟩]⟩).run initialContext = .ok (⟨none, ds⟩, ctx') := by
  rw [check_run, h]
  show Except.map _ (Except.bind ((checkDeclarations env decls).run (scanningContext objects)) _) = _
  rw [hc]
  show Except.ok ((⟨none, ds ++ []⟩ : TypedUnit), ctx') = _
  rw [List.append_nil]

/-- A unit of one declaration is checked by checking the declaration once scanned. -/
theorem check_unitOf_run {decl : AstDecl} {objects : List ScopeObject} {od : Option Declaration}
    {ctx' : Context}
    (h : (scanPass env none (unitOf decl)).run initialContext = .ok ([1], scannedContext objects))
    (hc : (checkDecl env decl).run (scanningContext objects) = .ok (od, ctx')) :
    (check env none (unitOf decl)).run initialContext = .ok (⟨none, od.toList⟩, ctx') :=
  check_run_of_checkDeclarations h <| (checkDeclarations_run_cons hc).trans <|
    congrArg (fun l => Except.ok (l, ctx')) (List.append_nil _)

theorem check_unitOf_run_error {decl : AstDecl} {objects : List ScopeObject} {e : Abort}
    (h : (scanPass env none (unitOf decl)).run initialContext = .ok ([1], scannedContext objects))
    (hc : (checkDecl env decl).run (scanningContext objects) = .error e) :
    (check env none (unitOf decl)).run initialContext = .error e := by
  rw [check_run, h]
  show Except.map _ (Except.bind ((checkDeclarations env [decl]).run (scanningContext objects)) _) = _
  rw [checkDeclarations, StateT.run_bind, hc]
  rfl

theorem scanPass_functionDecl_int (name : String) (body : AstExpression) :
    (scanPass env none (unitOf (functionDecl name .int body))).run initialContext =
      .ok ([1], scannedContext [declObject name 8]) := rfl

theorem scanPass_functionDecl_void (name : String) (body : AstExpression) :
    (scanPass env none (unitOf (functionDecl name .void body))).run initialContext =
      .ok ([1], scannedContext [declObject name 9]) := rfl

end Reference

end Harec
