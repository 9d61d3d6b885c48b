/-
  Macros/AurumInterface.lean --- the derive macro of root message types, from
  `aurum_actors_macros/src/aurum_interface/mod.rs`.

  The macro reads an enum declaration with its `aurum` attributes and writes the
  `From` implementations and the `RootMessage` implementation of the enum.  A
  type is whatever the compiler resolves its tokens to; the enum itself stands
  there with its parameters.
-/
import Mathlib.Data.List.Nodup

set_option autoImplicit false

namespace AurumActors.Macros

/-! ## Declarations -/

/-- An argument of an attribute: a path, or any other expression. -/
inductive Expr where
  | path (segments : List String)
  | other
  deriving DecidableEq, Repr

/-- What stands behind the path of an attribute. -/
inductive AttrTokens where
  | empty
  | parenthesized (args : List Expr)
  | other
  deriving DecidableEq, Repr

structure Attribute where
  path : String
  tokens : AttrTokens
  deriving DecidableEq, Repr

inductive GenericParam where
  | type (ident : String)
  | lifetime
  | const
  deriving DecidableEq, Repr

/-- `syn::Fields`: the types of the fields, with names or without. -/
inductive Fields (Ty : Type) where
  | named (fields : List (Ty × String))
  | unnamed (fields : List Ty)
  | unit

structure Variant (Ty : Type) where
  ident : String
  attrs : List Attribute
  fields : Fields Ty

/-- The data of a declaration, an enum or not. -/
inductive Data (Ty : Type) where
  | enum (variants : List (Variant Ty))
  | other

/-- `syn::DeriveInput`; `self` is the declared type. -/
structure DeriveInput (Ty : Type) where
  self : Ty
  generics : List GenericParam
  attrs : List Attribute
  data : Data Ty

/-! ## Parsing -/

/-- `AurumProperties`, whose only flag is `local`. -/
structure AurumProperties where
  isLocal : Bool
  deriving DecidableEq, Repr

namespace AurumProperties

/-- `AurumProperties::default` -/
def default : AurumProperties := ⟨false⟩

/-- The loop of `parse` over the arguments, with the flag so far. -/
def parseArgs : List Expr → Option Bool → Except String (Option Bool)
  | [], isLocal => .ok isLocal
  | .path [flag] :: args, isLocal =>
      if flag = "local" then
        if isLocal.isSome then .error "Duplicate flag `local`" else parseArgs args (some true)
      else .error ("Unknown flag `" ++ flag ++ "`")
  | .path _ :: _, _ => .error "'aurum' flags are singular identifiers."
  | .other :: _, _ => .error "'aurum' attribute only accepts identifiers as arguments"

/-- `AurumProperties::parse` -/
def parse : AttrTokens → Except String AurumProperties
  | .empty => .ok default
  | .other => .error "You must have parentheses around arguments to 'aurum'"
  | .parenthesized args => do
      let isLocal ← parseArgs args none
      return ⟨isLocal.getD default.isLocal⟩

/-- `AurumProperties::get` -/
def get (attrs : List Attribute) : Except String (Option AurumProperties) :=
  match attrs.filter (·.path = "aurum") with
  | [] => .ok none
  | [attr] => (parse attr.tokens).map some
  | _ =>
      .error "AurumInterface does not allow more than one 'aurum' annotation in the same place."

end AurumProperties

/-- A variant; one that is annotated has exactly one field. -/
structure AurumVariant (Ty : Type) where
  variantName : String
  fieldTypes : List Ty
  fieldNames : Option (List String)
  props : Option AurumProperties
  one_field : props.isSome → fieldTypes.length = 1

namespace Fields

variable {Ty : Type}

/-- The types of the fields. -/
def types : Fields Ty → List Ty
  | .named fields => fields.map (·.1)
  | .unnamed fields => fields
  | .unit => []

/-- The names, collected into an option: there are none for fields without. -/
def names : Fields Ty → Option (List String)
  | .named fields => some (fields.map (·.2))
  | .unnamed [] | .unit => some []
  | .unnamed _ => none

end Fields

/-- `AurumVariant::get` -/
def AurumVariant.get {Ty : Type} (variant : Variant Ty) : Except String (AurumVariant Ty) := do
  let props ← AurumProperties.get variant.attrs
  if h : variant.fields.types.length ≠ 1 ∧ props.isSome then
    throw "AurumInterface variants must have exactly one field."
  else
    return {
      variantName := variant.ident
      fieldTypes := variant.fields.types
      fieldNames := variant.fields.names
      props := props
      one_field := fun hprops => Decidable.byContradiction fun hne => h ⟨hne, hprops⟩ }

/-- What `derive` makes of a declaration. -/
structure RootImpl (Ty : Type) where
  typeId : Ty
  genericIds : List String
  typeAttr : AurumProperties
  variants : List (AurumVariant Ty)

/-- The loop of `derive` over the generic parameters. -/
def genericIds : List GenericParam → Except String (List String)
  | [] => .ok []
  | .type ident :: params => do
      let idents ← genericIds params
      return ident :: idents
  | .lifetime :: _ => .error "AurumInterface does not allow lifetime parameters."
  | .const :: _ => .error "AurumInterface does not allow const parameters."

/-- `derive` -/
def derive {Ty : Type} (ast : DeriveInput Ty) : Except String (RootImpl Ty) := do
  let genericIds ← genericIds ast.generics
  match ast.data with
  | .other => throw "AurumInterface only supports enums."
  | .enum dataEnum =>
      let variants ← dataEnum.mapM AurumVariant.get
      let typeAttr ← AurumProperties.get ast.attrs
      return ⟨ast.self, genericIds, typeAttr.getD .default, variants⟩

/-! ## What `expand` writes -/

/-- `impl From<fieldType>`, which wraps an item in a variant. -/
structure FromImpl (Ty : Type) where
  variantName : String
  /-- the name of the field, where it has one -/
  fieldName : Option String
  fieldType : Ty

namespace AurumVariant

variable {Ty : Type}

/-- `field_types[0]` of a variant that is annotated. -/
def fieldType (v : AurumVariant Ty) (h : v.props.isSome) : Ty :=
  v.fieldTypes.get ⟨0, by rw [v.one_field h]; exact Nat.one_pos⟩

/-- The implementation for a variant that is annotated. -/
def fromImpl (v : AurumVariant Ty) : Option (FromImpl Ty) :=
  if h : v.props.isSome then
    some ⟨v.variantName, v.fieldNames.bind List.head?, v.fieldType h⟩
  else none

/-- The interface of a variant that is annotated, and not as local. -/
def nonLocal (v : AurumVariant Ty) : Option Ty :=
  if h : v.props.isSome then
    if (v.props.get h).isLocal then none else some (v.fieldType h)
  else none

end AurumVariant

namespace RootImpl

variable {Ty : Type}

/-- `from_impls` -/
def fromImpls (root : RootImpl Ty) : List (FromImpl Ty) := root.variants.filterMap (·.fromImpl)

/-- The interfaces that `non_locals` starts with. -/
def remotes (root : RootImpl Ty) : List Ty := root.variants.filterMap (·.nonLocal)

/-- `non_locals`, which the chains of comparisons go through. -/
def nonLocals (root : RootImpl Ty) : List Ty :=
  root.remotes ++ if root.typeAttr.isLocal then [] else [root.typeId]

/-- `cases`, the types whose `Case` the implementation is bounded by. -/
def cases (root : RootImpl Ty) : List Ty := root.remotes ++ [root.typeId]

/-- No two `From` implementations are for one type, nor is one for the enum
itself, which has the reflexive one: what the compiler checks. -/
def Coherent (root : RootImpl Ty) : Prop :=
  (root.typeId :: root.fromImpls.map (·.fieldType)).Nodup

end RootImpl

section

variable {Ty : Type} {root : RootImpl Ty}

theorem RootImpl.mem_cases_of_nonLocals {t : Ty} (h : t ∈ root.nonLocals) : t ∈ root.cases := by
  unfold nonLocals at h
  rcases List.mem_append.mp h with h | h
  · exact List.mem_append_left _ h
  · split at h
    · simp at h
    · exact List.mem_append_right _ h

end

end AurumActors.Macros
