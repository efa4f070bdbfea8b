import CilSketch.TypeRef

/-!
Short names of the basic types in projected source.
-/

set_option autoImplicit false

namespace CilSketch

/-- A type with a name of its own in the surface language. -/
structure Alias where
  typeName : String
  shortName : String
  deriving DecidableEq, Repr

/-- An alias goes by the simple name alone, whatever the namespace. -/
def aliases : List Alias :=
  [⟨"Boolean", "bool"⟩,
   ⟨"Object", "obj"⟩,
   ⟨"String", "string"⟩,
   ⟨"Char", "char"⟩,
   ⟨"SByte", "i8"⟩,
   ⟨"Byte", "u8"⟩,
   ⟨"Int16", "i16"⟩,
   ⟨"UInt16", "u16"⟩,
   ⟨"Int32", "i32"⟩,
   ⟨"UInt32", "u32"⟩,
   ⟨"Int64", "i64"⟩,
   ⟨"UInt64", "u64"⟩,
   ⟨"Half", "f16"⟩,
   ⟨"Single", "f32"⟩,
   ⟨"Double", "f64"⟩]

def aliasFor? (typeName : String) : Option String :=
  (aliases.find? fun entry => entry.typeName == typeName).map Alias.shortName

/-- The name that a type has in projected source. -/
def TypeRef.displayName (ref : TypeRef) : String :=
  (aliasFor? ref.name).getD ref.name

end CilSketch
