import TypeMend.Table

/-!
# Object shapes

A `Shape` is the property table of an object type. Comparing a source shape with a target shape
finds the properties only one of them requires and the shared ones whose types are unrelated.
The comparison looks at one level: the types of the properties are compared as texts.
-/
namespace TypeMend

structure Property where
  typeText : String
  optional : Bool
  deriving DecidableEq, Inhabited

/-- The properties of an object type by name. -/
abbrev Shape := Table String Property

namespace Shape

/-- Adds the properties of a base that the shape does not have itself. -/
def inherit (shape base : Shape) : Shape :=
  base.entries.foldl (fun shape entry => shape.insertNew entry.1 entry.2) shape

end Shape

structure Comparison where
  /-- Keys the source requires and the target lacks. -/
  missing : List String
  /-- Keys of both sides whose types are unrelated. -/
  mismatch : List String
  /-- Keys the target requires and the source lacks. -/
  reversedMissing : List String
  deriving DecidableEq, Inhabited

namespace Comparison

protected def empty : Comparison :=
  ⟨[], [], []⟩

instance : EmptyCollection Comparison := ⟨Comparison.empty⟩

def isClean (comparison : Comparison) : Bool :=
  comparison.missing.isEmpty && comparison.mismatch.isEmpty && comparison.reversedMissing.isEmpty

end Comparison

namespace Shape

/-- Keys `source` requires and `target` lacks, in the order of `source`. -/
def requiredBeyond (source target : Shape) : List String :=
  (source.entries.filter fun entry => !entry.2.optional && !target.contains entry.1).map Prod.fst

/-- Whether a property conflicts with the one of the same name in `target`: neither type accepts
the other. -/
def conflicts (assignable : String → String → Bool) (target : Shape)
    (entry : String × Property) : Bool :=
  match target.get? entry.1 with
  | some other =>
    !assignable entry.2.typeText other.typeText && !assignable other.typeText entry.2.typeText
  | none => false

/-- Compares two shapes, with the types of shared keys judged by `assignable`. -/
def compare (assignable : String → String → Bool) (source target : Shape) : Comparison where
  missing := source.requiredBeyond target
  mismatch := (source.entries.filter (conflicts assignable target)).map Prod.fst
  reversedMissing := target.requiredBeyond source

end Shape

end TypeMend
