/-!
# Options of the engine
-/
namespace TypeMend

/-- What a user can tune. -/
structure Options where
  /-- How many generic types are followed outward from a diagnostic. -/
  maxLayerDepth : Nat
  /-- The indentation of a member put into a declaration that has none. -/
  indentUnit : String
  /-- Whether to offer the change of the outermost declared type. -/
  outerCandidates : Bool
  deriving DecidableEq

namespace Options

/-- Eight layers, two spaces, and changes of outer types offered. -/
protected def default : Options :=
  ⟨8, "  ", true⟩

instance : Inhabited Options := ⟨Options.default⟩

end Options

end TypeMend
