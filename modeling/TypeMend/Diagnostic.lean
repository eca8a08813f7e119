/-!
# Diagnostics

A type checker reports an open-ended set of numbered diagnostics. A few of them describe a
structural problem that can be mended; those are grouped into families by the problem they
describe.
-/
namespace TypeMend

structure Diagnostic where
  code : UInt32
  file : String
  start : UInt32
  length : UInt32
  messageText : String
  deriving DecidableEq, Inhabited

/-- The structural problem a diagnostic describes. -/
inductive Family
  /-- The type of a value is not accepted where the value stands. -/
  | assignability
  /-- A value lacks properties that its target requires. -/
  | missingProperties
  /-- An object literal names a property that its target does not declare. -/
  | excessProperty
  /-- A property access names a member that its owner does not declare. -/
  | missingMember
  /-- An element access needs an index signature that its owner lacks. -/
  | missingIndexSignature
  deriving DecidableEq

namespace Family

def ofCode? (code : UInt32) : Option Family :=
  match code.toNat with
  | 2322 | 2345 | 2559 => some .assignability
  | 2739 | 2740 | 2741 => some .missingProperties
  | 2353 | 2561 => some .excessProperty
  | 2339 | 2551 => some .missingMember
  | 7053 => some .missingIndexSignature
  | _ => none

def name : Family → String
  | assignability => "assignability"
  | missingProperties => "missingProperties"
  | excessProperty => "excessProperty"
  | missingMember => "missingMember"
  | missingIndexSignature => "missingIndexSignature"

/-- Whether the node of a diagnostic stands for a member slot rather than for a value. -/
def expectsPlaceholder : Family → Bool
  | missingMember | missingIndexSignature => true
  | _ => false

end Family

end TypeMend
