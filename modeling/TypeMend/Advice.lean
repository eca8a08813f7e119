import TypeMend.Problem

/-!
# Advice for values and objects that were confused

When a plain value stands where an object is expected, or the other way round, there is nothing
to edit. The user is pointed at a property that would fit, if there is one.
-/
namespace TypeMend.Advice

/-- Advice at the source of a pair. -/
def atSource (pair : NodePair) (message : String) : Suggestion :=
  ⟨pair.source.file, pair.source.start.toNat, message⟩

/-- Advice for a plain value where an object is expected: the first property that accepts it. -/
def simpleToObject (pair : NodePair) (target : Shape) : Suggestion :=
  let expects :=
    s!"`{pair.source.text}` is a `{pair.source.typeText}` but `{pair.target.text}` expects an object of type `{pair.target.typeText}`"
  atSource pair <|
    match target.entries.find? fun entry =>
        TypeText.assignable pair.source.typeText entry.2.typeText with
    | some (key, _) => expects ++ s!". Did you mean to assign it to `{pair.target.text}.{key}`?"
    | none => expects ++ "; check that the right value is used."

/-- Advice for an object where a plain value is expected: each property that is accepted. -/
def objectToSimple (pair : NodePair) (source : Shape) : List Suggestion :=
  let text := pair.source.text
  let expects := s!"`{pair.target.text}` expects `{pair.target.typeText}`"
  let siblings :=
    (source.entries.filter fun entry =>
      TypeText.assignable entry.2.typeText pair.target.typeText).map fun (key, _) =>
        atSource pair s!"Did you mean `{text}.{key}` instead of `{text}`? {expects}."
  if siblings.isEmpty then
    [atSource pair
      s!"`{text}` is an object of type `{pair.source.typeText}` but {expects}; no property of it matches."]
  else siblings

end TypeMend.Advice
