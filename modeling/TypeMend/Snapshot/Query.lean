import TypeMend.Snapshot.Basic
import TypeMend.TypeText

/-!
# What a snapshot answers

Which pair of nodes a diagnostic means, which generic type surrounds a pair, where a type is
declared and which properties it has. The extends relation of the declarations may have cycles
and diamonds; collecting the properties of a type visits each declaration once.
-/
namespace TypeMend.Snapshot

/-- Whether an offset lies in a node. A node without extent holds the offset at which it
begins. -/
def encloses (file : String) (offset : UInt32) (node : SourceNode) : Bool :=
  node.file == file && node.start ≤ offset && (offset < node.stop || offset == node.start)

/-- Number of bytes of a node, zero when its range is inverted. -/
def extent (node : SourceNode) : Nat :=
  node.stop.toNat - node.start.toNat

/-- Of the pair found so far and a further one, the one with the smaller source. The earlier
wins a tie. -/
def narrower (best : Option NodePair) (pair : NodePair) : Option NodePair :=
  match best with
  | none => some pair
  | some other => if extent pair.source < extent other.source then some pair else some other

/-- The pair with the smallest source node that encloses an offset. -/
def locate? (snapshot : Snapshot) (file : String) (offset : UInt32) : Option NodePair :=
  (snapshot.locations.filter fun pair => encloses file offset pair.source).foldl narrower none

/-- The pair one generic type outward. -/
def enclosing? (snapshot : Snapshot) (pair : NodePair) : Option NodePair :=
  (snapshot.layers.find? fun layer =>
    layer.file == pair.source.file && layer.start == pair.source.start).map EnclosingLayer.outer

/-- The pairs around a pair, from the inside out, at most `depth` of them. -/
def enclosingChain (snapshot : Snapshot) : Nat → NodePair → List NodePair
  | 0, _ => []
  | depth + 1, pair =>
    match snapshot.enclosing? pair with
    | none => []
    | some outer => outer :: snapshot.enclosingChain depth outer

def declarationOf? (snapshot : Snapshot) (typeText : String) : Option Declaration :=
  snapshot.declarations.find? fun declaration =>
    declaration.name == TypeText.normalize typeText

/-- The properties of a declaration with those it inherits, and the names of the declarations
visited. A name in `seen` is not visited again. Each visit adds a declared name to `seen`, so
the number of declarations bounds the depth. -/
def collectShape (snapshot : Snapshot) : Nat → Declaration → List String → Shape × List String
  | 0, declaration, seen => (declaration.ownShape, declaration.name :: seen)
  | depth + 1, declaration, seen =>
    declaration.bases.foldl
      (fun (shape, seen) base =>
        if TypeText.normalize base ∈ seen then (shape, seen)
        else
          match snapshot.declarationOf? base with
          | none => (shape, seen)
          | some found =>
            let (inherited, seen) := snapshot.collectShape depth found seen
            (shape.inherit inherited, seen))
      (declaration.ownShape, declaration.name :: seen)

/-- The properties of a declaration with those it inherits. Own properties come first and win
over inherited ones of the same name. -/
def declaredShape (snapshot : Snapshot) (declaration : Declaration) : Shape :=
  (snapshot.collectShape snapshot.declarations.length declaration []).1

/-- The shape of a type: the one filed under its text, or the one its declaration gives. A type
without either is no object type. -/
def shapeOf? (snapshot : Snapshot) (typeText : String) : Option Shape :=
  (snapshot.shapes.get? (TypeText.normalize typeText)).or
    ((snapshot.declarationOf? typeText).map snapshot.declaredShape)

/-- The names of the source files the snapshot mentions in nodes and declarations. -/
def fileNames (snapshot : Snapshot) : List String :=
  (snapshot.locations.flatMap fun pair => [pair.source.file, pair.target.file]) ++
  (snapshot.layers.flatMap fun layer => [layer.outer.source.file, layer.outer.target.file]) ++
  snapshot.declarations.map Declaration.file

/-- The snapshot without its generic layers. -/
def flat (snapshot : Snapshot) : Snapshot :=
  { snapshot with layers := [] }

end TypeMend.Snapshot
