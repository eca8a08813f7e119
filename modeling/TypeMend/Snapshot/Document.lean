import TypeMend.Json.Format
import TypeMend.Snapshot.Basic
import TypeMend.TypeText

/-!
# Snapshots as documents

Each part of a snapshot is a record of a JSON document. Reading also normalizes the type texts
under which shapes are filed, so that they are found whatever blanks they were written with.
-/
namespace TypeMend

open Json

namespace Snapshot

def diagnosticRecord : Record Diagnostic where
  title := "Diagnostic"
  fields :=
    need "code" .word <| need "file" .text <| need "start" .word <|
    may "length" .word 0 <| may "messageText" .text "" .nil
  strict := false
  make := fun (code, file, start, length, messageText, ()) => ⟨code, file, start, length, messageText⟩
  values := fun d => (d.code, d.file, d.start, d.length, d.messageText, ())

def spanRecord : Record SourceSpan where
  title := "HostSpan"
  fields :=
    need "file" .text <| need "start" .word <| need "end" .word <| need "text" .text .nil
  strict := false
  make := fun (file, start, stop, text, ()) => ⟨file, start, stop, text⟩
  values := fun span => (span.file, span.start, span.stop, span.text, ())

def slotRecord : Record MemberSlot where
  title := "PlaceholderSlot"
  fields :=
    need "key" .text <| need "ownerType" .text <| may "indexType" (.option .text) none .nil
  strict := false
  make := fun (key, ownerType, indexType, ()) => ⟨key, ownerType, indexType⟩
  values := fun slot => (slot.key, slot.ownerType, slot.indexType, ())

def nodeRecord : Record SourceNode where
  title := "HostNode"
  fields :=
    need "file" .text <| need "start" .word <| need "end" .word <| need "text" .text <|
    need "typeText" .text <| may "kindName" .text "" <| may "isFunction" .bool false <|
    may "placeholder" (.option slotRecord.format) none <|
    may "annotation" (.option spanRecord.format) none .nil
  strict := false
  make := fun (file, start, stop, text, typeText, kindName, isFunction, placeholder, writtenType, ()) =>
    ⟨file, start, stop, text, typeText, kindName, isFunction, placeholder, writtenType⟩
  values := fun node =>
    (node.file, node.start, node.stop, node.text, node.typeText, node.kindName, node.isFunction,
      node.placeholder, node.writtenType, ())

def pairRecord : Record NodePair where
  title := "NodePair"
  fields :=
    need "source" nodeRecord.format <| need "target" nodeRecord.format <|
    may "functionName" (.option .text) none .nil
  strict := false
  make := fun (source, target, functionName, ()) => ⟨source, target, functionName⟩
  values := fun pair => (pair.source, pair.target, pair.functionName, ())

def propertyRecord : Record Property where
  title := "PropertyDescriptor"
  fields := need "typeText" .text <| may "optional" .bool false .nil
  strict := false
  make := fun (typeText, optional, ()) => ⟨typeText, optional⟩
  values := fun property => (property.typeText, property.optional, ())

def memberRecord : Record MemberDeclaration where
  title := "MemberDeclaration"
  fields :=
    need "name" .text <| need "nameStart" .word <| need "nameEnd" .word <|
    need "typeStart" .word <| need "typeEnd" .word <| need "typeText" .text <|
    may "optional" .bool false .nil
  strict := false
  make := fun (name, nameStart, nameStop, typeStart, typeStop, typeText, optional, ()) =>
    ⟨name, nameStart, nameStop, typeStart, typeStop, typeText, optional⟩
  values := fun m =>
    (m.name, m.nameStart, m.nameStop, m.typeStart, m.typeStop, m.typeText, m.optional, ())

def declarationRecord : Record Declaration where
  title := "TypeDeclaration"
  fields :=
    need "name" .text <| need "file" .text <| need "start" .word <| need "end" .word <|
    may "members" (.list memberRecord.format) [] <| may "extends" (.list .text) [] .nil
  strict := false
  make := fun (name, file, start, stop, members, bases, ()) =>
    ⟨name, file, start, stop, members, bases⟩
  values := fun d => (d.name, d.file, d.start, d.stop, d.members, d.bases, ())

def layerRecord : Record EnclosingLayer where
  title := "EnclosingLayer"
  fields := need "file" .text <| need "start" .word <| need "outer" pairRecord.format .nil
  strict := false
  make := fun (file, start, outer, ()) => ⟨file, start, outer⟩
  values := fun layer => (layer.file, layer.start, layer.outer, ())

def snapshotRecord : Record Snapshot where
  title := "CheckerSnapshot"
  fields :=
    may "diagnostics" (.list diagnosticRecord.format) [] <|
    may "locations" (.list pairRecord.format) [] <|
    may "shapes" (.table (.table propertyRecord.format)) ∅ <|
    may "declarations" (.list declarationRecord.format) [] <|
    may "layers" (.list layerRecord.format) [] .nil
  strict := false
  make := fun (diagnostics, locations, shapes, declarations, layers, ()) =>
    ⟨diagnostics, locations, shapes, declarations, layers⟩
  values := fun s => (s.diagnostics, s.locations, s.shapes, s.declarations, s.layers, ())

/-- Files every shape under its normalized type text. Of two texts that become equal the later
shape stays, in the place of the earlier. -/
def normalizeShapeKeys (snapshot : Snapshot) : Snapshot :=
  { snapshot with
    shapes := .ofList (snapshot.shapes.entries.map fun (key, shape) =>
      (TypeText.normalize key, shape)) }

def parse (document : String) : Except Json.Error Snapshot :=
  (snapshotRecord.format.parse document).map normalizeShapeKeys

/-- Writes a snapshot, all fields included. -/
def print (snapshot : Snapshot) : String :=
  snapshotRecord.format.print snapshot

end Snapshot

end TypeMend
