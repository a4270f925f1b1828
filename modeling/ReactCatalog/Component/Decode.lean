import ReactCatalog.Component.Doc
import ReactCatalog.Data.Decode

/-!
# Reading component documentation

The documentation of a component, read back from written data. Fields that are not part of it are passed over.
-/

namespace ReactCatalog

open Decoder

def TypeDoc.decode : Decoder TypeDoc
  | 0, _ => none
  | n + 1, v => do
    match ← slots? .refused ["name", "value", "raw", "elements"] v with
    | [name, value, raw, elements] =>
      let items : Written → Option (List TypeDoc)
        | .array items =>
          match n with
          | 0 => none
          | m + 1 => items.mapM (TypeDoc.decode m)
        | _ => none
      pure (.mk (← name.required (string n)) (← value.optional (optional Decoder.value n))
        (← raw.optional (optional string n)) (← elements.optional (optional (fun _ => items) n)))
    | _ => none

def DefaultValue.decode : Decoder DefaultValue :=
  record ["value", "computed"] fun n slots => do
    match slots with
    | [value, computed] => pure ⟨← value.required (string n), ← computed.required (bool n)⟩
    | _ => none

def PropDoc.decode : Decoder PropDoc :=
  record ["type", "tsType", "required", "defaultValue", "description"] fun n slots => do
    match slots with
    | [type, tsType, required, defaultValue, description] =>
      pure {
        type := ← type.optional (optional TypeDoc.decode n)
        tsType := ← tsType.optional (optional TypeDoc.decode n)
        required := ← required.required (bool n)
        defaultValue := ← defaultValue.optional (optional DefaultValue.decode n)
        description := ← description.required (string n) }
    | _ => none

def ParameterDoc.decode : Decoder ParameterDoc :=
  record ["name", "optional"] fun n slots => do
    match slots with
    | [name, optional] => pure ⟨← name.required (string n), ← optional.withDefault false (bool n)⟩
    | _ => none

def MethodDoc.decode : Decoder MethodDoc :=
  record ["name", "description", "modifiers", "params"] fun n slots => do
    match slots with
    | [name, description, modifiers, params] =>
      pure {
        name := ← name.required (string n)
        description := ← description.optional (optional string n)
        modifiers := ← modifiers.required (list string n)
        params := ← params.required (list ParameterDoc.decode n) }
    | _ => none

def ComponentDoc.decode : Decoder ComponentDoc :=
  record ["description", "displayName", "methods", "properties", "composes"] fun n slots => do
    match slots with
    | [description, displayName, methods, properties, composes] =>
      pure {
        description := ← description.required (string n)
        displayName := ← displayName.optional (optional string n)
        methods := ← methods.withDefault [] (list MethodDoc.decode n)
        properties := ← properties.withDefault [] (dictionary PropDoc.decode n)
        composes := ← composes.withDefault [] (list string n) }
    | _ => none

end ReactCatalog
