import ReactCatalog.Data.Decode

/-!
# Records

A record is one entry of the catalog: the name of a file and what is known of the component in it. The name of
the file stands first when a record is written, and no other field may have its key.
-/

namespace ReactCatalog

/-- The key of the file name. -/
def fileKey : String := "file"

structure Record where
  file : String
  fields : Dictionary Json
  deriving Inhabited

namespace Record

/-- Only the name of the file is known. -/
def bare (file : String) : Record := ⟨file, []⟩

/-- What was extracted, overlaid with what was annotated. Neither can name the file. -/
def merge (file : String) (extracted annotated : Option (Dictionary Json)) : Record :=
  ⟨file, Dictionary.erase fileKey (Dictionary.overlay (extracted.getD []) (annotated.getD []))⟩

def toJson (r : Record) : Json := .object ((fileKey, .string r.file) :: r.fields)

def isBare (r : Record) : Bool := r.fields.isEmpty

/-- Read a record back: the file name must be there, once. -/
def decode : Decoder Record
  | n + 1, .object members => do
    match members.filter fun m => m.1 == fileKey with
    | [m] =>
      let file ← Decoder.string n m.2
      let fields ← Decoder.dictionary Decoder.value (n + 1) (.object (members.filter fun m => m.1 != fileKey))
      pure ⟨file, fields⟩
    | _ => none
  | _, _ => none

end Record

end ReactCatalog
