import ReactCatalog.Catalog.Annotation
import ReactCatalog.Catalog.Record
import ReactCatalog.Component.Extract

/-!
# Outcomes

What came of looking at one file: the extracted documentation and the annotation, each of which may have failed.
-/

namespace ReactCatalog

/-- How much is known of a file. -/
inductive FileStatus where
  /-- Documentation was extracted, and reading the annotation did not fail. -/
  | complete
  /-- One of the two gave something, the other failed. -/
  | incomplete
  /-- Neither gave anything. -/
  | failed
  deriving DecidableEq, Repr, Inhabited

/-- What came of one file. -/
structure FileOutcome where
  file : String
  extracted : Except ExtractError ComponentDoc
  /-- The annotation, if there is one, or why it could not be read. -/
  annotated : Except String (Option (Dictionary Json))

namespace FileOutcome

def status (o : FileOutcome) : FileStatus :=
  match o.extracted, o.annotated with
  | .ok _, .ok _ => .complete
  | .ok _, .error _ => .incomplete
  | .error _, .ok (some _) => .incomplete
  | .error _, _ => .failed

/-- The record of the file. -/
def record (o : FileOutcome) : Record :=
  .merge o.file (o.extracted.toOption.map ComponentDoc.fields) (o.annotated.toOption.bind id)

end FileOutcome

end ReactCatalog
