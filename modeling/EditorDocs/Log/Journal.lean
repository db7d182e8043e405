import EditorDocs.FileSystem.Operations
import EditorDocs.Log.Pipeline
/-!
# Journals

A journal is a log that is open. Every record goes to the end of its file as soon as it is made,
whatever else was written to the file in between; once the file has been deleted, or another one has
taken its place, what goes to it is lost. What the console shows is collected.
-/

namespace EditorDocs.Log

/-- A log that is open. -/
structure Journal where
  /-- The name of the logger of the program. -/
  logger : Text
  /-- Where records go. -/
  pipeline : Pipeline
  /-- How the values of records are rendered. -/
  rendering : Rendering
  /-- Where the file is, as long as there is one. -/
  file : Option FileSystem.Location
  /-- What stands for the time of a record. -/
  time : Text
  /-- What the console showed so far. -/
  shown : Text

namespace Journal

/-- A record of the program on its way. -/
def emission (j : Journal) (r : Record) : Emission := ⟨j.logger, r, false⟩

/-- What becomes of a record. -/
def fate (j : Journal) (e : Emission) : Fate := j.pipeline.fate j.rendering j.time e

/-- The files after a record. -/
def filesAfter (j : Journal) (e : Emission) (files : FileSystem.State) : FileSystem.State :=
  match j.file with
  | some loc => files.append loc (Utf8.encodeAll (j.fate e).filed)
  | none => files

/-- The journal after a record. -/
def after (j : Journal) (e : Emission) : Journal := { j with shown := j.shown ++ (j.fate e).shown }

/-- The journal and the files after records of any loggers, one by one. A failure that comes back
from one does not keep the next from being made. -/
def writeAll (j : Journal) (files : FileSystem.State) :
    List Emission → Journal × FileSystem.State
  | [] => (j, files)
  | e :: rest => (j.after e).writeAll (j.filesAfter e files) rest

/-- The journal after the entry at a location has gone. -/
def forget (j : Journal) (loc : FileSystem.Location) : Journal :=
  if j.file = some loc then { j with file := none } else j

end Journal

end EditorDocs.Log
