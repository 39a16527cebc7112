import Findings.Suppression.File

/-!
# Suppression stores

The records of a suppression file in memory, and the rules for changing them. A finding is looked
up by its hash and the name of its file, whatever the directory. Records are loaded when the store
is opened and again after every change. A store that is not writable ignores changes, and one
without a backing file is empty.
-/

namespace Findings

structure SuppressionStore where
  backing : Option String
  writable : Bool
  /-- The records as they were last loaded. -/
  records : List Suppression := []

namespace SuppressionStore

/-- Whether a record covers a hash and the name of a file. -/
def isSuppressed (store : SuppressionStore) (hash path : String) : Bool :=
  store.records.any fun r => r.covers hash (FilePath.basename path)

/-- Loads the records again. On an error the store keeps the ones it has. -/
def reload (store : SuppressionStore) (fs : FileSystem) :
    Except SuppressionError Unit × SuppressionStore :=
  match store.backing with
  | none => (.ok (), store)
  | some path =>
    match SuppressionFile.load fs path with
    | .ok records => (.ok (), { store with records })
    | .error e => (.error e, store)

/-- Opens the store over a file. Only a store with a file can be writable. -/
def openStore (fs : FileSystem) (backing : Option String) (writable : Bool) :
    Except SuppressionError SuppressionStore :=
  if writable && backing.isNone then .error .missingBackingFile
  else
    match reload { backing, writable } fs with
    | (.ok (), store) => .ok store
    | (.error e, _) => .error e

/-- The file that changes go to. -/
def writableFile? (store : SuppressionStore) : Option String :=
  if store.writable then store.backing else none

/-- Changes the backing file, and loads the records again if that went well. -/
def change (store : SuppressionStore) (fs : FileSystem)
    (edit : FileSystem → String → Except SuppressionError Bool × FileSystem) :
    Except SuppressionError Unit × SuppressionStore × FileSystem :=
  match store.writableFile? with
  | none => (.ok (), store, fs)
  | some path =>
    match edit fs path with
    | (.error e, fs) => (.error e, store, fs)
    | (.ok _, fs) =>
      let (result, store) := store.reload fs
      (result, store, fs)

/-- Suppresses a hash in files with the name of a path. -/
def add (store : SuppressionStore) (fs : FileSystem) (hash path comment : String) :
    Except SuppressionError Unit × SuppressionStore × FileSystem :=
  store.change fs fun fs file =>
    SuppressionFile.append fs file (.ofComment hash (FilePath.basename path) comment)

/-- Takes back every suppression of a hash in files with the name of a path. -/
def remove (store : SuppressionStore) (fs : FileSystem) (hash path : String) :
    Except SuppressionError Unit × SuppressionStore × FileSystem :=
  store.change fs fun fs file =>
    SuppressionFile.remove fs file hash (FilePath.basename path)

end SuppressionStore

end Findings
