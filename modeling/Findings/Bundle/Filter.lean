import Findings.Bundle.Basic
import Findings.Log

/-!
# Filtering bundles

Taking out the diagnostics whose file a policy excludes. The file table stays as it is, so that
indices keep their meaning. A diagnostic whose file is not in the table cannot be judged and stays.

- `Bundle.filter`, `Bundle.filterOutcome`: on a decoded bundle.
- `filterText`: on the text of a bundle, entry by entry, so that all else is kept as it was read.
-/

namespace Findings

/-- Decides which files are excluded. -/
abbrev SkipPolicy := String → Bool

namespace SkipPolicy

/-- Whether a policy excludes the entry of a file table at an index. -/
def excludes (policy : SkipPolicy) (files : FileTable) (index : FileIndex) : Bool :=
  match files.get? index with
  | some path => policy path
  | none => false

end SkipPolicy

namespace Bundle

/-- The bundle without the diagnostics that a policy excludes. -/
def filter (policy : SkipPolicy) (bundle : Bundle) : Bundle :=
  { bundle with
    diagnostics := bundle.diagnostics.filter fun diagnostic =>
      !policy.excludes bundle.files diagnostic.primaryFile }

/-- Every file that a diagnostic of the bundle refers to, each once, in increasing order. -/
def referencedFiles (bundle : Bundle) : List FileIndex :=
  ((bundle.diagnostics.flatMap Diagnostic.files).mergeSort fun i j => i ≤ j).eraseDups

end Bundle

/-- What filtering a bundle did: how many diagnostics stay, how many were taken out, and the files
that those that stay refer to. -/
structure FilterOutcome where
  kept : Nat
  removed : Nat
  referencedFiles : List FileIndex
  deriving DecidableEq, Repr

/-- What filtering a bundle does. -/
def Bundle.filterOutcome (policy : SkipPolicy) (bundle : Bundle) : FilterOutcome :=
  let filtered := bundle.filter policy
  { kept := filtered.diagnostics.length
    removed := bundle.diagnostics.length - filtered.diagnostics.length
    referencedFiles := filtered.referencedFiles }

/-! ## On text -/

/-- The file index in the location of an entry that need not decode. -/
def rawPrimaryFile? (entry : Json) : Option FileIndex := do
  let location ← entry.get? "location"
  let file ← location.get? "file"
  file.toUInt64?

/-- Whether an entry stays. -/
def keepsEntry (policy : SkipPolicy) (files : FileTable) (entry : Json) : Bool :=
  match rawPrimaryFile? entry with
  | some index => !policy.excludes files index
  | none => true

/-- The document without the entries that a policy excludes; `none` if there are none. -/
def filterDocument (policy : SkipPolicy) (document : Json) : Except BundleDefect (Option Json) :=
  match document with
  | .object members =>
    match Entries.get? "files" members with
    | none => .error .missingFiles
    | some value =>
      match FileTable.ofJson value with
      | .error e => .error (.invalidFiles e)
      | .ok files =>
        match Entries.get? "diagnostics" members with
        | none => .ok none
        | some (.array items) =>
          let kept := items.filter (keepsEntry policy files)
          if kept.length = items.length then .ok none
          else .ok (some (.object (Entries.set "diagnostics" (.array kept) members)))
        | some _ => .error .diagnosticsNotAList
  | _ => .error .notAnObject

/-- The text of a bundle without the entries that a policy excludes. A text that is no bundle, or
has no such entry, is returned unchanged. -/
def filterText (policy : SkipPolicy) (content : String) : String × Log :=
  let unfiltered (defect : BundleDefect) : String × Log :=
    (content, [.warn s!"invalid bundle: {defect.message}; leaving bundle unfiltered"])
  match Json.parse content with
  | .error e => unfiltered (.notJson e)
  | .ok value =>
    match filterDocument policy value.collapse with
    | .error defect => unfiltered defect
    | .ok none => (content, [])
    | .ok (some document) => (document.pretty, [])

/-- Filters the bundle at a path in place. What is said about its text is said even if the write
fails after that. -/
def filterFile (policy : SkipPolicy) (fs : FileSystem) (path : String) :
    Except BundleError Unit × Log × FileSystem :=
  match fs.rewrite path false (filterText policy) with
  | (.ok log, fs) => (.ok (), log, fs)
  | (.error e, fs) => (.error (.io path e.error), e.yielded.getD [], fs)

end Findings
