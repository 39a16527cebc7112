import Findings.Proofs.Bundle.Entry

/-!
# Strict and lenient reading

A text that is read strictly, with every diagnostic decoded, is read leniently without a failure.
Both readings have the same file table, and the findings are the diagnostics that refer to files of
the table only, in order.

* `Taken`: a finding against the diagnostic it was made of.
* `taken_readEntries`: the findings of entries that all decode.
* `readDocument_of_parse_eq_ok`: a text that is read strictly.
-/

namespace Findings

instance {files : FileTable} {diagnostic : Diagnostic} : Decidable (diagnostic.Resolves files) :=
  decidable_of_iff _ Enricher.outside?_eq_none_iff

namespace Enricher

/-- A finding has what its diagnostic has, and its hash comes from the diagnostic if and only if
that has one which is not empty. -/
structure Taken (diagnostic : Diagnostic) (finding : Finding) : Prop where
  location : finding.location = diagnostic.location
  path : finding.path = diagnostic.path
  description : finding.description = diagnostic.description
  extra : finding.extra = diagnostic.extra
  source_iff : ∀ hash, finding.hashOrigin = .source ∧ finding.identityHash = hash ↔
    diagnostic.identityHash = some hash ∧ hash ≠ ""

variable (enricher : Enricher) (fs : FileSystem) {files : FileTable} (origin : String)
  (index : Nat) (sources : SourceCache)

theorem nonempty?_eq_some_iff {found : Option String} {s : String} :
    Identity.nonempty? found = some s ↔ found = some s ∧ s ≠ "" := by
  simp [Identity.nonempty?, Option.filter_eq_some_iff]

variable (files) in
/-- The finding of an entry that decodes: there is one if all files of the diagnostic are in the
table. -/
theorem taken_readEntry {raw : Json} {diagnostic : Diagnostic}
    (h : Diagnostic.ofJson raw = .ok diagnostic) :
    if diagnostic.Resolves files then
      ∃ finding, (enricher.readEntry fs files origin index raw sources).1.finding = some finding ∧
        Taken diagnostic finding
    else (enricher.readEntry fs files origin index raw sources).1.finding = none := by
  have hread : ReadsAs enricher.hasher files origin index raw
      (enricher.readEntry fs files origin index raw sources).1 :=
    readEntry_readsAs enricher fs origin index sources raw
  generalize (enricher.readEntry fs files origin index raw sources).1 = entry at hread ⊢
  cases hread with
  | leftOut hu =>
    rw [if_neg fun hr => usable?_eq_none_iff.1 hu ⟨diagnostic, h, hr⟩]
  | @trusted found hash hu hn =>
    obtain ⟨hd, hr⟩ := usable?_eq_some_iff.1 hu
    obtain rfl := Except.ok.inj (hd.symm.trans h)
    obtain ⟨hsome, hne⟩ := nonempty?_eq_some_iff.1 hn
    rw [if_pos hr]
    refine ⟨_, rfl, rfl, rfl, rfl, rfl, fun other => ?_⟩
    rw [hsome]
    constructor
    · rintro ⟨-, rfl⟩
      exact ⟨rfl, hne⟩
    · rintro ⟨he, -⟩
      exact ⟨rfl, Option.some.inj he⟩
  | @derived found source enriched hu hn =>
    obtain ⟨hd, hr⟩ := usable?_eq_some_iff.1 hu
    obtain rfl := Except.ok.inj (hd.symm.trans h)
    rw [if_pos hr]
    refine ⟨_, rfl, rfl, rfl, rfl, rfl, fun other => ⟨fun ho => ?_, fun ho => ?_⟩⟩
    · cases ho.1
    · rw [nonempty?_eq_some_iff.2 ho] at hn
      cases hn

/-- The findings of entries that all decode are those diagnostics whose files are in the table. -/
theorem taken_readEntries {items : List Json} {diagnostics : List Diagnostic}
    (h : List.Forall₂ (fun item diagnostic => Diagnostic.ofJson item = .ok diagnostic) items
      diagnostics) :
    List.Forall₂ Taken (diagnostics.filter fun diagnostic => diagnostic.Resolves files)
      ((enricher.readEntries fs files origin index items sources).1.filterMap Entry.finding) := by
  induction h generalizing index sources with
  | nil => exact .nil
  | @cons raw diagnostic items diagnostics hd _ ih =>
    have hfirst := taken_readEntry enricher fs files origin index sources hd
    rw [readEntries_cons]
    split at hfirst
    · rename_i hr
      obtain ⟨finding, hf, ht⟩ := hfirst
      rw [List.filter_cons_of_pos (by simpa using hr), List.filterMap_cons_some hf]
      exact .cons ht (ih _ _)
    · rename_i hr
      rw [List.filter_cons_of_neg (by simpa using hr), List.filterMap_cons_none hfirst]
      exact ih _ _

/-- A text that is read strictly is read leniently without a failure, with the same file table and
the diagnostics whose files are all in it. -/
theorem readDocument_of_parse_eq_ok {content name : String} {bundle : Bundle}
    (h : Bundle.parse content name = .ok bundle) :
    let reading := (enricher.readDocument fs content origin sources).reading
    reading.failure = none ∧ reading.files = bundle.files ∧
      List.Forall₂ Taken
        (bundle.diagnostics.filter fun diagnostic => diagnostic.Resolves bundle.files)
        reading.findings := by
  intro reading
  obtain ⟨value, hp, hb⟩ := Bundle.parse_eq_ok_iff.1 h
  obtain ⟨members, hc, decodes⟩ := Bundle.ofJson_eq_ok_iff.1 (Bundle.ofJson_collapse hb)
  obtain ⟨table, ht, hf⟩ := Json.required_eq_ok decodes.files
  have hread : reading = (enricher.readMembers fs members origin sources).reading :=
    congrArg Outcome.reading (readDocument_of_parse enricher fs origin sources hp hc)
  rcases Json.listMember_eq_ok_iff.1 decodes.diagnostics with ⟨hd, hnil⟩ | ⟨items, hd, hitems⟩
  · rw [hread, (readMembers_of_none enricher fs origin sources ht hf hd).1, hnil]
    exact ⟨rfl, rfl, .nil⟩
  · rw [hread, (readMembers_of_array enricher fs origin sources ht hf hd).1]
    exact ⟨rfl, rfl, taken_readEntries enricher fs origin 0 sources hitems⟩

/-- Of the three diagnostics of the document one refers to a file outside the table, and one of the
two findings has a hash from the document. -/
theorem readDocument_annotated :
    let reading := (Enricher.readDocument {} (FileSystem.empty []) Bundle.annotated.pretty "b.json"
      .empty).reading
    Bundle.parse Bundle.annotated.pretty "b.json" = .ok .ofAnnotated ∧
    reading.failure = none ∧ reading.files = Bundle.ofAnnotated.files ∧
      List.Forall₂ Taken
        (Bundle.ofAnnotated.diagnostics.filter fun diagnostic =>
          diagnostic.Resolves Bundle.ofAnnotated.files)
        reading.findings :=
  ⟨Bundle.parse_annotated "b.json",
    readDocument_of_parse_eq_ok {} (FileSystem.empty []) "b.json" .empty
      (Bundle.parse_annotated "b.json")⟩

end Enricher

end Findings
