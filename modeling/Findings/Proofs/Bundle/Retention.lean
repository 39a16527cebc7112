import Findings.Proofs.Bundle.Filtering

/-!
# What filtering keeps

A bundle that is read strictly may be filtered as a value or as a text; both keep the same
diagnostics. Only the file of a diagnostic's own location decides, whatever other files the steps of
its path name.

* `Step.Names`, `Diagnostic.Names`: the files that a step and a diagnostic name.
* `mem_referencedFiles`: the files that are reported are those that are named.
* `Bundle.Filters`, `Bundle.filters`: what filtering a bundle gives.
* `forall₂_keepsEntry`: the entries that stay decode to the diagnostics that stay.
* `Bundle.parse_filterText`: filtering the text of a bundle gives a text of the filtered bundle.
-/

namespace Findings

/-! ## The files that are named -/

/-- A step names the files of its own location, of its ranges, and of both ends of its edges. -/
inductive Step.Names (step : Step) : FileIndex → Prop where
  | location {l : Location} (h : l ∈ step.location) : step.Names l.file
  | range {range : List Location} {l : Location} (hr : range ∈ step.ranges) (h : l ∈ range) :
      step.Names l.file
  | start {edge : Edge} {l : Location} (he : edge ∈ step.edges) (h : l ∈ edge.start) :
      step.Names l.file
  | stop {edge : Edge} {l : Location} (he : edge ∈ step.edges) (h : l ∈ edge.stop) :
      step.Names l.file

/-- A diagnostic names the file of its own location and those that its steps name. -/
inductive Diagnostic.Names (diagnostic : Diagnostic) : FileIndex → Prop where
  | own : diagnostic.Names diagnostic.location.file
  | step {step : Step} {index : FileIndex} (h : step ∈ diagnostic.path) (hn : step.Names index) :
      diagnostic.Names index

theorem Step.mem_files {step : Step} {index : FileIndex} :
    index ∈ step.files ↔ step.Names index := by
  rw [files, List.mem_map]
  constructor
  · rintro ⟨l, hl, rfl⟩
    rcases mem_locations.1 hl with hl | ⟨range, hr, hl⟩ | ⟨edge, he, hl | hl⟩
    · exact .location hl
    · exact .range hr hl
    · exact .start he hl
    · exact .stop he hl
  · rintro (hl | ⟨hr, hl⟩ | ⟨he, hl⟩ | ⟨he, hl⟩)
    · exact ⟨_, mem_locations.2 (.inl hl), rfl⟩
    · exact ⟨_, mem_locations.2 (.inr (.inl ⟨_, hr, hl⟩)), rfl⟩
    · exact ⟨_, mem_locations.2 (.inr (.inr ⟨_, he, .inl hl⟩)), rfl⟩
    · exact ⟨_, mem_locations.2 (.inr (.inr ⟨_, he, .inr hl⟩)), rfl⟩

theorem Diagnostic.mem_files {diagnostic : Diagnostic} {index : FileIndex} :
    index ∈ diagnostic.files ↔ diagnostic.Names index := by
  simp only [files, List.mem_cons, List.mem_flatMap, Step.mem_files]
  constructor
  · rintro (rfl | ⟨step, hs, hn⟩)
    · exact .own
    · exact .step hs hn
  · rintro (_ | ⟨hs, hn⟩)
    · exact .inl rfl
    · exact .inr ⟨_, hs, hn⟩

theorem Bundle.mem_referencedFiles {bundle : Bundle} {index : FileIndex} :
    index ∈ bundle.referencedFiles ↔
      ∃ diagnostic ∈ bundle.diagnostics, diagnostic.Names index := by
  simp [referencedFiles, Diagnostic.mem_files]

/-- In a list that does not decrease, leaving out what came before leaves an increasing list. -/
theorem pairwise_lt_eraseDups {indices : List FileIndex} (h : indices.Pairwise (· ≤ ·)) :
    indices.eraseDups.Pairwise (· < ·) := by
  induction hn : indices.length using Nat.strong_induction_on generalizing indices with
  | _ n ih =>
    cases indices with
    | nil => simp
    | cons first rest =>
      obtain ⟨hfirst, hrest⟩ := List.pairwise_cons.1 h
      rw [List.eraseDups_cons, List.pairwise_cons]
      refine ⟨fun index hm => ?_, ih _ ?_ (hrest.filter _) rfl⟩
      · obtain ⟨hm, hne⟩ := List.mem_filter.1 (List.mem_eraseDups.1 hm)
        exact UInt64.lt_of_le_of_ne (hfirst index hm) (by simpa using Ne.symm (by simpa using hne))
      · have := List.length_filter_le (fun index => !index == first) rest
        simp only [List.length_cons] at hn
        omega

theorem Bundle.pairwise_referencedFiles (bundle : Bundle) :
    bundle.referencedFiles.Pairwise (· < ·) := by
  have htrans (i j k : FileIndex) (hij : decide (i ≤ j) = true) (hjk : decide (j ≤ k) = true) :
      decide (i ≤ k) = true :=
    decide_eq_true (UInt64.le_trans (of_decide_eq_true hij) (of_decide_eq_true hjk))
  have htotal (i j : FileIndex) : (decide (i ≤ j) || decide (j ≤ i)) = true := by
    simpa using UInt64.le_total i j
  have hsorted :=
    List.pairwise_mergeSort htrans htotal (bundle.diagnostics.flatMap Diagnostic.files)
  exact pairwise_lt_eraseDups (hsorted.imp of_decide_eq_true)

/-! ## Filtering a bundle -/

/-- What filtering a bundle by a policy has to give. A diagnostic whose file is not in the table
stays. -/
structure Bundle.Filters (policy : SkipPolicy) (bundle filtered : Bundle)
    (outcome : FilterOutcome) : Prop where
  files : filtered.files = bundle.files
  extra : filtered.extra = bundle.extra
  diagnostics : filtered.diagnostics = bundle.diagnostics.filter fun diagnostic =>
    (bundle.files.get? diagnostic.location.file).all fun path => !policy path
  kept : outcome.kept = filtered.diagnostics.length
  removed : outcome.kept + outcome.removed = bundle.diagnostics.length
  referenced : ∀ index, index ∈ outcome.referencedFiles ↔
    ∃ diagnostic ∈ filtered.diagnostics, diagnostic.Names index
  increasing : outcome.referencedFiles.Pairwise (· < ·)

theorem SkipPolicy.not_excludes (policy : SkipPolicy) (files : FileTable) (index : FileIndex) :
    (!policy.excludes files index) = (files.get? index).all fun path => !policy path := by
  unfold excludes
  cases files.get? index <;> rfl

theorem Bundle.filters (policy : SkipPolicy) (bundle : Bundle) :
    bundle.Filters policy (bundle.filter policy) (bundle.filterOutcome policy) where
  files := rfl
  extra := rfl
  diagnostics := List.filter_congr fun diagnostic _ =>
    policy.not_excludes bundle.files diagnostic.primaryFile
  kept := rfl
  removed := by
    have hle : (bundle.filter policy).diagnostics.length ≤ bundle.diagnostics.length :=
      List.length_filter_le _ _
    simp only [filterOutcome]
    omega
  referenced _ := mem_referencedFiles
  increasing := pairwise_referencedFiles _

/-! ## Filtering a text -/

/-- The entries that stay decode to the diagnostics that stay. -/
theorem forall₂_keepsEntry (policy : SkipPolicy) (files : FileTable) {items : List Json}
    {diagnostics : List Diagnostic}
    (h : List.Forall₂ (fun item diagnostic => Diagnostic.ofJson item = .ok diagnostic) items
      diagnostics) :
    List.Forall₂ (fun item diagnostic => Diagnostic.ofJson item = .ok diagnostic)
      (items.filter (keepsEntry policy files))
      (diagnostics.filter fun diagnostic => !policy.excludes files diagnostic.primaryFile) := by
  induction h with
  | nil => exact .nil
  | @cons item diagnostic items diagnostics hd _ ih =>
    have hkeep : keepsEntry policy files item = !policy.excludes files diagnostic.primaryFile := by
      rw [keepsEntry, rawPrimaryFile?_of_ofJson hd]
    cases hx : policy.excludes files diagnostic.primaryFile with
    | true =>
      rw [List.filter_cons_of_neg (by simp [hkeep, hx]), List.filter_cons_of_neg (by simp [hx])]
      exact ih
    | false =>
      rw [List.filter_cons_of_pos (by simp [hkeep, hx]), List.filter_cons_of_pos (by simp [hx])]
      exact .cons hd ih

/-- Other entries in the place of the old ones change the diagnostics of a bundle only. -/
theorem Bundle.Decodes.set_diagnostics {members : List (String × Json)} {bundle : Bundle}
    (h : bundle.Decodes members) {items : List Json} {diagnostics : List Diagnostic}
    (hd : List.Forall₂ (fun item diagnostic => Diagnostic.ofJson item = .ok diagnostic) items
      diagnostics) :
    Bundle.Decodes (Entries.set "diagnostics" (.array items) members)
      { bundle with diagnostics } where
  no_repeats := Json.no_repeats_set "diagnostics" (.array items) h.no_repeats
  files := (Json.required_set_of_ne (by decide) _).trans h.files
  diagnostics :=
    Json.listMember_eq_ok_iff.2 (.inr ⟨items, Entries.get?_set_self "diagnostics" _ members, hd⟩)
  extra := h.extra.trans (Json.extras_set (by decide)).symm

/-- Filtering the text of a bundle gives a text of the filtered bundle. -/
theorem Bundle.parse_filterText {content origin : String} {bundle : Bundle}
    (h : Bundle.parse content origin = .ok bundle) (hf : Json.FloatsReadBack content)
    (policy : SkipPolicy) (other : String) :
    Bundle.parse (filterText policy content).1 other = .ok (bundle.filter policy) := by
  obtain ⟨value, hv, hb⟩ := parse_eq_ok_iff.1 h
  obtain ⟨members, hc, decodes⟩ := ofJson_eq_ok_iff.1 (ofJson_collapse hb)
  obtain ⟨table, ht, htable⟩ := Json.required_eq_ok decodes.files
  rcases Json.listMember_eq_ok_iff.1 decodes.diagnostics with ⟨hd, hnil⟩ | ⟨items, hd, hitems⟩
  · have hsame : bundle.filter policy = bundle := by
      simp only [filter, hnil, List.filter_nil]
      rw [← hnil]
    rw [Enricher.filterText_of_none policy hv hc ht htable hd, hsame]
    exact parse_eq_ok_iff.2 ⟨value, hv, hb⟩
  · have hkept := forall₂_keepsEntry policy bundle.files hitems
    rcases Enricher.parse_filterText policy hv hc ht htable hd (hf value hv) with
      ⟨htext, hall⟩ | hparse
    · -- Both lists of diagnostics are decoded from the same entries.
      have hsame : bundle.filter policy = bundle := by
        rw [hall] at hkept
        have hlength := hitems.length_eq.symm.trans hkept.length_eq
        have hstay := List.filter_eq_self.2 (List.length_filter_eq_length_iff.1 hlength.symm)
        simp only [filter, hstay]
      rw [htext, hsame]
      exact parse_eq_ok_iff.2 ⟨value, hv, hb⟩
    · exact parse_eq_ok_iff.2
        ⟨_, hparse, ofJson_eq_ok_iff.2 ⟨_, rfl, decodes.set_diagnostics hkept⟩⟩

/-- A bundle that is read strictly is filtered the same as a value and as a text, and by nothing but
the file of each diagnostic's own location. -/
theorem Bundle.filters_and_parse_filterText {content origin : String} {bundle : Bundle}
    (h : Bundle.parse content origin = .ok bundle) (hf : Json.FloatsReadBack content)
    (policy : SkipPolicy) (other : String) :
    bundle.Filters policy (bundle.filter policy) (bundle.filterOutcome policy) ∧
      Bundle.parse (filterText policy content).1 other = .ok (bundle.filter policy) :=
  ⟨bundle.filters policy, parse_filterText h hf policy other⟩

/-- Of the three diagnostics of the document the one in the second file goes. The first one stays,
although it names that file too, and so does the one that is outside the table. -/
theorem Bundle.filters_and_parse_filterText_annotated :
    let policy : SkipPolicy := fun path => path = "b.c"
    let filtered := ofAnnotated.filter policy
    Bundle.parse annotated.pretty "b.json" = .ok ofAnnotated ∧
      Json.FloatsReadBack annotated.pretty ∧
      (ofAnnotated.filterOutcome policy).kept = 2 ∧ (ofAnnotated.filterOutcome policy).removed = 1 ∧
      ofAnnotated.Filters policy filtered (ofAnnotated.filterOutcome policy) ∧
      Bundle.parse (filterText policy annotated.pretty).1 "c.json" = .ok filtered :=
  ⟨parse_annotated "b.json", floatsReadBack_annotated, rfl, rfl,
    filters_and_parse_filterText (parse_annotated "b.json") floatsReadBack_annotated _ "c.json"⟩

end Findings
