import Findings.Proofs.Suppression.Addition

/-!
# Adding one suppression after the other

A writable store and its file stay together while suppressions are added: either the file holds the
records of the store, or it no longer parses and every later addition fails.

* `Backed`: how a store stands to its file; `Backed.add`: every addition keeps it so.
* `carry`: what the records become when one more is added and all are written and read again.
* `any_foldl_carry`: storable records are all still there after any number of additions.
-/

namespace Findings

open Suppression

namespace SuppressionStore

/-! ## A store and its file -/

/-- How a writable store stands to its file: the file holds the records of the store, or it does
not parse. -/
inductive Backed (file : String) (store : SuppressionStore) (fs : FileSystem) : Prop
  | loaded (h : openStore fs (some file) true = .ok store)
  | broken {content : String} {e : SuppressionError} (hw : store.writableFile? = some file)
      (ht : fs.readText file = .ok content) (hp : Suppression.parse content file = .error e)

/-- What records become when one is added: all are written and read again. -/
def carry (records : List Suppression) (record : Suppression) : List Suppression :=
  match SuppressionFile.withRecord record records with
  | none => records
  | some changed => (parseChars (renderChars changed)).toOption.getD records

variable {file : String} {store : SuppressionStore} {fs : FileSystem} (hash path comment : String)

/-- A file that fails to load as a text fails to parse is one that does not parse. -/
theorem backed_of_load_error {content : String} {e : SuppressionError}
    (hw : store.writableFile? = some file) (hp : Suppression.parse content file = .error e)
    (hl : SuppressionFile.load fs file = .error e) : Backed file store fs := by
  unfold SuppressionFile.load at hl
  split at hl
  · rename_i text ht
    exact .broken hw ht hl
  · cases hl
  · obtain rfl := Except.error.inj hl
    unfold Suppression.parse at hp
    split at hp <;> cases hp

/-- Nothing is added to a file that does not parse. -/
theorem add_of_broken {content : String} {e : SuppressionError}
    (hw : store.writableFile? = some file) (ht : fs.readText file = .ok content)
    (hc : fs.Completes file) (hp : Suppression.parse content file = .error e) :
    ∃ e' fs', store.add fs hash path comment = (.error e', store, fs') ∧
      fs'.readText file = .ok content := by
  obtain ⟨place, hr, hn, hends⟩ := FileSystem.rewrite_of_readText ht true
    (SuppressionFile.revise file
      (SuppressionFile.withRecord (.ofComment hash (FilePath.basename path) comment)))
  rw [add_of_writableFile? store hash path comment hw, SuppressionFile.append,
    SuppressionFile.update]
  cases hends with
  | refused _ hrewrite => exact ⟨_, fs, by rw [hrewrite], ht⟩
  | torn _ hf _ => cases (hc _ hr _ _).symm.trans hf
  | written _ _ hrewrite =>
    simp only [SuppressionFile.revise, hp] at hrewrite
    exact ⟨e, _, by rw [hrewrite], FileSystem.readText_put hr rfl (by simp [hn]) content⟩

/-- A record that the store has not got is written, and what is read then is what it has, if the
file parses. -/
theorem add_of_loaded (h : openStore fs (some file) true = .ok store)
    (ho : ∀ e, fs.openForWriting file true ≠ .error e) (hc : fs.Completes file)
    (hs : store.isSuppressed hash path = false) :
    (∃ records fs', store.add fs hash path comment = (.ok (), { store with records }, fs') ∧
        openStore fs' (some file) true = .ok { store with records } ∧
        records = carry store.records (.ofComment hash (FilePath.basename path) comment)) ∨
      ∃ e fs', store.add fs hash path comment = (.error e, store, fs') ∧
        Backed file store fs' := by
  obtain ⟨fs', ha, hl⟩ := add_of_not_isSuppressed hash path comment h ho hc hs
  obtain ⟨-, hstore⟩ := openStore_eq_ok h
  have hsome : SuppressionFile.withRecord (.ofComment hash (FilePath.basename path) comment)
      store.records = some (store.records ++ [.ofComment hash (FilePath.basename path) comment]) :=
    if_neg (Bool.eq_false_iff.1 hs)
  cases hp : Suppression.parse (Suppression.render
      (store.records ++ [.ofComment hash (FilePath.basename path) comment])) file with
  | ok records =>
    rw [hp] at hl
    refine .inl ⟨records, fs', ?_, ?_, ?_⟩
    · rw [ha, hstore]
      simp only [reload, hl]
    · rw [openStore_of_load hl, hstore]
    · rw [SuppressionFile.parse_eq_ok_iff, Suppression.render, String.toList_ofList] at hp
      simp only [carry, hsome, hp, Except.toOption, Option.getD_some]
  | error e =>
    rw [hp] at hl
    refine .inr ⟨e, fs', ?_, ?_⟩
    · rw [ha, hstore]
      simp only [reload, hl]
    · exact backed_of_load_error (by rw [hstore]; rfl) hp hl

/-- Every addition to a file whose writes do not fail keeps the store and its file together. One
that goes well carries the records on, and one that fails leaves them. -/
theorem Backed.add (h : Backed file store fs) (hc : fs.Completes file) :
    Backed file (store.add fs hash path comment).2.1 (store.add fs hash path comment).2.2 ∧
      (store.add fs hash path comment).2.1.records =
        match (store.add fs hash path comment).1 with
        | .ok () => carry store.records (.ofComment hash (FilePath.basename path) comment)
        | .error _ => store.records := by
  cases h with
  | broken hw ht hp =>
    obtain ⟨e', fs', ha, ht'⟩ := add_of_broken hash path comment hw ht hc hp
    rw [ha]
    exact ⟨.broken hw ht' hp, rfl⟩
  | loaded h =>
    by_cases ho : ∃ e, fs.openForWriting file true = .error e
    · obtain ⟨e, he⟩ := ho
      rw [add_of_error hash path comment h he]
      exact ⟨.loaded h, rfl⟩
    · have hopen : ∀ e, fs.openForWriting file true ≠ .error e := fun e he => ho ⟨e, he⟩
      cases hs : store.isSuppressed hash path with
      | true =>
        obtain ⟨fs', ha, hl⟩ := add_of_isSuppressed hash path comment h hopen hc hs
        have hcarry : carry store.records (.ofComment hash (FilePath.basename path) comment) =
            store.records := by
          rw [carry, SuppressionFile.withRecord, if_pos]
          exact hs
        rw [ha, hcarry]
        refine ⟨.loaded ?_, rfl⟩
        rw [openStore_of_load hl, ← (openStore_eq_ok h).2]
      | false =>
        obtain ⟨records, fs', ha, hload, hr⟩ | ⟨e, fs', ha, hb⟩ :=
          add_of_loaded hash path comment h hopen hc hs
        · rw [ha]
          exact ⟨.loaded hload, hr⟩
        · rw [ha]
          exact ⟨hb, rfl⟩

/-! ## Storable records -/

/-- Records that are read as they were written. -/
def Lasting (records : List Suppression) : Prop :=
  ∀ s ∈ records, s.OneLine ∧ s.Storable

variable {records added : List Suppression} {record : Suppression} {hash path}

theorem lasting_append : Lasting (records ++ [record]) ↔
    Lasting records ∧ record.OneLine ∧ record.Storable := by
  unfold Lasting
  rw [List.forall_mem_append, List.forall_mem_singleton]

theorem Lasting.map_asRead (h : Lasting records) : Lasting (records.map asRead) := by
  intro r hr
  obtain ⟨s, hs, rfl⟩ := List.mem_map.1 hr
  obtain ⟨h1, hst⟩ := h s hs
  obtain ⟨hh, hf, hc⟩ := oneLine_iff.1 h1
  refine ⟨oneLine_iff.2 ⟨hh, hf, fun hm => hc ?_⟩, hst⟩
  rw [asRead, String.toList_ofList] at hm
  exact (Text.dropReturn_isPrefix _).subset hm

/-- A record that is not there yet comes at the end. -/
theorem carry_of_lasting (h : Lasting records) (hn : record.OneLine ∧ record.Storable) :
    carry records record =
      if records.any (covers · record.hash record.fileName) then records
      else (records ++ [record]).map asRead := by
  unfold carry SuppressionFile.withRecord
  by_cases hc : records.any (covers · record.hash record.fileName) = true
  · simp only [hc, if_true]
  · have hl : Lasting (records ++ [record]) := lasting_append.2 ⟨h, hn⟩
    have hread : parseChars (renderChars (records ++ [record])) =
        .ok ((records ++ [record]).map asRead) :=
      (parseChars_renderChars_iff fun s hs => (hl s hs).1).2
        (map_reread_of_storable fun s hs => (hl s hs).2)
    simp only [hc, if_false, hread, Except.toOption, Option.getD_some, Bool.false_eq_true]

theorem Lasting.carry (h : Lasting records) (hn : record.OneLine ∧ record.Storable) :
    Lasting (carry records record) := by
  rw [carry_of_lasting h hn]
  split
  · exact h
  · exact (lasting_append.2 ⟨h, hn⟩).map_asRead

theorem Lasting.foldl_carry (h : Lasting records) (ha : Lasting added) :
    Lasting (added.foldl SuppressionStore.carry records) := by
  induction added generalizing records with
  | nil => exact h
  | cons record added ih =>
    obtain ⟨hn, ha⟩ := List.forall_mem_cons.1 ha
    exact ih (h.carry hn) ha

theorem any_carry (h : Lasting records) (hn : record.OneLine ∧ record.Storable)
    (hash name : String) :
    (SuppressionStore.carry records record).any (covers · hash name) =
      (records.any (covers · hash name) || record.covers hash name) := by
  rw [carry_of_lasting h hn]
  split
  · rename_i hc
    cases hr : record.covers hash name with
    | false => rw [Bool.or_false]
    | true =>
      obtain ⟨rfl, rfl⟩ := covers_iff.1 hr
      rw [hc, Bool.or_true]
  · rw [List.any_map, List.any_append, List.any_cons, List.any_nil, Bool.or_false]
    rfl

/-- Whatever lasting records are added, all are there in the end, and nothing else. -/
theorem any_foldl_carry (h : Lasting records) (ha : Lasting added) (hash name : String) :
    (added.foldl SuppressionStore.carry records).any (covers · hash name) =
      (records.any (covers · hash name) || added.any (covers · hash name)) := by
  induction added generalizing records with
  | nil => rw [List.foldl_nil, List.any_nil, Bool.or_false]
  | cons record added ih =>
    obtain ⟨hn, ha⟩ := List.forall_mem_cons.1 ha
    rw [List.foldl_cons, ih (h.carry hn) ha, any_carry h hn, List.any_cons, Bool.or_assoc]

end SuppressionStore

end Findings
