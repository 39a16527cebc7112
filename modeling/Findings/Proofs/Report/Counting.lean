import Findings.Proofs.Entries
import Findings.Report.Stats
import Mathlib.Data.String.Basic
import Mathlib.Data.UInt

/-!
# Counts by key

A tally is kept in increasing order of keys, so it is determined by the count of each key. Adding to
a count changes no other, and the order of additions does not matter.

* `get?_add`, `count_merge`: the counts after an addition, and of two tallies together.
* `Sorted.ext`: tallies with the same counts are the same; so `add_add`.
* `Counts`: all three kinds of counts come to the same number; `Counts.record`, `Counts.merge`: they
  do so however findings are counted and statistics are merged.
* `sumOf_mergeAll`: many statistics are merged into their sums.
-/

namespace Findings

namespace Tally

/-- The count of a key, 0 if there is none. -/
def count (key : String) (tally : Tally) : UInt64 :=
  (Entries.get? key tally).getD 0

/-- Whether the keys increase. -/
def Sorted (tally : Tally) : Prop :=
  tally.Pairwise fun entry other => entry.1 < other.1

/-- The sum of all counts, as a number of any size. -/
def sum (tally : Tally) : Nat :=
  (tally.map fun entry => entry.2.toNat).sum

variable {key other : String} {n m : UInt64} {tally rest : Tally}

theorem sorted_cons {k : String} :
    Sorted ((k, m) :: rest) ↔ (∀ other ∈ Entries.keys rest, k < other) ∧ Sorted rest := by
  rw [Sorted, List.pairwise_cons, Entries.keys, List.forall_mem_map]
  rfl

theorem mem_keys_add {k : String} :
    k ∈ Entries.keys (tally.add key n) ↔ k = key ∨ k ∈ Entries.keys tally := by
  induction tally with
  | nil => simp [add]
  | cons entry rest ih =>
    obtain ⟨head, m⟩ := entry
    rw [add]
    split
    · rename_i he
      simp [he]
    · split
      · simp
      · rw [Entries.keys_cons, List.mem_cons, ih, Entries.keys_cons, List.mem_cons, or_left_comm]

theorem Sorted.add (h : tally.Sorted) (key : String) (n : UInt64) : (tally.add key n).Sorted := by
  induction tally with
  | nil => simp [Tally.add, Sorted]
  | cons entry rest ih =>
    obtain ⟨k, m⟩ := entry
    obtain ⟨hk, hrest⟩ := sorted_cons.1 h
    rw [Tally.add]
    split
    · exact sorted_cons.2 ⟨hk, hrest⟩
    · rename_i hne
      split
      · rename_i hlt
        refine sorted_cons.2 ⟨List.forall_mem_cons.2 ⟨hlt, fun other ho => ?_⟩, h⟩
        exact String.lt_trans hlt (hk other ho)
      · rename_i hnlt
        have hlt : k < key := lt_of_le_of_ne (not_lt.1 hnlt) hne
        refine sorted_cons.2 ⟨fun other ho => ?_, ih hrest⟩
        obtain rfl | ho := mem_keys_add.1 ho
        · exact hlt
        · exact hk other ho

/-- A key below all others has no count. -/
theorem get?_of_forall_lt (h : ∀ k ∈ Entries.keys tally, key < k) :
    Entries.get? key tally = none := by
  induction tally with
  | nil => rfl
  | cons entry rest ih =>
    obtain ⟨hlt, hrest⟩ := List.forall_mem_cons.1 h
    rw [Entries.get?, if_neg (ne_of_gt hlt), ih hrest]

theorem get?_add (h : tally.Sorted) :
    Entries.get? other (tally.add key n) =
      if key = other then some (tally.count key + n) else Entries.get? other tally := by
  induction tally with
  | nil =>
    rw [add, Entries.get?]
    simp [count, Entries.get?]
  | cons entry rest ih =>
    obtain ⟨k, m⟩ := entry
    obtain ⟨hk, hrest⟩ := sorted_cons.1 h
    rw [add]
    by_cases he : k = key
    · subst he
      by_cases ho : k = other <;> simp [count, Entries.get?, ho]
    rw [if_neg he]
    have hcount : count key ((k, m) :: rest) = count key rest := by simp [count, Entries.get?, he]
    by_cases hlt : key < k
    · have hnone : count key rest = 0 := by
        rw [count, get?_of_forall_lt fun k' hk' => String.lt_trans hlt (hk k' hk')]
        rfl
      rw [if_pos hlt, Entries.get?, hcount, hnone, UInt64.zero_add]
    · rw [if_neg hlt, Entries.get?, Entries.get?, ih hrest, hcount]
      by_cases ho : k = other
      · subst ho
        simp [Ne.symm he]
      · simp only [ho, if_false]

/-- No key with a count is below the first. -/
theorem Sorted.not_lt_of_get? {k k' : String} (h : Sorted ((k', m) :: rest))
    (hget : (Entries.get? k ((k', m) :: rest)).isSome) : ¬ k < k' := by
  intro hlt
  have hnone : Entries.get? k ((k', m) :: rest) = none := get?_of_forall_lt (List.forall_mem_cons.2
    ⟨hlt, fun other ho => String.lt_trans hlt ((sorted_cons.1 h).1 other ho)⟩)
  rw [hnone] at hget
  cases hget

/-- Tallies with the same counts are the same. -/
theorem Sorted.ext {tally tally' : Tally} (h : tally.Sorted) (h' : tally'.Sorted)
    (hget : ∀ key, Entries.get? key tally = Entries.get? key tally') : tally = tally' := by
  induction tally generalizing tally' with
  | nil =>
    cases tally' with
    | nil => rfl
    | cons entry rest =>
      have hhead := hget entry.1
      simp [Entries.get?] at hhead
  | cons entry rest ih =>
    obtain ⟨k, n⟩ := entry
    obtain ⟨hk, hrest⟩ := sorted_cons.1 h
    cases tally' with
    | nil =>
      have hhead := hget k
      simp [Entries.get?] at hhead
    | cons entry' rest' =>
      obtain ⟨k', n'⟩ := entry'
      obtain ⟨hk', hrest'⟩ := sorted_cons.1 h'
      -- Neither first key is below the other, because it has a count in both.
      have hkey : k = k' := by
        have hle := h'.not_lt_of_get? (by rw [← hget k, Entries.get?, if_pos rfl]; rfl)
        have hge := h.not_lt_of_get? (by rw [hget k', Entries.get?, if_pos rfl]; rfl)
        exact le_antisymm (not_lt.1 hge) (not_lt.1 hle)
      subst hkey
      have hcount : n = n' := by
        have hhead := hget k
        simp only [Entries.get?, if_true, Option.some.injEq] at hhead
        exact hhead
      have htail : rest = rest' := by
        refine ih hrest hrest' fun key => ?_
        by_cases he : k = key
        · subst he
          rw [get?_of_forall_lt hk, get?_of_forall_lt hk']
        · have hboth := hget key
          simp only [Entries.get?, if_neg he] at hboth
          exact hboth
      rw [hcount, htail]

theorem count_add (h : tally.Sorted) :
    (tally.add key n).count other = tally.count other + if key = other then n else 0 := by
  rw [count, get?_add h]
  by_cases ho : key = other
  · subst ho
    simp
  · simp [ho, count]

/-- Additions may change places. -/
theorem add_add (h : tally.Sorted) (key other : String) (n m : UInt64) :
    (tally.add key n).add other m = (tally.add other m).add key n := by
  have hsorted := (h.add key n).add other m
  refine hsorted.ext ((h.add other m).add key n) fun k => ?_
  rw [get?_add (h.add key n), get?_add (h.add other m), get?_add h, get?_add h, count_add h,
    count_add h]
  by_cases hk : key = k <;> by_cases ho : other = k
  · subst hk ho
    simp [UInt64.add_assoc, UInt64.add_comm n m]
  · subst hk
    simp [ho]
  · subst ho
    simp [hk]
  · simp [hk, ho]

/-- Counting items one by one counts those with each key. -/
theorem count_foldl_add {α : Type} (keyOf : α → String) (h : tally.Sorted) (items : List α)
    (key : String) :
    (items.foldl (fun tally item => tally.add (keyOf item) 1) tally).count key =
      tally.count key + .ofNat (items.countP (keyOf · = key)) := by
  induction items generalizing tally with
  | nil => simp
  | cons item rest ih =>
    rw [List.foldl_cons, ih (h.add (keyOf item) 1), count_add h, List.countP_cons]
    by_cases hk : keyOf item = key
    · simp [hk, UInt64.ofNat_add, UInt64.add_assoc, UInt64.add_comm 1]
    · simp [hk]

/-! ## Two tallies together -/

variable {added : Tally}

theorem Sorted.merge (h : tally.Sorted) (added : Tally) : (tally.merge added).Sorted := by
  unfold Tally.merge
  induction added generalizing tally with
  | nil => exact h
  | cons entry rest ih => exact ih (h.add entry.1 entry.2)

theorem mem_keys_merge {k : String} :
    k ∈ Entries.keys (tally.merge added) ↔ k ∈ Entries.keys tally ∨ k ∈ Entries.keys added := by
  unfold Tally.merge
  induction added generalizing tally with
  | nil => simp
  | cons entry rest ih =>
    rw [List.foldl_cons, ih, mem_keys_add, Entries.keys_cons, List.mem_cons]
    tauto

theorem count_merge (h : tally.Sorted) (ha : added.Sorted) :
    (tally.merge added).count key = tally.count key + added.count key := by
  unfold Tally.merge
  induction added generalizing tally with
  | nil => simp [count, Entries.get?]
  | cons entry rest ih =>
    obtain ⟨k, n⟩ := entry
    obtain ⟨hk, hrest⟩ := sorted_cons.1 ha
    rw [List.foldl_cons, ih (h.add k n) hrest, count_add h]
    by_cases he : k = key
    · subst he
      have hnone : count k rest = 0 := by
        rw [count, get?_of_forall_lt hk]
        rfl
      have hhead : count k ((k, n) :: rest) = n := by simp [count, Entries.get?]
      rw [hnone, hhead, if_pos rfl, UInt64.add_zero]
    · have htail : count key ((k, n) :: rest) = count key rest := by
        simp [count, Entries.get?, he]
      rw [htail, if_neg he, UInt64.add_zero]

theorem total_merge : (tally.merge added).total = tally.total + added.total := by
  unfold Tally.merge
  induction added generalizing tally with
  | nil => simp [total]
  | cons entry rest ih =>
    rw [List.foldl_cons, ih, total_add, UInt64.add_assoc]
    rfl

/-! ## Sums that do not overflow -/

theorem sum_add (h : tally.sum + n.toNat < UInt64.size) :
    (tally.add key n).sum = tally.sum + n.toNat := by
  induction tally with
  | nil => simp [add, sum]
  | cons entry rest ih =>
    obtain ⟨k, m⟩ := entry
    have hcons (m : UInt64) (rest : Tally) : sum ((k, m) :: rest) = m.toNat + sum rest := by
      simp [sum]
    rw [hcons] at h
    rw [add]
    split
    · have hadd : (m + n).toNat = m.toNat + n.toNat := by
        have hfits : m.toNat + n.toNat < UInt64.size := by omega
        rw [UInt64.toNat_add, Nat.mod_eq_of_lt hfits]
      rw [hcons, hcons, hadd]
      omega
    · split
      · simp only [sum, List.map_cons, List.sum_cons]
        omega
      · rw [hcons, hcons, ih (by omega)]
        omega

theorem sum_merge (h : tally.sum + added.sum < UInt64.size) :
    (tally.merge added).sum = tally.sum + added.sum := by
  unfold Tally.merge
  induction added generalizing tally with
  | nil => simp [sum]
  | cons entry rest ih =>
    have hcons : sum (entry :: rest) = entry.2.toNat + sum rest := by simp [sum]
    rw [hcons] at h
    have hhead : (tally.add entry.1 entry.2).sum = tally.sum + entry.2.toNat := sum_add (by omega)
    rw [List.foldl_cons, ih (by omega), hhead, hcons]
    omega

end Tally

namespace Stats

/-- Whether both kinds of tallies are in order. -/
structure Sorted (stats : Stats) : Prop where
  severity : stats.severity.Sorted
  files : stats.files.Sorted

/-- Statistics of a number of findings: the counts by severity, those by file, and the count in all
each come to that number, as words and, if it fits in a word, without overflow. -/
structure Counts (stats : Stats) (n : Nat) : Prop where
  reportCount : stats.reportCount = .ofNat n
  severity : stats.severity.total = .ofNat n
  files : stats.files.total = .ofNat n
  exact : n < UInt64.size →
    stats.severity.sum = n ∧ stats.files.sum = n ∧ stats.reportCount.toNat = n

variable {stats other : Stats} {n m : Nat}

theorem sorted_empty : empty.Sorted :=
  ⟨.nil, .nil⟩

theorem Sorted.record (h : stats.Sorted) (severity file : String) :
    (stats.record severity file).Sorted :=
  ⟨h.severity.add severity 1, h.files.add file 1⟩

theorem Sorted.merge (h : stats.Sorted) (other : Stats) : (stats.merge other).Sorted :=
  ⟨h.severity.merge other.severity, h.files.merge other.files⟩

/-- Findings may be counted in any order. -/
theorem record_record (h : stats.Sorted) (severity file severity' file' : String) :
    (stats.record severity file).record severity' file' =
      (stats.record severity' file').record severity file := by
  simp only [record, Tally.add_add h.severity severity severity',
    Tally.add_add h.files file file']

theorem counts_empty : empty.Counts 0 :=
  ⟨rfl, rfl, rfl, fun _ => ⟨rfl, rfl, rfl⟩⟩

theorem Counts.record (h : stats.Counts n) (severity file : String) :
    (stats.record severity file).Counts (n + 1) := by
  have hone : UInt64.ofNat (n + 1) = .ofNat n + 1 := UInt64.ofNat_add n 1
  refine ⟨?_, ?_, ?_, fun hn => ?_⟩
  · rw [hone, ← h.reportCount]
    rfl
  · rw [hone, ← h.severity, total_severity_record]
  · rw [hone, ← h.files, total_files_record]
  · obtain ⟨hs, hf, -⟩ := h.exact (by omega)
    have hcount : (stats.record severity file).reportCount = .ofNat (n + 1) := by
      rw [hone, ← h.reportCount]
      rfl
    refine ⟨?_, ?_, ?_⟩
    · exact (Tally.sum_add (by rw [hs]; exact hn)).trans (by rw [hs]; rfl)
    · exact (Tally.sum_add (by rw [hf]; exact hn)).trans (by rw [hf]; rfl)
    · rw [hcount, UInt64.toNat_ofNat', Nat.mod_eq_of_lt hn]

theorem Counts.merge (h : stats.Counts n) (h' : other.Counts m) :
    (stats.merge other).Counts (n + m) := by
  have hcount : (stats.merge other).reportCount = .ofNat (n + m) := by
    rw [UInt64.ofNat_add, ← h.reportCount, ← h'.reportCount]
    rfl
  refine ⟨hcount, ?_, ?_, fun hn => ?_⟩
  · rw [UInt64.ofNat_add, ← h.severity, ← h'.severity]
    exact Tally.total_merge
  · rw [UInt64.ofNat_add, ← h.files, ← h'.files]
    exact Tally.total_merge
  · obtain ⟨hs, hf, -⟩ := h.exact (by omega)
    obtain ⟨hs', hf', -⟩ := h'.exact (by omega)
    refine ⟨?_, ?_, ?_⟩
    · exact (Tally.sum_merge (by rw [hs, hs']; exact hn)).trans (by rw [hs, hs'])
    · exact (Tally.sum_merge (by rw [hf, hf']; exact hn)).trans (by rw [hf, hf'])
    · rw [hcount, UInt64.toNat_ofNat', Nat.mod_eq_of_lt hn]

/-! ## Counting many findings -/

section Many

variable {α : Type} {severity file : α → String} {items items' : List α}

/-- Counts items by a severity and a file each. -/
def recordAll (stats : Stats) (severity file : α → String) (items : List α) : Stats :=
  items.foldl (fun stats item => stats.record (severity item) (file item)) stats

theorem recordAll_cons (item : α) :
    stats.recordAll severity file (item :: items) =
      (stats.record (severity item) (file item)).recordAll severity file items :=
  rfl

theorem Sorted.recordAll (h : stats.Sorted) (severity file : α → String) (items : List α) :
    (stats.recordAll severity file items).Sorted := by
  induction items generalizing stats with
  | nil => exact h
  | cons item rest ih => exact ih (h.record _ _)

theorem Counts.recordAll (h : stats.Counts n) (severity file : α → String) (items : List α) :
    (stats.recordAll severity file items).Counts (n + items.length) := by
  induction items generalizing stats n with
  | nil => exact h
  | cons item rest ih =>
    have hrest := ih (h.record (severity item) (file item))
    rwa [Nat.add_assoc, Nat.add_comm 1] at hrest

theorem severity_recordAll : (stats.recordAll severity file items).severity =
    items.foldl (fun tally item => tally.add (severity item) 1) stats.severity := by
  induction items generalizing stats with
  | nil => rfl
  | cons item rest ih => exact ih

theorem files_recordAll : (stats.recordAll severity file items).files =
    items.foldl (fun tally item => tally.add (file item) 1) stats.files := by
  induction items generalizing stats with
  | nil => rfl
  | cons item rest ih => exact ih

/-- Items may be counted in any order. -/
theorem recordAll_perm (hp : items.Perm items') (h : stats.Sorted) :
    stats.recordAll severity file items = stats.recordAll severity file items' := by
  induction hp generalizing stats with
  | nil => rfl
  | cons item _ ih => exact ih (h.record _ _)
  | swap first second rest =>
    rw [recordAll_cons, recordAll_cons, recordAll_cons, recordAll_cons, record_record h]
  | trans _ _ ih ih' => exact (ih h).trans (ih' h)

end Many

/-! ## Many statistics together -/

/-- Merges statistics one by one. -/
def mergeAll (stats : Stats) (others : List Stats) : Stats :=
  others.foldl merge stats

/-- Whether statistics have the sums of others for each key, and no further keys. They are in order,
so there is only one such statistics. -/
structure SumOf (stats : Stats) (others : List Stats) : Prop where
  sorted : stats.Sorted
  reportCount : stats.reportCount = (others.map reportCount).sum
  severity : ∀ key, stats.severity.count key = (others.map (·.severity.count key)).sum
  files : ∀ key, stats.files.count key = (others.map (·.files.count key)).sum
  severityKeys : ∀ key, key ∈ Entries.keys stats.severity ↔
    ∃ other ∈ others, key ∈ Entries.keys other.severity
  fileKeys : ∀ key, key ∈ Entries.keys stats.files ↔
    ∃ other ∈ others, key ∈ Entries.keys other.files

variable {others : List Stats}

theorem merge_empty (stats : Stats) : stats.merge .empty = stats := by
  simp [merge, empty, Tally.merge]

theorem Counts.mergeAll {sizes : List Nat} (h : stats.Counts n)
    (ho : List.Forall₂ Counts others sizes) : (stats.mergeAll others).Counts (n + sizes.sum) := by
  induction ho generalizing stats n with
  | nil => exact h
  | cons hfirst _ ih =>
    have hrest := ih (h.merge hfirst)
    rwa [Nat.add_assoc] at hrest

theorem SumOf.merge_right (h : stats.SumOf others) (hother : other.Sorted) :
    (stats.merge other).SumOf (others ++ [other]) := by
  have hsum (f : Stats → UInt64) :
      ((others ++ [other]).map f).sum = (others.map f).sum + f other := by
    rw [List.map_append, List.sum_append, List.map_singleton, List.sum_singleton]
  refine ⟨h.sorted.merge other, ?_, fun key => ?_, fun key => ?_, fun key => ?_, fun key => ?_⟩
  · rw [hsum, ← h.reportCount]
    rfl
  · rw [hsum, ← h.severity]
    exact Tally.count_merge h.sorted.severity hother.severity
  · rw [hsum, ← h.files]
    exact Tally.count_merge h.sorted.files hother.files
  · rw [merge, Tally.mem_keys_merge, h.severityKeys]
    simp [or_and_right, exists_or]
  · rw [merge, Tally.mem_keys_merge, h.fileKeys]
    simp [or_and_right, exists_or]

theorem sumOf_empty : empty.SumOf [] :=
  ⟨sorted_empty, rfl, fun _ => rfl, fun _ => rfl, fun _ => by simp [empty],
    fun _ => by simp [empty]⟩

theorem SumOf.mergeAll {added : List Stats} (h : stats.SumOf others)
    (ha : ∀ other ∈ added, other.Sorted) : (stats.mergeAll added).SumOf (others ++ added) := by
  induction added generalizing stats others with
  | nil => rwa [List.append_nil]
  | cons first rest ih =>
    obtain ⟨hfirst, hrest⟩ := List.forall_mem_cons.1 ha
    have hmerged := ih (h.merge_right hfirst) hrest
    rwa [List.append_assoc, List.singleton_append] at hmerged

/-- Statistics that are merged are added up by key. -/
theorem sumOf_mergeAll (h : ∀ other ∈ others, other.Sorted) :
    (empty.mergeAll others).SumOf others :=
  sumOf_empty.mergeAll h

end Stats

end Findings
