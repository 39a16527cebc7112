import Findings.Entries

/-!
# Lemmas about tables

What `Entries.set` and `Entries.ofList` do to the keys of a table and to its other entries.

* `nodup_keys_set`, `nodup_keys_ofList`: no key comes twice in a table that was made by setting.
* `ofList_eq_self`: a table in which no key comes twice is made by setting its own entries.
* `filter_set`: setting a key leaves alone what is left after filtering that key out.
* `exists_append_of_mem_keys`, `set_append_cons`: a key that is there is set at its place.
* `keys_ofList`, `get?_ofList`: a key that is repeated keeps its first place and its last value.
-/

namespace Findings.Entries

variable {κ α : Type}

/-- The keys of a table, in order. -/
def keys (entries : List (κ × α)) : List κ :=
  entries.map Prod.fst

@[simp] theorem keys_nil : keys ([] : List (κ × α)) = [] := rfl

@[simp] theorem keys_cons (entry : κ × α) (rest : List (κ × α)) :
    keys (entry :: rest) = entry.1 :: keys rest := rfl

variable [DecidableEq κ]

theorem mem_of_get? {key : κ} {value : α} {entries : List (κ × α)}
    (h : get? key entries = some value) : (key, value) ∈ entries := by
  induction entries with
  | nil => simp at h
  | cons entry rest ih =>
    obtain ⟨k, v⟩ := entry
    by_cases hk : k = key
    · simp only [get?, hk, if_true, Option.some.injEq] at h
      simp [hk, h]
    · simp only [get?, hk, if_false] at h
      exact List.mem_cons_of_mem _ (ih h)

theorem get?_isSome_iff {key : κ} {entries : List (κ × α)} :
    (get? key entries).isSome ↔ key ∈ keys entries := by
  induction entries with
  | nil => simp
  | cons entry rest ih =>
    by_cases hk : entry.1 = key
    · simp [get?, hk]
    · simp [get?, hk, ih, Ne.symm hk]

theorem length_filter_key (key : κ) (entries : List (κ × α)) :
    (entries.filter fun entry => entry.1 = key).length = (keys entries).count key := by
  rw [keys, List.count, List.countP_map, List.countP_eq_length_filter]
  rfl

/-! ## Setting one key -/

theorem set_of_not_mem {key : κ} {entries : List (κ × α)} (h : key ∉ keys entries) (value : α) :
    set key value entries = entries ++ [(key, value)] := by
  induction entries with
  | nil => rfl
  | cons entry rest ih =>
    simp only [keys_cons, List.mem_cons, not_or] at h
    simp [set, Ne.symm h.1, ih h.2]

theorem keys_set_of_mem {key : κ} {entries : List (κ × α)} (h : key ∈ keys entries) (value : α) :
    keys (set key value entries) = keys entries := by
  induction entries with
  | nil => simp at h
  | cons entry rest ih =>
    by_cases hk : entry.1 = key
    · simp [set, hk]
    · simp only [keys_cons, List.mem_cons] at h
      simp [set, hk, ih (h.resolve_left (Ne.symm hk))]

theorem nodup_keys_set {entries : List (κ × α)} (h : (keys entries).Nodup) (key : κ) (value : α) :
    (keys (set key value entries)).Nodup := by
  by_cases hk : key ∈ keys entries
  · rwa [keys_set_of_mem hk]
  · rw [set_of_not_mem hk, keys, List.map_append]
    refine List.nodup_append.2 ⟨h, by simp, ?_⟩
    rintro a ha b hb rfl
    simp only [List.map_cons, List.map_nil, List.mem_singleton] at hb
    exact hk (hb ▸ ha)

theorem mem_set {key : κ} {value : α} {entries : List (κ × α)} {entry : κ × α}
    (h : entry ∈ set key value entries) : entry ∈ entries ∨ entry = (key, value) := by
  induction entries with
  | nil => simpa [set] using h
  | cons first rest ih =>
    by_cases hk : first.1 = key
    · simp only [set, hk, if_true, List.mem_cons] at h
      rcases h with h | h
      · exact .inr h
      · exact .inl (List.mem_cons_of_mem _ h)
    · simp only [set, hk, if_false, List.mem_cons] at h
      rcases h with h | h
      · exact .inl (h ▸ List.mem_cons_self)
      · exact (ih h).imp (List.mem_cons_of_mem _) id

/-- Setting a key leaves alone what a filter on keys keeps, if it drops that key. -/
theorem filter_set {p : κ → Bool} {key : κ} (h : p key = false) (value : α)
    (entries : List (κ × α)) :
    (set key value entries).filter (fun entry => p entry.1) =
      entries.filter fun entry => p entry.1 := by
  induction entries with
  | nil => simp [set, h]
  | cons entry rest ih =>
    by_cases hk : entry.1 = key
    · simp [set, hk, h]
    · simp [set, hk, List.filter_cons, ih]

/-- A filter on keys that keeps the key that is set may be applied before or after. -/
theorem filter_set_of_pos {p : κ → Bool} {key : κ} (h : p key = true) (value : α)
    (entries : List (κ × α)) :
    (set key value entries).filter (fun entry => p entry.1) =
      set key value (entries.filter fun entry => p entry.1) := by
  induction entries with
  | nil => simp [set, h]
  | cons entry rest ih =>
    by_cases hk : entry.1 = key
    · simp [set, hk, h]
    · cases hp : p entry.1 <;> simp [set, hk, hp, ih]

/-- How often a key other than the one set comes in a table. -/
theorem filter_key_set_of_ne {key other : κ} (h : other ≠ key) (value : α)
    (entries : List (κ × α)) :
    (set key value entries).filter (fun entry => entry.1 = other) =
      entries.filter fun entry => entry.1 = other :=
  filter_set (p := fun k => decide (k = other)) (by simp [Ne.symm h]) value entries

/-- A key that comes at most once still does after it is set. -/
theorem length_filter_key_set_le {key : κ} {entries : List (κ × α)}
    (h : (entries.filter fun entry => entry.1 = key).length ≤ 1) (value : α) :
    ((set key value entries).filter fun entry => entry.1 = key).length ≤ 1 := by
  induction entries with
  | nil => simp [set]
  | cons entry rest ih =>
    by_cases hk : entry.1 = key
    · simpa [set, hk] using h
    · simp only [hk, decide_false, Bool.false_eq_true, not_false_eq_true,
        List.filter_cons_of_neg] at h
      simpa [set, hk] using ih h

/-! ## The place of a key -/

/-- A key that a table has stands somewhere in it for the first time. -/
theorem exists_append_of_mem_keys {key : κ} {entries : List (κ × α)} (h : key ∈ keys entries) :
    ∃ before value after, key ∉ keys before ∧ entries = before ++ (key, value) :: after := by
  induction entries with
  | nil => simp at h
  | cons entry rest ih =>
    by_cases hk : entry.1 = key
    · exact ⟨[], entry.2, rest, by simp, by simp [← hk]⟩
    · simp only [keys_cons, List.mem_cons] at h
      obtain ⟨before, value, after, hb, rfl⟩ := ih (h.resolve_left (Ne.symm hk))
      exact ⟨entry :: before, value, after, by simp [hb, Ne.symm hk], rfl⟩

theorem get?_append_cons {key : κ} {before : List (κ × α)} (h : key ∉ keys before) (value : α)
    (after : List (κ × α)) : get? key (before ++ (key, value) :: after) = some value := by
  induction before with
  | nil => simp [get?]
  | cons entry rest ih =>
    simp only [keys_cons, List.mem_cons, not_or] at h
    simp only [List.cons_append, get?, if_neg (Ne.symm h.1)]
    exact ih h.2

theorem set_append_cons {key : κ} {before : List (κ × α)} (h : key ∉ keys before) (old : α)
    (after : List (κ × α)) (value : α) :
    set key value (before ++ (key, old) :: after) = before ++ (key, value) :: after := by
  induction before with
  | nil => simp [set]
  | cons entry rest ih =>
    simp only [keys_cons, List.mem_cons, not_or] at h
    simp only [List.cons_append, set, if_neg (Ne.symm h.1), ih h.2]

/-! ## Tables made by setting -/

private theorem nodup_keys_foldl (entries : List (κ × α)) {table : List (κ × α)}
    (h : (keys table).Nodup) :
    (keys (entries.foldl (fun table entry => set entry.1 entry.2 table) table)).Nodup := by
  induction entries generalizing table with
  | nil => exact h
  | cons entry rest ih => exact ih (nodup_keys_set h _ _)

theorem nodup_keys_ofList (entries : List (κ × α)) : (keys (ofList entries)).Nodup :=
  nodup_keys_foldl entries List.nodup_nil

private theorem mem_foldl {entries table : List (κ × α)} {entry : κ × α}
    (h : entry ∈ entries.foldl (fun table entry => set entry.1 entry.2 table) table) :
    entry ∈ table ∨ entry ∈ entries := by
  induction entries generalizing table with
  | nil => exact .inl h
  | cons first rest ih =>
    rcases ih h with h | h
    · refine (mem_set h).imp id fun he => ?_
      simp [he]
    · exact .inr (List.mem_cons_of_mem _ h)

theorem mem_of_mem_ofList {entries : List (κ × α)} {entry : κ × α}
    (h : entry ∈ ofList entries) : entry ∈ entries := by
  simpa using mem_foldl h

private theorem foldl_eq_append (entries table : List (κ × α))
    (h : (keys (table ++ entries)).Nodup) :
    entries.foldl (fun table entry => set entry.1 entry.2 table) table = table ++ entries := by
  induction entries generalizing table with
  | nil => simp
  | cons entry rest ih =>
    have hn : entry.1 ∉ keys table := by
      rw [keys, List.map_append, List.nodup_append] at h
      exact fun hm => h.2.2 _ hm _ (by simp) rfl
    rw [List.foldl_cons, set_of_not_mem hn, ih _ (by simpa using h)]
    simp

theorem ofList_eq_self {entries : List (κ × α)} (h : (keys entries).Nodup) :
    ofList entries = entries := by
  simpa [ofList] using foldl_eq_append entries [] h

/-! ## What comes of repeated keys -/

theorem get?_append (key : κ) (first second : List (κ × α)) :
    get? key (first ++ second) = (get? key first).or (get? key second) := by
  induction first with
  | nil => simp
  | cons entry rest ih => by_cases h : entry.1 = key <;> simp [get?, h, ih]

theorem get?_append_cons_of_ne {key other : κ} (h : other ≠ key) (before : List (κ × α)) (value : α)
    (after : List (κ × α)) :
    get? other (before ++ (key, value) :: after) = get? other (before ++ after) := by
  simp only [get?_append, get?, if_neg (Ne.symm h)]

theorem get?_map {β : Type} (f : α → β) (key : κ) (entries : List (κ × α)) :
    get? key (entries.map fun entry => (entry.1, f entry.2)) = (get? key entries).map f := by
  induction entries with
  | nil => rfl
  | cons entry rest ih => by_cases h : entry.1 = key <;> simp [get?, h, ih]

private theorem get?_foldl (key : κ) (entries table : List (κ × α)) :
    get? key (entries.foldl (fun table entry => set entry.1 entry.2 table) table) =
      (get? key entries.reverse).or (get? key table) := by
  induction entries generalizing table with
  | nil => simp
  | cons entry rest ih =>
    rw [List.foldl_cons, ih, List.reverse_cons, get?_append, Option.or_assoc]
    by_cases h : entry.1 = key
    · simp [get?, h]
    · simp [get?, h, get?_set_of_ne (Ne.symm h)]

/-- Of a key that is repeated the last value counts. -/
theorem get?_ofList (key : κ) (entries : List (κ × α)) :
    get? key (ofList entries) = get? key entries.reverse := by
  simpa [ofList] using get?_foldl key entries []

theorem get?_eq_of_filter {key : κ} {first second : List (κ × α)}
    (h : first.filter (fun entry => entry.1 = key) = second.filter fun entry => entry.1 = key) :
    get? key first = get? key second := by
  have hfind (entries : List (κ × α)) :
      get? key entries = ((entries.filter fun entry => entry.1 = key).head?).map Prod.snd := by
    induction entries with
    | nil => rfl
    | cons entry rest ih => by_cases he : entry.1 = key <;> simp [get?, he, ih]
  rw [hfind, hfind, h]

/-- A key that is not repeated has the value that it came with. -/
theorem get?_ofList_of_length_le {key : κ} {entries : List (κ × α)}
    (h : (entries.filter fun entry => entry.1 = key).length ≤ 1) :
    get? key (ofList entries) = get? key entries := by
  rw [get?_ofList]
  refine get?_eq_of_filter ?_
  rw [List.filter_reverse]
  generalize entries.filter (fun entry => entry.1 = key) = found at h
  match found, h with
  | [], _ => rfl
  | [_], _ => rfl

private theorem keys_foldl (entries table : List (κ × α)) :
    keys (entries.foldl (fun table entry => set entry.1 entry.2 table) table) =
      keys table ++ ((keys entries).filter fun key => key ∉ keys table).eraseDups := by
  induction entries generalizing table with
  | nil => simp
  | cons entry rest ih =>
    rw [List.foldl_cons, ih, keys_cons]
    by_cases h : entry.1 ∈ keys table
    · rw [keys_set_of_mem h, List.filter_cons_of_neg (by simpa using h)]
    · have hkeys : keys (table ++ [(entry.1, entry.2)]) = keys table ++ [entry.1] := by simp [keys]
      rw [set_of_not_mem h, List.filter_cons_of_pos (by simpa using h), List.eraseDups_cons, hkeys,
        List.filter_filter, List.append_assoc, List.singleton_append]
      refine congrArg (fun rest => keys table ++ entry.1 :: List.eraseDups rest) ?_
      refine List.filter_congr fun key _ => ?_
      rw [Bool.eq_iff_iff]
      simp [not_or, and_comm]

/-- The keys of a table that was made by setting stand in the order in which each came first. -/
theorem keys_ofList (entries : List (κ × α)) :
    keys (ofList entries) = (keys entries).eraseDups := by
  have h := keys_foldl entries []
  rwa [keys_nil, List.nil_append, List.filter_eq_self.2 (by simp)] at h

private theorem filter_foldl (p : κ → Bool) (entries table : List (κ × α)) :
    (entries.foldl (fun table entry => set entry.1 entry.2 table) table).filter
        (fun entry => p entry.1) =
      (entries.filter fun entry => p entry.1).foldl (fun table entry => set entry.1 entry.2 table)
        (table.filter fun entry => p entry.1) := by
  induction entries generalizing table with
  | nil => rfl
  | cons entry rest ih =>
    rw [List.foldl_cons, ih]
    cases hp : p entry.1 with
    | false => rw [filter_set hp, List.filter_cons_of_neg (by simp [hp])]
    | true =>
      rw [filter_set_of_pos hp, List.filter_cons_of_pos (by simpa using hp), List.foldl_cons]

/-- A filter on keys may be applied before the entries are set or after. -/
theorem filter_ofList (p : κ → Bool) (entries : List (κ × α)) :
    (ofList entries).filter (fun entry => p entry.1) =
      ofList (entries.filter fun entry => p entry.1) := by
  simpa [ofList] using filter_foldl p entries []

end Findings.Entries
