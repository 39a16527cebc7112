/-!
# Entries

Lists of pairs read as a table: the first entry with a key counts, and setting a key changes its
entry where it stands or adds one at the end. So a table remembers the order in which its keys
came.

- `get?_set_self`, `get?_set_of_ne`: what a table holds after a key is set.
- `set_set`: only the last value set for a key counts.
- `set_of_get?`: setting the value that a key has changes nothing.
-/

namespace Findings.Entries

variable {κ α : Type} [DecidableEq κ]

/-- The value of the first entry with a key. -/
def get? (key : κ) : List (κ × α) → Option α
  | [] => none
  | (k, v) :: rest => if k = key then some v else get? key rest

/-- Gives `key` the value `value`, at the key's place or at the end. -/
def set (key : κ) (value : α) : List (κ × α) → List (κ × α)
  | [] => [(key, value)]
  | (k, v) :: rest => if k = key then (k, value) :: rest else (k, v) :: set key value rest

/-- Changes the value of `key` by a function of what it was. -/
def update (key : κ) (f : Option α → α) (entries : List (κ × α)) : List (κ × α) :=
  set key (f (get? key entries)) entries

/-- Takes every entry with a key away. -/
def erase (key : κ) (entries : List (κ × α)) : List (κ × α) :=
  entries.filter fun entry => entry.1 ≠ key

/-- The table that setting the entries one after the other gives: each key once, with its last
value, at its first place. -/
def ofList (entries : List (κ × α)) : List (κ × α) :=
  entries.foldl (fun table entry => set entry.1 entry.2 table) []

@[simp] theorem get?_nil (key : κ) : get? key ([] : List (κ × α)) = none := rfl

@[simp] theorem get?_set_self (key : κ) (value : α) (entries : List (κ × α)) :
    get? key (set key value entries) = some value := by
  induction entries with
  | nil => simp [set, get?]
  | cons entry rest ih => by_cases h : entry.1 = key <;> simp [set, get?, h, ih]

theorem get?_set_of_ne {key other : κ} (h : other ≠ key) (value : α) (entries : List (κ × α)) :
    get? other (set key value entries) = get? other entries := by
  induction entries with
  | nil => simp [set, get?, Ne.symm h]
  | cons entry rest ih =>
    by_cases he : entry.1 = key
    · have hk : entry.1 ≠ other := fun ho => h (ho ▸ he)
      simp only [set, he, if_true, get?]
      rw [if_neg (he ▸ hk), if_neg (he ▸ hk)]
    · simp [set, get?, he, ih]

theorem set_set (key : κ) (first second : α) (entries : List (κ × α)) :
    set key second (set key first entries) = set key second entries := by
  induction entries with
  | nil => simp [set]
  | cons entry rest ih => by_cases h : entry.1 = key <;> simp [set, h, ih]

theorem set_of_get? {key : κ} {value : α} {entries : List (κ × α)}
    (h : get? key entries = some value) : set key value entries = entries := by
  induction entries with
  | nil => simp at h
  | cons entry rest ih =>
    obtain ⟨k, v⟩ := entry
    by_cases hk : k = key
    · simp_all [set, get?]
    · simp only [get?, hk, if_false] at h
      simp [set, hk, ih h]

@[simp] theorem get?_erase_self (key : κ) (entries : List (κ × α)) :
    get? key (erase key entries) = none := by
  induction entries with
  | nil => rfl
  | cons entry rest ih => by_cases h : entry.1 = key <;> simp_all [erase, get?]

end Findings.Entries
