import Findings.Json.Basic
import Findings.Proofs.Entries

/-!
# JSON values as trees

The induction over a value, and three views of one: how deep it is nested (`depth`), which numbers
it holds (`numbers`), and whether all its objects have every key once (`DistinctKeys`). A value may
have its floating point numbers changed in place (`mapFloats`).

* `distinctKeys_collapse`, `collapse_of_distinctKeys`: collapsing gives values with distinct keys,
  and changes no others.
* `depth_collapse_le`, `numbers_collapse`: it nests no deeper and brings no number.
* `Within`: a bound on the depth and a property of all numbers, with what keeps them.
-/

namespace Findings.Json

/-- Induction over a value, with the hypothesis for each item of an array and for the value of
each member of an object. -/
@[elab_as_elim]
theorem induction {motive : Json → Prop} (null : motive .null) (bool : ∀ b, motive (.bool b))
    (number : ∀ n, motive (.number n)) (string : ∀ s, motive (.string s))
    (array : ∀ items, (∀ item ∈ items, motive item) → motive (.array items))
    (object : ∀ members, (∀ member ∈ members, motive member.2) → motive (.object members))
    (value : Json) : motive value := by
  refine @Json.rec motive (fun items => ∀ item ∈ items, motive item)
    (fun members => ∀ member ∈ members, motive member.2) (fun member => motive member.2)
    null bool number string array object ?_ ?_ ?_ ?_ ?_ value
  · exact fun _ h => absurd h List.not_mem_nil
  · exact fun item items h hs => List.forall_mem_cons.2 ⟨h, hs⟩
  · exact fun _ h => absurd h List.not_mem_nil
  · exact fun member members h hs => List.forall_mem_cons.2 ⟨h, hs⟩
  · exact fun _ _ h => h

/-! ## Depth -/

mutual

/-- How many arrays and objects stand inside one another. -/
def depth : Json → Nat
  | .array items => depthItems items + 1
  | .object members => depthMembers members + 1
  | .null | .bool _ | .number _ | .string _ => 0

/-- The depth of the deepest item. -/
def depthItems : List Json → Nat
  | [] => 0
  | item :: items => max (depth item) (depthItems items)

/-- The depth of the deepest member. -/
def depthMembers : List (String × Json) → Nat
  | [] => 0
  | (_, value) :: members => max (depth value) (depthMembers members)

end

theorem depthItems_le_iff {items : List Json} {d : Nat} :
    depthItems items ≤ d ↔ ∀ item ∈ items, item.depth ≤ d := by
  induction items with
  | nil => simp [depthItems]
  | cons item items ih => rw [depthItems, Nat.max_le, ih, List.forall_mem_cons]

theorem depthMembers_le_iff {members : List (String × Json)} {d : Nat} :
    depthMembers members ≤ d ↔ ∀ member ∈ members, member.2.depth ≤ d := by
  induction members with
  | nil => simp [depthMembers]
  | cons member members ih => rw [depthMembers, Nat.max_le, ih, List.forall_mem_cons]

theorem depth_array_le_iff {items : List Json} {d : Nat} :
    (array items).depth ≤ d + 1 ↔ ∀ item ∈ items, item.depth ≤ d := by
  rw [depth, Nat.add_le_add_iff_right, depthItems_le_iff]

theorem depth_object_le_iff {members : List (String × Json)} {d : Nat} :
    (object members).depth ≤ d + 1 ↔ ∀ member ∈ members, member.2.depth ≤ d := by
  rw [depth, Nat.add_le_add_iff_right, depthMembers_le_iff]

theorem depth_array_pos (items : List Json) : 0 < (array items).depth := by
  simp [depth]

theorem depth_object_pos (members : List (String × Json)) : 0 < (object members).depth := by
  simp [depth]

/-! ## Numbers -/

mutual

/-- The numbers in a value, in order. -/
def numbers : Json → List Number
  | .number n => [n]
  | .array items => numbersItems items
  | .object members => numbersMembers members
  | .null | .bool _ | .string _ => []

/-- The numbers in the items of an array. -/
def numbersItems : List Json → List Number
  | [] => []
  | item :: items => numbers item ++ numbersItems items

/-- The numbers in the members of an object. -/
def numbersMembers : List (String × Json) → List Number
  | [] => []
  | (_, value) :: members => numbers value ++ numbersMembers members

end

theorem mem_numbers_array {n : Number} {items : List Json} :
    n ∈ (array items).numbers ↔ ∃ item ∈ items, n ∈ item.numbers := by
  rw [numbers]
  induction items with
  | nil => simp [numbersItems]
  | cons item items ih => simp [numbersItems, ih]

theorem mem_numbers_object {n : Number} {members : List (String × Json)} :
    n ∈ (object members).numbers ↔ ∃ member ∈ members, n ∈ member.2.numbers := by
  rw [numbers]
  induction members with
  | nil => simp [numbersMembers]
  | cons member members ih => simp [numbersMembers, ih]

/-! ## Distinct keys -/

/-- Every object in the value has each of its keys once. -/
inductive DistinctKeys : Json → Prop
  | null : DistinctKeys .null
  | bool (b : Bool) : DistinctKeys (.bool b)
  | number (n : Number) : DistinctKeys (.number n)
  | string (s : String) : DistinctKeys (.string s)
  | array {items : List Json} (h : ∀ item ∈ items, DistinctKeys item) :
    DistinctKeys (.array items)
  | object {members : List (String × Json)} (hk : (Entries.keys members).Nodup)
    (h : ∀ member ∈ members, DistinctKeys member.2) : DistinctKeys (.object members)

theorem distinctKeys_array_iff {items : List Json} :
    (Json.array items).DistinctKeys ↔ ∀ item ∈ items, item.DistinctKeys :=
  ⟨fun h => by cases h; assumption, .array⟩

theorem distinctKeys_object_iff {members : List (String × Json)} :
    (Json.object members).DistinctKeys ↔
      (Entries.keys members).Nodup ∧ ∀ member ∈ members, member.2.DistinctKeys :=
  ⟨fun h => by cases h; exact ⟨‹_›, ‹_›⟩, fun h => .object h.1 h.2⟩

theorem DistinctKeys.set {members : List (String × Json)} (h : (Json.object members).DistinctKeys)
    (key : String) {value : Json} (hv : value.DistinctKeys) :
    (Json.object (Entries.set key value members)).DistinctKeys := by
  rw [distinctKeys_object_iff] at h
  refine .object (Entries.nodup_keys_set h.1 key value) fun member hm => ?_
  rcases Entries.mem_set hm with hm | rfl
  · exact h.2 member hm
  · exact hv

/-! ## Collapsing -/

theorem collapse_array (items : List Json) :
    (Json.array items).collapse = .array (items.map collapse) := by
  rw [collapse, collapseItems_eq_map]

theorem collapse_object (members : List (String × Json)) :
    (Json.object members).collapse =
      .object (Entries.ofList (members.map fun member => (member.1, member.2.collapse))) := by
  rw [collapse, collapseMembers_eq_map]

/-- A member of a collapsed object is a collapsed member of the object. -/
theorem exists_of_mem_collapse {members : List (String × Json)} {member : String × Json}
    (h : member ∈ Entries.ofList (members.map fun member => (member.1, member.2.collapse))) :
    ∃ m ∈ members, member = (m.1, m.2.collapse) := by
  obtain ⟨m, hm, rfl⟩ := List.mem_map.1 (Entries.mem_of_mem_ofList h)
  exact ⟨m, hm, rfl⟩

theorem distinctKeys_collapse (value : Json) : value.collapse.DistinctKeys := by
  induction value using induction with
  | null => exact .null
  | bool b => exact .bool b
  | number n => exact .number n
  | string s => exact .string s
  | array items ih =>
    rw [collapse_array]
    exact .array fun item h => by
      obtain ⟨i, hi, rfl⟩ := List.mem_map.1 h
      exact ih i hi
  | object members ih =>
    rw [collapse_object]
    refine .object (Entries.nodup_keys_ofList _) fun member h => ?_
    obtain ⟨m, hm, rfl⟩ := exists_of_mem_collapse h
    exact ih m hm

theorem collapse_of_distinctKeys {value : Json} (h : value.DistinctKeys) :
    value.collapse = value := by
  induction value using induction with
  | null | bool _ | number _ | string _ => rfl
  | array items ih =>
    rw [distinctKeys_array_iff] at h
    have hi : items.map collapse = items.map id :=
      List.map_congr_left fun item hi => ih item hi (h item hi)
    rw [collapse_array, hi, List.map_id]
  | object members ih =>
    rw [distinctKeys_object_iff] at h
    have hm : members.map (fun member => (member.1, member.2.collapse)) = members.map id :=
      List.map_congr_left fun member hm => by simp [ih member hm (h.2 member hm)]
    rw [collapse_object, hm, List.map_id, Entries.ofList_eq_self h.1]

theorem depth_collapse_le (value : Json) : value.collapse.depth ≤ value.depth := by
  induction value using induction with
  | null | bool _ | number _ | string _ => exact Nat.le_refl _
  | array items ih =>
    obtain ⟨d, hd⟩ := Nat.exists_eq_add_of_lt (depth_array_pos items)
    rw [Nat.zero_add] at hd
    have hi := depth_array_le_iff.1 (Nat.le_of_eq hd)
    rw [collapse_array, hd, depth_array_le_iff]
    intro item h
    obtain ⟨i, him, rfl⟩ := List.mem_map.1 h
    exact Nat.le_trans (ih i him) (hi i him)
  | object members ih =>
    obtain ⟨d, hd⟩ := Nat.exists_eq_add_of_lt (depth_object_pos members)
    rw [Nat.zero_add] at hd
    have hi := depth_object_le_iff.1 (Nat.le_of_eq hd)
    rw [collapse_object, hd, depth_object_le_iff]
    intro member h
    obtain ⟨m, hm, rfl⟩ := exists_of_mem_collapse h
    exact Nat.le_trans (ih m hm) (hi m hm)

theorem numbers_collapse {value : Json} {n : Number} (h : n ∈ value.collapse.numbers) :
    n ∈ value.numbers := by
  induction value using induction with
  | null | bool _ | number _ | string _ => exact h
  | array items ih =>
    rw [collapse_array, mem_numbers_array] at h
    obtain ⟨item, hi, hn⟩ := h
    obtain ⟨i, him, rfl⟩ := List.mem_map.1 hi
    exact mem_numbers_array.2 ⟨i, him, ih i him hn⟩
  | object members ih =>
    rw [collapse_object, mem_numbers_object] at h
    obtain ⟨member, hm, hn⟩ := h
    obtain ⟨m, hmm, rfl⟩ := exists_of_mem_collapse hm
    exact mem_numbers_object.2 ⟨m, hmm, ih m hmm hn⟩

/-! ## Floating point numbers -/

/-- The number, or what becomes of it if it is a floating point number. -/
def mapFloat (φ : Binary64 → Binary64) : Number → Number
  | .int n => .int n
  | .float x => .float (φ x)

mutual

/-- Changes the floating point numbers in a value. -/
def mapFloats (φ : Binary64 → Binary64) : Json → Json
  | .number n => .number (mapFloat φ n)
  | .array items => .array (mapFloatsItems φ items)
  | .object members => .object (mapFloatsMembers φ members)
  | .null => .null
  | .bool b => .bool b
  | .string s => .string s

/-- Changes the floating point numbers in the items of an array. -/
def mapFloatsItems (φ : Binary64 → Binary64) : List Json → List Json
  | [] => []
  | item :: items => mapFloats φ item :: mapFloatsItems φ items

/-- Changes the floating point numbers in the members of an object. -/
def mapFloatsMembers (φ : Binary64 → Binary64) : List (String × Json) → List (String × Json)
  | [] => []
  | (key, value) :: members => (key, mapFloats φ value) :: mapFloatsMembers φ members

end

variable (φ : Binary64 → Binary64)

theorem mapFloatsItems_eq_map (items : List Json) :
    mapFloatsItems φ items = items.map (mapFloats φ) := by
  induction items with
  | nil => rfl
  | cons item items ih => simp [mapFloatsItems, ih]

theorem mapFloatsMembers_eq_map (members : List (String × Json)) :
    mapFloatsMembers φ members = members.map fun member => (member.1, member.2.mapFloats φ) := by
  induction members with
  | nil => rfl
  | cons member members ih => simp [mapFloatsMembers, ih]

theorem mapFloats_array (items : List Json) :
    (Json.array items).mapFloats φ = .array (items.map (mapFloats φ)) := by
  rw [mapFloats, mapFloatsItems_eq_map]

theorem mapFloats_object (members : List (String × Json)) :
    (Json.object members).mapFloats φ =
      .object (members.map fun member => (member.1, member.2.mapFloats φ)) := by
  rw [mapFloats, mapFloatsMembers_eq_map]

theorem DistinctKeys.mapFloats {value : Json} (h : value.DistinctKeys) :
    (value.mapFloats φ).DistinctKeys := by
  induction value using induction with
  | null => exact .null
  | bool b => exact .bool b
  | number n => exact .number (mapFloat φ n)
  | string s => exact .string s
  | array items ih =>
    rw [distinctKeys_array_iff] at h
    rw [mapFloats_array, distinctKeys_array_iff]
    intro item hi
    obtain ⟨i, him, rfl⟩ := List.mem_map.1 hi
    exact ih i him (h i him)
  | object members ih =>
    rw [distinctKeys_object_iff] at h
    rw [mapFloats_object]
    refine .object ?_ fun member hm => ?_
    · have hkeys : Entries.keys (members.map fun member => (member.1, member.2.mapFloats φ)) =
          Entries.keys members := by
        simp [Entries.keys]
      rw [hkeys]
      exact h.1
    · obtain ⟨m, hmm, rfl⟩ := List.mem_map.1 hm
      exact ih m hmm (h.2 m hmm)

variable {φ}

/-- Only the floating point numbers in a value matter. -/
theorem mapFloats_eq_self {value : Json} (h : ∀ x, .float x ∈ value.numbers → φ x = x) :
    value.mapFloats φ = value := by
  induction value using induction with
  | null | bool _ | string _ => rfl
  | number n =>
    cases n with
    | int n => rfl
    | float x => rw [mapFloats, mapFloat, h x (by simp [numbers])]
  | array items ih =>
    have hi : items.map (mapFloats φ) = items.map id := List.map_congr_left fun item hi =>
      ih item hi fun x hx => h x (mem_numbers_array.2 ⟨item, hi, hx⟩)
    rw [mapFloats_array, hi, List.map_id]
  | object members ih =>
    have hm : members.map (fun member => (member.1, member.2.mapFloats φ)) = members.map id :=
      List.map_congr_left fun member hm => by
        rw [ih member hm fun x hx => h x (mem_numbers_object.2 ⟨member, hm, hx⟩)]
        rfl
    rw [mapFloats_object, hm, List.map_id]

theorem mapFloats_id (value : Json) : value.mapFloats id = value :=
  mapFloats_eq_self fun _ _ => rfl

/-! ## Bounds -/

/-- Nested at most `depth` deep, with numbers that all have a property. -/
structure Within (P : Number → Prop) (depth : Nat) (value : Json) : Prop where
  depth_le : value.depth ≤ depth
  numbers : ∀ n ∈ value.numbers, P n

variable {P Q : Number → Prop} {depth : Nat} {value : Json}

/-- A value that is neither a number nor has parts is within all bounds. -/
theorem within_leaf (hd : value.depth = 0) (hn : value.numbers = []) : Within P depth value where
  depth_le := by omega
  numbers := by simp [hn]

theorem within_number {n : Number} (h : P n) : Within P depth (.number n) where
  depth_le := Nat.zero_le _
  numbers m hm := by simp_all [Json.numbers]

theorem within_array_iff {items : List Json} :
    Within P (depth + 1) (.array items) ↔ ∀ item ∈ items, Within P depth item := by
  constructor
  · intro h item hi
    exact ⟨depth_array_le_iff.1 h.depth_le item hi,
      fun n hn => h.numbers n (mem_numbers_array.2 ⟨item, hi, hn⟩)⟩
  · intro h
    refine ⟨depth_array_le_iff.2 fun item hi => (h item hi).depth_le, fun n hn => ?_⟩
    obtain ⟨item, hi, hm⟩ := mem_numbers_array.1 hn
    exact (h item hi).numbers n hm

theorem within_object_iff {members : List (String × Json)} :
    Within P (depth + 1) (.object members) ↔ ∀ member ∈ members, Within P depth member.2 := by
  constructor
  · intro h member hm
    exact ⟨depth_object_le_iff.1 h.depth_le member hm,
      fun n hn => h.numbers n (mem_numbers_object.2 ⟨member, hm, hn⟩)⟩
  · intro h
    refine ⟨depth_object_le_iff.2 fun member hm => (h member hm).depth_le, fun n hn => ?_⟩
    obtain ⟨member, hm, hmem⟩ := mem_numbers_object.1 hn
    exact (h member hm).numbers n hmem

theorem Within.set {members : List (String × Json)}
    (h : Within P (depth + 1) (.object members)) (key : String) (hv : Within P depth value) :
    Within P (depth + 1) (.object (Entries.set key value members)) := by
  rw [within_object_iff] at h ⊢
  intro member hm
  rcases Entries.mem_set hm with hm | rfl
  · exact h member hm
  · exact hv

/-- The items of an array in an object may be replaced by others within the same bounds. -/
theorem Within.set_array {members : List (String × Json)} {key : String}
    {items replaced : List Json} (h : Within P depth (.object members))
    (hg : Entries.get? key members = some (.array items))
    (hr : ∀ d, (∀ item ∈ items, Within P d item) → ∀ item ∈ replaced, Within P d item) :
    Within P depth (.object (Entries.set key (.array replaced) members)) := by
  obtain ⟨depth, rfl⟩ : ∃ d, depth = d + 1 :=
    ⟨depth - 1, by have := depth_object_pos members; have := h.depth_le; omega⟩
  have ha : Within P depth (.array items) := within_object_iff.1 h _ (Entries.mem_of_get? hg)
  obtain ⟨depth, rfl⟩ : ∃ d, depth = d + 1 :=
    ⟨depth - 1, by have := depth_array_pos items; have := ha.depth_le; omega⟩
  exact h.set key (within_array_iff.2 (hr _ (within_array_iff.1 ha)))

theorem DistinctKeys.set_array {members : List (String × Json)} {key : String}
    {items replaced : List Json} (h : (Json.object members).DistinctKeys)
    (hg : Entries.get? key members = some (.array items))
    (hr : (∀ item ∈ items, item.DistinctKeys) → ∀ item ∈ replaced, item.DistinctKeys) :
    (Json.object (Entries.set key (.array replaced) members)).DistinctKeys := by
  have ha := (distinctKeys_object_iff.1 h).2 _ (Entries.mem_of_get? hg)
  exact h.set key (.array (hr (distinctKeys_array_iff.1 ha)))

theorem Within.imp (h : Within P depth value) (hq : ∀ n ∈ value.numbers, P n → Q n) :
    Within Q depth value where
  depth_le := h.depth_le
  numbers n hn := hq n hn (h.numbers n hn)

theorem Within.collapse (h : Within P depth value) : Within P depth value.collapse where
  depth_le := Nat.le_trans (depth_collapse_le value) h.depth_le
  numbers n hn := h.numbers n (numbers_collapse hn)

end Findings.Json
