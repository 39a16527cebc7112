import Findings.Json.Decode
import Findings.Proofs.Json.Tree
import Findings.Proofs.Result
import Mathlib.Data.List.Forall2

/-!
# Decoding values with repeated keys

A record does not decode if one of its own keys is repeated; of every other key the last value
counts, wherever in the value the key is repeated. So what decodes at all decodes to the same after
every key is reduced to its last value.

* `decodeItems_eq_ok_iff`: a list decodes item by item.
* `IgnoresRepeats`: collapsing a value does not change what is decoded from it, with the decoders
  for lists, options and the members of records.
* `IgnoresFloats`: neither do its floating point numbers, as far as a view shows. They stand only in
  extra members, because nothing else is decoded from a floating point number.
-/

namespace Findings.Json

variable {α : Type} {decode : Json → Decoded α} {key : String} {value : Json}
  {members : List (String × Json)} {keys : List String}

/-! ## Parts of a value -/

theorem decodeItems_eq_ok_iff {items : List Json} {xs : List α} :
    decodeItems decode items = .ok xs ↔
      List.Forall₂ (fun item x => decode item = .ok x) items xs := by
  induction items generalizing xs with
  | nil => cases xs <;> simp [decodeItems]
  | cons item items ih =>
    constructor
    · intro h
      obtain ⟨first, hf, h⟩ := bind_eq_ok_iff.1 h
      obtain ⟨rest, hr, h⟩ := bind_eq_ok_iff.1 h
      obtain rfl := Except.ok.inj h
      exact .cons hf (ih.1 hr)
    · intro h
      cases h with
      | cons hf hr => simp only [decodeItems, hf, ih.2 hr, bind, Except.bind]

theorem exists_of_mem_decoded {items : List Json} {xs : List α} {x : α}
    (h : List.Forall₂ (fun item x => decode item = .ok x) items xs) (hx : x ∈ xs) :
    ∃ item ∈ items, decode item = .ok x := by
  induction h with
  | nil => cases hx
  | cons hd _ ih =>
    rcases List.mem_cons.1 hx with rfl | hx
    · exact ⟨_, List.mem_cons_self, hd⟩
    · obtain ⟨item, hm, hi⟩ := ih hx
      exact ⟨item, List.mem_cons_of_mem _ hm, hi⟩

theorem decodeList_eq_ok_iff {xs : List α} :
    decodeList decode value = .ok xs ↔
      ∃ items, value = .array items ∧
        List.Forall₂ (fun item x => decode item = .ok x) items xs := by
  cases value with
  | array items =>
    simp only [decodeList, decodeItems_eq_ok_iff]
    exact ⟨fun h => ⟨items, rfl, h⟩, fun ⟨_, he, h⟩ => Json.array.inj he ▸ h⟩
  | null | bool _ | number _ | string _ | object _ => simp [decodeList]

theorem required_eq_ok {result : α} (h : required decode key members = .ok result) :
    ∃ value, Entries.get? key members = some value ∧ decode value = .ok result := by
  unfold required at h
  split at h
  · rename_i value hv
    exact ⟨value, hv, h⟩
  · cases h

theorem listMember_eq_ok_iff {xs : List α} :
    listMember decode key members = .ok xs ↔
      Entries.get? key members = none ∧ xs = [] ∨
        ∃ items, Entries.get? key members = some (.array items) ∧
          List.Forall₂ (fun item x => decode item = .ok x) items xs := by
  unfold listMember withDefault
  cases hv : Entries.get? key members with
  | none => simp [eq_comm]
  | some value => simp [decodeList_eq_ok_iff]

theorem optional_eq_ok_iff {found : Option α} :
    optional decode key members = .ok found ↔
      found = none ∧ (∀ value, Entries.get? key members = some value → value = .null) ∨
        ∃ value a, Entries.get? key members = some value ∧ value ≠ .null ∧
          decode value = .ok a ∧ found = some a := by
  unfold optional withDefault
  cases hv : Entries.get? key members with
  | none => simp [eq_comm]
  | some value =>
    cases value with
    | null => simp [decodeOption, eq_comm]
    | bool _ | number _ | string _ | array _ | object _ =>
      simp [decodeOption, map_eq_ok_iff, eq_comm (a := found)]

theorem decodeMembers_eq_ok {raw : Json} (h : decodeMembers keys raw = .ok members) :
    raw = .object members ∧
      ∀ k ∈ keys, (members.filter fun member => member.1 = k).length ≤ 1 := by
  unfold decodeMembers at h
  split at h
  · split at h
    · simp at h
    · rename_i hn
      simp only [Except.ok.injEq] at h
      subst h
      refine ⟨rfl, fun k hk => ?_⟩
      have hk := List.find?_eq_none.1 hn k hk
      simp only [decide_eq_true_eq] at hk
      omega
  · simp at h

theorem decodeMembers_object
    (h : ∀ k ∈ keys, (members.filter fun member => member.1 = k).length ≤ 1) :
    decodeMembers keys (.object members) = .ok members := by
  have hn :
      (keys.find? fun k => 1 < (members.filter fun member => member.1 = k).length) = none := by
    refine List.find?_eq_none.2 fun k hk => ?_
    have hl := h k hk
    simp only [decide_eq_true_eq]
    omega
  rw [decodeMembers, hn]

/-! ## Collapsing -/

/-- The members of an object after it is collapsed. -/
def collapsed (members : List (String × Json)) : List (String × Json) :=
  Entries.ofList (collapseMembers members)

theorem collapse_object_eq (members : List (String × Json)) :
    (Json.object members).collapse = .object (collapsed members) := by
  rw [collapse, collapsed]

theorem collapse_collapse (value : Json) : value.collapse.collapse = value.collapse :=
  collapse_of_distinctKeys (distinctKeys_collapse value)

theorem nodup_keys_collapsed (members : List (String × Json)) :
    (Entries.keys (collapsed members)).Nodup :=
  Entries.nodup_keys_ofList _

theorem filter_collapsed_length_le (key : String) (members : List (String × Json)) :
    ((collapsed members).filter fun member => member.1 = key).length ≤ 1 := by
  rw [Entries.length_filter_key]
  exact List.nodup_iff_count.1 (nodup_keys_collapsed members) key

/-- A key that is not repeated keeps its value, which is collapsed. -/
theorem get?_collapsed (h : (members.filter fun member => member.1 = key).length ≤ 1) :
    Entries.get? key (collapsed members) = (Entries.get? key members).map collapse := by
  have hmap : ((collapseMembers members).filter fun member => member.1 = key).length ≤ 1 := by
    rw [collapseMembers_eq_map, List.filter_map, List.length_map]
    exact h
  rw [collapsed, Entries.get?_ofList_of_length_le hmap, collapseMembers_eq_map, Entries.get?_map]

theorem extras_eq (keys : List String) (members : List (String × Json)) :
    extras keys members = (collapsed members).filter fun member => !keys.contains member.1 := by
  rw [extras, collapsed, Entries.filter_ofList (fun key => !keys.contains key),
    collapseMembers_eq_map, collapseMembers_eq_map, List.filter_map]
  rfl

theorem collapsed_collapsed (members : List (String × Json)) :
    collapsed (collapsed members) = collapsed members := by
  have h := collapse_collapse (.object members)
  rw [collapse_object_eq, collapse_object_eq] at h
  exact Json.object.inj h

theorem extras_collapsed (keys : List String) (members : List (String × Json)) :
    extras keys (collapsed members) = extras keys members := by
  rw [extras_eq, extras_eq, collapsed_collapsed]

/-- What is decoded from a value is decoded from the collapsed value too. -/
def IgnoresRepeats (decode : Json → Decoded α) : Prop :=
  ∀ value a, decode value = .ok a → decode value.collapse = .ok a

theorem toUInt64?_collapse (value : Json) : value.collapse.toUInt64? = value.toUInt64? := by
  cases value <;> simp [collapse, toUInt64?]

theorem ignoresRepeats_decodeString : IgnoresRepeats decodeString := by
  intro value a h
  cases value <;> simp_all [collapse, decodeString]

theorem ignoresRepeats_decodeUInt64 : IgnoresRepeats decodeUInt64 := by
  intro value a h
  rwa [decodeUInt64, toUInt64?_collapse]

theorem ignoresRepeats_decodeUInt32 : IgnoresRepeats decodeUInt32 := by
  intro value a h
  rwa [decodeUInt32, toUInt64?_collapse]

namespace IgnoresRepeats

variable (hd : IgnoresRepeats decode)
include hd

theorem decodeList : IgnoresRepeats (decodeList decode) := by
  intro value xs h
  obtain ⟨items, rfl, hi⟩ := decodeList_eq_ok_iff.1 h
  rw [collapse_array]
  refine decodeList_eq_ok_iff.2 ⟨_, rfl, List.forall₂_map_left_iff.2 (hi.imp fun item x => ?_)⟩
  exact hd item x

theorem decodeOption : IgnoresRepeats (decodeOption decode) := by
  intro value found h
  by_cases hn : value = .null
  · subst hn
    exact h
  · have hc : value.collapse ≠ .null := by
      cases value <;> simp_all [collapse]
    unfold Json.decodeOption at h ⊢
    split at h
    · exact absurd rfl hn
    · obtain ⟨a, ha, rfl⟩ := map_eq_ok_iff.1 h
      exact map_eq_ok_iff.2 ⟨a, hd value a ha, rfl⟩

variable (hk : (members.filter fun member => member.1 = key).length ≤ 1)
include hk

theorem required {a : α} (h : required decode key members = .ok a) :
    required decode key (collapsed members) = .ok a := by
  obtain ⟨value, hv, ha⟩ := required_eq_ok h
  rw [Json.required, get?_collapsed hk, hv]
  exact hd value a ha

theorem withDefault {default a : α} (h : withDefault default decode key members = .ok a) :
    withDefault default decode key (collapsed members) = .ok a := by
  unfold Json.withDefault at h ⊢
  rw [get?_collapsed hk]
  cases hv : Entries.get? key members with
  | none => simpa only [hv, Option.map_none] using h
  | some value =>
    simp only [hv] at h
    exact hd value a h

omit hd in
theorem optional (hd : IgnoresRepeats decode) {found : Option α}
    (h : optional decode key members = .ok found) :
    Json.optional decode key (collapsed members) = .ok found :=
  hd.decodeOption.withDefault hk h

end IgnoresRepeats

/-! ## Floating point numbers -/

/-- What is decoded from a value looks the same after the floating point numbers in it are changed.
-/
def IgnoresFloats {β : Type} (decode : Json → Decoded α) (view : α → β) : Prop :=
  ∀ φ value, EndAlike (fun a b => view b = view a) (decode value) (decode (value.mapFloats φ))

theorem toUInt64?_mapFloats (φ : Binary64 → Binary64) (value : Json) :
    (value.mapFloats φ).toUInt64? = value.toUInt64? := by
  cases value with
  | number n => cases n <;> rfl
  | null | bool _ | string _ | array _ | object _ => rfl

/-- A decoder that gives the same for both values. -/
theorem ignoresFloats_of_eq {decode : Json → Decoded α}
    (h : ∀ φ value, decode (value.mapFloats φ) = decode value) : IgnoresFloats decode id := by
  intro φ value
  rw [h]
  cases decode value with
  | ok a => exact .ok rfl
  | error e => exact .error e

theorem IgnoresFloats.eq {decode : Json → Decoded α} (h : IgnoresFloats decode id)
    (φ : Binary64 → Binary64) (value : Json) : decode (value.mapFloats φ) = decode value := by
  have hvalue := h φ value
  generalize decode value = once at hvalue ⊢
  generalize decode (value.mapFloats φ) = again at hvalue ⊢
  cases hvalue with
  | ok h => exact congrArg Except.ok h
  | error e => rfl

theorem ignoresFloats_decodeString : IgnoresFloats decodeString id :=
  ignoresFloats_of_eq fun _ value => by cases value <;> rfl

theorem ignoresFloats_decodeUInt64 : IgnoresFloats decodeUInt64 id :=
  ignoresFloats_of_eq fun φ value => by rw [decodeUInt64, decodeUInt64, toUInt64?_mapFloats]

theorem ignoresFloats_decodeUInt32 : IgnoresFloats decodeUInt32 id :=
  ignoresFloats_of_eq fun φ value => by rw [decodeUInt32, decodeUInt32, toUInt64?_mapFloats]

theorem get?_mapFloatsMembers (φ : Binary64 → Binary64) (key : String)
    (members : List (String × Json)) :
    Entries.get? key (mapFloatsMembers φ members) =
      (Entries.get? key members).map (mapFloats φ) := by
  rw [mapFloatsMembers_eq_map, Entries.get?_map]

theorem get?_mapFloats (φ : Binary64 → Binary64) (key : String) (value : Json) :
    (value.mapFloats φ).get? key = (value.get? key).map (mapFloats φ) := by
  cases value with
  | object members => exact get?_mapFloatsMembers φ key members
  | null | bool _ | number _ | string _ | array _ => rfl

theorem decodeMembers_mapFloats (φ : Binary64 → Binary64) (keys : List String) (value : Json) :
    EndAlike (fun members mapped => mapped = mapFloatsMembers φ members) (decodeMembers keys value)
      (decodeMembers keys (value.mapFloats φ)) := by
  cases value with
  | object members =>
    have hlength (key : String) :
        ((mapFloatsMembers φ members).filter fun member => member.1 = key).length =
          (members.filter fun member => member.1 = key).length := by
      rw [mapFloatsMembers_eq_map, List.filter_map, List.length_map]
      rfl
    simp only [decodeMembers, mapFloats, hlength]
    cases keys.find? fun key => 1 < (members.filter fun member => member.1 = key).length with
    | none => exact .ok rfl
    | some key => exact .error _
  | null | bool _ | number _ | string _ | array _ => exact .error _

namespace IgnoresFloats

variable {β : Type} {view : α → β} (hd : IgnoresFloats decode view)
include hd

theorem decodeItems (φ : Binary64 → Binary64) (items : List Json) :
    EndAlike (fun xs ys => ys.map view = xs.map view) (decodeItems decode items)
      (Json.decodeItems decode (items.map (mapFloats φ))) := by
  induction items with
  | nil => exact .ok rfl
  | cons item items ih =>
    refine (hd φ item).bind fun a b hab => ih.bind fun xs ys hxs => .ok ?_
    rw [List.map_cons, List.map_cons, hab, hxs]

theorem decodeList : IgnoresFloats (decodeList decode) (List.map view) := by
  intro φ value
  cases value with
  | array items =>
    rw [mapFloats_array]
    exact hd.decodeItems φ items
  | null | bool _ | number _ | string _ | object _ => exact .error _

theorem decodeOption : IgnoresFloats (decodeOption decode) (Option.map view) := by
  intro φ value
  cases value with
  | null => exact .ok rfl
  | bool _ | number _ | string _ | array _ | object _ =>
    exact (hd φ _).map fun a b hab => congrArg some hab

variable (φ : Binary64 → Binary64) (key : String) (members : List (String × Json))

theorem required : EndAlike (fun a b => view b = view a) (required decode key members)
    (Json.required decode key (mapFloatsMembers φ members)) := by
  unfold Json.required
  rw [get?_mapFloatsMembers]
  cases Entries.get? key members with
  | none => exact .error _
  | some value => exact hd φ value

theorem withDefault (default : α) : EndAlike (fun a b => view b = view a)
    (withDefault default decode key members)
    (Json.withDefault default decode key (mapFloatsMembers φ members)) := by
  unfold Json.withDefault
  rw [get?_mapFloatsMembers]
  cases Entries.get? key members with
  | none => exact .ok rfl
  | some value => exact hd φ value

end IgnoresFloats

end Findings.Json
