import Findings.Proofs.Json.Decode

/-!
# Records that are written and read again

A record is written as its own members, in the order of its keys, and its extra members after them.
Here is what this form keeps of the object that the record was read from.

* `KeepsOthers`: the members with other keys are kept, with their last values, in the order in which
  their keys came first.
* `Faithful`: what is decoded is written such that it is decoded again, is nested no deeper than
  what it was decoded from or the room that its defaults take, and keeps what that had.
* `keepsOthers_written`, `no_repeats_written`, `extras_written`: a written record is an object that
  the record may be read from, and keeps the extra members.
-/

namespace Findings.Json

variable {α : Type} {decode : Json → Decoded α} {encode : α → Json} {key : String} {value : Json}
  {keys : List String} {members known written : List (String × Json)} {P : Number → Prop}
  {depth : Nat}

/-! ## What is kept -/

/-- The keys of an object, in order, repeated ones included. -/
def memberKeys : Json → List String
  | .object members => Entries.keys members
  | _ => []

/-- The value that an object has for a key last. -/
def last? (key : String) : Json → Option Json
  | .object members => Entries.get? key members.reverse
  | _ => none

/-- The parts of a value: the items of a list, none of `null`, and else the value itself. -/
def parts : Json → List Json
  | .null => []
  | .array items => items
  | part => [part]

/-- The parts of the value of a key; none if there is no such key. -/
def partsAt (key : String) (value : Json) : List Json :=
  ((value.get? key).map parts).getD []

/-- Every member of `raw` whose key is not one of `keys` is in `encoded`: with its last value, and
in the order in which the keys came first. -/
structure KeepsOthers (keys : List String) (raw encoded : Json) : Prop where
  order : (encoded.memberKeys.filter fun key => !keys.contains key) =
    (raw.memberKeys.filter fun key => !keys.contains key).eraseDups
  values : ∀ key ∉ keys, encoded.get? key = (raw.last? key).map collapse

/-- The parts of two values correspond in order. -/
def PartsKept (Keeps : Json → Json → Prop) (raw encoded : Json) : Prop :=
  List.Forall₂ Keeps raw.parts encoded.parts

/-- The parts at a key of two objects correspond in order. -/
def KeepsAt (Keeps : Json → Json → Prop) (key : String) (raw encoded : Json) : Prop :=
  List.Forall₂ Keeps (raw.partsAt key) (encoded.partsAt key)

/-! ## Written records -/

theorem not_mem_keys_extras (h : key ∈ keys) (members : List (String × Json)) :
    key ∉ Entries.keys (extras keys members) := by
  rw [extras_eq, Entries.keys]
  intro hm
  obtain ⟨member, hmem, rfl⟩ := List.mem_map.1 hm
  have hout := (List.mem_filter.1 hmem).2
  simp_all

/-- The extra members hold no key of the record itself. -/
theorem get?_extras (h : key ∈ keys) : Entries.get? key (extras keys members) = none := by
  have hn := mt Entries.get?_isSome_iff.1 (not_mem_keys_extras h members)
  simpa using hn

theorem get?_written (h : key ∈ keys) :
    Entries.get? key (known ++ extras keys members) = Entries.get? key known := by
  rw [Entries.get?_append, get?_extras h, Option.or_none]

section Own

variable (hk : (Entries.keys known).Sublist keys)
include hk

theorem extras_written : extras keys (known ++ extras keys members) = extras keys members := by
  have hown : known.filter (fun member => !keys.contains member.1) = [] := by
    refine List.filter_eq_nil_iff.2 fun member hm => ?_
    simpa using hk.subset (List.mem_map_of_mem (f := Prod.fst) hm)
  have hx : (extras keys members).filter (fun member => !keys.contains member.1) =
      extras keys members := by
    rw [extras_eq, List.filter_filter]
    simp
  rw [extras, List.filter_append, hown, hx, List.nil_append]
  exact collapsed_collapsed _

/-- No key of the record is repeated in what is written, if none is among its own members. -/
theorem no_repeats_written (hn : keys.Nodup) :
    ∀ k ∈ keys,
      ((known ++ extras keys members).filter fun member => member.1 = k).length ≤ 1 := by
  intro k hkm
  have hout : (extras keys members).filter (fun member => member.1 = k) = [] := by
    refine List.filter_eq_nil_iff.2 fun member hm => ?_
    have hne := not_mem_keys_extras hkm members
    simpa using fun he : member.1 = k => hne (he ▸ List.mem_map_of_mem (f := Prod.fst) hm)
  rw [List.filter_append, hout, List.append_nil, Entries.length_filter_key]
  exact List.nodup_iff_count.1 (hk.nodup hn) k

theorem keepsOthers_written :
    KeepsOthers keys (.object members) (.object (known ++ extras keys members)) where
  order := by
    have hown : (Entries.keys known).filter (fun key => !keys.contains key) = [] := by
      refine List.filter_eq_nil_iff.2 fun key hm => ?_
      simpa using hk.subset hm
    have hextra : (Entries.keys (extras keys members)).filter (fun key => !keys.contains key) =
        Entries.keys (extras keys members) := by
      refine List.filter_eq_self.2 fun key hm => ?_
      have := mt (not_mem_keys_extras · members) (not_not.2 hm)
      simpa using this
    rw [memberKeys, memberKeys, Entries.keys, List.map_append, List.filter_append,
      ← Entries.keys, ← Entries.keys, hown, hextra, List.nil_append, extras, Entries.keys_ofList,
      collapseMembers_eq_map]
    simp [Entries.keys, List.filter_map, Function.comp_def]
  values key hkey := by
    have hown : Entries.get? key known = none := by
      have := mt Entries.get?_isSome_iff.1 (mt (fun hm => hk.subset hm) hkey)
      simpa using this
    have hextra : Entries.get? key (extras keys members) =
        Entries.get? key (collapsed members) := by
      rw [extras_eq]
      refine Entries.get?_eq_of_filter ?_
      rw [List.filter_filter]
      refine List.filter_congr fun member _ => ?_
      by_cases he : member.1 = key <;> simp [he, hkey]
    rw [get?, Entries.get?_append, hown, Option.none_or, hextra, collapsed, Entries.get?_ofList,
      collapseMembers_eq_map, ← List.map_reverse, Entries.get?_map, last?]

end Own

theorem within_written (h : Within P (depth + 1) (.object members))
    (hk : ∀ member ∈ known, Within P depth member.2) :
    Within P (depth + 1) (.object (known ++ extras keys members)) := by
  rw [within_object_iff]
  intro member hm
  rcases List.mem_append.1 hm with hm | hm
  · exact hk member hm
  · rw [extras_eq] at hm
    have hc := h.collapse
    rw [collapse_object_eq, within_object_iff] at hc
    exact hc member (List.mem_of_mem_filter hm)

/-! ## Values -/

/-- What is decoded from a value is written such that it is decoded again; what is written is within
bounds that the value is within, if these have room for it; and it keeps what the value had. -/
structure Faithful (decode : Json → Decoded α) (encode : α → Json) (room : Nat)
    (Keeps : Json → Json → Prop) : Prop where
  ne_null : ∀ a, encode a ≠ .null
  decode_encode : ∀ {value a}, decode value = .ok a → decode (encode a) = .ok a
  within : ∀ {P : Number → Prop} {depth value a}, (∀ n : UInt64, P (.int n.toNat)) →
    room ≤ depth → decode value = .ok a → Within P depth value → Within P depth (encode a)
  keeps : ∀ {value a}, decode value = .ok a → Keeps value (encode a)

variable {room : Nat} {Keeps : Json → Json → Prop}

theorem faithful_string : Faithful decodeString .string 0 fun _ _ => True where
  ne_null _ := nofun
  decode_encode _ := rfl
  within _ _ _ _ := within_leaf rfl rfl
  keeps _ := trivial

theorem toUInt64?_ofNat (n : UInt64) : (ofNat n.toNat).toUInt64? = some n := by
  have hn := n.toNat_lt
  have hr : (0 : Int) ≤ n.toNat ∧ (n.toNat : Int) < 2 ^ 64 := by omega
  simp only [ofNat, toUInt64?, if_pos hr, Int.toNat_natCast, UInt64.ofNat_toNat]

theorem decodeUInt64_of_eq_some {n : UInt64} (h : value.toUInt64? = some n) :
    decodeUInt64 value = .ok n := by
  rw [decodeUInt64, h]

theorem decodeUInt32_of_eq_some {n : UInt32} (h : value.toUInt64? = some n.toUInt64) :
    decodeUInt32 value = .ok n := by
  have hlt : n.toNat < 2 ^ 32 := n.toNat_lt
  rw [decodeUInt32, h]
  simp only [UInt32.toNat_toUInt64, hlt, if_true, UInt32.toUInt32_toUInt64]

theorem faithful_uint64 : Faithful decodeUInt64 (fun n => ofNat n.toNat) 0 fun _ _ => True where
  ne_null _ := nofun
  decode_encode {_ n} _ := decodeUInt64_of_eq_some (toUInt64?_ofNat n)
  within {_ _ _ n} hP _ _ _ := within_number (hP n)
  keeps _ := trivial

theorem faithful_uint32 : Faithful decodeUInt32 (fun n => ofNat n.toNat) 0 fun _ _ => True where
  ne_null _ := nofun
  decode_encode {_ n} _ := by
    have hn := toUInt64?_ofNat n.toUInt64
    rw [UInt32.toNat_toUInt64] at hn
    exact decodeUInt32_of_eq_some hn
  within {_ _ _ n} hP _ _ _ := by
    have hn := hP n.toUInt64
    rw [UInt32.toNat_toUInt64] at hn
    exact within_number hn
  keeps _ := trivial

namespace Faithful

variable (h : Faithful decode encode room Keeps)
include h

/-- Lists are written item by item. -/
theorem list : Faithful (decodeList decode) (fun xs => .array (xs.map encode)) (room + 1)
    (PartsKept Keeps) where
  ne_null _ := nofun
  decode_encode {value xs} hd := by
    obtain ⟨items, rfl, hi⟩ := decodeList_eq_ok_iff.1 hd
    refine decodeList_eq_ok_iff.2 ⟨_, rfl, List.forall₂_map_left_iff.2 ?_⟩
    refine List.forall₂_same.2 fun x hx => ?_
    obtain ⟨item, _, hdx⟩ := exists_of_mem_decoded hi hx
    exact h.decode_encode hdx
  within {P depth value xs} hP hroom hd hw := by
    obtain ⟨items, rfl, hi⟩ := decodeList_eq_ok_iff.1 hd
    obtain ⟨depth, rfl⟩ : ∃ d, depth = d + 1 := ⟨depth - 1, by omega⟩
    rw [within_array_iff] at hw ⊢
    intro encoded hm
    obtain ⟨x, hx, rfl⟩ := List.mem_map.1 hm
    obtain ⟨item, hitem, hdx⟩ := exists_of_mem_decoded hi hx
    exact h.within hP (by omega) hdx (hw item hitem)
  keeps {value xs} hd := by
    obtain ⟨items, rfl, hi⟩ := decodeList_eq_ok_iff.1 hd
    exact List.forall₂_map_right_iff.2 (hi.imp fun item x => h.keeps)

end Faithful

/-! ## Members -/

/-- What is decoded from the members of an object is decoded again from every object in which `key`
has the value that is written for it; and this value is within bounds that the object is within. -/
structure FaithfulMember (key : String) (decode : List (String × Json) → Decoded α)
    (encode? : α → Option Json) (room : Nat) : Prop where
  decode_written : ∀ {members written a}, decode members = .ok a →
    Entries.get? key written = encode? a → decode written = .ok a
  within : ∀ {P : Number → Prop} {depth members a}, (∀ n : UInt64, P (.int n.toNat)) →
    room ≤ depth → decode members = .ok a → Within P (depth + 1) (.object members) →
      ∀ value ∈ encode? a, Within P depth value

namespace Faithful

variable (h : Faithful decode encode room Keeps)
include h

theorem required : FaithfulMember key (required decode key) (fun a => some (encode a)) room where
  decode_written {members written a} hr hw := by
    obtain ⟨value, _, hd⟩ := required_eq_ok hr
    simp only [Json.required, hw, h.decode_encode hd]
  within {P depth members a} hP hroom hr hm := by
    rintro _ ⟨⟩
    obtain ⟨value, hv, hd⟩ := required_eq_ok hr
    exact h.within hP hroom hd (within_object_iff.1 hm _ (Entries.mem_of_get? hv))

theorem optional : FaithfulMember key (optional decode key) (Option.map encode) room where
  decode_written {members written found} hr hw := by
    rcases optional_eq_ok_iff.1 hr with ⟨rfl, -⟩ | ⟨value, a, -, -, hd, rfl⟩
    · exact optional_eq_ok_iff.2 (.inl ⟨rfl, by simp [hw]⟩)
    · exact optional_eq_ok_iff.2 (.inr ⟨_, a, hw, h.ne_null a, h.decode_encode hd, rfl⟩)
  within {P depth members found} hP hroom hr hm := by
    rcases optional_eq_ok_iff.1 hr with ⟨rfl, -⟩ | ⟨value, a, hv, -, hd, rfl⟩
    · rintro _ ⟨⟩
    · rintro _ ⟨⟩
      exact h.within hP hroom hd (within_object_iff.1 hm _ (Entries.mem_of_get? hv))

/-- A list that is always written. -/
theorem listMember : FaithfulMember key (listMember decode key)
    (fun xs => some (.array (xs.map encode))) (room + 1) where
  decode_written {members written xs} hr hw := by
    refine listMember_eq_ok_iff.2 (.inr ⟨_, hw, List.forall₂_map_left_iff.2 ?_⟩)
    refine List.forall₂_same.2 fun x hx => ?_
    rcases listMember_eq_ok_iff.1 hr with ⟨-, rfl⟩ | ⟨items, -, hi⟩
    · cases hx
    · obtain ⟨item, _, hdx⟩ := exists_of_mem_decoded hi hx
      exact h.decode_encode hdx
  within {P depth members xs} hP hroom hr hm := by
    rintro _ ⟨⟩
    rcases listMember_eq_ok_iff.1 hr with ⟨-, rfl⟩ | ⟨items, hv, hi⟩
    · obtain ⟨depth, rfl⟩ : ∃ d, depth = d + 1 := ⟨depth - 1, by omega⟩
      exact within_array_iff.2 nofun
    · exact h.list.within hP hroom (decodeList_eq_ok_iff.2 ⟨items, rfl, hi⟩)
        (within_object_iff.1 hm _ (Entries.mem_of_get? hv))

/-- A list that is left out if it is empty. -/
theorem nonemptyMember : FaithfulMember key (Json.listMember decode key)
    (fun xs => if xs.isEmpty then none else some (.array (xs.map encode))) (room + 1) where
  decode_written {members written xs} hr hw := by
    cases xs with
    | nil => exact listMember_eq_ok_iff.2 (.inl ⟨hw, rfl⟩)
    | cons x xs => exact h.listMember.decode_written hr hw
  within {P depth members xs} hP hroom hr hm := by
    cases xs with
    | nil => nofun
    | cons x xs => exact h.listMember.within hP hroom hr hm

/-- Whether an empty list is written or left out, the items correspond. -/
theorem keepsAt_list {xs : List α} (hr : Json.listMember decode key members = .ok xs)
    (hw : ((Entries.get? key written).map parts).getD [] = xs.map encode) :
    KeepsAt Keeps key (.object members) (.object written) := by
  simp only [KeepsAt, partsAt, get?, hw, List.forall₂_map_right_iff]
  rcases listMember_eq_ok_iff.1 hr with ⟨hv, rfl⟩ | ⟨items, hv, hi⟩
  · simp [hv]
  · simpa [hv, parts] using hi.imp fun item x => h.keeps

end Faithful

end Findings.Json
