import Findings.Json.Printer
import Findings.Json.Reader
import Findings.Proofs.Json.Number
import Findings.Proofs.Json.Tree

/-!
# Reading back what was written

Both layouts of a value are one printer with different blanks (`Layout.print`). What it writes is
read as that value, if the value is not nested too deep, except that a floating point number may be
read as another one (`reread`). Numbers that are read back stay.

* `readString_quote`: strings, whatever follows the closing quote.
* `readValue_print`: values in any layout, whatever follows that continues no number.
* `parse_pretty_reread`: the whole text of a value.
* `parse_pretty`, `parse_compact`: the same for values whose numbers are read back.
-/

namespace Findings.Json

/-! ## Numbers -/

/-- What the text of a floating point number is read as. -/
def rereadFloat (x : Binary64) : Binary64 :=
  match Number.read (Number.text (.float x)) with
  | .ok (.float y, _) => y
  | _ => x

/-- What the text of a value is read as. -/
def reread (value : Json) : Json :=
  value.mapFloats rereadFloat

/-- The text of the number is read as a number of the same kind. -/
def Rereads (n : Number) : Prop :=
  Number.read n.text = .ok (mapFloat rereadFloat n, [])

theorem rereads_float {x y : Binary64}
    (h : Number.read (Number.text (.float x)) = .ok (.float y, [])) : Rereads (.float x) := by
  rw [Rereads, mapFloat, rereadFloat, h]

theorem rereadFloat_of_text {x y : Binary64} {text : List Char}
    (ht : Number.text (.float x) = text)
    (hr : (Number.read text).toOption = some (.float y, [])) : rereadFloat x = y := by
  rw [rereadFloat, ht]
  revert hr
  cases Number.read text with
  | error e => rintro ⟨⟩
  | ok found =>
    rintro ⟨⟩
    rfl

theorem mapFloat_rereadFloat {n : Number} (h : n.ReadsBack) : mapFloat rereadFloat n = n := by
  cases n with
  | int n => rfl
  | float x =>
    have hx : Number.read (Number.text (.float x)) = .ok (.float x, []) := h
    rw [mapFloat, rereadFloat, hx]

/-- A number that is read back is read as itself. -/
theorem rereads_of_readsBack {n : Number} (h : n.ReadsBack) : Rereads n := by
  rw [Rereads, mapFloat_rereadFloat h]
  exact h

theorem reread_eq_self {value : Json} (h : ∀ n ∈ value.numbers, n.ReadsBack) :
    value.reread = value :=
  mapFloats_eq_self fun x hx => by
    have hfloat := mapFloat_rereadFloat (h _ hx)
    exact Number.float.inj hfloat

/-! ## Strings -/

theorem hexNumber?_pair {n : Nat} (h : n < 0x20) :
    Text.hexNumber? ['0', '0', hexDigit (n / 16), hexDigit (n % 16)] = some n := by
  have hall : ∀ i : Fin 0x20,
      Text.hexNumber? ['0', '0', hexDigit (i.val / 16), hexDigit (i.val % 16)] = some i.val := by
    decide
  exact hall ⟨n, h⟩

/-- A backslash and a letter stand for one character. -/
theorem readString_letter {c letter : Char} (h : unescape? letter = some c) (hu : letter ≠ 'u')
    (rest : List Char) :
    readString ('\\' :: letter :: rest) = (readString rest).map fun p => (c :: p.1, p.2) := by
  cases hr : readString rest <;> simp [readString, h, hu, hr, bind, Except.bind, Except.map]

theorem readString_control {c : Char} (h : c.toNat < 0x20) (rest : List Char) :
    readString ('\\' :: 'u' :: '0' :: '0' :: hexDigit (c.toNat / 16) :: hexDigit (c.toNat % 16)
      :: rest) = (readString rest).map fun p => (c :: p.1, p.2) := by
  have hl : isLowSurrogate c.toNat = false := by
    simp only [isLowSurrogate, Bool.and_eq_false_iff, decide_eq_false_iff_not]
    omega
  have hh : isHighSurrogate c.toNat = false := by
    simp only [isHighSurrogate, Bool.and_eq_false_iff, decide_eq_false_iff_not]
    omega
  cases hr : readString rest <;>
    simp [readString, hexNumber?_pair h, hl, hh, hr, bind, Except.bind, Except.map]

/-- A character that needs no escape stands for itself. -/
theorem readString_plain {c : Char} (hq : c ≠ '"') (hb : c ≠ '\\') (hc : ¬ c.toNat < 0x20)
    (rest : List Char) :
    readString (c :: rest) = (readString rest).map fun p => (c :: p.1, p.2) := by
  rw [readString.eq_def]
  split
  · simp_all
  · simp_all
  · simp_all
  · simp_all
  · rename_i he
    simp only [List.cons.injEq] at he
    obtain ⟨rfl, rfl⟩ := he
    simp only [hc, hb, decide_false, Bool.or_self, Bool.false_eq_true, if_false]
    cases readString rest <;> rfl

theorem readString_escape (c : Char) (rest : List Char) :
    readString (escape c ++ rest) = (readString rest).map fun p => (c :: p.1, p.2) := by
  unfold escape
  split
  · exact readString_letter rfl (by decide) rest
  · exact readString_letter rfl (by decide) rest
  · exact readString_letter rfl (by decide) rest
  · exact readString_letter rfl (by decide) rest
  · exact readString_letter rfl (by decide) rest
  · exact readString_letter rfl (by decide) rest
  · exact readString_letter rfl (by decide) rest
  · rename_i hq hb _ _ _ _ _
    split
    · rename_i hc
      exact readString_control hc rest
    · rename_i hc
      exact readString_plain hq hb hc rest

theorem readString_quote (s : String) (rest : List Char) :
    readString (s.toList.flatMap escape ++ '"' :: rest) = .ok (s.toList, rest) := by
  induction s.toList with
  | nil => simp [readString]
  | cons c cs ih =>
    rw [List.flatMap_cons, List.append_assoc, readString_escape, ih]
    rfl

/-! ## Layouts -/

/-- The blanks that a printer puts between tokens. -/
structure Layout where
  /-- What stands before an item and before a closing bracket at a level. -/
  gap : Nat → List Char
  /-- What stands after a colon. -/
  afterColon : List Char
  isSpace_gap : ∀ level, (gap level).all isSpace = true
  isSpace_afterColon : afterColon.all isSpace = true

namespace Layout

def compact : Layout where
  gap _ := []
  afterColon := []
  isSpace_gap _ := rfl
  isSpace_afterColon := rfl

theorem isSpace_newLine (level : Nat) : (newLine level).all isSpace = true := by
  simp [newLine, isSpace]

def pretty : Layout where
  gap := newLine
  afterColon := [' ']
  isSpace_gap := isSpace_newLine
  isSpace_afterColon := by decide

@[simp] theorem gap_compact (level : Nat) : compact.gap level = [] := rfl

@[simp] theorem afterColon_compact : compact.afterColon = [] := rfl

@[simp] theorem gap_pretty (level : Nat) : pretty.gap level = newLine level := rfl

@[simp] theorem afterColon_pretty : pretty.afterColon = [' '] := rfl

mutual

/-- The text of a value at a level of nesting. -/
def print (layout : Layout) (level : Nat) : Json → List Char
  | .null => ['n', 'u', 'l', 'l']
  | .bool true => ['t', 'r', 'u', 'e']
  | .bool false => ['f', 'a', 'l', 's', 'e']
  | .number n => n.text
  | .string s => quote s
  | .array [] => ['[', ']']
  | .array (item :: items) =>
    '[' :: layout.gap (level + 1) ++ print layout (level + 1) item
      ++ printItems layout (level + 1) items ++ layout.gap level ++ [']']
  | .object [] => ['\x7b', '\x7d']
  | .object ((key, value) :: members) =>
    '\x7b' :: layout.gap (level + 1) ++ quote key ++ ':' :: layout.afterColon
      ++ print layout (level + 1) value ++ printMembers layout (level + 1) members
      ++ layout.gap level ++ ['\x7d']

/-- The items after the first, each with what stands before it. -/
def printItems (layout : Layout) (level : Nat) : List Json → List Char
  | [] => []
  | item :: items =>
    ',' :: layout.gap level ++ print layout level item ++ printItems layout level items

/-- The members after the first, each with what stands before it. -/
def printMembers (layout : Layout) (level : Nat) : List (String × Json) → List Char
  | [] => []
  | (key, value) :: members =>
    ',' :: layout.gap level ++ quote key ++ ':' :: layout.afterColon ++ print layout level value
      ++ printMembers layout level members

end

theorem printItems_pretty {items : List Json}
    (h : ∀ item ∈ items, ∀ level, pretty.print level item = prettyChars level item) (level : Nat) :
    pretty.printItems level items = prettyItems level items := by
  induction items with
  | nil => simp [printItems, prettyItems]
  | cons item items ih =>
    rw [List.forall_mem_cons] at h
    simp [printItems, prettyItems, h.1, ih h.2]

theorem printMembers_pretty {members : List (String × Json)}
    (h : ∀ member ∈ members, ∀ level, pretty.print level member.2 = prettyChars level member.2)
    (level : Nat) : pretty.printMembers level members = prettyMembers level members := by
  induction members with
  | nil => simp [printMembers, prettyMembers]
  | cons member members ih =>
    rw [List.forall_mem_cons] at h
    simp [printMembers, prettyMembers, h.1, ih h.2]

theorem print_pretty (value : Json) (level : Nat) :
    pretty.print level value = prettyChars level value := by
  induction value using Json.induction generalizing level with
  | null => rfl
  | bool b => cases b <;> simp [print, prettyChars]
  | number n => simp [print, prettyChars]
  | string s => simp [print, prettyChars]
  | array items ih =>
    cases items with
    | nil => simp [print, prettyChars]
    | cons item items =>
      rw [List.forall_mem_cons] at ih
      simp [print, prettyChars, ih.1, printItems_pretty ih.2]
  | object members ih =>
    cases members with
    | nil => simp [print, prettyChars]
    | cons member members =>
      rw [List.forall_mem_cons] at ih
      simp [print, prettyChars, ih.1, printMembers_pretty ih.2]

theorem printItems_compact {items : List Json}
    (h : ∀ item ∈ items, ∀ level, compact.print level item = compactChars item) (level : Nat) :
    compact.printItems level items = compactItems items := by
  induction items with
  | nil => simp [printItems, compactItems]
  | cons item items ih =>
    rw [List.forall_mem_cons] at h
    simp [printItems, compactItems, h.1, ih h.2]

theorem printMembers_compact {members : List (String × Json)}
    (h : ∀ member ∈ members, ∀ level, compact.print level member.2 = compactChars member.2)
    (level : Nat) : compact.printMembers level members = compactMembers members := by
  induction members with
  | nil => simp [printMembers, compactMembers]
  | cons member members ih =>
    rw [List.forall_mem_cons] at h
    simp [printMembers, compactMembers, h.1, ih h.2]

theorem print_compact (value : Json) (level : Nat) :
    compact.print level value = compactChars value := by
  induction value using Json.induction generalizing level with
  | null => rfl
  | bool b => cases b <;> simp [print, compactChars]
  | number n => simp [print, compactChars]
  | string s => simp [print, compactChars]
  | array items ih =>
    cases items with
    | nil => simp [print, compactChars]
    | cons item items =>
      rw [List.forall_mem_cons] at ih
      simp [print, compactChars, ih.1, printItems_compact ih.2]
  | object members ih =>
    cases members with
    | nil => simp [print, compactChars]
    | cons member members =>
      rw [List.forall_mem_cons] at ih
      simp [print, compactChars, ih.1, printMembers_compact ih.2]

end Layout

/-! ## Values -/

theorem skipSpace_append {blanks : List Char} (h : blanks.all isSpace = true) (cs : List Char) :
    skipSpace (blanks ++ cs) = skipSpace cs := by
  induction blanks with
  | nil => rfl
  | cons b blanks ih =>
    simp only [List.all_cons, Bool.and_eq_true] at h
    simpa [skipSpace, h.1] using ih h.2

theorem skipSpace_cons {c : Char} (h : isSpace c = false) (cs : List Char) :
    skipSpace (c :: cs) = c :: cs := by
  simp [skipSpace, h]

theorem readValue_blanks {blanks : List Char} (h : blanks.all isSpace = true)
    (depth bound : Nat) (cs : List Char) :
    readValue depth bound (blanks ++ cs) = readValue depth bound cs := by
  cases bound with
  | zero => simp [readValue]
  | succ bound => simp only [readValue, skipSpace_append h]

theorem stops_append {blanks : List Char} (h : blanks.all isSpace = true) {c : Char}
    (hc : c = ',' ∨ c = ']' ∨ c = '\x7d') (rest : List Char) :
    Number.Stops (blanks ++ c :: rest) := by
  cases blanks with
  | nil => rcases hc with rfl | rfl | rfl <;> exact Number.stops_cons (by decide) rest
  | cons b blanks =>
    simp only [List.all_cons, Bool.and_eq_true, isSpace, Bool.or_eq_true, decide_eq_true_eq] at h
    rcases h.1 with ((rfl | rfl) | rfl) | rfl <;> exact Number.stops_cons (by decide) _

/-- How the text of a number starts. -/
def StartsNumber (c : Char) : Prop :=
  c = '-' ∨ (Number.digit? c).isSome

instance (c : Char) : Decidable (StartsNumber c) :=
  inferInstanceAs (Decidable (_ ∨ _))

theorem startsNumber_of_read {cs rest : List Char} {n : Number}
    (h : Number.read cs = .ok (n, rest)) : ∃ c tail, cs = c :: tail ∧ StartsNumber c := by
  unfold Number.read at h
  split at h
  · exact ⟨_, _, rfl, .inl rfl⟩
  · cases cs with
    | nil => simp [Number.readUnsigned, Number.takeDigits] at h
    | cons c cs =>
      refine ⟨c, cs, rfl, .inr ?_⟩
      cases hd : Number.digit? c with
      | none => simp [Number.readUnsigned, Number.takeDigits, hd] at h
      | some d => rfl

theorem StartsNumber.ne {c d : Char} (h : StartsNumber c) (hd : ¬ StartsNumber d) : c ≠ d := by
  rintro rfl
  exact hd h

theorem StartsNumber.not_isSpace {c : Char} (h : StartsNumber c) : isSpace c = false := by
  have hs : c ≠ ' ' ∧ c ≠ '\n' ∧ c ≠ '\t' ∧ c ≠ '\r' :=
    ⟨h.ne (by decide), h.ne (by decide), h.ne (by decide), h.ne (by decide)⟩
  simp [isSpace, hs]

theorem readValue_number {c : Char} (h : StartsNumber c) (depth bound : Nat) (cs : List Char) :
    readValue depth (bound + 1) (c :: cs) =
      (Number.read (c :: cs)).map fun p => (.number p.1, p.2) := by
  simp only [readValue, skipSpace_cons h.not_isSpace]
  split
  · exact absurd (by simp_all) (h.ne (d := 'n') (by decide))
  · exact absurd (by simp_all) (h.ne (d := 't') (by decide))
  · exact absurd (by simp_all) (h.ne (d := 'f') (by decide))
  · exact absurd (by simp_all) (h.ne (d := '"') (by decide))
  · exact absurd (by simp_all) (h.ne (d := '[') (by decide))
  · exact absurd (by simp_all) (h.ne (d := '\x7b') (by decide))
  · cases Number.read (c :: cs) <;> rfl

namespace Layout

variable (layout : Layout)

/-- The text of a value starts with a mark that is neither a blank nor a closing bracket. -/
theorem print_head {value : Json} (h : ∀ n ∈ value.numbers, Rereads n) (level : Nat) :
    ∃ c tail, layout.print level value = c :: tail ∧ isSpace c = false ∧ c ≠ ']' := by
  cases value with
  | null => exact ⟨_, _, by rw [print], by decide, by decide⟩
  | bool b => cases b <;> exact ⟨_, _, by rw [print], by decide, by decide⟩
  | number n =>
    obtain ⟨c, tail, ht, hc⟩ := startsNumber_of_read (h n (by simp [numbers]))
    exact ⟨c, tail, by rw [print, ht], hc.not_isSpace, hc.ne (by decide)⟩
  | string s => exact ⟨_, _, by rw [print]; rfl, by decide, by decide⟩
  | array items =>
    cases items with
    | nil => exact ⟨_, _, by rw [print], by decide, by decide⟩
    | cons item items => exact ⟨_, _, by rw [print]; rfl, by decide, by decide⟩
  | object members =>
    cases members with
    | nil => exact ⟨_, _, by rw [print], by decide, by decide⟩
    | cons member members => exact ⟨_, _, by rw [print]; rfl, by decide, by decide⟩

/-- The value is read from its text, whatever follows, with enough calls and depth left. -/
def Reads (value : Json) : Prop :=
  ∀ level depth bound rest, value.depth ≤ depth → 2 * (layout.print level value).length ≤ bound →
    Number.Stops rest →
      readValue depth bound (layout.print level value ++ rest) = .ok (value.reread, rest)

variable {layout}

theorem readItems_print {item : Json} {items : List Json}
    (h : ∀ i ∈ item :: items, layout.Reads i) (level : Nat) {depth : Nat}
    (hd : ∀ i ∈ item :: items, i.depth ≤ depth) {first last : List Char}
    (hf : first.all isSpace = true) (hl : last.all isSpace = true) (bound : Nat)
    (hb : 2 * (layout.print level item).length + 2 * (layout.printItems level items).length < bound)
    (rest : List Char) :
    readItems depth bound (first ++ (layout.print level item ++ (layout.printItems level items
      ++ (last ++ ']' :: rest)))) = .ok ((item :: items).map reread, rest) := by
  induction items generalizing item first bound with
  | nil =>
    obtain ⟨bound, rfl⟩ : ∃ b, bound = b + 1 := ⟨bound - 1, by omega⟩
    have hv := h item List.mem_cons_self level depth bound (last ++ ']' :: rest)
      (hd item List.mem_cons_self) (by omega) (stops_append hl (by simp) rest)
    simp only [printItems, List.nil_append, readItems, readValue_blanks hf, hv, bind, Except.bind,
      skipSpace_append hl, skipSpace_cons (c := ']') (by decide), List.map_cons, List.map_nil]
  | cons next items ih =>
    obtain ⟨bound, rfl⟩ : ∃ b, bound = b + 1 := ⟨bound - 1, by omega⟩
    have hv := h item List.mem_cons_self level depth bound _ (hd item List.mem_cons_self)
      (by omega) (Number.stops_cons (c := ',') (by decide) (layout.gap level
        ++ (layout.print level next ++ (layout.printItems level items ++ (last ++ ']' :: rest)))))
    simp only [printItems, List.cons_append, List.length_cons, List.length_append] at hb
    have hi := ih (fun i hi => h i (List.mem_cons_of_mem _ hi))
      (fun i hi => hd i (List.mem_cons_of_mem _ hi)) (layout.isSpace_gap level) bound (by omega)
    simp only [printItems, List.cons_append, List.append_assoc, readItems, readValue_blanks hf, hv,
      bind, Except.bind, skipSpace_cons (c := ',') (by decide), hi, List.map_cons]

theorem readMembers_print {member : String × Json} {members : List (String × Json)}
    (h : ∀ m ∈ member :: members, layout.Reads m.2) (level : Nat) {depth : Nat}
    (hd : ∀ m ∈ member :: members, m.2.depth ≤ depth) {first last : List Char}
    (hf : first.all isSpace = true) (hl : last.all isSpace = true) (bound : Nat)
    (hb : 2 * (layout.print level member.2).length
      + 2 * (layout.printMembers level members).length < bound)
    (rest : List Char) :
    readMembers depth bound (first ++ (quote member.1 ++ ':' :: (layout.afterColon
      ++ (layout.print level member.2 ++ (layout.printMembers level members
      ++ (last ++ '\x7d' :: rest)))))) =
        .ok ((member :: members).map fun m => (m.1, m.2.reread), rest) := by
  induction members generalizing member first bound with
  | nil =>
    obtain ⟨bound, rfl⟩ : ∃ b, bound = b + 1 := ⟨bound - 1, by omega⟩
    have hv := h member List.mem_cons_self level depth bound (last ++ '\x7d' :: rest)
      (hd member List.mem_cons_self) (by omega) (stops_append hl (by simp) rest)
    simp only [printMembers, List.nil_append, readMembers, quote, List.cons_append,
      List.append_assoc, skipSpace_append hf, skipSpace_cons (c := '"') (by decide),
      readString_quote, skipSpace_cons (c := ':') (by decide),
      readValue_blanks layout.isSpace_afterColon, hv, bind, Except.bind,
      skipSpace_append hl, skipSpace_cons (c := '\x7d') (by decide), String.ofList_toList,
      List.map_cons, List.map_nil]
  | cons next members ih =>
    obtain ⟨bound, rfl⟩ : ∃ b, bound = b + 1 := ⟨bound - 1, by omega⟩
    have hv := h member List.mem_cons_self level depth bound _ (hd member List.mem_cons_self)
      (by omega) (Number.stops_cons (c := ',') (by decide) (layout.gap level
        ++ (quote next.1 ++ ':' :: (layout.afterColon ++ (layout.print level next.2
        ++ (layout.printMembers level members ++ (last ++ '\x7d' :: rest)))))))
    simp only [printMembers, List.cons_append, List.length_cons, List.length_append] at hb
    have hm := ih (fun m hm => h m (List.mem_cons_of_mem _ hm))
      (fun m hm => hd m (List.mem_cons_of_mem _ hm)) (layout.isSpace_gap level) bound (by omega)
    simp only [quote, List.cons_append, List.append_assoc, List.nil_append] at hv hm
    simp only [printMembers, readMembers, quote, List.cons_append, List.nil_append,
      List.append_assoc, skipSpace_append hf, skipSpace_cons (c := '"') (by decide),
      readString_quote, skipSpace_cons (c := ':') (by decide),
      readValue_blanks layout.isSpace_afterColon, hv, bind, Except.bind,
      skipSpace_cons (c := ',') (by decide), hm, String.ofList_toList, List.map_cons]

/-- A list is read if its items are. -/
theorem readValue_print_array {items : List Json} (hn : ∀ i ∈ items, ∀ n ∈ i.numbers, Rereads n)
    (ih : ∀ i ∈ items, layout.Reads i) : layout.Reads (.array items) := by
  intro level depth bound rest hd hb _
  rw [reread, mapFloats_array]
  obtain ⟨depth, rfl⟩ : ∃ d, depth = d + 1 :=
    ⟨depth - 1, by have := depth_array_pos items; omega⟩
  rw [depth_array_le_iff] at hd
  cases items with
  | nil =>
    obtain ⟨bound, rfl⟩ : ∃ b, bound = b + 1 := ⟨bound - 1, by simp [print] at hb; omega⟩
    simp [print, readValue, skipSpace_cons (c := '[') (by decide),
      skipSpace_cons (c := ']') (by decide)]
  | cons item items =>
    simp only [print, List.cons_append, List.length_cons, List.length_append,
      List.append_assoc, List.nil_append] at hb ⊢
    obtain ⟨bound, rfl⟩ : ∃ b, bound = b + 1 := ⟨bound - 1, by omega⟩
    obtain ⟨c, tail, ht, hc, hne⟩ := layout.print_head (hn item List.mem_cons_self) (level + 1)
    -- No blank is left before the items once the bracket is passed.
    have hi := readItems_print ih (level + 1) hd
      (List.all_nil : [].all isSpace = true) (layout.isSpace_gap level) bound (by omega) rest
    rw [List.nil_append, ht, List.cons_append] at hi
    simp only [readValue, skipSpace_cons (c := '[') (by decide),
      skipSpace_append (layout.isSpace_gap (level + 1)), ht, List.cons_append, skipSpace_cons hc]
    split
    · simp_all
    · rw [hi]
      rfl

/-- An object is read if its values are. -/
theorem readValue_print_object {members : List (String × Json)}
    (ih : ∀ m ∈ members, layout.Reads m.2) : layout.Reads (.object members) := by
  intro level depth bound rest hd hb _
  rw [reread, mapFloats_object]
  obtain ⟨depth, rfl⟩ : ∃ d, depth = d + 1 :=
    ⟨depth - 1, by have := depth_object_pos members; omega⟩
  rw [depth_object_le_iff] at hd
  cases members with
  | nil =>
    obtain ⟨bound, rfl⟩ : ∃ b, bound = b + 1 := ⟨bound - 1, by simp [print] at hb; omega⟩
    simp [print, readValue, skipSpace_cons (c := '\x7b') (by decide),
      skipSpace_cons (c := '\x7d') (by decide)]
  | cons member members =>
    simp only [print, List.cons_append, List.length_cons, List.length_append,
      List.append_assoc, List.nil_append] at hb ⊢
    obtain ⟨bound, rfl⟩ : ∃ b, bound = b + 1 := ⟨bound - 1, by omega⟩
    have hm := readMembers_print ih (level + 1) hd
      (List.all_nil : [].all isSpace = true) (layout.isSpace_gap level) bound (by omega) rest
    simp only [List.nil_append, quote, List.cons_append, List.append_assoc] at hm
    simp only [readValue, skipSpace_cons (c := '\x7b') (by decide),
      skipSpace_append (layout.isSpace_gap (level + 1)), quote, List.cons_append,
      List.append_assoc, List.nil_append, skipSpace_cons (c := '"') (by decide)]
    split
    · simp_all
    · rw [hm]
      rfl

/-- A value is read from its text in any layout. -/
theorem readValue_print {value : Json} (h : ∀ n ∈ value.numbers, Rereads n) :
    layout.Reads value := by
  induction value using Json.induction with
  | null =>
    intro level depth bound rest _ hb _
    obtain ⟨bound, rfl⟩ : ∃ b, bound = b + 1 := ⟨bound - 1, by simp [print] at hb; omega⟩
    simp [print, readValue, skipSpace_cons (c := 'n') (by decide), readLiteral, Text.after?, reread,
      mapFloats]
  | bool b =>
    intro level depth bound rest _ hb _
    obtain ⟨bound, rfl⟩ : ∃ b, bound = b + 1 :=
      ⟨bound - 1, by cases b <;> simp [print] at hb <;> omega⟩
    cases b
    · simp [print, readValue, skipSpace_cons (c := 'f') (by decide), readLiteral, Text.after?,
        reread, mapFloats]
    · simp [print, readValue, skipSpace_cons (c := 't') (by decide), readLiteral, Text.after?,
        reread, mapFloats]
  | number n =>
    intro level depth bound rest _ hb hs
    have hr : Rereads n := h n (by simp [numbers])
    obtain ⟨c, tail, ht, hc⟩ := startsNumber_of_read hr
    obtain ⟨bound, rfl⟩ : ∃ b, bound = b + 1 := ⟨bound - 1, by simp [print, ht] at hb; omega⟩
    have ha := Number.read_append hr hs
    rw [print, ht, List.cons_append, readValue_number hc, ← List.cons_append, ← ht, ha]
    rfl
  | string s =>
    intro level depth bound rest _ hb _
    obtain ⟨bound, rfl⟩ : ∃ b, bound = b + 1 := ⟨bound - 1, by simp [print, quote] at hb; omega⟩
    simp [print, quote, readValue, skipSpace_cons (c := '"') (by decide), readString_quote,
      bind, Except.bind, reread, mapFloats]
  | array items ih =>
    have hn : ∀ i ∈ items, ∀ n ∈ i.numbers, Rereads n :=
      fun i hi n hm => h n (mem_numbers_array.2 ⟨i, hi, hm⟩)
    exact readValue_print_array hn fun i hi => ih i hi (hn i hi)
  | object members ih =>
    exact readValue_print_object fun m hm =>
      ih m hm fun n hmem => h n (mem_numbers_object.2 ⟨m, hm, hmem⟩)

end Layout

/-! ## Whole texts -/

theorem parseChars_print (layout : Layout) {value : Json}
    (h : Within Rereads maxDepth value) :
    parseChars (layout.print 0 value) = .ok value.reread := by
  have hv : layout.Reads value := Layout.readValue_print h.numbers
  have hr := hv 0 maxDepth (callBound (layout.print 0 value).length) [] h.depth_le
    (by simp only [callBound]; omega) Number.stops_nil
  rw [List.append_nil] at hr
  simp [parseChars, hr, bind, Except.bind, skipSpace]

/-- A value is read from its text, but for its floating point numbers. -/
theorem parse_pretty_reread {value : Json} (h : Within Rereads maxDepth value) :
    parse value.pretty = .ok value.reread := by
  rw [parse, pretty, String.toList_ofList, ← Layout.print_pretty, parseChars_print _ h]

theorem within_rereads {value : Json} (h : Within Number.ReadsBack maxDepth value) :
    Within Rereads maxDepth value :=
  h.imp fun _ _ hn => rereads_of_readsBack hn

/-- A value is read from its text if it is not nested too deep and its numbers are read back. -/
theorem parse_pretty {value : Json} (h : Within Number.ReadsBack maxDepth value) :
    parse value.pretty = .ok value := by
  rw [parse_pretty_reread (within_rereads h), reread_eq_self h.numbers]

/-- A value without fractions is read from its text. -/
theorem parse_pretty_of_numbers_eq {value : Json} (ns : List Nat) (hd : value.depth ≤ maxDepth)
    (hn : value.numbers = ns.map fun n => .int n) (hr : ∀ n ∈ ns, n < 2 ^ 64) :
    parse value.pretty = .ok value := by
  refine parse_pretty ⟨hd, fun number hm => ?_⟩
  rw [hn] at hm
  obtain ⟨n, hmem, rfl⟩ := List.mem_map.1 hm
  have hlt := hr n hmem
  exact Number.readsBack_int ⟨by omega, by omega⟩

theorem parse_compact {value : Json} (h : Within Number.ReadsBack maxDepth value) :
    parse value.compact = .ok value := by
  rw [parse, compact, String.toList_ofList, ← Layout.print_compact _ 0,
    parseChars_print _ (within_rereads h), reread_eq_self h.numbers]

end Findings.Json
