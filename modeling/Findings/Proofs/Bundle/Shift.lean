import Findings.Bundle.Identity
import Findings.Proofs.Digest
import Findings.Proofs.Text

/-!
# Identity when code moves

Lines that are put above the code of a finding move all its steps down. Its derived hash stays the
same as long as there is a line to count from.

* `fields_shift`: what is digested stays the same if the last step has a location.
* `bytes_fields_shift_iff`: otherwise it does not, unless no step has one.
-/

namespace Findings

variable {k : Nat}

/-- A location `k` lines further down. -/
def Location.shift (k : Nat) (location : Location) : Location :=
  { location with line := location.line + .ofNat k }

/-- A step whose location is `k` lines further down, if it has one. -/
def Step.shift (k : Nat) (step : Step) : Step :=
  { step with location := step.location.map (Location.shift k) }

/-- Whether the line of a step, if it has one, is counted from 1 and still is a line number when it
is `k` further down. -/
def Step.Shiftable (k : Nat) (step : Step) : Prop :=
  ∀ location ∈ step.location, 1 ≤ location.line.toNat ∧ location.line.toNat + k < UInt32.size

namespace Identity

open Text

variable {path : List Step} {step : Step} {location : Location} {above : List (List Char)}

/-- Whether there is a line that distances are counted from, or none to count. -/
def Anchored (path : List Step) : Prop :=
  (anchor? path).isSome ∨ ∀ step ∈ path, step.location = none

/-! ## Shifted lines -/

theorem toNat_line_shift (h : location.line.toNat + k < UInt32.size) :
    (location.shift k).line.toNat = location.line.toNat + k := by
  have hk : k < UInt32.size := by omega
  rw [Location.shift, UInt32.toNat_add, UInt32.toNat_ofNat_of_lt' hk]
  exact Nat.mod_eq_of_lt h

theorem anchor?_map_shift (path : List Step) :
    anchor? (path.map (Step.shift k)) = (anchor? path).map (Location.shift k) := by
  rw [anchor?, anchor?, List.getLast?_map]
  cases path.getLast? <;> rfl

/-- A line is found again below the lines above it. -/
theorem trimmedLine_append (h : ∀ line ∈ above, '\n' ∉ line) (source : String) {line : Nat}
    (hline : 1 ≤ line) :
    trimmedLine (.ofList (terminated above) ++ source) (line + above.length) =
      trimmedLine source line := by
  obtain ⟨i, rfl⟩ := Nat.exists_eq_add_of_le' hline
  have hindex : i + 1 + above.length = (i + above.length) + 1 := by omega
  rw [hindex, trimmedLine, trimmedLine, String.toList_append, String.toList_ofList,
    lines_terminated_append h, List.getElem?_append_right (by simp)]
  simp

/-- Distances do not change when both lines are shifted. -/
theorem stepFields_shift (h : step.Shiftable k) (anchorLine : Int) :
    stepFields (anchorLine + k) (step.shift k) = stepFields anchorLine step := by
  have hoffset : offset (anchorLine + k) (step.shift k) = offset anchorLine step := by
    cases hl : step.location with
    | none => simp [offset, Step.shift, hl]
    | some location =>
      have hline := toNat_line_shift (h location hl).2
      simp only [offset, Step.shift, hl, Option.map_some, hline]
      omega
  rw [stepFields, stepFields, hoffset]
  rfl

/-- All that is digested for a path whose last step has a location. -/
theorem fields_of_getLast? {last : Step} (hlast : path.getLast? = some last)
    (hl : last.location = some location) (source checker : String) :
    fields path source checker =
      .ofString checker ::
        ([.ofString (trimmedLine source location.line.toNat), .int location.col.toNat,
          .ofString (last.message.getD "")] ++
        path.flatMap (stepFields location.line.toNat)) := by
  have hanchor : anchor? path = some location := by rw [anchor?, hlast, Option.bind_some, hl]
  rw [fields, anchorFields, hanchor, hlast]
  rfl

/-- Without a location at the end, distances are counted from line zero. -/
theorem fields_of_anchor?_eq_none (h : anchor? path = none) (source checker : String) :
    fields path source checker = .ofString checker :: path.flatMap (stepFields 0) := by
  rw [fields, anchorFields, h]
  cases path.getLast? <;> rfl

/-- What is digested stays the same if there is a line to count from. -/
theorem fields_shift (habove : ∀ line ∈ above, '\n' ∉ line)
    (hpath : ∀ step ∈ path, step.Shiftable above.length) (hanchor : (anchor? path).isSome)
    (source checker : String) :
    fields (path.map (Step.shift above.length)) (.ofList (terminated above) ++ source) checker =
      fields path source checker := by
  obtain ⟨location, hlocation⟩ := Option.isSome_iff_exists.1 hanchor
  obtain ⟨last, hlast, hl⟩ := Option.bind_eq_some_iff.1 hlocation
  obtain ⟨hpos, hsize⟩ := hpath last (List.mem_of_getLast? hlast) location hl
  have hline := toNat_line_shift hsize
  have hlast' : (path.map (Step.shift above.length)).getLast? = some (last.shift above.length) := by
    rw [List.getLast?_map, hlast]
    rfl
  have hl' : (last.shift above.length).location = some (location.shift above.length) := by
    rw [Step.shift, hl]
    rfl
  have hsteps : (path.map (Step.shift above.length)).flatMap
      (stepFields (location.shift above.length).line.toNat) =
        path.flatMap (stepFields location.line.toNat) := by
    rw [List.flatMap_map, hline]
    refine List.flatMap_congr fun step hstep => ?_
    rw [Int.natCast_add]
    exact stepFields_shift (hpath step hstep) _
  rw [fields_of_getLast? hlast hl, fields_of_getLast? hlast' hl', hsteps, hline,
    trimmedLine_append habove source hpos]
  rfl

/-! ## Paths without a last line -/

theorem map_shift_zero (path : List Step) : path.map (Step.shift 0) = path := by
  have hlocation (location : Location) : location.shift 0 = location := by
    show { location with line := location.line + 0 } = location
    rw [UInt32.add_zero]
  have hstep (step : Step) : step.shift 0 = step := by
    rw [Step.shift, funext hlocation, Option.map_id']
  rw [funext hstep, List.map_id']

/-- A step without a location is the same wherever it is. -/
theorem shift_of_location_eq_none (h : step.location = none) : step.shift k = step := by
  obtain ⟨kind, location, message, ranges, edges, extra⟩ := step
  subst h
  rfl

/-- The bytes of what one step contributes: those of its kind, and those of a number. -/
theorem bytes_stepFields (anchorLine : Int) (step : Step) :
    (stepFields anchorLine step).flatMap Field.bytes =
      (Field.ofString step.kind.name).bytes ++ (Field.int (offset anchorLine step)).bytes := by
  simp [stepFields]

theorem length_bytes_stepFields_shift (anchorLine : Int) (step : Step) :
    ((stepFields anchorLine (step.shift k)).flatMap Field.bytes).length =
      ((stepFields anchorLine step).flatMap Field.bytes).length := by
  simp [bytes_stepFields, Step.shift, Field.bytes]

/-- Counted from line zero, a step with a location contributes other bytes when it is shifted. -/
theorem location_eq_none_of_bytes_eq (h : step.Shiftable k) (hk : k ≠ 0)
    (hbytes : (stepFields 0 (step.shift k)).flatMap Field.bytes =
      (stepFields 0 step).flatMap Field.bytes) : step.location = none := by
  cases hl : step.location with
  | none => rfl
  | some location =>
    obtain ⟨-, hsize⟩ := h location hl
    have hline := toNat_line_shift hsize
    rw [bytes_stepFields, bytes_stepFields] at hbytes
    have hint := Field.bytes_int_eq_iff.1 (List.append_cancel_left hbytes)
    simp only [offset, Step.shift, hl, Option.map_some, hline] at hint
    have hmax : UInt32.size = 4294967296 := rfl
    omega

/-- When lines are put above the code, the bytes that are digested stay the same iff there is a line
to count from or none to count. -/
theorem bytes_fields_shift_iff (habove : ∀ line ∈ above, '\n' ∉ line)
    (hpath : ∀ step ∈ path, step.Shiftable above.length) (source checker : String) :
    (fields (path.map (Step.shift above.length)) (.ofList (terminated above) ++ source)
        checker).flatMap Field.bytes = (fields path source checker).flatMap Field.bytes ↔
      above = [] ∨ Anchored path := by
  constructor
  · intro h
    by_cases hk : above = []
    · exact .inl hk
    by_cases hanchor : (anchor? path).isSome = true
    · exact .inr (.inl hanchor)
    refine .inr (.inr fun step hstep => ?_)
    have hnone : anchor? path = none := Option.not_isSome_iff_eq_none.1 hanchor
    have hnone' : anchor? (path.map (Step.shift above.length)) = none := by
      rw [anchor?_map_shift, hnone]
      rfl
    rw [fields_of_anchor?_eq_none hnone, fields_of_anchor?_eq_none hnone', List.flatMap_cons,
      List.flatMap_cons, List.flatMap_assoc, List.flatMap_assoc, List.flatMap_map] at h
    have hall := eq_of_flatMap_eq (fun step _ => length_bytes_stepFields_shift 0 step)
      (List.append_cancel_left h)
    exact location_eq_none_of_bytes_eq (hpath step hstep) (mt List.length_eq_zero_iff.1 hk)
      (hall step hstep)
  · rintro (rfl | hanchor | hnone)
    · rw [List.length_nil, map_shift_zero]
      simp [terminated]
    · rw [fields_shift habove hpath hanchor]
    · have hmap : path.map (Step.shift above.length) = path :=
        (List.map_congr_left fun step hstep => shift_of_location_eq_none (hnone step hstep)).trans
          (List.map_id' path)
      have hanchor : anchor? path = none :=
        Option.bind_eq_none_iff.2 fun step hlast => hnone step (List.mem_of_getLast? hlast)
      rw [hmap, fields_of_anchor?_eq_none hanchor, fields_of_anchor?_eq_none hanchor]

/-- The bytes that are digested stay the same when lines are put above the code, and so does the
derived hash, iff there is a line to count from or none to count. -/
theorem stable_under_shift_iff (habove : ∀ line ∈ above, '\n' ∉ line)
    (hpath : ∀ step ∈ path, step.Shiftable above.length) (source checker : String) :
    let shifted := path.map (Step.shift above.length)
    let text := .ofList (terminated above) ++ source
    ((fields shifted text checker).flatMap Field.bytes =
        (fields path source checker).flatMap Field.bytes ↔ above = [] ∨ Anchored path) ∧
      (above = [] ∨ Anchored path →
        pathShape shifted text checker = pathShape path source checker) := by
  have hiff := bytes_fields_shift_iff habove hpath source checker
  refine ⟨hiff, fun h => ?_⟩
  rw [pathShape, pathShape, Digest.ofFields, Digest.ofFields, hiff.2 h]

/-- Two lines above a path of two events. -/
theorem stable_under_shift_two_lines :
    let path : List Step := [
      { kind := .event, location := some ⟨1, 5, 0, []⟩, message := some "y is set here" },
      { kind := .event, location := some ⟨2, 9, 0, []⟩, message := some "division by zero" }]
    let source := "int y = 0;\nint x = 1 / y;\n"
    pathShape (path.map (Step.shift 2)) (.ofList (terminated ["// new".toList, []]) ++ source) "c" =
      pathShape path source "c" := by
  intro path source
  have habove : ∀ line ∈ ["// new".toList, []], '\n' ∉ line := by decide
  have hpath : ∀ step ∈ path, step.Shiftable ["// new".toList, []].length := by
    refine List.forall_mem_cons.2 ⟨?_, List.forall_mem_cons.2 ⟨?_, List.forall_mem_nil _⟩⟩
    · rintro _ ⟨⟩
      decide
    · rintro _ ⟨⟩
      decide
  exact (stable_under_shift_iff habove hpath source "c").2 (.inr (.inl rfl))

/-- A step without a location at the end makes the hash depend on the line numbers. -/
theorem not_stable_under_shift :
    let path : List Step := [
      { kind := .event, location := some ⟨1, 5, 0, []⟩, message := some "division by zero" },
      { kind := .control }]
    let source := "int x = 1 / 0;\n"
    let shifted := path.map (Step.shift 1)
    let text := .ofList (terminated [[]]) ++ source
    (fields shifted text "c").flatMap Field.bytes ≠ (fields path source "c").flatMap Field.bytes ∧
      pathShape shifted text "c" ≠ pathShape path source "c" := by
  decide +kernel

end Identity

end Findings
