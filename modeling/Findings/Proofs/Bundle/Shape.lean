import Findings.Proofs.Bundle.Shift

/-!
# What a derived hash tells apart

The bytes that are digested for a finding stand for its shape: the checker, where its path ends, and
the kinds and distances of its steps. The length of a text comes before it and a number has eight
bytes, so each part can be told from what follows it. But nothing in the bytes tells whether the
last step has a location, so what is digested for the end of one path may be read as two steps of
another.

* `Basis.bytes_eq_bytes_shape`: the bytes of a finding are those of its shape.
* `Shape.bytes_eq_iff`: shapes with the same bytes are the same or `Confused`.
* `tellsApart_iff`: so the bytes tell two findings apart iff these are not confused. They are not if
  both paths end in a location or neither does, or if both begin with an event or a control step.
-/

namespace Findings.Identity

/-! ## Shapes -/

/-- What an identity hash is derived from. -/
structure Basis where
  path : List Step
  source : String
  checker : String

/-- Where a path ends: the source line there without the blanks around it, the column, and what is
said of it. -/
structure Ending where
  line : String
  col : UInt32
  message : String
  deriving DecidableEq

/-- What an identity hash is meant to stand for. -/
structure Shape where
  checker : String
  /-- Where the path ends, if its last step has a location. -/
  ending : Option Ending
  /-- The kind of each step, and how many lines it is below the last one. -/
  steps : List (String × Int)
  deriving DecidableEq

/-- The line of the last step, or zero if it has no location. -/
def lastLine (path : List Step) : Nat :=
  ((anchor? path).map Location.line).elim 0 UInt32.toNat

/-- The bytes that are digested. -/
def Basis.bytes (basis : Basis) : List UInt8 :=
  (fields basis.path basis.source basis.checker).flatMap Field.bytes

/-- The shape of a finding. A step without a location counts as one on the last line. -/
def Basis.shape (basis : Basis) : Shape where
  checker := basis.checker
  ending := (anchor? basis.path).map fun location => {
    line := trimmedLine basis.source location.line.toNat
    col := location.col
    message := (basis.path.getLast?.bind Step.message).getD "" }
  steps := basis.path.map fun step => (step.kind.name, offset (lastLine basis.path) step)

namespace Shape

/-- The bytes of a step: those of its kind, and those of a number. -/
def stepBytes (step : String × Int) : List UInt8 :=
  (Field.ofString step.1).bytes ++ (Field.int step.2).bytes

/-- The bytes of the end of a path. -/
def endingBytes (ending : Ending) : List UInt8 :=
  (Field.ofString ending.line).bytes ++ (Field.int ending.col.toNat).bytes ++
    (Field.ofString ending.message).bytes

/-- The bytes of a shape. Nothing in them tells whether there is an end. -/
def bytes (shape : Shape) : List UInt8 :=
  (Field.ofString shape.checker).bytes ++ shape.ending.elim [] endingBytes ++
    shape.steps.flatMap stepBytes

/-- The end of a path is read as two steps: its line and column as the first, its message and the
length of the next kind as the second. What is left of the path reads as further steps. -/
inductive Confused : Shape → Shape → Prop
  | intro (checker : String) (ending : Ending) (kind : String) (offset : Int)
      (rest more : List (String × Int))
      (h : kind.toUTF8.toList ++ (Field.int offset).bytes ++ rest.flatMap stepBytes =
        more.flatMap stepBytes) :
      Confused ⟨checker, some ending, (kind, offset) :: rest⟩
        ⟨checker, none,
          (ending.line, ending.col.toNat) :: (ending.message, kind.utf8ByteSize) :: more⟩

/-- Whether all distances are signed words. -/
def InRange (steps : List (String × Int)) : Prop :=
  ∀ step ∈ steps, -2 ^ 63 ≤ step.2 ∧ step.2 < 2 ^ 63

variable {first second : Shape} {steps steps' : List (String × Int)}

@[simp] theorem length_stepBytes (step : String × Int) :
    (stepBytes step).length = 16 + step.1.utf8ByteSize := by
  rw [stepBytes, List.length_append, Field.length_bytes_ofString, Field.length_bytes_int]
  omega

theorem inRange_col (col : UInt32) : -2 ^ 63 ≤ (col.toNat : Int) ∧ (col.toNat : Int) < 2 ^ 63 := by
  have hcol := col.toNat_lt
  omega

/-- A size is digested like the length of a text. -/
theorem bytes_int_natCast {n : Nat} (h : (n : Int) < 2 ^ 63) :
    (Field.int n).bytes = Field.wordBytes n := by
  rw [Field.bytes, Int.emod_eq_of_lt (by omega) (by omega), Int.toNat_natCast]

/-- A step can be told from what follows it. -/
theorem stepBytes_append_inj {step step' : String × Int} {rest rest' : List UInt8}
    (hr : -2 ^ 63 ≤ step.2 ∧ step.2 < 2 ^ 63) (hr' : -2 ^ 63 ≤ step'.2 ∧ step'.2 < 2 ^ 63)
    (hlen : (stepBytes step ++ rest).length < 2 ^ 63)
    (h : stepBytes step ++ rest = stepBytes step' ++ rest') : step = step' ∧ rest = rest' := by
  rw [stepBytes, List.append_assoc] at h hlen
  rw [stepBytes, List.append_assoc] at h
  obtain ⟨hkind, hnumber⟩ := Field.bytes_ofString_append_inj (by omega) h
  obtain ⟨hoffset, hrest⟩ := Field.bytes_int_append_inj hr hr' hnumber
  exact ⟨Prod.ext hkind hoffset, hrest⟩

theorem flatMap_stepBytes_eq_nil : steps.flatMap stepBytes = [] ↔ steps = [] := by
  refine ⟨fun h => List.eq_nil_iff_forall_not_mem.2 fun step hstep => ?_, fun h => by rw [h]; rfl⟩
  have hsize := congrArg List.length (List.flatMap_eq_nil_iff.1 h step hstep)
  rw [length_stepBytes, List.length_nil] at hsize
  omega

/-- Steps can be told from their bytes. -/
theorem flatMap_stepBytes_inj (hr : InRange steps) (hr' : InRange steps')
    (hlen : (steps.flatMap stepBytes).length < 2 ^ 63)
    (h : steps.flatMap stepBytes = steps'.flatMap stepBytes) : steps = steps' := by
  induction steps generalizing steps' with
  | nil => exact (flatMap_stepBytes_eq_nil.1 h.symm).symm
  | cons step rest ih =>
    cases steps' with
    | nil => exact flatMap_stepBytes_eq_nil.1 h
    | cons step' rest' =>
      obtain ⟨hstep, hrest⟩ := List.forall_mem_cons.1 hr
      obtain ⟨hstep', hrest'⟩ := List.forall_mem_cons.1 hr'
      rw [List.flatMap_cons] at h hlen
      rw [List.flatMap_cons] at h
      obtain ⟨rfl, hbytes⟩ := stepBytes_append_inj hstep hstep' hlen h
      rw [List.length_append] at hlen
      rw [ih hrest hrest' (by omega) hbytes]

/-- A text at the start of the bytes of steps is the kind of the first one. -/
theorem exists_cons_of_text {text : String} {rest : List UInt8}
    (hlen : ((Field.ofString text).bytes ++ rest).length < 2 ^ 63)
    (h : (Field.ofString text).bytes ++ rest = steps.flatMap stepBytes) :
    ∃ number more, steps = (text, number) :: more ∧
      rest = (Field.int number).bytes ++ more.flatMap stepBytes := by
  cases steps with
  | nil =>
    have hsize := congrArg List.length h
    rw [List.length_append, Field.length_bytes_ofString, List.flatMap_nil, List.length_nil] at hsize
    omega
  | cons step more =>
    obtain ⟨kind, number⟩ := step
    rw [List.flatMap_cons, stepBytes, List.append_assoc] at h
    obtain ⟨rfl, hrest⟩ := Field.bytes_ofString_append_inj (by omega) h
    exact ⟨number, more, rfl, hrest⟩

/-- The end of a path can be told from what follows it, if something of this form does. -/
theorem endingBytes_append_inj {ending ending' : Ending} {rest rest' : List UInt8}
    (hlen : (endingBytes ending ++ rest).length < 2 ^ 63)
    (h : endingBytes ending ++ rest = endingBytes ending' ++ rest') :
    ending = ending' ∧ rest = rest' := by
  obtain ⟨line, col, message⟩ := ending
  obtain ⟨line', col', message'⟩ := ending'
  simp only [endingBytes, List.append_assoc] at h hlen
  obtain ⟨rfl, hnumber⟩ := Field.bytes_ofString_append_inj (by omega) h
  obtain ⟨hcol, htext⟩ :=
    Field.bytes_int_append_inj (inRange_col col) (inRange_col col') hnumber
  rw [List.length_append, List.length_append] at hlen
  obtain ⟨rfl, hrest⟩ := Field.bytes_ofString_append_inj (by omega) htext
  obtain rfl : col = col' := UInt32.toNat_inj.1 (by omega)
  exact ⟨rfl, hrest⟩

/-- The end of a path that has the bytes of steps is read as two of them. -/
theorem exists_of_endingBytes_eq {ending : Ending} (hr' : InRange steps')
    (hlen : (endingBytes ending ++ steps.flatMap stepBytes).length < 2 ^ 63)
    (h : endingBytes ending ++ steps.flatMap stepBytes = steps'.flatMap stepBytes) :
    ∃ kind offset rest more, steps = (kind, offset) :: rest ∧
      steps' = (ending.line, ↑ending.col.toNat) :: (ending.message, ↑kind.utf8ByteSize) :: more ∧
      kind.toUTF8.toList ++ (Field.int offset).bytes ++ rest.flatMap stepBytes =
        more.flatMap stepBytes := by
  simp only [endingBytes, List.append_assoc] at h hlen
  obtain ⟨col, later, rfl, hcol⟩ := exists_cons_of_text hlen h
  obtain ⟨hcolRange, hlater⟩ := List.forall_mem_cons.1 hr'
  obtain ⟨rfl, htext⟩ := Field.bytes_int_append_inj (inRange_col ending.col) hcolRange hcol
  rw [List.length_append, List.length_append] at hlen
  obtain ⟨size, more, rfl, hsize⟩ := exists_cons_of_text (by omega) htext
  obtain ⟨hsizeRange, -⟩ := List.forall_mem_cons.1 hlater
  cases steps with
  | nil =>
    have hnone := congrArg List.length hsize
    rw [List.length_append, Field.length_bytes_int, List.flatMap_nil, List.length_nil] at hnone
    omega
  | cons step rest =>
    obtain ⟨kind, offset⟩ := step
    simp only [List.flatMap_cons, List.length_append, length_stepBytes] at hlen
    have hword := bytes_int_natCast (n := kind.utf8ByteSize) (by omega)
    rw [List.flatMap_cons, stepBytes, Field.bytes_ofString, ← hword] at hsize
    simp only [List.append_assoc] at hsize
    obtain ⟨rfl, hrest⟩ := Field.bytes_int_append_inj (by omega) hsizeRange hsize
    exact ⟨kind, offset, rest, more, rfl, rfl, by rw [List.append_assoc, hrest]⟩

theorem Confused.endings (h : first.Confused second) :
    first.ending.isSome = true ∧ second.ending.isSome = false := by
  obtain ⟨⟩ := h
  exact ⟨rfl, rfl⟩

/-- Shapes that are confused have the same bytes. -/
theorem Confused.bytes_eq (h : first.Confused second) (hr : InRange second.steps) :
    first.bytes = second.bytes := by
  obtain ⟨checker, ending, kind, offset, rest, more, hmore⟩ := h
  have hsize := hr (ending.message, kind.utf8ByteSize) (by simp)
  have hword := bytes_int_natCast hsize.2
  simp only [bytes, Option.elim_some, Option.elim_none, List.flatMap_cons, ← hmore, stepBytes,
    endingBytes, Field.bytes_ofString kind, hword, List.append_assoc, List.nil_append]

/-- Two shapes have the same bytes iff they are the same, or the end of one is read as steps of the
other. -/
theorem bytes_eq_iff (hr : InRange first.steps) (hr' : InRange second.steps)
    (hlen : first.bytes.length < 2 ^ 63) :
    first.bytes = second.bytes ↔
      first = second ∨ first.Confused second ∨ second.Confused first := by
  constructor
  · intro h
    obtain ⟨checker, ending, steps⟩ := first
    obtain ⟨checker', ending', steps'⟩ := second
    dsimp only at hr hr'
    have hlen' := h ▸ hlen
    simp only [bytes, List.append_assoc] at h hlen hlen'
    obtain ⟨rfl, htail⟩ := Field.bytes_ofString_append_inj (by omega) h
    rw [List.length_append] at hlen hlen'
    cases ending with
    | none =>
      cases ending' with
      | none =>
        rw [Option.elim_none, List.nil_append] at htail hlen
        rw [List.nil_append] at htail
        obtain rfl := flatMap_stepBytes_inj hr hr' (by omega) htail
        exact .inl rfl
      | some ending' =>
        have htail : endingBytes ending' ++ steps'.flatMap stepBytes = steps.flatMap stepBytes :=
          htail.symm
        obtain ⟨kind, offset, rest, more, rfl, rfl, hmore⟩ :=
          exists_of_endingBytes_eq hr (by rw [Option.elim_some] at hlen'; omega) htail
        exact .inr (.inr ⟨checker, ending', kind, offset, rest, more, hmore⟩)
    | some ending =>
      rw [Option.elim_some] at htail hlen
      cases ending' with
      | none =>
        obtain ⟨kind, offset, rest, more, rfl, rfl, hmore⟩ :=
          exists_of_endingBytes_eq hr' (by omega) htail
        exact .inr (.inl ⟨checker, ending, kind, offset, rest, more, hmore⟩)
      | some ending' =>
        obtain ⟨rfl, hsteps⟩ := endingBytes_append_inj (by omega) htail
        rw [List.length_append] at hlen
        obtain rfl := flatMap_stepBytes_inj hr hr' (by omega) hsteps
        exact .inl rfl
  · rintro (rfl | h | h)
    · rfl
    · exact h.bytes_eq hr'
    · exact (h.bytes_eq hr).symm

/-- Shapes of less than 4 GiB are confused only if the first kind has a zero for its fifth byte, or
less than five bytes. -/
theorem Confused.exists_kind (h : first.Confused second) (hlen : first.bytes.length < 2 ^ 32) :
    ∃ kind offset rest, first.steps = (kind, offset) :: rest ∧
      ∀ b ∈ kind.toUTF8.toList[4]?, b = 0 := by
  obtain ⟨checker, ending, kind, offset, rest, more, hmore⟩ := h
  refine ⟨kind, offset, rest, rfl, fun b hb => ?_⟩
  have hsize := congrArg List.length hmore
  simp only [List.length_append, Field.length_toList_toUTF8, Field.length_bytes_int] at hsize
  simp only [bytes, Option.elim_some, List.flatMap_cons, List.length_append, length_stepBytes,
    Field.length_bytes_ofString] at hlen
  cases more with
  | nil =>
    rw [List.flatMap_nil, List.length_nil] at hsize
    omega
  | cons step more =>
    rw [List.flatMap_cons, List.length_append, length_stepBytes] at hsize
    have hword : (Field.wordBytes step.1.utf8ByteSize)[4]? = some 0 := by
      have hzero : step.1.utf8ByteSize / 256 ^ 4 = 0 := Nat.div_eq_of_lt (by omega)
      simp [Field.wordBytes, hzero]
    have hfifth := congrArg (·[4]?) hmore
    rw [List.flatMap_cons, stepBytes, Field.bytes_ofString] at hfifth
    simp only [List.append_assoc] at hfifth
    have hlt : 4 < (Field.wordBytes step.1.utf8ByteSize).length := by
      rw [Field.length_wordBytes]
      decide
    rw [List.getElem?_append_left (List.getElem?_eq_some_iff.1 hb).1,
      List.getElem?_append_left hlt, hword] at hfifth
    exact Option.some.inj (hb.symm.trans hfifth)

end Shape

namespace Basis

open Shape (InRange stepBytes)

variable {first second : Basis}

/-- What is digested for a finding is its shape. -/
theorem bytes_eq_bytes_shape (basis : Basis) : basis.bytes = basis.shape.bytes := by
  obtain ⟨path, source, checker⟩ := basis
  have hsteps (lastLine : Int) : (path.flatMap (stepFields lastLine)).flatMap Field.bytes =
      (path.map fun step => (step.kind.name, offset lastLine step)).flatMap stepBytes := by
    rw [List.flatMap_assoc, List.flatMap_map]
    exact List.flatMap_congr fun step _ => bytes_stepFields lastLine step
  cases ha : anchor? path with
  | none =>
    rw [bytes, fields_of_anchor?_eq_none ha, List.flatMap_cons, hsteps]
    simp [shape, Shape.bytes, lastLine, ha]
  | some location =>
    obtain ⟨last, hlast, hl⟩ := Option.bind_eq_some_iff.1 ha
    rw [bytes, fields_of_getLast? hlast hl, List.flatMap_cons, List.flatMap_append, hsteps]
    simp [shape, Shape.bytes, Shape.endingBytes, lastLine, ha, hlast]

theorem lastLine_lt (path : List Step) : lastLine path < 2 ^ 32 := by
  rw [lastLine]
  cases (anchor? path).map Location.line with
  | none => decide
  | some line => exact line.toNat_lt

/-- Lines are words of 32 bits, so distances between them are signed words of 64 bits. -/
theorem inRange_shape (basis : Basis) : InRange basis.shape.steps := by
  intro _ hstep
  obtain ⟨step, -, rfl⟩ := List.mem_map.1 hstep
  have hlast := lastLine_lt basis.path
  dsimp only [offset]
  cases step.location with
  | none =>
    dsimp only
    decide
  | some location =>
    have hlt := location.line.toNat_lt
    dsimp only
    omega

theorem bytes_eq_iff_of_shape (hlen : first.bytes.length < 2 ^ 63) :
    first.bytes = second.bytes ↔ first.shape = second.shape ∨
      first.shape.Confused second.shape ∨ second.shape.Confused first.shape := by
  rw [bytes_eq_bytes_shape, bytes_eq_bytes_shape] at *
  exact Shape.bytes_eq_iff first.inRange_shape second.inRange_shape hlen

theorem pathShape_of_bytes_eq (h : first.bytes = second.bytes) :
    pathShape first.path first.source first.checker =
      pathShape second.path second.source second.checker := by
  rw [bytes, bytes] at h
  rw [pathShape, pathShape, Digest.ofFields, Digest.ofFields, h]

/-- Whether the bytes of two findings are the same exactly if their shapes are. -/
def TellsApart (first second : Basis) : Prop :=
  first.bytes = second.bytes ↔ first.shape = second.shape

/-- What a step contributes by itself: its kind, and its line if it has a location. -/
def outline (step : Step) : StepKind × Option UInt32 :=
  (step.kind, step.location.map Location.line)

/-- Whether the first step, if there is one, is of a kind that analyzers write. -/
def StartsPlain (basis : Basis) : Prop :=
  ∀ step ∈ basis.path.head?, step.kind = .event ∨ step.kind = .control

/-- Whether two findings differ at most in the ranges, the edges, the files and the other members of
their steps, and in the columns and messages of all steps but the last. -/
structure Alike (first second : Basis) : Prop where
  steps : second.path.map outline = first.path.map outline
  col : (anchor? second.path).map Location.col = (anchor? first.path).map Location.col
  message : second.path.getLast?.bind Step.message = first.path.getLast?.bind Step.message
  source : second.source = first.source
  checker : second.checker = first.checker

theorem anchor?_map_line (path : List Step) :
    (anchor? path).map Location.line = (path.map outline).getLast?.bind Prod.snd := by
  rw [anchor?, List.getLast?_map]
  cases path.getLast? <;> rfl

theorem lastLine_congr {path path' : List Step} (h : path'.map outline = path.map outline) :
    lastLine path' = lastLine path := by
  rw [lastLine, lastLine, anchor?_map_line, anchor?_map_line, h]

theorem map_offset_congr {path path' : List Step} (h : path'.map outline = path.map outline)
    (line : Int) :
    (path'.map fun step => (step.kind.name, offset line step)) =
      path.map fun step => (step.kind.name, offset line step) := by
  have hstep : (fun step : Step => (step.kind.name, offset line step)) =
      (fun o : StepKind × Option UInt32 => (o.1.name, o.2.elim 0 (·.toNat - line))) ∘ outline := by
    funext step
    cases hl : step.location <;> simp [outline, offset, hl]
  rw [hstep, ← List.map_map, h, List.map_map]

/-- The shape is made of nothing else. -/
theorem Alike.shape_eq (h : first.Alike second) : second.shape = first.shape := by
  have hline : (anchor? second.path).map Location.line =
      (anchor? first.path).map Location.line := by
    rw [anchor?_map_line, anchor?_map_line, h.steps]
  have hcol := h.col
  unfold shape
  rw [lastLine_congr h.steps, map_offset_congr h.steps, h.source, h.checker, h.message]
  cases ha : anchor? first.path with
  | none =>
    rw [ha, Option.map_none, Option.map_eq_none_iff] at hline
    rw [hline]
  | some location =>
    rw [ha] at hline hcol
    obtain ⟨location', ha', hline⟩ := Option.map_eq_some_iff.1 hline
    rw [ha', Option.map_some, Option.map_some, Option.some.injEq] at hcol
    rw [ha', Option.map_some, Option.map_some, hline, hcol]

/-- Findings that are confused have the same bytes and different shapes. -/
theorem not_tellsApart_of_confused (h : first.shape.Confused second.shape) :
    ¬ TellsApart first second := by
  intro ht
  have hbytes := h.bytes_eq second.inRange_shape
  rw [← bytes_eq_bytes_shape, ← bytes_eq_bytes_shape] at hbytes
  obtain ⟨hsome, hnone⟩ := h.endings
  rw [ht.1 hbytes, hnone] at hsome
  cases hsome

theorem TellsApart.symm (h : TellsApart first second) : TellsApart second first :=
  eq_comm.trans (h.trans eq_comm)

/-- Findings below 4 GiB whose paths begin with an event or a control step are not confused. -/
theorem not_confused_of_startsPlain (h : first.StartsPlain) (hlen : first.bytes.length < 2 ^ 32) :
    ¬ first.shape.Confused second.shape := by
  intro hc
  rw [bytes_eq_bytes_shape] at hlen
  obtain ⟨kind, offset, rest, hsteps, hzero⟩ := hc.exists_kind hlen
  obtain ⟨step, path, hpath, hstep, -⟩ := List.map_eq_cons_iff.1 hsteps
  obtain rfl : step.kind.name = kind := congrArg Prod.fst hstep
  obtain hkind | hkind := h step (by rw [hpath]; rfl)
  · rw [hkind] at hzero
    exact absurd (hzero 't'.toUInt8 (by decide +kernel)) (by decide)
  · rw [hkind] at hzero
    exact absurd (hzero 'r'.toUInt8 (by decide +kernel)) (by decide)

/-- The bytes of two findings, which have to fit in memory, tell them apart iff they are not
confused. They are not if both paths end in a location or neither does, and not below 4 GiB if both
begin with an event or a control step. What is not in the shape makes no difference. -/
theorem tellsApart_iff (hlen : first.bytes.length < 2 ^ 63) :
    (TellsApart first second ↔
      ¬ (first.shape.Confused second.shape ∨ second.shape.Confused first.shape)) ∧
    (first.shape.ending.isSome = second.shape.ending.isSome → TellsApart first second) ∧
    (first.bytes.length < 2 ^ 32 → first.StartsPlain → second.StartsPlain →
      TellsApart first second) ∧
    (first.Alike second → first.bytes = second.bytes) := by
  have hiff : TellsApart first second ↔
      ¬ (first.shape.Confused second.shape ∨ second.shape.Confused first.shape) := by
    constructor
    · rintro ht (hc | hc)
      · exact not_tellsApart_of_confused hc ht
      · exact not_tellsApart_of_confused hc ht.symm
    · intro hc
      rw [TellsApart, bytes_eq_iff_of_shape hlen, or_iff_left hc]
  refine ⟨hiff, fun he => hiff.2 ?_, fun hsize hfirst hsecond => hiff.2 ?_, fun ha => ?_⟩
  · rintro (hc | hc)
    · rw [hc.endings.1, hc.endings.2] at he
      cases he
    · rw [hc.endings.1, hc.endings.2] at he
      cases he
  · rintro (hc | hc)
    · exact not_confused_of_startsPlain hfirst hsize hc
    · have hbytes := hc.bytes_eq first.inRange_shape
      rw [← bytes_eq_bytes_shape, ← bytes_eq_bytes_shape] at hbytes
      rw [← hbytes] at hsize
      exact not_confused_of_startsPlain hsecond hsize hc
  · rw [bytes_eq_bytes_shape, bytes_eq_bytes_shape, ha.shape_eq]

/-- An event that is followed by a control step without a location. -/
def endingInControl : Basis where
  path := [
    { kind := .event, location := some ⟨1, 5, 0, []⟩, message := some "y is set here" },
    { kind := .control }]
  source := "int y = 0;\n"
  checker := "c"

/-- The same event as the last step. -/
def endingInEvent : Basis where
  path := [{ kind := .event, location := some ⟨1, 5, 0, []⟩, message := some "y is set here" }]
  source := "int y = 0;\n"
  checker := "c"

theorem tellsApart_endingInEvent :
    endingInEvent.bytes.length < 2 ^ 63 ∧ TellsApart endingInEvent endingInControl ∧
      endingInEvent.shape ≠ endingInControl.shape := by
  have hlen : endingInEvent.bytes.length < 2 ^ 32 := by decide +kernel
  have hevent : endingInEvent.StartsPlain := by
    rintro _ ⟨⟩
    exact .inl rfl
  have hcontrol : endingInControl.StartsPlain := by
    rintro _ ⟨⟩
    exact .inl rfl
  have hsize : endingInEvent.bytes.length < 2 ^ 63 := Nat.lt_trans hlen (by decide)
  obtain ⟨-, -, hplain, -⟩ := @tellsApart_iff endingInEvent endingInControl hsize
  exact ⟨hsize, hplain hlen hevent hcontrol, by decide +kernel⟩

/-- A step of a kind that is made of eight zero characters. -/
def zeroKind : Basis where
  path := [{
    kind := .other (.ofList (List.replicate 8 '\x00'))
    location := some ⟨1, 5, 0, []⟩
    message := some "m" }]
  source := "x\n"
  checker := "c"

/-- Three steps whose kinds are the source line and the message of that step, and nothing. -/
def readAsSteps : Basis where
  path := [
    { kind := .other "x", location := some ⟨5, 1, 0, []⟩ },
    { kind := .other "m", location := some ⟨8, 1, 0, []⟩ },
    { kind := .other "" }]
  source := "x\n"
  checker := "c"

/-- They are confused, so their hashes are the same. -/
theorem not_tellsApart_zeroKind :
    zeroKind.bytes = readAsSteps.bytes ∧ zeroKind.shape ≠ readAsSteps.shape ∧
      ¬ TellsApart zeroKind readAsSteps ∧
      pathShape zeroKind.path zeroKind.source zeroKind.checker =
        pathShape readAsSteps.path readAsSteps.source readAsSteps.checker := by
  have hbytes : zeroKind.bytes = readAsSteps.bytes := by decide +kernel
  have hshape : zeroKind.shape ≠ readAsSteps.shape := by decide +kernel
  exact ⟨hbytes, hshape, fun ht => hshape (ht.1 hbytes), pathShape_of_bytes_eq hbytes⟩

end Basis

end Findings.Identity
