/-!
# Control characters made visible

A text from outside may hold characters that a terminal acts on instead of showing them. `visible`
spells these out by their codes. Line ends, tabs and the other control characters stay.

- `visibleChars_of_forall`: a text without such characters is shown as it is.
- `isTerminalControl_of_mem_visibleChars`: what is shown holds none of them.
-/

namespace Findings.Text

/-- The ASCII characters that a terminal acts on: bell, backspace, form feed, escape, delete. -/
def terminalControls : List Char :=
  ['\x07', '\x08', '\x0c', '\x1b', '\x7f']

/-- Whether a character is one of the control characters above ASCII, U+0080 to U+009F. -/
def isHighControl (c : Char) : Bool :=
  0x80 ≤ c.toNat && c.toNat ≤ 0x9f

/-- Whether a terminal may act on a character instead of showing it. -/
def isTerminalControl (c : Char) : Bool :=
  terminalControls.contains c || isHighControl c

/-- The code of a character below U+0100, as two hexadecimal digits. -/
def codeDigits (c : Char) : List Char :=
  [Nat.digitChar (c.toNat / 16 % 16), Nat.digitChar (c.toNat % 16)]

/-- How a character is shown: `\x1b` for an ASCII control character, with braces around the code
for one above ASCII, and all others as they are. -/
def visibleChar (c : Char) : List Char :=
  if terminalControls.contains c then '\\' :: 'x' :: codeDigits c
  else if isHighControl c then '\\' :: 'u' :: '\x7b' :: codeDigits c ++ ['\x7d']
  else [c]

def visibleChars (cs : List Char) : List Char :=
  cs.flatMap visibleChar

/-- A string with its terminal control characters spelled out. -/
def visible (s : String) : String :=
  .ofList (visibleChars s.toList)

theorem visibleChar_of_not {c : Char} (h : isTerminalControl c = false) : visibleChar c = [c] := by
  rw [isTerminalControl, Bool.or_eq_false_iff] at h
  rw [visibleChar, if_neg (by rw [h.1]; decide), if_neg (by rw [h.2]; decide)]

theorem visibleChars_of_forall {cs : List Char} (h : ∀ c ∈ cs, isTerminalControl c = false) :
    visibleChars cs = cs := by
  induction cs with
  | nil => rfl
  | cons c cs ih =>
    rw [visibleChars, List.flatMap_cons, visibleChar_of_not (h c List.mem_cons_self)]
    exact congrArg (c :: ·) (ih fun d hd => h d (List.mem_cons_of_mem c hd))

theorem isTerminalControl_digitChar {n : Nat} (h : n < 16) :
    isTerminalControl (Nat.digitChar n) = false := by
  have : ∀ i : Fin 16, isTerminalControl (Nat.digitChar i.val) = false := by decide
  exact this ⟨n, h⟩

theorem isTerminalControl_of_mem_codeDigits {c d : Char} (h : c ∈ codeDigits d) :
    isTerminalControl c = false := by
  rw [codeDigits, List.mem_cons, List.mem_singleton] at h
  obtain rfl | rfl := h <;> exact isTerminalControl_digitChar (Nat.mod_lt _ (by decide))

theorem isTerminalControl_of_mem_visibleChar {c d : Char} (h : c ∈ visibleChar d) :
    isTerminalControl c = false := by
  rw [visibleChar] at h
  split at h
  · rw [List.mem_cons, List.mem_cons] at h
    obtain rfl | rfl | h := h
    · decide
    · decide
    · exact isTerminalControl_of_mem_codeDigits h
  · split at h
    · rw [List.mem_append, List.mem_cons, List.mem_cons, List.mem_cons, List.mem_singleton] at h
      obtain (rfl | rfl | rfl | h) | rfl := h
      · decide
      · decide
      · decide
      · exact isTerminalControl_of_mem_codeDigits h
      · decide
    · rename_i hlow hhigh
      rw [List.mem_singleton] at h
      rw [h, isTerminalControl, Bool.or_eq_false_iff]
      exact ⟨Bool.eq_false_iff.2 hlow, Bool.eq_false_iff.2 hhigh⟩

theorem isTerminalControl_of_mem_visibleChars {c : Char} {cs : List Char}
    (h : c ∈ visibleChars cs) : isTerminalControl c = false := by
  obtain ⟨d, -, hd⟩ := List.mem_flatMap.1 h
  exact isTerminalControl_of_mem_visibleChar hd

end Findings.Text
