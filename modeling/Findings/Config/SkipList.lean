import Findings.Bundle.Filter
import Findings.Config.Error
import Findings.Text.Blank

/-!
# Skip lists

An ordered list of rules for paths. A rule is written as a glob pattern after a sign: `+` keeps the
paths it matches, `-` excludes them, and no sign excludes too. The first rule that matches decides,
and a path that none matches is kept.

- `excludes_eq_false_of_forall`: a path that no rule matches is kept.
- `excludes_cons`: the first rule goes before all others.
-/

namespace Findings

structure SkipRule where
  glob : Glob
  /-- Whether the rule keeps the paths it matches. -/
  keeps : Bool
  deriving DecidableEq, Repr

namespace SkipRule

/-- Reads the sign of a rule: whether it keeps, and the text after the sign. -/
def splitSign : List Char → Bool × List Char
  | '+' :: rest => (true, rest)
  | '-' :: rest => (false, rest)
  | cs => (false, cs)

/-- Reads a rule. Blanks around the rule and around its pattern do not count. -/
def parse (pattern : String) : Except ConfigError SkipRule :=
  let rule := Text.trim pattern.toList
  let (keeps, glob) := splitSign rule
  match Glob.ofString? (.ofList (Text.trim glob)) with
  | .ok glob => .ok { glob, keeps }
  | .error e => .error (.invalidPattern (.ofList rule) e)

end SkipRule

structure SkipList where
  rules : List SkipRule := []
  deriving DecidableEq, Repr

namespace SkipList

/-- Reads rules in order, up to the first that is invalid. -/
def parse (patterns : List String) : Except ConfigError SkipList :=
  (patterns.mapM SkipRule.parse).map SkipList.mk

def isEmpty (list : SkipList) : Bool :=
  list.rules.isEmpty

/-- Whether a path is excluded. -/
def excludes (list : SkipList) (path : String) : Bool :=
  match list.rules.find? fun rule => rule.glob.matchesText path with
  | some rule => !rule.keeps
  | none => false

/-- A skip list as a policy for files. -/
def policy (list : SkipList) : SkipPolicy :=
  list.excludes

theorem excludes_eq_false_of_forall {list : SkipList} {path : String}
    (h : ∀ rule ∈ list.rules, rule.glob.matchesText path = false) :
    list.excludes path = false := by
  have hn : list.rules.find? (fun rule => rule.glob.matchesText path) = none :=
    List.find?_eq_none.2 fun rule hr => by simp [h rule hr]
  simp [excludes, hn]

theorem excludes_cons (rule : SkipRule) (rules : List SkipRule) (path : String) :
    excludes ⟨rule :: rules⟩ path =
      if rule.glob.matchesText path then !rule.keeps else excludes ⟨rules⟩ path := by
  by_cases h : rule.glob.matchesText path = true <;> simp [excludes, h]

end SkipList

end Findings
