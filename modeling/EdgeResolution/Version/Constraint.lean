/-
# EdgeResolution.Version.Constraint -- what a dependency asks of a version

A constraint may name a strict, a required and a preferred pattern, patterns that
are rejected, and a branch.  Of the first three only the strongest present decides
(`effective`); a rejection always counts; the branch is information only.
-/
import EdgeResolution.Version.Pattern

namespace EdgeResolution.Version

set_option autoImplicit false

structure Constraint where
  require : Option String
  prefer : Option String
  strictly : Option String
  reject : List String
  branch : Option String
  deriving DecidableEq, Repr

namespace Constraint

/-- The constraint that asks nothing. -/
def free : Constraint := ⟨none, none, none, [], none⟩

def requiring (version : String) : Constraint := { free with require := some version }

def preferring (version : String) : Constraint := { free with prefer := some version }

def strictlyAt (version : String) : Constraint := { free with strictly := some version }

def rejecting (c : Constraint) (version : String) : Constraint :=
  { c with reject := c.reject ++ [version] }

def onBranch (c : Constraint) (branch : String) : Constraint := { c with branch := some branch }

/-- The pattern that decides acceptance. -/
def effective (c : Constraint) : Option String :=
  c.strictly.or (c.require.or c.prefer)

def isEmpty (c : Constraint) : Bool :=
  c.effective.isNone && c.reject.isEmpty && c.branch.isNone

def accepts (c : Constraint) (candidate : String) : Bool :=
  !(c.reject.any fun r => (Pattern.read r).accepts candidate) &&
    c.effective.all fun p => (Pattern.read p).accepts candidate

/-- The deciding pattern as it is shown: a required one bare, the others named. -/
def effectiveText (c : Constraint) : Option String :=
  match c.strictly, c.require, c.prefer with
  | some v, _, _ => some ("\x7bstrictly " ++ v ++ "\x7d")
  | none, some v, _ => some v
  | none, none, some v => some ("\x7bprefer " ++ v ++ "\x7d")
  | none, none, none => none

def rejectText (c : Constraint) : Option String :=
  if c.reject.isEmpty then none
  else some ("\x7breject " ++ String.intercalate " | " c.reject ++ "\x7d")

/-- The deciding pattern and the rejections, with a space between when both are there. -/
def text (c : Constraint) : String :=
  String.intercalate " " (c.effectiveText.toList ++ c.rejectText.toList)

end Constraint
end EdgeResolution.Version
