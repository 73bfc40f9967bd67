import GitInvocation.Text.Lines
/-!
# Paths

A path is text. Its components are what stands between the slashes; empty components say nothing,
and neither does a single dot, except at the front of a relative path.
-/
namespace GitInvocation.Path

def isAbsolute (path : List Char) : Bool := path.head? = some '/'

/-- The components that say something. -/
def named (path : List Char) : List String :=
  ((Text.pieces '/' path).map String.ofList).filter fun c => c ≠ "" ∧ c ≠ "."

def startsHere (path : List Char) : Bool :=
  !isAbsolute path && (Text.pieces '/' path).head? == some ['.']

/-- True of the paths that are written otherwise but have the same components. -/
def same (a b : String) : Bool :=
  isAbsolute a.toList == isAbsolute b.toList && startsHere a.toList == startsHere b.toList &&
    named a.toList == named b.toList

/-- A path as seen from the working directory, in its shortest spelling. -/
def shown (path : String) : String :=
  (if isAbsolute path.toList then "/" else "") ++ "/".intercalate (named path.toList)

/-- Drops the empty steps at the end. -/
def trimSteps (steps : List String) : List String := (steps.reverse.dropWhile (· = "")).reverse

/-- Drops the slashes and single dots at the end of a reversed path, but neither the slash nor the
dot that is all there is. -/
def trimEnd : List Char → List Char
  | '/' :: c :: rest => trimEnd (c :: rest)
  | '.' :: '/' :: c :: rest => trimEnd (c :: rest)
  | ['.', '/'] => ['/']
  | s => s

/-- The path without its last component; `none` when there is no component to take away. -/
def parent? (path : String) : Option String :=
  match trimEnd path.toList.reverse with
  | [] => none
  | ['/'] => none
  | s =>
    match s.dropWhile (· ≠ '/') with
    | [] => some ""
    | front => some (String.ofList (trimEnd front).reverse)

/-- The path with an ending put behind its last name, if its last component is a name. -/
def withEnding? (ending path : String) : Option String :=
  let trimmed := trimEnd path.toList.reverse
  match (named trimmed.reverse).getLast? with
  | none => none
  | some ".." => none
  | some _ => some (String.ofList trimmed.reverse ++ ending)

end GitInvocation.Path
