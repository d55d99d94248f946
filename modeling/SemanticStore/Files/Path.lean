import SemanticStore.Text.Blank

/-!
# Paths

Names separated by slashes. A path that starts with a slash is absolute; repeated slashes and names
of a single dot say nothing. A path keeps its text, which is what is shown.
-/

namespace SemanticStore

structure Path where
  text : String
deriving DecidableEq, Repr

namespace Path

def isAbsolute (p : Path) : Bool := p.text.toList.head? = some '/'

/-- The names of a path, without those of a single dot. -/
def names (p : Path) : List String :=
  ((Text.runs (· = '/') p.text.toList).map String.ofList).filter (· ≠ ".")

/-- The path can only be that of a directory: it ends with a slash or a single dot. -/
def isDirectoryOnly (p : Path) : Bool :=
  match p.text.toList.reverse with
  | '/' :: _ => true
  | ['.'] => true
  | '.' :: '/' :: _ => true
  | _ => false

/-- A path below another; an absolute one stays as it is. -/
def join (base below : Path) : Path :=
  if below.isAbsolute || base.text.isEmpty then below
  else if base.text.toList.getLast? = some '/' then ⟨base.text ++ below.text⟩
  else ⟨base.text ++ "/" ++ below.text⟩

/-- The path without its last name; none if it has no name. -/
def parent? (p : Path) : Option Path :=
  if p.names.isEmpty then none
  else
    let above := "/".intercalate p.names.dropLast
    some ⟨if p.isAbsolute then "/" ++ above else above⟩

end Path

end SemanticStore
