import SemanticStore.Decimal.Digits
import SemanticStore.Fault
import SemanticStore.Text.Alphanumeric

/-!
# Log filters

Which events are logged is said by a list of directives with commas between them. A directive is a
level, or a target, or a span in brackets, perhaps after a target and perhaps with fields in braces;
after a target or a span an equals sign and a level may follow. `LogFilter.isWellFormed` decides
whether a text is such a list, and `LogFilter.start` starts logging with one.
-/

namespace SemanticStore.LogFilter

/-! ### Levels -/

/-- The names of the levels, from nothing to everything. -/
def levelNames : List (List Char) :=
  ["off", "error", "warn", "info", "debug", "trace"].map String.toList

/-- A natural number, perhaps after a plus sign. -/
def number? : List Char → Option Nat
  | '+' :: rest => plain? rest
  | text => plain? text
where
  plain? (text : List Char) : Option Nat :=
    match Decimal.spanDigits text with
    | ([], _) => none
    | (digits, []) => some (Decimal.ofDigits 0 digits)
    | _ => none

/-- A level is named in letters of any case or by its number; nothing stands for all events. -/
def isLevel (text : List Char) : Bool :=
  text = [] || levelNames.contains (text.map Char.toLower) ||
    match number? text with
    | some n => n < levelNames.length
    | none => false

/-! ### Directives -/

/-- Where the scan of a directive stands. -/
inductive Scan where
  /-- before the first character -/
  | start
  /-- in a level or a target -/
  | name
  /-- in the brackets of a span -/
  | span
  /-- in the braces of a span, in a field that is empty so far or not -/
  | field (empty : Bool)
  /-- after the braces -/
  | fields
  /-- after the brackets -/
  | target
  /-- after the equals sign, with what has been read since, newest first -/
  | level (read : List Char)
deriving DecidableEq

/-- A character that a level or a target may start with. -/
def startsName (c : Char) : Bool :=
  c = '-' || c = ':' || c = '_' || Text.isAlphanumeric c

/-- One character further. -/
def step? : Scan → Char → Option Scan
  | .start, c => if c = '[' then some .span else if startsName c then some .name else none
  | .name, c => some (if c = '=' then .level [] else if c = '[' then .span else .name)
  | .span, c => some (if c = ']' then .target else if c = '{' then .field true else .span)
  | .field empty, c =>
      if c = '}' then if empty then none else some .fields else some (.field false)
  | .fields, c => if c = ']' then some .target else none
  | .target, c => if c = '=' then some (.level []) else none
  | .level read, c => some (.level (c :: read))

def scan? (s : Scan) (text : List Char) : Option Scan := text.foldlM step? s

/-- White space may stand around a directive that has no equals sign. -/
def isDirective (part : List Char) : Bool :=
  match scan? .start (Text.trim part) with
  | some .name => true
  | some .target => true
  | some (.level read) => part = Text.trim part && isLevel read.reverse
  | _ => false

/-! ### Filters -/

/-- Every part between commas is empty or a directive. -/
def isWellFormed (text : String) : Bool :=
  (Text.runs (· = ',') text.toList).all isDirective

def default : String := "info"

/-- Starts logging with the filter that is given, or that the environment gives. A process has one
logger, so this fails if one is running already. -/
def start (running : Bool) (given environment : Option String) : Except Fault Unit :=
  if !isWellFormed ((given.orElse fun _ => environment).getD default) then
    .error (.configuration "Invalid log filter: not a list of directives")
  else if running then
    .error (.configuration "Failed to init logging: a logger is running")
  else .ok ()

end SemanticStore.LogFilter
