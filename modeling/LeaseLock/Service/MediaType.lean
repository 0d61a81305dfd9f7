/-!
# Media types

Whether the content type of a request announces JSON: the type is `application`, and the subtype is
`json` or has the suffix `+json`. Case does not matter. Parameters may follow and are checked for
their form, a name, an equals sign and a value that may stand between quotes; what they say does not
matter.
-/

namespace LeaseLock.MediaType

/-- Whether the character may stand in a type or subtype, or in the name or plain value of a
parameter. -/
def isToken (c : Char) : Bool :=
  ('0' ≤ c && c ≤ '9') || ('A' ≤ c && c ≤ 'Z') || ('a' ≤ c && c ≤ 'z') ||
    "!#$%&'*+-.^_\x60|~".toList.contains c

/-- Whether the character may stand in a header at all. -/
def isVisible (c : Char) : Bool := c == '\t' || (' ' ≤ c && c ≤ '~')

/-- Where a reader of parameters stands. -/
inductive Place where
  /-- In front of a parameter. -/
  | gap
  /-- In a name. -/
  | name
  /-- Behind an equals sign. -/
  | value
  /-- In a plain value. -/
  | plain
  /-- Behind an opening quote. -/
  | opened
  /-- Between quotes, behind the first character. -/
  | quoted
  /-- Behind a closing quote. -/
  | closed
deriving DecidableEq, Repr

/-- Whether a reader at the given place finds well-formed parameters. The first character between
quotes is taken as it is, even if it is a quote. -/
def parametersFrom : Place → List Char → Bool
  | .gap, [] => true
  | .gap, c :: cs =>
    if c = ' ' then parametersFrom .gap cs else isToken c && parametersFrom .name cs
  | .name, [] => false
  | .name, c :: cs =>
    if c = '=' then parametersFrom .value cs else isToken c && parametersFrom .name cs
  | .value, [] => true
  | .value, c :: cs =>
    if c = '"' then parametersFrom .opened cs else isToken c && parametersFrom .plain cs
  | .plain, [] => true
  | .plain, c :: cs =>
    if c = ';' then parametersFrom .gap cs else isToken c && parametersFrom .plain cs
  | .opened, [] => false
  | .opened, c :: cs => decide (' ' ≤ c) && parametersFrom .quoted cs
  | .quoted, [] => false
  | .quoted, c :: cs =>
    if c = '"' then parametersFrom .closed cs else decide (' ' ≤ c) && parametersFrom .quoted cs
  | .closed, [] => true
  | .closed, c :: cs =>
    if c = ';' then parametersFrom .gap cs else decide (c = ' ') && parametersFrom .closed cs

/-- The letters in lower case. -/
def lower (cs : List Char) : List Char := cs.map Char.toLower

/-- The subtype without its suffix, and the suffix: what follows the last plus sign that does not
stand in front. -/
def splitSuffix (subtype : List Char) : List Char × Option (List Char) :=
  let suffix := (subtype.reverse.takeWhile (· ≠ '+')).reverse
  let front := subtype.take (subtype.length - suffix.length - 1)
  if suffix.length < subtype.length ∧ front ≠ [] then (front, some suffix) else (subtype, none)

/-- Whether the content type announces JSON. -/
def isJson (text : String) : Bool :=
  let cs := text.toList
  let type := cs.takeWhile isToken
  match cs.dropWhile isToken with
  | '/' :: rest =>
    let subtype := rest.takeWhile isToken
    let (name, suffix) := splitSuffix subtype
    let formed :=
      match rest.dropWhile isToken with
      | [] => true
      | ';' :: parameters => subtype ≠ [] && parametersFrom .gap parameters
      | _ => false
    cs.all isVisible && formed && lower type == "application".toList &&
      (lower name == "json".toList || suffix.map lower == some "json".toList)
  | _ => false

end LeaseLock.MediaType
