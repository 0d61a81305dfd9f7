import LeaseLock.Platform.FileTree
import LeaseLock.Store.Databases
import LeaseLock.Text.Percent

/-!
# Locations of databases

A text says where a database lies: the name of a file, or an address that starts with `file:`. An
address may name this host, it has a name with percent escapes, and options behind a question mark
set how the database is used; what follows a number sign is left out. The options count in the order
in which they stand, and an option that asks for more than what the ones in front of it left over is
refused. The layer through which files are reached is looked up last.

A database without a name, or one asked for in memory, is a fresh one, and so is one of the layer
that keeps whole files in memory. Any other is a file, and what becomes of it depends on the file
tree: a new file is created, with the permissions of another one if an option names it, and whatever
else is found there cannot be used. A database that may not be written cannot be used either.

These are the rules of one database engine. With a file tree they make up `Databases`
(`FileTree.databases`), which is one of those that the program can be handed.
-/

namespace LeaseLock

open Text

/-- What a database is opened for. -/
inductive Access where
  /-- To be read. -/
  | read
  /-- To be read and written. -/
  | write
  /-- To be read and written, and created if it does not exist. -/
  | create
  /-- To be kept in memory. -/
  | memory
deriving DecidableEq, Repr

namespace Access

/-- The access that an option names. -/
def ofWord? : String → Option Access
  | "ro" => some read
  | "rw" => some write
  | "rwc" => some create
  | "memory" => some memory
  | _ => none

/-- Whether an option may ask for the second access behind the first: not for more, but a database
in memory may be asked for at any time and then allows everything. -/
def permits : Access → Access → Bool
  | memory, _ | create, _ => true
  | _, memory => true
  | write, a => a != create
  | read, a => a == read

end Access

/-- Why a database could not be opened. -/
inductive LocationFault where
  /-- Its location has a zero byte. -/
  | zeroByte (position : Nat)
  /-- Its address names another host. -/
  | otherHost (name : String)
  /-- There is no such way to share a cache. -/
  | unknownCache (name : String)
  /-- There is no such access. -/
  | unknownAccess (name : String)
  /-- The access is more than what is left. -/
  | accessRefused (name : String)
  /-- There is no such layer. -/
  | unknownLayer (name : String)
  /-- It cannot be opened. -/
  | unopenable (location : String)
  /-- A file that it needs beside its own cannot be opened. -/
  | companionUnopenable
  /-- It cannot be read or written through. -/
  | broken
  /-- There is no room for it. -/
  | full
  /-- It is a file of another kind. -/
  | otherKind
  /-- It must not be written. -/
  | readOnly
deriving DecidableEq, Repr

/-- The text of the fault. -/
def LocationFault.message : LocationFault → String
  | zeroByte position => "nul byte found in provided data at position: " ++ toString position
  | otherHost name => "invalid uri authority: " ++ name
  | unknownCache name => "no such cache mode: " ++ name
  | unknownAccess name => "no such access mode: " ++ name
  | accessRefused name => "access mode not allowed: " ++ name
  | unknownLayer name => "no such vfs: " ++ name
  | unopenable location => "unable to open database file: " ++ location
  | companionUnopenable => "unable to open database file"
  | broken => "disk I/O error"
  | full => "database or disk is full"
  | otherKind => "file is not a database"
  | readOnly => "attempt to write a readonly database"

/-- Where a database lies and how it is used. -/
structure Location where
  /-- Its name, empty for a temporary one. -/
  name : List UInt8
  /-- What it is opened for. -/
  access : Access := .create
  /-- The layer through which its file is reached. -/
  layer : String := "unix"
  /-- Whether its file is said never to change, if anything is said about that. -/
  unchanging : Option Bool := none
  /-- Whether its file is said to need no lock, if anything is said about that. -/
  unlocked : Option Bool := none
  /-- The name of a file whose permissions its own is to have, if one is given. -/
  model : Option String := none
deriving DecidableEq, Repr

namespace Location

/-! ### Reading a location -/

/-- A part of an address without its percent escapes. It ends at an escaped zero byte. -/
def unescape (bytes : List UInt8) : List UInt8 := (Percent.decode bytes).takeWhile (· != 0)

/-- The named options of an address. -/
def options (bytes : List UInt8) : List (String × String) :=
  ((pieces (code '&') bytes).map fun piece ↦
    let (name, value) := cut (code '=') piece
    (ofBytes (unescape name), ofBytes (unescape value))).filter fun (name, _) ↦ name != ""

/-- The least number too large for a signed word of 32 bits, two to the power of 31. -/
def numberBound : Nat := 2147483648

/-- The number at the front of a text that starts with a digit, in decimal, or in hexadecimal behind
`0x`. It is zero if it does not fit a signed word of 32 bits. -/
def leadingNumber (bytes : List UInt8) : Nat :=
  let decimal := valueOfDigits (bytes.takeWhile isDigit)
  let n :=
    match bytes with
    | z :: x :: digits =>
      if z = code '0' ∧ (x = code 'x' ∨ x = code 'X') then
        valueOfHexDigits (digits.takeWhile fun b ↦ (hexValue b).isSome)
      else decimal
    | _ => decimal
  if n < numberBound then n else 0

/-- Whether the value of an option means that it is on: a word for that in any case, or a number
whose last byte is not zero. -/
def isOn (value : String) : Bool :=
  match utf8 value with
  | [] => false
  | b :: bs =>
    if isDigit b then leadingNumber (b :: bs) % 256 != 0
    else ["on", "yes", "true"].contains (value.map Char.toLower)

/-- The location with an option set. What is said about the file itself is settled by the first
option about it. -/
def set (l : Location) : String × String → Except LocationFault Location
  | ("vfs", name) => .ok { l with layer := name }
  | ("cache", name) =>
    if name = "shared" ∨ name = "private" then .ok l else .error (.unknownCache name)
  | ("mode", name) =>
    match Access.ofWord? name with
    | none => .error (.unknownAccess name)
    | some access =>
      if l.access.permits access then .ok { l with access } else .error (.accessRefused name)
  | ("immutable", value) => .ok { l with unchanging := l.unchanging <|> some (isOn value) }
  | ("nolock", value) => .ok { l with unlocked := l.unlocked <|> some (isOn value) }
  | ("modeof", name) => .ok { l with model := l.model <|> some name }
  | _ => .ok l

/-- The bytes of an address behind the host, which must be this one. -/
def behindHost (bytes : List UInt8) : Except LocationFault (List UInt8) :=
  if [code '/', code '/'].isPrefixOf bytes then
    let host := ofBytes ((bytes.drop 2).takeWhile (· != code '/'))
    if host = "" ∨ host = "localhost" then .ok ((bytes.drop 2).dropWhile (· != code '/'))
    else .error (.otherHost host)
  else .ok bytes

/-- The location that an address stands for, read behind its scheme. -/
def ofAddress (bytes : List UInt8) : Except LocationFault Location := do
  let (address, _) := cut (code '#') (← behindHost bytes)
  let (name, query) := cut (code '?') address
  (options query).foldlM set { name := unescape name }

/-- The scheme of an address. -/
def scheme : List UInt8 := utf8 "file:"

/-- The location that a text stands for. -/
def ofText (text : String) : Except LocationFault Location :=
  let bytes := utf8 text
  if 0 ∈ bytes then .error (.zeroByte (bytes.idxOf 0))
  else if scheme.isPrefixOf bytes then ofAddress (bytes.drop scheme.length)
  else .ok { name := bytes }

/-! ### Opening a database -/

/-- The layers that there are. -/
def layers : List String := ["unix", "unix-none", "unix-dotfile", "unix-excl", "memdb"]

/-- Whether the database has no file, neither in a file tree nor in a layer. -/
def isFileless (l : Location) : Bool :=
  l.name.isEmpty || l.name == utf8 ":memory:" || l.access == .memory

/-- Whether the file of the database must not be written. -/
def isReadOnly (l : Location) : Bool := l.access == .read || l.unchanging == some true

/-- How many bytes the name of a file in memory may have. -/
def maxMemoryName : Nat := 1016

/-- How many bytes the last element of a file's name may have to leave room for those of the files
beside it. -/
def maxFileName : Nat := 247

/-- How many bytes the last element of a file's name may have to leave room for that of its lock. -/
def maxLockableName : Nat := 250

/-- Whether the file of the database is locked by another one beside it. -/
def isLockedBeside (l : Location) : Bool := l.layer == "unix-dotfile" && l.unlocked != some true

/-- Why a new database cannot be created in a file that was opened, if that is so. -/
def creationFault? (l : Location) (path : Path) : Option LocationFault :=
  let size := (path.getLast?.map (·.length)).getD 0
  if l.isReadOnly then some .readOnly
  else if l.isLockedBeside ∧ maxLockableName < size then some .broken
  else if maxFileName < size then some .companionUnopenable
  else none

/-- Why a database cannot be opened and written at the end of a path, if that is so. -/
def fileFault? (l : Location) (t : FileTree) (text : String) (path : Path) :
    Option LocationFault :=
  match t.find path with
  | .nowhere | .deadDevice => some (.unopenable text)
  | .vacant => if l.access = .create then l.creationFault? path else some (.unopenable text)
  | .directory => if l.access = .read then some .broken else some (.unopenable text)
  | .foreignFile => some .otherKind
  | .loneFile => if l.isReadOnly then some .readOnly else some .companionUnopenable
  | .device => if l.isReadOnly then some .readOnly else some .broken
  | .fullDevice => if l.isReadOnly then some .readOnly else some .full

/-- Why a database cannot be opened and written in a file of the tree, if that is so. The file whose
permissions it is to have must be there. -/
def treeFault? (l : Location) (t : FileTree) (text : String) : Option LocationFault :=
  match t.resolve l.name with
  | none => some (.unopenable text)
  | some path =>
    if l.model.any fun name ↦ !t.holds (utf8 name) then some .broken
    else l.fileFault? t text path

/-- Why a database cannot be opened at the location and written, if that is so. -/
def fault? (l : Location) (t : FileTree) (text : String) : Option LocationFault :=
  if l.layer ∉ layers then some (.unknownLayer l.layer)
  else if l.isFileless then if l.access = .read then some .readOnly else none
  else if l.layer = "memdb" then
    if maxMemoryName < l.name.length then some (.unopenable text)
    else if l.isReadOnly then some .readOnly
    else none
  else l.treeFault? t text

end Location

/-- The databases that can be used over a file tree. -/
def FileTree.databases (t : FileTree) : Databases where
  fault? text :=
    match Location.ofText text with
    | .error fault => some fault.message
    | .ok l => (l.fault? t text).map LocationFault.message

/-- The databases that can be used over a usual file tree. -/
def Databases.usual : Databases := FileTree.usual.databases

end LeaseLock
