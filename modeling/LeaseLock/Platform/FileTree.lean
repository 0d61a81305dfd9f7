import LeaseLock.Text.Bytes

/-!
# File trees

A `FileTree` lists what a file system holds. Names of files are followed through it in two ways.

`FileTree.resolve` follows a name as far as a database may have it. Two points lead one element up
from whatever has been reached, whether it exists or not; a link is followed where it stands, and
nothing lies below a file. A name that becomes too long on the way is refused, and so is one that
leads to the root. `FileTree.find` then says what is found there.

`FileTree.holds` follows a name as far as there is something. Every element, two points among them,
leads on from a directory only, and must be there.

`FileTree.usual` holds the directories, links, devices and files that are found on nearly every
system. It is there for the program to run on; nothing is supposed of file trees anywhere else.
-/

namespace LeaseLock

open Text

/-- What is found where the name of a file leads. -/
inductive Place where
  /-- A directory. -/
  | directory
  /-- A device that takes whatever is written and keeps nothing. -/
  | device
  /-- A device that is always full. -/
  | fullDevice
  /-- A device that nobody can open. -/
  | deadDevice
  /-- A file that is no database. -/
  | foreignFile
  /-- A file of no size, in a directory in which no other file can be created. -/
  | loneFile
  /-- Nothing yet, but a file can be created. -/
  | vacant
  /-- Nothing, and no file can be created. -/
  | nowhere
deriving DecidableEq, Repr

/-- The elements that lead somewhere from the root. -/
abbrev Path := List (List UInt8)

/-- The elements between slashes. -/
def Path.ofName (name : String) : Path := pieces (code '/') (utf8 name)

/-- How many bytes the elements of a path take, each with a slash in front. -/
def Path.byteCount (path : Path) : Nat := path.foldr (fun e n ↦ e.length + 1 + n) 0

/-- The name of a path below the root. -/
def Path.name (path : Path) : String := String.intercalate "/" (path.map ofBytes)

/-- What a file system holds, by the names below the root. -/
structure FileTree where
  /-- The directory in which names start that do not start with a slash. It and those above it are
  directories in which files can be created. -/
  workingDirectory : String
  /-- The directories in which files can be created. -/
  directories : List String
  /-- The directories in which no files can be created. -/
  sealedDirectories : List String
  /-- The devices that keep nothing. -/
  devices : List String
  /-- The devices that are always full. -/
  fullDevices : List String
  /-- The devices that nobody can open. -/
  deadDevices : List String
  /-- The files with contents, none of them a database. -/
  files : List String
  /-- The files of no size in sealed directories. -/
  loneFiles : List String
  /-- The links, and where each of them leads without a further link. -/
  links : List (String × String)

namespace FileTree

/-- What is found on nearly every system. -/
def usual : FileTree where
  workingDirectory := "tmp/work"
  directories :=
    ["boot", "dev", "dev/mqueue", "dev/shm", "etc", "etc/apt", "etc/default", "etc/init.d",
      "etc/ssl", "etc/ssl/certs", "home", "media", "mnt", "opt", "root", "run", "run/lock", "srv",
      "tmp", "usr", "usr/bin", "usr/games", "usr/include", "usr/lib", "usr/lib64", "usr/local",
      "usr/local/bin", "usr/local/etc", "usr/local/include", "usr/local/lib", "usr/local/sbin",
      "usr/local/share", "usr/local/src", "usr/sbin", "usr/share", "usr/share/doc", "usr/share/man",
      "usr/src", "var", "var/backups", "var/cache", "var/lib", "var/local", "var/log", "var/mail",
      "var/opt", "var/spool", "var/tmp"]
  sealedDirectories :=
    ["dev/pts", "proc", "proc/1", "proc/1/fd", "proc/1/net", "proc/1/task", "proc/1/task/1",
      "proc/sys", "sys", "sys/block", "sys/bus", "sys/class", "sys/dev", "sys/devices", "sys/fs",
      "sys/kernel", "sys/module"]
  devices := ["dev/null", "dev/zero", "dev/random", "dev/urandom"]
  fullDevices := ["dev/full"]
  deadDevices := ["dev/tty"]
  files :=
    ["etc/bash.bashrc", "etc/debian_version", "etc/fstab", "etc/group", "etc/gshadow",
      "etc/host.conf", "etc/hostname", "etc/hosts", "etc/issue", "etc/issue.net", "etc/ld.so.cache",
      "etc/ld.so.conf", "etc/login.defs", "etc/nsswitch.conf", "etc/passwd", "etc/profile",
      "etc/resolv.conf", "etc/shadow", "etc/shells", "usr/bin/bash", "usr/bin/cat", "usr/bin/dash",
      "usr/bin/env", "usr/bin/ls", "usr/lib/os-release"]
  loneFiles :=
    ["proc/1/cmdline", "proc/1/environ", "proc/1/mounts", "proc/1/stat", "proc/1/status",
      "proc/cpuinfo", "proc/filesystems", "proc/loadavg", "proc/meminfo", "proc/stat",
      "proc/uptime", "proc/version"]
  links :=
    [("bin", "usr/bin"), ("dev/fd", "proc/1/fd"), ("dev/stderr", "proc/1/fd/2"),
      ("dev/stdin", "proc/1/fd/0"), ("dev/stdout", "proc/1/fd/1"), ("etc/mtab", "proc/1/mounts"),
      ("etc/os-release", "usr/lib/os-release"), ("lib", "usr/lib"), ("lib64", "usr/lib64"),
      ("proc/mounts", "proc/1/mounts"), ("proc/net", "proc/1/net"), ("proc/self", "proc/1"),
      ("proc/thread-self", "proc/1/task/1"), ("sbin", "usr/sbin"), ("usr/bin/sh", "usr/bin/dash"),
      ("var/lock", "run/lock"), ("var/run", "run")]

/-- Whether a path leads to a directory in which files can be created. -/
def isOpen (t : FileTree) (path : Path) : Bool :=
  path.isPrefixOf (Path.ofName t.workingDirectory) || t.directories.contains path.name

/-- What is found at the end of a path without links. -/
def find (t : FileTree) (path : Path) : Place :=
  let name := path.name
  if t.isOpen path ∨ name ∈ t.sealedDirectories then .directory
  else if name ∈ t.devices then .device
  else if name ∈ t.fullDevices then .fullDevice
  else if name ∈ t.deadDevices then .deadDevice
  else if name ∈ t.files then .foreignFile
  else if name ∈ t.loneFiles then .loneFile
  else if t.isOpen path.dropLast then .vacant
  else .nowhere

/-- Whether nothing can lie below what is found at the end of a path. -/
def isLeaf (t : FileTree) (path : Path) : Bool :=
  t.find path ∉ [.directory, .vacant, .nowhere]

/-- Where a path leads if a link stands at its end. -/
def follow (t : FileTree) (path : Path) : Path :=
  match t.links.lookup path.name with
  | some target => Path.ofName target
  | none => path

/-- Where the elements of a name start from: the root or the working directory. -/
def origin (t : FileTree) (name : List UInt8) : Path :=
  if name.head? = some (code '/') then [] else Path.ofName t.workingDirectory

/-! ### Following the name of a database -/

/-- How many bytes an element of a name may have. -/
def maxElement : Nat := 255

/-- How many bytes a path may take on the way. -/
def maxByteCount : Nat := 511

/-- How many bytes a path may take at its end, to leave room for the names of the files beside. -/
def maxFinalByteCount : Nat := 504

/-- One element further from a path, if that is not refused. -/
def step (t : FileTree) (path : Path) (e : List UInt8) : Option Path :=
  if e = [] ∨ e = utf8 "." then some path
  else if e = utf8 ".." then some path.dropLast
  else
    let next := path ++ [e]
    if maxElement < e.length ∨ maxByteCount < next.byteCount ∨ t.isLeaf path then none
    else some (t.follow next)

/-- Where the name of a database leads, if it is not refused. -/
def resolve (t : FileTree) (name : List UInt8) : Option Path := do
  let path ← (pieces (code '/') name).foldlM t.step (t.origin name)
  if path = [] ∨ maxFinalByteCount < path.byteCount then none else some path

/-! ### Following a name to what is there -/

/-- Whether there is something at the end of a path without links. -/
def isOccupied (t : FileTree) (path : Path) : Bool := t.find path ∉ [.vacant, .nowhere]

/-- One element further from a directory to what is there, if anything is. -/
def descend (t : FileTree) (path : Path) (e : List UInt8) : Option Path :=
  if t.find path ≠ .directory then none
  else if e = [] ∨ e = utf8 "." then some path
  else if e = utf8 ".." then some path.dropLast
  else
    let next := t.follow (path ++ [e])
    if t.isOccupied next then some next else none

/-- Whether there is something where a name leads. An empty name leads nowhere. -/
def holds (t : FileTree) (name : List UInt8) : Bool :=
  !name.isEmpty && ((pieces (code '/') name).foldlM t.descend (t.origin name)).isSome

end FileTree

end LeaseLock
