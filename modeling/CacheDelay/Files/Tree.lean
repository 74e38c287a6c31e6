import CacheDelay.Failure

/-!
# Trees of files

The files that the library works on, as a value. A `Tree` says what stands at each location; paths
are resolved from its working directory step by step, and every operation that can fail says why.
Directories list their entries in the order in which the tree holds them, which carries no meaning.

Only regular files keep what is written to them. The `sink` takes everything and keeps nothing and
reads as empty; the `full` device takes nothing and never ends. Each of the two has a location of
its own. Files have numbers, so that a file that was removed can be told from one that has taken its
place: a `Handle` writes to the former only.

All that stands somewhere can be read. Where the system does not let files be written or created, it
says why (`Tree.refusal?`), and nothing that happens to the tree changes that.
-/

namespace CacheDelay.Files

/-- The names from the root to a file or directory. -/
abbrev Location := List String

/-- What stands at a location. -/
inductive Node where
  | directory
  | file (number : Nat) (content : List UInt8)
  | sink
  | full

/-- Something that stands at a location. -/
inductive Item where
  | directory (place : Location)
  | file (place : Location) (number : Nat) (content : List UInt8)
  | sink
  | full

/-- Where an item stands. -/
def Item.place : Item → Location
  | .directory place | .file place _ _ => place
  | .sink => ["dev", "null"]
  | .full => ["dev", "full"]

/-- What stands there. -/
def Item.node : Item → Node
  | .directory _ => .directory
  | .file _ number content => .file number content
  | .sink => .sink
  | .full => .full

/-- Files and directories, and the directory in which relative paths begin. -/
structure Tree where
  workingDirectory : Location
  entries : List Item
  /-- The number that the next new file gets, which no file had before. -/
  fresh : Nat := 0
  /-- Why no file can be opened for writing or created at a location, if none can. -/
  refusal? : Location → Option FileFault := fun _ => none

/-- A file that is open for writing: where it stood when it was opened, and its number. The number
of a device carries no meaning. -/
structure Handle where
  place : Location
  number : Nat

/-- The longest name that a directory entry can have, in bytes. -/
def maxNameBytes : Nat := 255

/-- The longest path that can be resolved, in bytes. -/
def maxPathBytes : Nat := 4095

namespace Tree

/-- What stands at a location, if anything. The root is always a directory. -/
def node? (t : Tree) (place : Location) : Option Node :=
  if place = [] then some .directory else (t.entries.find? (·.place == place)).map Item.node

/-- The entries with `item` where it stands: in the position of the entry there, or at the end. -/
def replaceEntry (item : Item) : List Item → List Item
  | [] => [item]
  | entry :: rest =>
    if entry.place == item.place then item :: rest else entry :: replaceEntry item rest

/-- The tree with `item` where it stands. -/
def set (t : Tree) (item : Item) : Tree := { t with entries := replaceEntry item t.entries }

/-- The tree with a new file at `place`. -/
def create (t : Tree) (place : Location) (content : List UInt8) : Tree :=
  { t.set (.file place t.fresh content) with fresh := t.fresh + 1 }

/-! ## Resolution -/

/-- Refuses texts that cannot be resolved as paths. -/
def checkPath (p : Path) : Except FileFault Unit :=
  if '\x00' ∈ p.text.toList then .error .nulInPath
  else if p.text = "" then .error .notFound
  else if maxPathBytes < p.text.utf8ByteSize then .error .nameTooLong
  else .ok ()

/-- The steps of a path and the location they begin at. -/
def steps (t : Tree) (p : Path) : Location × List String :=
  let pieces := p.pieces.map String.ofList
  if p.text.toList.head? = some '/' then ([], pieces) else (t.workingDirectory, pieces)

/-- The location reached from `place` by the given steps. Every step needs a directory to start
from, also one that stays in place. -/
def walk (t : Tree) (place : Location) : List String → Except FileFault Location
  | [] => .ok place
  | step :: rest =>
    match t.node? place with
    | some .directory =>
      if step = "" ∨ step = "." then t.walk place rest
      else if step = ".." then t.walk place.dropLast rest
      else if maxNameBytes < step.utf8ByteSize then .error .nameTooLong
      else
        match t.node? (place ++ [step]) with
        | none => .error .notFound
        | some _ => t.walk (place ++ [step]) rest
    | some _ => .error .notDirectory
    | none => .error .notFound

/-- The location that an existing path denotes. -/
def locate (t : Tree) (p : Path) : Except FileFault Location := do
  checkPath p
  let start := t.steps p
  t.walk start.1 start.2

/-- The location that a path denotes or would denote if a file were created there. A path that can
only denote a directory is refused. -/
def locateNew (t : Tree) (p : Path) : Except FileFault Location := do
  checkPath p
  let start := t.steps p
  let named := (start.2.reverse.dropWhile (· == "")).reverse
  match named.getLast? with
  | none => .error .isDirectory
  | some last => do
    let parent ← t.walk start.1 named.dropLast
    let isDirectory := match t.node? parent with
      | some .directory => true
      | _ => false
    if !isDirectory then .error .notDirectory
    else if last = "." ∨ last = ".." ∨ named.length < start.2.length then .error .isDirectory
    else if maxNameBytes < last.utf8ByteSize then .error .nameTooLong
    else
      match t.node? (parent ++ [last]) with
      | some .directory => .error .isDirectory
      | _ => .ok (parent ++ [last])

/-! ## Reading -/

/-- The content of what stands at a location, as far as its length goes. Devices have none. -/
def contentAt (t : Tree) (place : Location) : Except FileFault (List UInt8) :=
  match t.node? place with
  | some (.file _ content) => .ok content
  | some .directory => .error .isDirectory
  | some _ => .ok []
  | none => .error .notFound

/-- All that can be read at a location. The full device fills the memory before it ends. -/
def allAt (t : Tree) (place : Location) : Except FileFault (List UInt8) :=
  match t.node? place with
  | some .full => .error .outOfMemory
  | _ => t.contentAt place

/-- The content of a file. -/
def read (t : Tree) (p : Path) : Except FileFault (List UInt8) := do
  t.allAt (← t.locate p)

/-- The content of a file as text. -/
def readText (t : Tree) (p : Path) : Except FileFault String := do
  let content ← t.read p
  match String.fromUTF8? ⟨content.toArray⟩ with
  | some text => .ok text
  | none => .error .notUnicode

/-- Whether a path denotes a directory. -/
def isDirectory (t : Tree) (p : Path) : Bool :=
  match t.locate p with
  | .ok place => match t.node? place with
    | some .directory => true
    | _ => false
  | .error _ => false

/-- The name of `entry` in the directory at `place`, if it stands there. -/
def nameIn? (place entry : Location) : Option String :=
  if entry.dropLast = place then entry.getLast? else none

/-- The names in a directory. -/
def list (t : Tree) (p : Path) : Except FileFault (List String) := do
  let place ← t.locate p
  match t.node? place with
  | some .directory => .ok (t.entries.filterMap fun entry => nameIn? place entry.place)
  | _ => .error .notDirectory

/-! ## Writing -/

/-- Opens a file for writing, creating an empty one where there is none: its handle and the tree
after that. -/
def openNew (t : Tree) (p : Path) : Except FileFault (Handle × Tree) := do
  let place ← t.locateNew p
  match t.refusal? place with
  | some fault => .error fault
  | none =>
    match t.node? place with
    | some (.file number _) => .ok (⟨place, number⟩, t)
    | some _ => .ok (⟨place, 0⟩, t)
    | none => .ok (⟨place, t.fresh⟩, t.create place [])

/-- The tree with `bytes` appended to an open file. A file that was removed in the meantime takes
the bytes out of sight. -/
def appendTo (t : Tree) (h : Handle) (bytes : List UInt8) : Except FileFault Tree :=
  match t.node? h.place with
  | some (.file number content) =>
    .ok (if number = h.number then t.set (.file h.place number (content ++ bytes)) else t)
  | some .full => if bytes.isEmpty then .ok t else .error .noSpace
  | _ => .ok t

/-- The tree with an open file emptied. -/
def truncate (t : Tree) (h : Handle) : Tree :=
  match t.node? h.place with
  | some (.file number _) => if number = h.number then t.set (.file h.place number []) else t
  | _ => t

/-- The tree with directories at `place` and along the given steps from it. What stands there
already stays. -/
def makeDirectories (t : Tree) (place : Location) : List String → Except FileFault Tree
  | [] => .ok t
  | step :: rest =>
    let next := if step = "" ∨ step = "." then place
      else if step = ".." then place.dropLast
      else place ++ [step]
    match t.node? next with
    | some .directory => t.makeDirectories next rest
    | some _ => .error .notDirectory
    | none => (t.set (.directory next)).makeDirectories next rest

/-- The tree with a directory at `p` and directories above it. -/
def makeDirectory (t : Tree) (p : Path) : Except FileFault Tree :=
  let start := t.steps p
  t.makeDirectories start.1 start.2

/-- The tree with `content` in the file at `p`, after what is there already if `keep`, and
directories above it. -/
def place (t : Tree) (p : Path) (content : List UInt8) (keep : Bool) : Except FileFault Tree := do
  let start := t.steps p
  let t ← t.makeDirectories start.1 start.2.dropLast
  let (handle, t) ← t.openNew p
  (if keep then t else t.truncate handle).appendTo handle content

/-- The tree without what stands at `p` and below it. -/
def remove (t : Tree) (p : Path) : Except FileFault Tree := do
  let place ← t.locate p
  .ok { t with entries := t.entries.filter fun entry => !place.isPrefixOf entry.place }

end Tree

end CacheDelay.Files
