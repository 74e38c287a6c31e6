/-!
# Paths

A path is a text whose steps are separated by slashes. Its name is the last step that says
something: empty steps and `.` say nothing, except a `.` at the very front. A name is a stem and an
extension around its last dot; a name whose only dot is its first character is all stem.
-/

namespace CacheDelay.Files

/-- A path, relative to the working directory unless it begins with a slash. -/
structure Path where
  text : String
  deriving DecidableEq

/-- The texts between the slashes of a path. -/
def Path.pieces (p : Path) : List (List Char) := p.text.toList.splitOn '/'

/-- Whether a piece that is not the first says nothing. -/
def isSilent (piece : List Char) : Bool := piece.isEmpty || piece == ['.']

/-- The pieces in reverse order from the last one that says something. The first piece always
stays. -/
def dropSilent : List (List Char) → List (List Char)
  | [] => []
  | [first] => [first]
  | piece :: before => if isSilent piece then dropSilent before else piece :: before

/-- The last piece that says something and the pieces before it, in reverse order. -/
def Path.lastPiece (p : Path) : List Char × List (List Char) :=
  match dropSilent p.pieces.reverse with
  | [] => ([], [])
  | last :: before => (last, before)

/-- The name of the file or directory that a path denotes, unless the path is empty or ends in the
root, the front `.` or a `..`. -/
def Path.name? (p : Path) : Option (List Char) :=
  let last := p.lastPiece.1
  if last = [] ∨ last = ['.'] ∨ last = ['.', '.'] then none else some last

/-- A name cut at its last dot, unless there is none or it is the first character. -/
def cutName (name : List Char) : List Char × Option (List Char) :=
  let reversed := name.reverse
  match reversed.dropWhile (· != '.') with
  | [] | [_] => (name, none)
  | _ :: stem => (stem.reverse, some (reversed.takeWhile (· != '.')).reverse)

/-- The name of a path without its extension; empty if there is no name. -/
def Path.stem (p : Path) : List Char :=
  match p.name? with
  | none => []
  | some name => (cutName name).1

/-- The extension of the name of a path. -/
def Path.extension? (p : Path) : Option (List Char) :=
  p.name?.bind fun name => (cutName name).2

/-- `base` followed by `name`, with a slash between them where one is missing. -/
def underText (base name : List Char) : List Char :=
  if base = [] ∨ base.getLast? = some '/' then base ++ name else base ++ '/' :: name

/-- The path of `name` in the directory `p`. -/
def Path.child (p : Path) (name : String) : Path :=
  ⟨String.ofList (underText p.text.toList name.toList)⟩

/-- The directory part of a path, without the silent pieces at its end; the whole path if it has no
name. -/
def Path.directory (p : Path) : List Char :=
  match p.name? with
  | none => p.text.toList
  | some _ =>
    match dropSilent p.lastPiece.2 with
    | [[]] => ['/']
    | before => ['/'].intercalate before.reverse

/-- The path of `name` beside `p`, in the same directory. -/
def Path.sibling (p : Path) (name : List Char) : Path :=
  ⟨String.ofList (underText p.directory name)⟩

end CacheDelay.Files
