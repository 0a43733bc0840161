import Reshape.Batch.Path
import Reshape.Bytes.BigEndian

/-!
# File trees

A directory with everything below it.  A directory inside is there if it was made or if
something lies in it.  `classFiles` gives the files in the order of a walk that takes the entries
of each directory by name, and `write` goes along a route and adds a file at its end, with the
directories on the way to it, as far as the tree allows it.
-/

namespace Reshape

structure FileTree where
  /-- The directories that were made. -/
  made : List Path := []
  files : List (Path × Bytes) := []
  deriving DecidableEq, Repr

/-- Why a place could not be reached or written. -/
inductive FileFault
  | notFound
  | notADirectory
  | isADirectory
  | alreadyExists
  | nameTooLong
  | nulInName
  deriving DecidableEq, Repr

def FileFault.message : FileFault → String
  | .notFound => "No such file or directory (os error 2)"
  | .notADirectory => "Not a directory (os error 20)"
  | .isADirectory => "Is a directory (os error 21)"
  | .alreadyExists => "File exists (os error 17)"
  | .nameTooLong => "File name too long (os error 36)"
  | .nulInName => "file name contained an unexpected NUL byte"

namespace FileTree

/-! ## §1 What is there -/

def read? (t : FileTree) (p : Path) : Option Bytes :=
  (t.files.find? (·.1 == p)).map Prod.snd

/-- Whether a directory is at the path; the top always is one. -/
def hasDirectory (t : FileTree) (p : Path) : Bool :=
  let depth := p.length
  depth = 0 || (t.made.any fun d => depth ≤ d.length && p.isPrefixOf d) ||
    t.files.any fun f => depth < f.1.length && p.isPrefixOf f.1

/-- The class files in the order of a walk. -/
def classFiles (t : FileTree) : List (Path × Bytes) :=
  (t.files.filter fun f => Path.isClassFile f.1).mergeSort fun a b => Path.precedes a.1 b.1

/-- The files below a directory, each with its path from there. -/
def below (t : FileTree) (directory : Path) : List (Path × Bytes) :=
  (t.files.filter fun f => directory.isPrefixOf f.1).map fun f =>
    (f.1.drop directory.length, f.2)

/-- Several trees in one, each in a directory; one that is absent leaves no directory. -/
def join : List (Path × Option FileTree) → FileTree
  | [] => {}
  | (_, none) :: rest => join rest
  | (directory, some t) :: rest =>
    let others := join rest
    ⟨directory :: t.made.map (directory ++ ·) ++ others.made,
      t.files.map (fun f => (directory ++ f.1, f.2)) ++ others.files⟩

/-! ## §2 Writing -/

/-- Checks the text of a route on its own. -/
def checkText (r : Route) : Except FileFault Unit :=
  if r.text.contains '\x00' then .error .nulInName
  else if Route.textLimit ≤ r.text.utf8ByteSize then .error .nameTooLong
  else .ok ()

/-- Goes along a route from a directory, makes the directories that are missing and says where
it arrives.  A file that ends the route, or that is met behind a gap already closed, exists where
a directory was to be made; any other file on the way is not a directory. -/
def makeWay (t : FileTree) (here : Path) (closed : Bool) :
    Route → Except FileFault (FileTree × Path)
  | [] => .ok (t, here)
  | part :: rest =>
    if Route.stays part then t.makeWay here closed rest
    else if part = ".." then t.makeWay here.dropLast closed rest
    else if Route.nameLimit < part.utf8ByteSize then .error .nameTooLong
    else
      let place := here ++ [part]
      if t.hasDirectory place then t.makeWay place closed rest
      else if (t.read? place).isSome then
        .error (if closed || rest.all Route.stays then .alreadyExists else .notADirectory)
      else makeWay { t with made := place :: t.made } place true rest

/-- Writes a file under a name in a directory; a file that is there is replaced. -/
def put (t : FileTree) (directory : Path) (name : String) (content : Bytes) :
    Except FileFault FileTree :=
  let place := directory ++ [name]
  if Route.isSign name || t.hasDirectory place then .error .isADirectory
  else if Route.nameLimit < name.utf8ByteSize then .error .nameTooLong
  else .ok { t with files := t.files.filter (·.1 != place) ++ [(place, content)] }

/-- Writes a file to the end of a route from the top and makes the directories on the way. -/
def write (t : FileTree) (r : Route) (content : Bytes) : Except FileFault FileTree :=
  match r.reverse with
  | [] => .error .isADirectory
  | name :: back => do
    let above := (back.dropWhile Route.stays).reverse
    checkText above
    let (t, directory) ← t.makeWay [] false above
    checkText r
    t.put directory name content

end FileTree

end Reshape
