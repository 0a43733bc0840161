/-!
# Paths and routes

A path is the place of a file or a directory: the names on the way to it from the top.  A route
is a way as a text gives it.  Between its slashes stand names, but also nothing or a point, which
stay where they are, and two points, which go back to the directory above.
-/

namespace Reshape

/-- The names on the way from the top of a tree. -/
abbrev Path := List String

namespace Path

def ofText (text : String) : Path :=
  ((text.splitOn "/").filter fun part => part != "" && part != ".")

def text (p : Path) : String := "/".intercalate p

/-- Whether one path comes before another in the order of the bytes of their names, or is the
same. -/
def precedes : Path → Path → Bool
  | [], _ => true
  | _ :: _, [] => false
  | a :: p, b :: q => if a = b then precedes p q else decide (a < b)

/-- The part of a file name behind its last point, if something comes before the point. -/
def extension? (name : String) : Option String :=
  match name.splitOn "." with
  | parts =>
    if 1 < parts.length ∧ ".".intercalate parts.dropLast ≠ "" then parts.getLast? else none

/-- Whether the file is one of a class. -/
def isClassFile (p : Path) : Bool :=
  match p.getLast? with
  | some name => extension? name == some "class"
  | none => false

end Path

/-- What stands between the slashes of a text; an empty first part starts from the top. -/
abbrev Route := List String

namespace Route

/-- The greatest number of bytes in a name, and in a whole route with the byte that ends it. -/
def nameLimit : Nat := 255
def textLimit : Nat := 4096

/-- The straight way to a path. -/
def ofPath (p : Path) : Route := "" :: p

/-- The way that a text means inside a directory; a text that begins with a slash starts from
the top all the same. -/
def ofText (directory : Path) (text : String) : Route :=
  match text.splitOn "/" with
  | "" :: names => "" :: names
  | names => "" :: (directory ++ names)

def text (r : Route) : String := "/".intercalate r

/-- Whether a part leaves the place as it is. -/
def stays (part : String) : Bool := part == "" || part == "."

/-- Whether a part names nothing new: it stays or goes back. -/
def isSign (part : String) : Bool := stays part || part == ".."

end Route

end Reshape
