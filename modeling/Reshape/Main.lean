import Reshape.Batch.Run

/-!
# Command line

Reads the two directories, runs the batch and writes what comes out of it.
-/

namespace Reshape.Main

structure Arguments where
  baseline : Option String := none
  updated : Option String := none
  out : Option String := none
  loader : String := "app"
  rejectsAccessChanges : Bool := false

def usage : String :=
  "usage: -b BASELINE -u UPDATED -o OUT [-l LOADER] [--reject-access-changes]"

def Arguments.read (a : Arguments) : List String → Option Arguments
  | [] => some a
  | "--reject-access-changes" :: rest => { a with rejectsAccessChanges := true }.read rest
  | option :: value :: rest =>
    if option = "-b" ∨ option = "--baseline" then { a with baseline := some value }.read rest
    else if option = "-u" ∨ option = "--updated" then { a with updated := some value }.read rest
    else if option = "-o" ∨ option = "--out" then { a with out := some value }.read rest
    else if option = "-l" ∨ option = "--loader" then { a with loader := value }.read rest
    else none
  | _ => none

/-- The files below a directory, each with its path from the top. -/
partial def filesBelow (directory : String) (above : Path) : IO (List (Path × Bytes)) := do
  let top ← IO.FS.realPath directory
  let mut files := []
  for entry in (← top.readDir) do
    let path := above ++ [entry.fileName]
    if ← entry.path.isDir then
      files := files ++ (← filesBelow entry.path.toString path)
    else
      files := files ++ [(path, (← IO.FS.readBinFile entry.path).toList)]
  return files

def readTree (directory : String) : IO (Option FileTree) := do
  let top ← try some <$> IO.FS.realPath directory catch _ => pure none
  match top with
  | some top =>
    if ← top.isDir then return some { files := ← filesBelow directory [] } else return none
  | none => return none

/-- The path of a directory from the top, also of one that is not there yet. -/
def absolute (directory : String) : IO Path := do
  let here ← IO.currentDir
  let place ← try IO.FS.realPath directory catch _ => pure (here / directory)
  return Path.ofText place.toString

/-- Writes the files of a tree that another does not have. -/
def writeNew (before after : FileTree) : IO Unit := do
  for (path, content) in after.files do
    if before.read? path != some content then
      IO.FS.createDirAll (Route.ofPath path.dropLast).text
      IO.FS.writeBinFile (Route.ofPath path).text ⟨content.toArray⟩

end Reshape.Main

open Reshape Reshape.Main in
def main (args : List String) : IO UInt32 := do
  let some a := Arguments.read {} args | IO.eprintln usage; return 2
  let (some baseline, some updated, some out) := (a.baseline, a.updated, a.out)
    | IO.eprintln usage; return 2
  let around := FileTree.join (← [baseline, updated, out].mapM fun directory => do
    return (← absolute directory, ← readTree directory))
  let options : Batch.Options :=
    { loader := a.loader, rejectsAccessChanges := a.rejectsAccessChanges, updatedName := updated,
      out := ← absolute out }
  let p := Batch.run options (← readTree baseline) (← readTree updated) around
  writeNew around p.tree
  for line in p.output do IO.println line
  for line in p.errors do IO.eprintln line
  return if p.hasFailed then 1 else 0
