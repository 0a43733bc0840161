import Reshape.Batch.Tree
import Reshape.Redefinition.Pass

/-!
# Redefining a directory

A batch takes the classes as they were first loaded and as they are now, and redefines every
class that is in both directories, in the order of a walk through the new ones.  Each class is
reported on a line of its own, a failure does not stop the others, and what was generated is
written at the end.
-/

namespace Reshape.Batch

structure Options where
  loader : String := "app"
  rejectsAccessChanges : Bool := false
  /-- What messages call the directory of new classes. -/
  updatedName : String
  /-- Where the redefined and the generated classes go. -/
  out : Path := ["out"]

def Options.config (o : Options) : Config :=
  { accessPolicy := if o.rejectsAccessChanges then .reject else .treatAsNew }

/-- The state of a batch: what passes share, the tree written to and the lines reported. -/
structure Progress where
  registries : Registries
  tree : FileTree
  output : List String := []
  errors : List String := []

def Progress.start (o : Options) (tree : FileTree) : Progress :=
  { registries := Registries.start o.config o.loader, tree }

/-- Whether something was reported as an error. -/
def Progress.hasFailed (p : Progress) : Bool := !p.errors.isEmpty

def malformed (error : FormatError) : String := (RedefineError.format error).message

def PassFailure.message : PassFailure → String
  | .refused error => error.message
  | .clash clash => clash.message

/-- The schema of a loaded class, whose fields are entered for reflection. -/
def enterLoaded (o : Options) (content : Bytes) (r : Registries) :
    Except String Schema × Registries :=
  let prepared : Except String (ClassFile × Schema) := do
    let c ← (ClassFile.parse content).mapError malformed
    let (_, c) ← (prepare o.config c).mapError RedefineError.message
    let schema ← (Schema.ofClass c).mapError malformed
    return (c, schema)
  match prepared with
  | .error e => (.error e, r)
  | .ok (c, schema) =>
    match Reflection.enterClass c r.reflection with
    | .ok _ reflection => (.ok schema, { r with reflection })
    | .error e reflection => (.error (malformed e), { r with reflection })

/-- Redefines one class; the answer is its outcome or the reason why there is none. -/
def redefine (o : Options) (loaded new : Bytes) (r : Registries) :
    Except String Outcome × Registries :=
  match enterLoaded o loaded r with
  | (.error e, r) => (.error e, r)
  | (.ok schema, r) =>
    match ClassFile.parse new with
    | .error e => (.error (malformed e), r)
    | .ok c =>
      match Pass.run r.reflection.source schema c r with
      | .ok outcome r => (.ok outcome, r)
      | .error e r => (.error (PassFailure.message e), r)

def summary (o : Outcome) : String :=
  o.schema.className ++ ": " ++ toString o.added.length ++ " added, " ++
    toString o.redirected.length ++ " static, " ++ toString o.removed.length ++ " removed"

/-- Takes one file of the new classes; one that was not loaded before is skipped. -/
def step (o : Options) (baseline : FileTree) (p : Progress) (file : Path × Bytes) : Progress :=
  match baseline.read? file.1 with
  | none => p
  | some loaded =>
    let (result, registries) := redefine o loaded file.2 p.registries
    let fail (text : String) : Progress :=
      { p with registries, errors := p.errors ++ [Path.text file.1 ++ ": " ++ text] }
    match result with
    | .error text => fail text
    | .ok outcome =>
      match p.tree.write (.ofPath (o.out ++ file.1)) outcome.bytes with
      | .error fault => fail fault.message
      | .ok tree => { p with registries, tree, output := p.output ++ [summary outcome] }

def fatal (text : String) : String := "Error: " ++ text

/-- Writes the generated classes of a scope, each to where its name leads from the directory;
the first that cannot be written ends it. -/
def writeGenerated (directory : Path) (scope : String) (store : Store) (tree : FileTree) :
    List String → FileTree × Option FileFault
  | [] => (tree, none)
  | name :: rest =>
    match store.load? scope name with
    | none => writeGenerated directory scope store tree rest
    | some content =>
      match tree.write (Route.ofText directory (name ++ ".class")) content with
      | .error fault => (tree, some fault)
      | .ok tree => writeGenerated directory scope store tree rest

/-- Runs a batch in a tree that is there already; a directory that does not exist is absent. -/
def run (o : Options) (baseline updated : Option FileTree) (tree : FileTree) : Progress :=
  let start := Progress.start o tree
  match updated with
  | none =>
    { start with errors := [fatal ("IO error for operation on " ++ o.updatedName ++ ": " ++
        FileFault.notFound.message)] }
  | some updated =>
    let p := updated.classFiles.foldl (step o (baseline.getD {})) start
    let store := p.registries.store
    match writeGenerated o.out o.loader store p.tree (store.namesIn o.loader) with
    | (tree, none) => { p with tree }
    | (tree, some fault) => { p with tree, errors := p.errors ++ [fatal fault.message] }

end Reshape.Batch
