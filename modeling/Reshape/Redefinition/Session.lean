import Reshape.Redefinition.Pass

/-!
# Sessions

A session redefines classes of several loader scopes one after another.  Every scope has a
context of its own, made when the scope is first selected, and the store, the annotations and
the requests are shared between them.  The session also keeps the schema of every class it has
seen, the one in use first.
-/

namespace Reshape

structure Session where
  config : Config
  /-- The shared registries, with the context of the selected scope. -/
  registries : Registries
  /-- The contexts of the scopes that are not selected. -/
  others : List Context := []
  /-- One for every class. -/
  schemas : List Schema := []

namespace Session

def start (config : Config) (loader : String) : Session :=
  ⟨config, Registries.start config loader, [], []⟩

/-- Selects the context of a scope, which is made if there is none. -/
def select (loader : String) (s : Session) : Session :=
  let all := s.registries.context :: s.others
  let context := (all.find? (·.loader == loader)).getD { loader, config := s.config }
  { s with
    registries := { s.registries with context }
    others := all.filter (·.loader != loader) }

/-- The schema of a class, or without a name the one in use. -/
def schema? (s : Session) : Option String → Option Schema
  | none => s.schemas.head?
  | some name => s.schemas.find? (·.className == name)

/-- Takes a schema into use, in place of an earlier one of its class. -/
def enter (x : Schema) (s : Session) : Session :=
  { s with schemas := x :: s.schemas.filter (·.className != x.className) }

/-- Changes the schema of a class and leaves in use what is in use. -/
def revise (x : Schema) (s : Session) : Session :=
  { s with schemas := s.schemas.map fun y => if y.className = x.className then x else y }

end Session

end Reshape
