import Reshape.Redefinition.Config
import Reshape.Registry.Store
import Reshape.Storage.Layout

/-!
# The context of a loader scope

A context remembers, for one loader scope, which holder backs which added static field, so that
the field keeps its value in later redefinitions, and which accessor belongs to which generated
accessor class.  What a redefinition generates stays pending until the whole pass has succeeded,
and is then committed.
-/

namespace Reshape

/-- A static field and the class that holds it. -/
structure HolderEntry where
  owner : String
  name : String
  descriptor : String
  holder : String
  deriving DecidableEq, Repr

/-- A generated accessor class, the class of the field it reports, and the accessor. -/
structure AccessorEntry where
  owner : String
  proxy : String
  accessor : Accessor
  deriving DecidableEq, Repr

structure Context where
  loader : String
  config : Config
  /-- Newest first. -/
  holders : List HolderEntry := []
  /-- How many holder names each owner has been given, newest first. -/
  holderCounts : List (String × Nat) := []
  /-- Oldest first. -/
  accessors : List AccessorEntry := []
  deriving DecidableEq, Repr

/-- A generated class that is not yet committed. -/
inductive Pending
  | holder (entry : HolderEntry) (bytes : Bytes)
  | accessor (entry : AccessorEntry) (bytes : Bytes)
  deriving DecidableEq, Repr

namespace Context

def holderFor? (c : Context) (owner name descriptor : String) : Option String :=
  (c.holders.find? fun e =>
    e.owner == owner && e.name == name && e.descriptor == descriptor).map HolderEntry.holder

/-- The next holder name for an owner. -/
def nextHolderName (c : Context) (owner : String) : String × Context :=
  let count := (c.holderCounts.lookup owner).getD 0
  (owner ++ c.config.holderMark ++ toString count,
    { c with holderCounts := (owner, count + 1) :: c.holderCounts })

def accessor? (c : Context) (proxy : String) : Option Accessor :=
  (c.accessors.find? (·.proxy == proxy)).map AccessorEntry.accessor

/-- The accessor classes generated for an owner, oldest first. -/
def proxiesOf (c : Context) (owner : String) : List String :=
  (c.accessors.filter (·.owner == owner)).map AccessorEntry.proxy

/-- Saves one generated class and registers what it stands for. -/
def commitOne (state : Store × Context) (p : Pending) : Except NameClash (Store × Context) := do
  let (store, c) := state
  match p with
  | .holder entry bytes =>
    let store ← store.save ⟨c.loader, entry.holder, bytes⟩
    return (store, { c with holders := entry :: c.holders })
  | .accessor entry bytes =>
    let store ← store.save ⟨c.loader, entry.proxy, bytes⟩
    if (c.accessor? entry.proxy).isSome then throw (.accessor entry.proxy)
    return (store, { c with accessors := c.accessors ++ [entry] })

def commit (store : Store) (c : Context) (pending : List Pending) :
    Except NameClash (Store × Context) :=
  pending.foldlM commitOne (store, c)

end Context

end Reshape
