import Reshape.ClassFile.Basic

/-!
# Where attributes hang

A class has attributes of its own, and each of its fields and methods has some too.  A `Site`
names one of these lists, so that one edit serves them all.
-/

namespace Reshape

inductive Site
  | ofClass
  | ofField (position : Nat)
  | ofMethod (position : Nat)
  deriving DecidableEq, Repr

namespace Site

/-- The attributes at a site; a member that is not there has none. -/
def attributes (s : Site) (c : ClassFile) : List Attribute :=
  match s with
  | ofClass => c.attributes
  | ofField position => (c.fields[position]?.map Member.attributes).getD []
  | ofMethod position => (c.methods[position]?.map Member.attributes).getD []

/-- The class with other attributes at a site. -/
def replace (s : Site) (attributes : List Attribute) (c : ClassFile) : ClassFile :=
  match s with
  | ofClass => { c with attributes }
  | ofField position =>
    { c with fields := c.fields.modify position fun m => { m with attributes } }
  | ofMethod position =>
    { c with methods := c.methods.modify position fun m => { m with attributes } }

/-- Edits the attributes at a site; what was done before a failure stays. -/
def edit {α : Type} (s : Site) (change : Labelling α) : ClassEdit α :=
  onPart (fun c => ⟨c.pool, s.attributes c⟩)
    (fun c l => s.replace l.attributes { c with pool := l.pool }) change

end Site

end Reshape
