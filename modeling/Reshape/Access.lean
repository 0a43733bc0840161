import Reshape.Text.Numeral

/-!
# Access flags

Classes, fields and methods carry sixteen flag bits each; which bits have a name depends on
what carries them.
-/

namespace Reshape

/-- What carries the flags. -/
inductive Carrier
  | ofClass | ofField | ofMethod
  deriving DecidableEq, Repr

structure Access (carrier : Carrier) where
  raw : UInt16
  deriving DecidableEq, Repr

abbrev ClassAccess := Access .ofClass

abbrev FieldAccess := Access .ofField

abbrev MethodAccess := Access .ofMethod

namespace Access

def accPublic : UInt16 := 0x0001
def accPrivate : UInt16 := 0x0002
def accProtected : UInt16 := 0x0004
def accStatic : UInt16 := 0x0008
def accFinal : UInt16 := 0x0010
def accSuper : UInt16 := 0x0020
def accSynchronized : UInt16 := 0x0020
def accVolatile : UInt16 := 0x0040
def accBridge : UInt16 := 0x0040
def accTransient : UInt16 := 0x0080
def accVarargs : UInt16 := 0x0080
def accNative : UInt16 := 0x0100
def accInterface : UInt16 := 0x0200
def accAbstract : UInt16 := 0x0400
def accStrict : UInt16 := 0x0800
def accSynthetic : UInt16 := 0x1000
def accAnnotationType : UInt16 := 0x2000
def accEnum : UInt16 := 0x4000
def accModule : UInt16 := 0x8000

/-- The named bits, lowest first. -/
def named : Carrier → List (String × UInt16)
  | .ofClass => [("public", accPublic), ("final", accFinal), ("super", accSuper),
      ("interface", accInterface), ("abstract", accAbstract), ("synthetic", accSynthetic),
      ("annotation", accAnnotationType), ("enum", accEnum), ("module", accModule)]
  | .ofField => [("public", accPublic), ("private", accPrivate), ("protected", accProtected),
      ("static", accStatic), ("final", accFinal), ("volatile", accVolatile),
      ("transient", accTransient), ("synthetic", accSynthetic), ("enum", accEnum)]
  | .ofMethod => [("public", accPublic), ("private", accPrivate), ("protected", accProtected),
      ("static", accStatic), ("final", accFinal), ("synchronized", accSynchronized),
      ("bridge", accBridge), ("varargs", accVarargs), ("native", accNative),
      ("abstract", accAbstract), ("strict", accStrict), ("synthetic", accSynthetic)]

variable {carrier : Carrier}

/-- Whether some bit of the mask is set. -/
def has (a : Access carrier) (bit : UInt16) : Bool := a.raw &&& bit != 0

/-- Whether all bits of the mask are set. -/
def contains (a : Access carrier) (mask : UInt16) : Bool := a.raw &&& mask == mask

def withBits (a : Access carrier) (mask : UInt16) : Access carrier := ⟨a.raw ||| mask⟩

def withoutBits (a : Access carrier) (mask : UInt16) : Access carrier := ⟨a.raw &&& ~~~mask⟩

/-- The names of the bits that are set. -/
def names (a : Access carrier) : List String :=
  ((named carrier).filter fun n => a.has n.2).map Prod.fst

def label : Carrier → String
  | .ofClass => "ClassFlags"
  | .ofField => "FieldFlags"
  | .ofMethod => "MethodFlags"

/-- The flags as messages show them. -/
def render (a : Access carrier) : String :=
  label carrier ++ "(0x" ++ Numeral.hex 4 a.raw.toNat ++ ")"

def isInterface (a : ClassAccess) : Bool := a.has accInterface

def isStatic (a : FieldAccess) : Bool := a.has accStatic

/-- The two sets differ, and only in the static bit. -/
def differsOnlyInStatic (a b : FieldAccess) : Bool :=
  a.raw != b.raw && a.raw ||| accStatic == b.raw ||| accStatic

end Access

end Reshape
