import Reshape.Text.Quoted

/-!
# Field types

A field type is a primitive, an object of a named class or an array.  Its descriptor is the
compact notation of class files, its host name the notation of reflective look-ups, and its
display form the one of source code.  `parse` reads one descriptor from the front of a text;
`ofDescriptor?` wants the whole text.
-/

namespace Reshape

/-! ## §1 Types -/

inductive Primitive
  | byte | char | double | float | int | long | short | boolean
  deriving DecidableEq, Repr

namespace Primitive

def all : List Primitive := [byte, char, double, float, int, long, short, boolean]

/-- The descriptor letter. -/
def letter : Primitive → Char
  | byte => 'B' | char => 'C' | double => 'D' | float => 'F'
  | int => 'I' | long => 'J' | short => 'S' | boolean => 'Z'

def ofLetter? : Char → Option Primitive
  | 'B' => some byte | 'C' => some char | 'D' => some double | 'F' => some float
  | 'I' => some int | 'J' => some long | 'S' => some short | 'Z' => some boolean
  | _ => none

def keyword : Primitive → String
  | byte => "byte" | char => "char" | double => "double" | float => "float"
  | int => "int" | long => "long" | short => "short" | boolean => "boolean"

def ofKeyword? (word : String) : Option Primitive := all.find? fun p => p.keyword == word

/-- The class whose objects hold a value of this type. -/
def boxClass : Primitive → String
  | byte => "java/lang/Byte" | char => "java/lang/Character"
  | double => "java/lang/Double" | float => "java/lang/Float"
  | int => "java/lang/Integer" | long => "java/lang/Long"
  | short => "java/lang/Short" | boolean => "java/lang/Boolean"

/-- Whether values take two slots. -/
def isWide : Primitive → Bool
  | long | double => true
  | _ => false

def slots (p : Primitive) : Nat := if p.isWide then 2 else 1

end Primitive

inductive FieldType
  | primitive (p : Primitive)
  /-- The name has its parts separated by slashes. -/
  | object (name : String)
  | array (element : FieldType)
  deriving DecidableEq, Repr

/-- Why a text is no field descriptor. -/
inductive TypeFault
  | unexpectedEnd
  | invalidType (letter : Char)
  | unterminatedClassName (text : String)
  | emptyClassName
  | trailingCharacters (rest : String)
  deriving DecidableEq, Repr

def TypeFault.message : TypeFault → String
  | .unexpectedEnd => "UnexpectedEnd"
  | .invalidType c => Quoted.tagged "InvalidType" (Quoted.char c)
  | .unterminatedClassName s => Quoted.tagged "UnterminatedClassName" (Quoted.text s)
  | .emptyClassName => "EmptyClassName"
  | .trailingCharacters s => Quoted.tagged "TrailingCharacters" (Quoted.text s)

/-- Slash-separated names with dots instead. -/
def dotted (name : String) : String := name.map fun c => if c = '/' then '.' else c

/-- Dot-separated names with slashes instead. -/
def slashed (name : String) : String := name.map fun c => if c = '.' then '/' else c

namespace FieldType

/-! ## §2 Descriptors -/

def letters : FieldType → List Char
  | primitive p => [p.letter]
  | object name => 'L' :: (name.toList ++ [';'])
  | array element => '[' :: element.letters

def descriptor (t : FieldType) : String := String.ofList t.letters

/-- One descriptor from the front of a text, with what follows it. -/
def parse : List Char → Except TypeFault (FieldType × List Char)
  | [] => .error .unexpectedEnd
  | c :: cs =>
    if c = 'L' then
      match cs.dropWhile (· ≠ ';') with
      | [] => .error (.unterminatedClassName (String.ofList (c :: cs)))
      | _ :: rest =>
        match cs.takeWhile (· ≠ ';') with
        | [] => .error .emptyClassName
        | name => .ok (object (String.ofList name), rest)
    else if c = '[' then
      match parse cs with
      | .ok (element, rest) => .ok (array element, rest)
      | .error e => .error e
    else
      match Primitive.ofLetter? c with
      | some p => .ok (primitive p, cs)
      | none => .error (.invalidType c)

/-- The type whose descriptor is the whole text. -/
def ofDescriptor? (text : String) : Except TypeFault FieldType :=
  match parse text.toList with
  | .ok (t, []) => .ok t
  | .ok (_, rest) => .error (.trailingCharacters (String.ofList rest))
  | .error e => .error e

/-- A descriptor takes at least one character. -/
theorem length_of_parse {cs : List Char} {t : FieldType} {rest : List Char}
    (h : parse cs = .ok (t, rest)) : rest.length < cs.length := by
  induction cs generalizing t with
  | nil => simp [parse] at h
  | cons c cs ih =>
    unfold parse at h
    split at h
    · split at h
      · cases h
      · next hd =>
        have hlen := (List.dropWhile_suffix (fun x => decide (x ≠ ';')) (l := cs)).length_le
        rw [hd] at hlen
        split at h
        · cases h
        · cases h
          simp only [List.length_cons] at hlen ⊢
          omega
    · split at h
      · split at h
        · next hp =>
          cases h
          have := ih hp
          simp only [List.length_cons]
          omega
        · cases h
      · split at h
        · cases h
          simp
        · cases h

/-! ## §3 Properties -/

def isPrimitive : FieldType → Bool
  | primitive _ => true
  | _ => false

def isWide : FieldType → Bool
  | primitive p => p.isWide
  | _ => false

/-- Slots of a local variable or stack entry of this type. -/
def slots : FieldType → Nat
  | primitive p => p.slots
  | _ => 1

def primitive? : FieldType → Option Primitive
  | primitive p => some p
  | _ => none

/-- The name under which a class constant refers to the type: an array goes by its
descriptor, a primitive has none. -/
def className? : FieldType → Option String
  | primitive _ => none
  | object name => some name
  | t => some t.descriptor

def dimensions : FieldType → Nat
  | array element => element.dimensions + 1
  | _ => 0

/-- The source-code form. -/
def display : FieldType → String
  | primitive p => p.keyword
  | object name => dotted name
  | array element => element.display ++ "[]"

/-! ## §4 Host names -/

/-- The reflective name: a keyword, a dotted class name, or a dotted array descriptor. -/
def hostName : FieldType → String
  | primitive p => p.keyword
  | object name => dotted name
  | t => dotted t.descriptor

/-- The type a reflective name stands for. -/
def ofHostName? (name : String) : Except TypeFault FieldType :=
  match Primitive.ofKeyword? name with
  | some p => .ok (primitive p)
  | none =>
    match name.toList with
    | [] => .error .emptyClassName
    | '[' :: _ => ofDescriptor? (slashed name)
    | _ => .ok (object (slashed name))

end FieldType

/-! ## §5 Descriptors as texts -/

/-- A descriptor of one byte can only be that of a primitive. -/
def isPrimitiveDescriptor (descriptor : String) : Bool := descriptor.utf8ByteSize = 1

def isWideDescriptor (descriptor : String) : Bool := descriptor == "J" || descriptor == "D"

/-- The class name between `L` and a final semicolon. -/
def classNameOfDescriptor? (descriptor : String) : Option String :=
  match descriptor.toList with
  | 'L' :: rest => if rest.getLast? = some ';' then some (String.ofList rest.dropLast) else none
  | _ => none

/-- The descriptor of the class with a dotted name. -/
def descriptorOfDotted (name : String) : String := "L" ++ slashed name ++ ";"

end Reshape
