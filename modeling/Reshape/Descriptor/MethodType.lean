import Reshape.Descriptor.FieldType

/-!
# Method types

A method type is a list of parameter types and a result, which may be absent.  Its descriptor
is the parameters' descriptors in parentheses and then the result's, `V` for none.
-/

namespace Reshape

structure MethodType where
  parameters : List FieldType
  /-- Absent for a method that returns nothing. -/
  result : Option FieldType
  deriving DecidableEq, Repr

/-- Why a text is no method descriptor. -/
inductive MethodFault
  | missingOpeningParen (text : String)
  | missingClosingParen (text : String)
  | invalidReturnType (text : String)
  | parameter (fault : TypeFault)
  deriving DecidableEq, Repr

def MethodFault.message : MethodFault → String
  | .missingOpeningParen s => Quoted.tagged "MissingOpeningParen" (Quoted.text s)
  | .missingClosingParen s => Quoted.tagged "MissingClosingParen" (Quoted.text s)
  | .invalidReturnType s => Quoted.tagged "InvalidReturnType" (Quoted.text s)
  | .parameter fault => Quoted.tagged "Type" fault.message

namespace MethodType

/-! ## §1 Descriptors -/

def resultDescriptor (m : MethodType) : String :=
  match m.result with
  | none => "V"
  | some t => t.descriptor

def descriptor (m : MethodType) : String :=
  String.ofList ('(' :: (m.parameters.flatMap FieldType.letters ++ [')'])) ++ m.resultDescriptor

/-- How a parameter list ends early. -/
inductive ParameterFault
  | unclosed
  | parameter (fault : TypeFault)

/-- The parameter types up to the closing parenthesis, after those already `done` (held in
reverse), with what follows the parenthesis. -/
def parseParameters (done : List FieldType) (cs : List Char) :
    Except ParameterFault (List FieldType × List Char) :=
  match cs with
  | [] => .error .unclosed
  | c :: rest =>
    if c = ')' then .ok (done.reverse, rest)
    else
      match h : FieldType.parse (c :: rest) with
      | .error e => .error (.parameter e)
      | .ok (t, after) =>
        have : after.length < rest.length + 1 := FieldType.length_of_parse h
        parseParameters (t :: done) after
  termination_by cs.length

/-- The result after the closing parenthesis. -/
def parseResult (cs : List Char) : Except TypeFault (Option FieldType) :=
  if cs = ['V'] then .ok none else (FieldType.ofDescriptor? (String.ofList cs)).map some

def ofDescriptor? (text : String) : Except MethodFault MethodType :=
  match text.toList with
  | '(' :: cs =>
    match parseParameters [] cs with
    | .error .unclosed => .error (.missingClosingParen text)
    | .error (.parameter e) => .error (.parameter e)
    | .ok (parameters, rest) =>
      match parseResult rest with
      | .ok result => .ok ⟨parameters, result⟩
      | .error _ => .error (.invalidReturnType text)
  | _ => .error (.missingOpeningParen text)

/-! ## §2 Slots and display -/

/-- Local variable slots of the parameters, added up in sixteen bits: 65536 slots are none. -/
def parameterSlots (m : MethodType) : UInt16 :=
  m.parameters.foldl (fun n t => n + UInt16.ofNat t.slots) 0

def resultSlots (m : MethodType) : Nat :=
  match m.result with
  | none => 0
  | some t => t.slots

/-- Slots of the parameters and, unless the method is static, of the receiver. -/
def entrySlots (m : MethodType) (isStatic : Bool) : UInt16 :=
  m.parameterSlots + if isStatic then 0 else 1

/-- The method as source code declares it. -/
def signature (m : MethodType) (className methodName : String) : String :=
  let result := match m.result with
    | none => "void"
    | some t => t.display
  result ++ " " ++ dotted className ++ "." ++ methodName ++ "(" ++
    ", ".intercalate (m.parameters.map FieldType.display) ++ ")"

end MethodType

/-! ## §3 Resolving types to loaded classes -/

/-- What a class loader scope offers for turning types into handles of loaded classes. -/
structure ClassResolver (ε κ : Type) where
  primitive : Primitive → κ
  void : κ
  /-- Loads a class by its host name. -/
  load : String → Except ε κ

namespace ClassResolver

variable {ε κ : Type}

def resolve (r : ClassResolver ε κ) : FieldType → Except ε κ
  | .primitive p => .ok (r.primitive p)
  | t => r.load t.hostName

/-- Every parameter's class; the first that cannot be loaded decides. -/
def parameters (r : ClassResolver ε κ) (m : MethodType) : Except ε (List κ) :=
  m.parameters.mapM r.resolve

def result (r : ClassResolver ε κ) (m : MethodType) : Except ε κ :=
  match m.result with
  | none => .ok r.void
  | some t => r.resolve t

end ClassResolver

/-! ## §4 Splitting a descriptor -/

/-- Everything after the last closing parenthesis, or the whole text without one. -/
def afterArguments (descriptor : String) : String :=
  String.ofList (descriptor.toList.reverse.takeWhile (· ≠ ')')).reverse

/-- Everything up to the last closing parenthesis, or the whole text without one. -/
def argumentsOf (descriptor : String) : String :=
  match descriptor.toList.reverse.dropWhile (· ≠ ')') with
  | [] => descriptor
  | cs => String.ofList cs.reverse

end Reshape
