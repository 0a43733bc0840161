import Reshape.Code.Instruction
import Reshape.Pool.Constant

/-!
# The constructor call on the new object

A constructor first calls a constructor of its superclass or another one of its own class on
the object it was given.  In the order of the code this is the first special call of a
constructor that is not paired with an object created before it.
-/

namespace Reshape.ConstructorCall

/-- The name of constructors. -/
def constructorName : String := "<init>"

/-- The offset behind the call, when `waiting` created objects still wait for their own. -/
def seek (pool : Pool) (code : Array UInt8) (waiting : Nat) :
    List Instruction → Except FormatError (Option Nat)
  | [] => .ok none
  | i :: rest =>
    match i.opcode with
    | .newObject => seek pool code (waiting + 1) rest
    | .invokeSpecial =>
      match Code.u16At code (i.offset + 1) with
      | .error e => .error e
      | .ok index =>
        match pool.memberRef index with
        | .error e => .error e
        | .ok m =>
          if m.name ≠ constructorName then seek pool code waiting rest
          else if waiting = 0 then .ok (some i.next)
          else seek pool code (waiting - 1) rest
    | _ => seek pool code waiting rest

/-- The offset behind the constructor call; a fault of the code counts only if no call was
found before it. -/
def find? (pool : Pool) (code : Array UInt8) : Except FormatError (Option Nat) :=
  let decoding := decodeAll code
  match seek pool code 0 decoding.instructions with
  | .error e => .error e
  | .ok (some offset) => .ok (some offset)
  | .ok none =>
    match decoding.fault with
    | none => .ok none
    | some e => .error e

end Reshape.ConstructorCall
