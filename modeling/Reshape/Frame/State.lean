import Reshape.Frame.Basic

/-!
# Verifier states

The absolute form of a frame table: for each frame its offset and the whole view of locals and
stack.  `expand` computes the states from the frames and the view at the start of the method;
`compress` finds frames for given states, each of the smallest kind that fits.
-/

namespace Reshape

structure FrameState where
  offset : Nat
  locals : List VerificationType
  stack : List VerificationType
  deriving DecidableEq, Repr

namespace FrameState

/-! ## §1 The view at the start of a method -/

/-- The types of parameters, after those already `done` (held in reverse). -/
def parameterTypes (done : List VerificationType) :
    List FieldType → Interning (List VerificationType)
  | [] => pure done.reverse
  | t :: rest => do
    let type ← VerificationType.ofFieldType t
    parameterTypes (type :: done) rest

/-- The locals on entry: the receiver, which a constructor gets uninitialized, and then the
parameters. -/
def entryLocals (thisClass : UInt16) (isStatic isConstructor : Bool) (m : MethodType) :
    Interning (List VerificationType) :=
  let receiver :=
    if isStatic then []
    else if isConstructor then [.uninitializedThis]
    else [.object thisClass]
  parameterTypes receiver m.parameters

/-! ## §2 From frames to states -/

/-- The locals and the stack after a change; `index` is the number of the frame. -/
def apply (index : Nat) (locals : List VerificationType) :
    FrameChange → Except FormatError (List VerificationType × List VerificationType)
  | .same => .ok (locals, [])
  | .sameOneItem item => .ok (locals, [item])
  | .chop count =>
    if count.toNat ≤ locals.length then .ok (locals.take (locals.length - count.toNat), [])
    else .error (.chopBelowLocals index)
  | .append added => .ok (locals ++ added, [])
  | .full locals stack => .ok (locals, stack)

/-- The states of the frames from number `index` on, where `base` is the offset at which a delta
of zero would put the first of them. -/
def expandFrom (index base : Nat) (locals : List VerificationType) (done : List FrameState) :
    List Frame → Except FormatError (List FrameState)
  | [] => .ok done.reverse
  | f :: rest =>
    match apply index locals f.change with
    | .error e => .error e
    | .ok (locals, stack) =>
      let offset := base + f.delta.toNat
      expandFrom (index + 1) (offset + 1) locals (⟨offset, locals, stack⟩ :: done) rest

def expand (frames : List Frame) (entry : List VerificationType) :
    Except FormatError (List FrameState) :=
  expandFrom 0 0 entry [] frames

/-! ## §3 From states to frames -/

/-- The smallest change from `before` to the given locals and stack. -/
def changeFrom (before locals stack : List VerificationType) : FrameChange :=
  match stack with
  | [] =>
    if locals == before then .same
    else if locals.length < before.length && before.length - locals.length ≤ 3 &&
        locals.isPrefixOf before then
      .chop (UInt8.ofNat (before.length - locals.length))
    else if before.length < locals.length && locals.length - before.length ≤ 3 &&
        before.isPrefixOf locals then
      .append (locals.drop before.length)
    else .full locals []
  | [item] => if locals == before then .sameOneItem item else .full locals [item]
  | stack => .full locals stack

/-- The frames of the states, where `base` is the offset at which a delta of zero would put the
first of them. -/
def compressFrom (base : Nat) (before : List VerificationType) (done : List Frame) :
    List FrameState → List Frame
  | [] => done.reverse
  | s :: rest =>
    let frame : Frame := ⟨UInt16.ofNat (s.offset - base), changeFrom before s.locals s.stack⟩
    compressFrom (s.offset + 1) s.locals (frame :: done) rest

def compress (states : List FrameState) (entry : List VerificationType) : List Frame :=
  compressFrom 0 entry [] states

end FrameState

end Reshape
