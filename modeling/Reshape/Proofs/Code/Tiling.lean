import Reshape.Proofs.Code.Relocation

/-!
# Instructions tile the code

Decoding cuts the code into instructions from front to back.  Each one starts where the one before
it ends, and the row comes to the end of the code or to a place where nothing can be decoded.  The
jump operands of an instruction lie one behind the other in its own bytes.  So whatever an insertion
cuts out of the code, and whatever it writes over, lies within what is there.
-/

namespace Reshape

/-! ## §1 The row of instructions -/

/-- How far the reading came: the offset behind the last instruction. -/
def Decoding.stop (d : Decoding) : Nat := (d.instructions.getLast?.map Instruction.next).getD 0

/-- From `offset` on the instructions lie one behind the other, up to `stop`. -/
inductive Tiles (code : Array UInt8) : Nat → List Instruction → Nat → Prop
  | nil {offset : Nat} : Tiles code offset [] offset
  | cons {offset stop : Nat} {i : Instruction} {rest : List Instruction}
      (first : Instruction.decode code offset = .ok i) (behind : Tiles code i.next rest stop) :
      Tiles code offset (i :: rest) stop

/-- Why the reading stopped at an offset: the code ends there, or nothing can be decoded there. -/
inductive Decoding.Stops (code : Array UInt8) (stop : Nat) : Option FormatError → Prop
  | complete (done : code.size ≤ stop) : Stops code stop none
  | faulty {e : FormatError} (inside : stop < code.size)
      (fault : Instruction.decode code stop = .error e) : Stops code stop (some e)

theorem tiles_decodeFrom (code : Array UInt8) (offset : Nat) (done : List Instruction) :
    ∃ rest stop, (decodeFrom code offset done).instructions = done.reverse ++ rest ∧
      Tiles code offset rest stop ∧
      Decoding.Stops code stop (decodeFrom code offset done).fault := by
  fun_induction decodeFrom code offset done with
  | case1 offset done hlt i hi _ ih =>
      obtain ⟨rest, stop, hrest, htiles, hstops⟩ := ih
      exact ⟨i :: rest, stop, by simpa using hrest, .cons hi htiles, hstops⟩
  | case2 offset done hlt e he =>
      exact ⟨[], offset, (List.append_nil _).symm, .nil, .faulty hlt he⟩
  | case3 offset done hge =>
      exact ⟨[], offset, (List.append_nil _).symm, .nil, .complete (Nat.not_lt.mp hge)⟩

namespace Tiles

variable {code : Array UInt8} {offset stop : Nat} {is : List Instruction}

theorem stop_eq (h : Tiles code offset is stop) :
    stop = (is.getLast?.map Instruction.next).getD offset := by
  induction h with
  | nil => rfl
  | @cons offset stop i rest _ _ ih =>
      rw [ih, List.getLast?_cons]
      cases rest.getLast? with
      | none => rfl
      | some j => rfl

theorem decode_of_mem (h : Tiles code offset is stop) :
    ∀ i ∈ is, Instruction.decode code i.offset = .ok i := by
  induction h with
  | nil => exact nofun
  | cons first _ ih =>
      refine List.forall_mem_cons.mpr ⟨?_, ih⟩
      rwa [(Instruction.decode_bounds first).1]

theorem offset_of_head? (h : Tiles code offset is stop) : ∀ i ∈ is.head?, i.offset = offset := by
  cases h with
  | nil => exact nofun
  | cons first _ =>
      rintro i ⟨⟩
      exact (Instruction.decode_bounds first).1

/-- Each instruction starts where the one before it ends. -/
theorem isChain (h : Tiles code offset is stop) : is.IsChain fun a b => b.offset = a.next := by
  induction h with
  | nil => exact .nil
  | cons _ behind ih =>
      cases behind with
      | nil => exact .singleton _
      | cons second _ => exact .cons_cons (Instruction.decode_bounds second).1 ih

/-- Behind an instruction the next one starts, or the reading stopped there. -/
theorem next_of_mem (h : Tiles code offset is stop) {i : Instruction} (hi : i ∈ is) :
    i.next = stop ∨ ∃ j ∈ is, j.offset = i.next := by
  induction h with
  | nil => cases hi
  | @cons offset stop first rest _ behind ih =>
      rcases List.mem_cons.mp hi with rfl | hi
      · cases behind with
        | nil => exact .inl rfl
        | cons second _ =>
            refine .inr ⟨_, List.mem_cons_of_mem _ List.mem_cons_self, ?_⟩
            exact (Instruction.decode_bounds second).1
      · rcases ih hi with hstop | ⟨j, hj, hoffset⟩
        · exact .inl hstop
        · exact .inr ⟨j, List.mem_cons_of_mem _ hj, hoffset⟩

theorem stop_le (h : Tiles code offset is stop) (hoffset : offset ≤ code.size) :
    stop ≤ code.size := by
  induction h with
  | nil => exact hoffset
  | cons first _ ih =>
      obtain ⟨rfl, -, hfits⟩ := Instruction.decode_bounds first
      exact ih hfits

end Tiles

/-! ### Reading instruction by instruction -/

namespace Decoding

/-- How far a reading has come. -/
structure Progress where
  offset : Nat
  failed : Bool
  deriving DecidableEq, Repr

/-- One more instruction, or the fault that ends the reading. -/
def Progress.next? (code : Array UInt8) (p : Progress) :
    Option (Except FormatError Instruction × Progress) :=
  if p.failed ∨ code.size ≤ p.offset then none
  else
    match Instruction.decode code p.offset with
    | .ok i => some (.ok i, { p with offset := i.next })
    | .error e => some (.error e, { p with failed := true })

/-- What comes out one after the other until nothing is left. -/
inductive Yields (code : Array UInt8) : Progress → List (Except FormatError Instruction) → Prop
  | exhausted {p : Progress} (done : p.next? code = none) : Yields code p []
  | item {p q : Progress} {x : Except FormatError Instruction}
      {rest : List (Except FormatError Instruction)} (first : p.next? code = some (x, q))
      (behind : Yields code q rest) : Yields code p (x :: rest)

/-- The instructions, and behind them the fault, if there is one. -/
def items (d : Decoding) : List (Except FormatError Instruction) :=
  d.instructions.map .ok ++ d.fault.toList.map .error

/-- Where the reading stops at most the fault is left. -/
theorem Stops.yields {code : Array UInt8} {stop : Nat} {fault : Option FormatError}
    (h : Stops code stop fault) : Yields code ⟨stop, false⟩ (fault.toList.map .error) := by
  cases h with
  | complete done => exact .exhausted (if_pos (.inr done))
  | @faulty e inside fault =>
      refine .item (q := ⟨stop, true⟩) ?_ (.exhausted (if_pos (.inl rfl)))
      simp only [Progress.next?, fault]
      exact if_neg (by simpa using inside)

end Decoding

/-- A reading goes through the tiles, and then comes what is behind them. -/
theorem Tiles.yields {code : Array UInt8} {offset stop : Nat} {is : List Instruction}
    (h : Tiles code offset is stop) {rest : List (Except FormatError Instruction)}
    (behind : Decoding.Yields code ⟨stop, false⟩ rest) :
    Decoding.Yields code ⟨offset, false⟩ (is.map .ok ++ rest) := by
  induction h with
  | nil => exact behind
  | @cons offset stop i is first _ ih =>
      refine .item ?_ (ih behind)
      obtain ⟨-, hpos, hfits⟩ := Instruction.decode_bounds first
      simp only [Decoding.Progress.next?, first]
      exact if_neg (by simp only [Bool.false_eq_true, false_or]; omega)

/-- The instructions that decoding gives tile the code as far as the reading came. -/
theorem tiles_decodeAll (code : Array UInt8) :
    Tiles code 0 (decodeAll code).instructions (decodeAll code).stop ∧
      Decoding.Stops code (decodeAll code).stop (decodeAll code).fault := by
  obtain ⟨rest, stop, hrest, htiles, hstops⟩ := tiles_decodeFrom code 0 []
  rw [List.reverse_nil, List.nil_append] at hrest
  have hstop : (decodeAll code).stop = stop := by
    rw [Decoding.stop, decodeAll, hrest, ← htiles.stop_eq]
  rw [hstop, decodeAll, hrest]
  exact ⟨htiles, hstops⟩

/-! ## §2 Jump operands -/

/-- The operands of a decoded instruction can be told: decoding has read all that they hang on. -/
theorem Instruction.exists_jumps {code : Array UInt8} {i : Instruction}
    (h : Instruction.decode code i.offset = .ok i) : ∃ operands, i.Jumps code operands := by
  obtain ⟨byte, -, -, hlength, -, -⟩ := Instruction.decode_eq_ok.mp h
  by_cases hshort : i.opcode.isShortBranch = true
  · exact ⟨_, .short hshort⟩
  by_cases hwide : i.opcode.isWideBranch = true
  · exact ⟨_, .wide hwide⟩
  by_cases htable : i.opcode = .tableSwitch
  · simp only [announcedLength, htable, Opcode.size?] at hlength
    obtain ⟨n, hn, -⟩ := except_bind_eq_ok.mp hlength
    exact ⟨_, .table htable hn⟩
  by_cases hlookup : i.opcode = .lookupSwitch
  · simp only [announcedLength, hlookup, Opcode.size?] at hlength
    obtain ⟨n, hn, -⟩ := except_bind_eq_ok.mp hlength
    exact ⟨_, .lookup hlookup hn⟩
  · exact ⟨[], .none (by simpa using hshort) (by simpa using hwide) htable hlookup⟩

/-! ## §3 Editing in place -/

/-- Why an edit in place ends early. -/
inductive EditFault
  | refused (error : BuildError)
  /-- A slice that does not lie within its array. -/
  | outside (start stop size : Nat)
  deriving DecidableEq, Repr

/-- The bytes from one offset to another, which must be there. -/
def Code.slice (code : Array UInt8) (start stop : Nat) : Except EditFault (Array UInt8) :=
  if start ≤ stop ∧ stop ≤ code.size then .ok (code.extract start stop)
  else .error (.outside start stop code.size)

/-- Writes bytes over code, which must reach as far. -/
def Relocation.Patch.apply (code : Array UInt8) (p : Relocation.Patch) :
    Except EditFault (Array UInt8) :=
  if p.position + p.bytes.length ≤ code.size then .ok (overwrite code p.position p.bytes)
  else .error (.outside p.position (p.position + p.bytes.length) code.size)

/-- Adjusts the jumps of an instruction of the old code one after the other. -/
def Relocation.adjust (r : Relocation) (code new : Array UInt8) (i : Instruction) :
    Except EditFault (Array UInt8) := do
  let operands ← (i.jumpOperands code).mapError fun e => .refused (.format e)
  operands.foldlM (fun new o => do ((← (r.patch code i o).mapError .refused)).apply new) new

/-- The splice carried out in place: every slice is checked, and each jump is written as soon as its
new value is known. -/
def Insertion.spliceInPlace (ins : Insertion) (code : Array UInt8) :
    Except EditFault (Array UInt8) := do
  let instructions ← (ins.instructions code).mapError .refused
  let boundary := ins.position == code.size || instructions.any (·.offset == ins.position)
  if !boundary then throw (.refused (.invalidInsertionPoint ins.position))
  let size := code.size + ins.block.size
  if Body.maxCode < size then throw (.refused (.codeTooLarge size))
  let front ← Code.slice code 0 ins.position
  let rear ← Code.slice code ins.position code.size
  instructions.foldlM (ins.relocation.adjust code) (front ++ ins.block ++ rear)

/-- Writing as one goes comes to the same as writing everything at the end, where a step writes what
was found and keeps the size. -/
theorem foldlM_of_writes {α β : Type} {find : α → Except BuildError β}
    (write : Array UInt8 → β → Array UInt8) {step : Array UInt8 → α → Except EditFault (Array UInt8)}
    {size : Nat} (hsize : ∀ code b, (write code b).size = code.size) {items : List α}
    (hstep : ∀ a ∈ items, ∀ code, code.size = size →
      step code a = ((find a).map (write code)).mapError .refused) :
    ∀ code, code.size = size →
      items.foldlM step code = ((items.mapM find).map (·.foldl write code)).mapError .refused := by
  induction items with
  | nil => exact fun _ _ => rfl
  | cons a items ih =>
      rw [List.forall_mem_cons] at hstep
      intro code hcode
      rw [List.foldlM_cons, List.mapM_cons, hstep.1 code hcode]
      cases find a with
      | error e => rfl
      | ok b =>
          show items.foldlM step (write code b) = _
          rw [ih hstep.2 _ ((hsize code b).trans hcode)]
          cases items.mapM find with
          | error e => rfl
          | ok bs => rfl

namespace Relocation

variable {r : Relocation} {code : Array UInt8}

/-- The jumps of a decoded instruction are written where its new place is. -/
theorem adjust_eq {i : Instruction} (hdecode : Instruction.decode code i.offset = .ok i)
    {new : Array UInt8} (hfits : r.start i.offset + i.length ≤ new.size) :
    r.adjust code new i = ((r.patchesOf code i).map (patched new)).mapError .refused := by
  obtain ⟨operands, hjumps⟩ := Instruction.exists_jumps hdecode
  have hoperands := Instruction.jumpOperands_eq_ok.mpr hjumps
  simp only [adjust, patchesOf, hoperands]
  refine foldlM_of_writes (fun (c : Array UInt8) (p : Patch) => overwrite c p.position p.bytes)
    (fun c p => size_overwrite _ _ _) ?_ new rfl
  intro o ho c hc
  cases hpatch : r.patch code i o with
  | error e => rfl
  | ok p =>
      obtain ⟨hbehind, hwithin⟩ := Instruction.length_of_jumps hdecode hjumps o ho
      obtain ⟨-, -, hposition, -, -⟩ := patch_ok hpatch
      have hlength := length_bytes_of_patch hpatch
      unfold Instruction.next at hwithin
      exact if_pos (by omega)

/-- Adjusting one instruction after the other writes all patches. -/
theorem foldlM_adjust {is : List Instruction} {new : Array UInt8}
    (hdecode : ∀ i ∈ is, Instruction.decode code i.offset = .ok i)
    (hfits : ∀ i ∈ is, r.start i.offset + i.length ≤ new.size) :
    is.foldlM (r.adjust code) new = ((r.patches code is).map (patched new)).mapError .refused := by
  have hsteps : ∀ i ∈ is, ∀ c : Array UInt8, c.size = new.size →
      r.adjust code c i = ((r.patchesOf code i).map (patched c)).mapError .refused := by
    intro i hi c hc
    exact adjust_eq (hdecode i hi) (hc ▸ hfits i hi)
  rw [foldlM_of_writes patched (fun c ps => size_patched ps c) hsteps new rfl, patches]
  cases is.mapM (r.patchesOf code) with
  | error e => rfl
  | ok pss => exact congrArg Except.ok List.foldl_flatten.symm

end Relocation

namespace Insertion

variable {ins : Insertion} {code : Array UInt8}

/-- A place where code may be inserted lies in the code or at its end. -/
theorem position_le_of_boundary (hdecodes : Decodes code 0 (decodeAll code).instructions)
    {position : Nat} (h : Decodes.Boundary code (decodeAll code).instructions position) :
    position ≤ code.size := by
  rcases h with rfl | ⟨j, hj, rfl⟩
  · exact Nat.le_refl _
  · obtain ⟨-, -, hfits⟩ := Instruction.decode_bounds (hdecodes.decode_of_mem hj).1
    omega

/-- **No slice lies outside.**  Whatever the position and the block, carrying out the splice in place
comes to what the splice comes to. -/
theorem spliceInPlace_eq (ins : Insertion) (code : Array UInt8) :
    ins.spliceInPlace code = (ins.splice code).mapError .refused := by
  unfold spliceInPlace splice
  cases his : ins.instructions code with
  | error e => rfl
  | ok is =>
      obtain ⟨rfl, hfault, -⟩ := instructions_ok his
      have hdecodes := decodes_decodeAll hfault
      simp only [bind, Except.bind, Except.mapError]
      split
      · rfl
      · next hboundary =>
        split
        · rfl
        · next hsmall =>
          have hposition : ins.position ≤ code.size := by
            refine position_le_of_boundary hdecodes ?_
            rw [Decodes.Boundary, Classical.or_iff_not_imp_left]
            simpa using hboundary
          have hspread : (code.extract 0 ins.position ++ ins.block ++
              code.extract ins.position code.size).size = code.size + ins.block.size := by
            simp only [Array.size_append, Array.size_extract]
            omega
          have hfront : Code.slice code 0 ins.position = .ok (code.extract 0 ins.position) :=
            if_pos ⟨Nat.zero_le _, hposition⟩
          have hrear : Code.slice code ins.position code.size =
              .ok (code.extract ins.position code.size) :=
            if_pos ⟨hposition, Nat.le_refl _⟩
          have hfits : ∀ i ∈ (decodeAll code).instructions,
              ins.relocation.start i.offset + i.length ≤ code.size + ins.block.size := by
            intro i hi
            obtain ⟨-, -, hwithin⟩ := Instruction.decode_bounds (hdecodes.decode_of_mem hi).1
            have hstart := ins.start_cases i.offset
            omega
          rw [← hspread] at hfits
          rw [hfront, hrear]
          show List.foldlM (ins.relocation.adjust code) _ _ = _
          rw [Relocation.foldlM_adjust (fun i hi => (hdecodes.decode_of_mem hi).1) hfits]
          cases ins.relocation.patches code (decodeAll code).instructions with
          | error e => rfl
          | ok ps => rfl

end Insertion

/-! ## §4 The tiling -/

/-- The jump operands of an instruction can be told, and they lie one behind the other between its
opcode and its end. -/
def Instruction.OwnsJumps (code : Array UInt8) (i : Instruction) : Prop :=
  ∃ operands, i.jumpOperands code = .ok operands ∧
    (operands.Pairwise fun a b => a.position + a.width.bytes ≤ b.position) ∧
    ∀ o ∈ operands, i.offset < o.position ∧ o.position + o.width.bytes ≤ i.next

theorem Instruction.ownsJumps_of_decode {code : Array UInt8} {i : Instruction}
    (h : decode code i.offset = .ok i) : i.OwnsJumps code := by
  obtain ⟨operands, hjumps⟩ := Instruction.exists_jumps h
  exact ⟨operands, jumpOperands_eq_ok.mpr hjumps, pairwise_of_jumps hjumps,
    length_of_jumps h hjumps⟩

/-- **Instructions tile the code.**  Reading any bytes comes to an end.  The instructions that come
out start at offset zero, each one behind the one before it, none of them empty and all within the
code; they end with the code, or the reading does with the fault of decoding where they end.  The
jumps of each instruction lie one behind the other between its opcode and its end.  So every slice
that an insertion takes, and every jump that it writes, is within bounds, whatever the position and
the block. -/
theorem decoding_tiles (code : Array UInt8) :
    Decoding.Yields code ⟨0, false⟩ (decodeAll code).items ∧
    (∀ i ∈ (decodeAll code).instructions.head?, i.offset = 0) ∧
    ((decodeAll code).instructions.IsChain fun a b => b.offset = a.next) ∧
    (∀ i ∈ (decodeAll code).instructions, Instruction.decode code i.offset = .ok i ∧
      0 < i.length ∧ i.next ≤ code.size ∧ i.OwnsJumps code) ∧
    (match (decodeAll code).fault with
      | none => (decodeAll code).stop = code.size
      | some e => (decodeAll code).stop < code.size ∧
          Instruction.decode code (decodeAll code).stop = .error e) ∧
    ∀ ins : Insertion, ins.spliceInPlace code = (ins.splice code).mapError .refused := by
  obtain ⟨htiles, hstops⟩ := tiles_decodeAll code
  refine ⟨htiles.yields hstops.yields, htiles.offset_of_head?, htiles.isChain, ?_, ?_,
    fun ins => ins.spliceInPlace_eq code⟩
  · intro i hi
    have hdecode := htiles.decode_of_mem i hi
    obtain ⟨-, hpos, hfits⟩ := Instruction.decode_bounds hdecode
    exact ⟨hdecode, hpos, hfits, Instruction.ownsJumps_of_decode hdecode⟩
  · have hle := htiles.stop_le (Nat.zero_le _)
    generalize (decodeAll code).fault = fault at hstops
    cases hstops with
    | complete done => exact Nat.le_antisymm hle done
    | faulty inside fault => exact ⟨inside, fault⟩

/-- A table switch with one case, and a call that lacks a byte. -/
def cutOff : Array UInt8 :=
  #[0x1b, 0xaa, 0, 0, 0, 0, 0, 22, 0, 0, 0, 0, 0, 0, 0, 0, 0, 0, 0, 19, 0xb6, 0]

theorem decoding_tiles_cutOff :
    Decoding.Yields cutOff ⟨0, false⟩
      [.ok ⟨0, .iload1, 1⟩, .ok ⟨1, .tableSwitch, 19⟩, .error (.truncatedInstruction 20)] ∧
    Instruction.OwnsJumps cutOff ⟨1, .tableSwitch, 19⟩ ∧
    Instruction.jumpOperands cutOff ⟨1, .tableSwitch, 19⟩ = .ok [⟨4, .wide⟩, ⟨16, .wide⟩] := by
  obtain ⟨hyields, -, -, hinside, -, -⟩ := decoding_tiles cutOff
  have hitems : (decodeAll cutOff).items =
      [.ok ⟨0, .iload1, 1⟩, .ok ⟨1, .tableSwitch, 19⟩, .error (.truncatedInstruction 20)] := by
    decide +kernel
  have hmem : ⟨1, .tableSwitch, 19⟩ ∈ (decodeAll cutOff).instructions := by decide +kernel
  rw [hitems] at hyields
  exact ⟨hyields, (hinside _ hmem).2.2.2, by decide +kernel⟩

end Reshape
