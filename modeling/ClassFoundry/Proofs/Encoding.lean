import ClassFoundry.Proofs.Assembler.Resolution
import ClassFoundry.Proofs.Boundaries
import ClassFoundry.Proofs.Structured.Logic
import Mathlib

/-!
# Instructions are read back as they were written

An instruction is written with as few bytes as its operand allows, and nothing but the bytes tells
where the next one starts. So whoever reads the code has to find the lengths that the writer has
chosen. A body that is made of typed operations is read back operation by operation: the lengths
lead from each instruction to the next, and at each of them a frame finds the meaning that the
operation has.

## Main definitions

* `AsmOp.isTyped`: the operations that choose the instruction themselves
* `AsmOp.action?`, `AsmOp.ReadAs`: what an operation is to do, and the instructions that do it
* `Strides`: a walk along the code that knows nothing but the lengths of instructions
* `Causes`: the event that an operation is

## Main results

* `AsmOp.event_of_perform`: what one operation writes
* `located_of_performAll`: what a sequence of operations writes, and where
* `Walk.strides`: instructions that can be decoded are found by their lengths
* `strides_of_finish`: **what was written is what is read**
-/

namespace ClassFoundry

/-! ## Operations and their instructions -/

namespace AsmOp

/-- Whether an operation writes an instruction. All do but those on labels. -/
def isInstruction : AsmOp → Bool
  | .newLabel | .place _ => false
  | _ => true

/-- **The operations that choose the instruction themselves**, where they are used for what they are
for: small ints, the opcodes of calls and the opcodes of branches. -/
def isTyped : AsmOp → Bool
  | .byte .. | .short .. => false
  | .smallInt value => -0x8000 ≤ value.toInt && value.toInt ≤ 0x7fff
  | .invoke op .. => op = .invokevirtual || op = .invokespecial || op = .invokestatic
  | .branch op _ => op.isBranch
  | _ => true

/-- What the machine is to do at the instruction of an operation. The branches are left out, where
this depends on the place of the label. -/
def action? : AsmOp → Option Action
  | .plain op => op.plainAction?
  | .smallInt value => some (.frame (.pushInt value))
  | .constant index | .longConstant index => some (.frame (.pushConstant index))
  | .load kind slot => some (.frame (.load kind slot))
  | .store kind slot => some (.frame (.store kind slot))
  | .ret kind => some (.ret kind)
  | .invoke op index _ _ => op.shortAction? index
  | .getStatic index _ => some (.frame (.getStatic index))
  | .newObject index => some (.new index)
  | _ => none

/-- The instructions that an operation may be read back as. -/
def ReadAs : AsmOp → Instruction → Prop
  | .branch op _, i => ∃ operand, i = .short op operand
  | op, i => ∃ action, op.action? = some action ∧ i.action? = some action

end AsmOp

/-- **The event that an operation is**. -/
inductive Causes : AsmOp → Event → Prop where
  | instruction {op : AsmOp} {i : Instruction} {pops pushes : Nat}
      (isInstruction : op.isInstruction = true) (readAs : op.ReadAs i) :
      Causes op (.emit i pops pushes)
  | branch (op : Opcode) (l : Label) : Causes (.branch op l) (.branch op l)
  | newLabel : Causes .newLabel .fresh
  | place (l : Label) : Causes (.place l) (.place l)

namespace Asm

/-- An opcode without operands that the assembler accepts. -/
theorem plain_known {op : Opcode} {effect : Nat × Nat} (h : op.effect? = some effect) :
    (∃ action, op.plainAction? = some action) ∧ (Instruction.plain op).encodable = true ∧
      op.isBranch = false := by
  obtain ⟨action, haction, -⟩ := Option.bind_eq_some_iff.1 h
  refine ⟨⟨action, haction⟩, ?_⟩
  unfold Opcode.plainAction? at haction
  split at haction
  · exact ⟨rfl, rfl⟩
  · exact ⟨rfl, rfl⟩
  · exact ⟨rfl, rfl⟩
  · exact ⟨rfl, rfl⟩
  · obtain ⟨fop, hfop, -⟩ := Option.map_eq_some_iff.1 haction
    have hmeans := means_plain hfop
    exact ⟨hmeans.encodable, hmeans.branchless⟩

end Asm

namespace AsmOp

variable {op : AsmOp} {a a' : Assembler}

/-- An instruction that has the meaning of the operation. -/
theorem event_of_emits {i : Instruction} {pops pushes : Nat} {action : Action}
    (hop : ∀ op' l, op ≠ .branch op' l) (haction : op.action? = some action)
    (hi : Asm.Means i action) (he : Emits a i pops pushes a') :
    ∃ e : Event, e.Happens a a' ∧ Causes op e := by
  refine ⟨_, .emit hi.encodable hi.branchless he, .instruction ?_ ?_⟩
  · cases op with
    | newLabel | place _ => cases haction
    | _ => rfl
  · cases op with
    | branch op' l => exact absurd rfl (hop op' l)
    | _ => exact ⟨action, haction, hi.action⟩

/-- An instruction without operands, which may also end the path. -/
theorem event_of_plain {opcode : Opcode} (hop : ∀ op' l, op ≠ .branch op' l)
    (haction : op.action? = opcode.plainAction?) (h : Asm.plain opcode a = .ok () a') :
    ∃ e : Event, e.Happens a a' ∧ Causes op e := by
  obtain ⟨pops, pushes, heffect, hemits⟩ := Asm.plain_emits h
  obtain ⟨⟨action, hplain⟩, hencodable, hbranch⟩ := Asm.plain_known heffect
  refine ⟨_, .emit hencodable hbranch hemits, .instruction ?_ ?_⟩
  · cases op with
    | newLabel | place _ => cases haction.trans hplain
    | _ => rfl
  · cases op with
    | branch op' l => exact absurd rfl (hop op' l)
    | _ => exact ⟨action, haction.trans hplain, hplain⟩

/-- **What one operation writes**: an instruction with its meaning, a branch, or nothing. -/
theorem event_of_perform (htyped : op.isTyped = true) (h : op.perform a = .ok () a') :
    ∃ e : Event, e.Happens a a' ∧ Causes op e := by
  cases op with
  | plain opcode => exact event_of_plain nofun rfl h
  | byte | short => cases htyped
  | smallInt value =>
    obtain ⟨small, b, hsmall, hb⟩ := bind_ok.1 h
    obtain ⟨-, rfl⟩ := pure_ok.1 hb
    have hok := Asm.smallInt_ok hsmall
    -- a typed operation pushes a value in range, so an instruction is written
    rw [if_pos (by simpa [isTyped] using htyped)] at hok
    obtain ⟨-, i, hi, -, hemits⟩ := hok
    exact event_of_emits nofun rfl hi hemits
  | constant index =>
    obtain ⟨i, hi, -, hemits⟩ := Asm.constant_ok h
    exact event_of_emits nofun rfl hi hemits
  | longConstant index =>
    exact event_of_emits nofun rfl (i := .short .ldc2_w index) ⟨rfl, rfl, rfl, rfl⟩
      (Asm.instruction_emits rfl h)
  | load kind slot =>
    obtain ⟨hslot, hemits⟩ := Asm.load_emits h
    have hfits : slot ≤ 0xffff := by unfold maxFrameWords at hslot; omega
    exact event_of_emits nofun rfl (Asm.loadInstruction_means kind slot hfits) hemits
  | store kind slot =>
    obtain ⟨hslot, hemits⟩ := Asm.store_emits h
    have hfits : slot ≤ 0xffff := by unfold maxFrameWords at hslot; omega
    exact event_of_emits nofun rfl (Asm.storeInstruction_means kind slot hfits) hemits
  | ret kind =>
    refine event_of_plain nofun ?_ h
    rcases kind with _ | kind
    · rfl
    · cases kind <;> rfl
  | invoke opcode index argWords returnWords =>
    have hopcode : ∃ mode : CallMode, opcode = mode.opcode := by
      simp only [isTyped, Bool.or_eq_true, decide_eq_true_eq] at htyped
      rcases htyped with (rfl | rfl) | rfl
      · exact ⟨.virtual, rfl⟩
      · exact ⟨.special, rfl⟩
      · exact ⟨.static, rfl⟩
    obtain ⟨mode, rfl⟩ := hopcode
    have hi := mode.means index
    exact event_of_emits nofun hi.action hi (Asm.instruction_emits hi.straight h)
  | getStatic index words =>
    exact event_of_emits nofun rfl (i := .short .getstatic index) ⟨rfl, rfl, rfl, rfl⟩
      (Asm.instruction_emits rfl h)
  | newObject index =>
    exact event_of_emits nofun rfl (i := .short .new index) ⟨rfl, rfl, rfl, rfl⟩
      (Asm.instruction_emits rfl h)
  | newLabel =>
    obtain ⟨l, b, hl, hb⟩ := bind_ok.1 h
    obtain ⟨-, rfl⟩ := pure_ok.1 hb
    obtain ⟨-, rfl⟩ := Asm.newLabel_ok hl
    exact ⟨_, .fresh a, .newLabel⟩
  | branch opcode l => exact ⟨_, .branch htyped (Asm.branch_branches h), .branch opcode l⟩
  | place l => exact ⟨_, .place (Asm.place_places h), .place l⟩

end AsmOp

/-! ## Sequences of operations -/

/-- The operations of a history that write an instruction, with the offsets of their instructions. -/
def written (h : List (Nat × AsmOp)) : List (Nat × AsmOp) := h.filter (·.2.isInstruction)

/-- **What a sequence of operations writes, and where**. -/
theorem located_of_performAll {ops : List AsmOp} (htyped : ∀ op ∈ ops, op.isTyped = true)
    {es : List Event} {n : Nat} {a a' : Assembler} (hruns : Runs es (.start n) a)
    (h : performAll ops a = .ok () a') :
    ∃ fs, Runs (es ++ fs) (.start n) a' ∧
      List.Forall₂ (fun x y => x.1 = y.1 ∧ Causes x.2 y.2) (history ops a)
        (located (bytesOf es) fs) := by
  induction ops generalizing a es with
  | nil =>
    obtain ⟨-, rfl⟩ := pure_ok.1 h
    exact ⟨[], by simpa using hruns, .nil⟩
  | cons op ops ih =>
    obtain ⟨_, b, hop, hops⟩ := bind_ok.1 h
    obtain ⟨e, he, hcauses⟩ := AsmOp.event_of_perform (htyped op List.mem_cons_self) hop
    have hstep := hruns.append (.single he)
    obtain ⟨fs, hfs, hall⟩ := ih (fun o ho => htyped o (List.mem_cons_of_mem _ ho)) hstep hops
    refine ⟨e :: fs, by simpa using hfs, ?_⟩
    simp only [history, hop, located]
    refine .cons ⟨hruns.rendered.size, hcauses⟩ ?_
    simpa [bytesOf_append, bytesOf] using hall

/-- The instructions of the events that operations are belong to the operations that write them. -/
theorem readAs_of_causes {h : List (Nat × AsmOp)} {es : List Event} {offset : Nat}
    (place : Label → Option Nat)
    (hall : List.Forall₂ (fun x y => x.1 = y.1 ∧ Causes x.2 y.2) h (located offset es)) :
    List.Forall₂ (fun x y => x.1 = y.1 ∧ x.2.ReadAs y.2) (written h)
      (instructionsFrom place offset es) := by
  induction es generalizing offset h with
  | nil =>
    cases hall
    exact .nil
  | cons e es ih =>
    obtain ⟨⟨pc, op⟩, h, ⟨hpc, hcauses⟩, hrest, rfl⟩ := List.forall₂_cons_right_iff.1 hall
    have ih := ih hrest
    dsimp only at hpc hcauses
    subst hpc
    cases hcauses with
    | instruction hop hread =>
      simp only [written, List.filter_cons, hop, if_true]
      exact .cons ⟨rfl, hread⟩ ih
    | branch op l => exact .cons ⟨rfl, _, rfl⟩ ih
    | newLabel => exact ih
    | place l => exact ih

/-! ## Reading -/

/-- **A walk along the code by lengths**: each instruction starts where the one before it ends, and
the last one ends with the code. -/
inductive Strides (code : CodeArray) : Nat → List Nat → Prop where
  | done : Strides code code.size []
  | next {pc n : Nat} {rest : List Nat} (length : lengthAt? code pc = some n)
      (tail : Strides code (pc + n) rest) : Strides code pc (pc :: rest)

/-- There is only one walk: at the end of the code is no instruction. -/
theorem Strides.unique {code : CodeArray} {pc : Nat} {l l' : List Nat} (h : Strides code pc l)
    (h' : Strides code pc l') : l = l' := by
  have hend : lengthAt? code code.size = none := by simp [lengthAt?, formatAt?]
  induction h generalizing l' with
  | done =>
    cases h' with
    | done => rfl
    | next length _ => cases hend.symm.trans length
  | next length tail ih =>
    cases h' with
    | done => cases hend.symm.trans length
    | next length' tail' =>
      cases length.symm.trans length'
      rw [ih tail']

theorem Walk.strides {code : CodeArray} {pc : Nat} {l : List (Nat × Instruction)}
    (h : Walk code pc l) : Strides code pc (l.map Prod.fst) := by
  induction h with
  | done => exact .done
  | next decoded tail ih => exact .next (decodeAt_length decoded).1 ih

/-- **What was written is what is read**. The walk along the lengths of instructions leads through a
finished body of typed operations from each operation to the next and to the end; and where an
operation has written, a frame finds an instruction that does what the operation says. -/
theorem strides_of_finish {ops : List AsmOp} {n : Nat} {a : Assembler} {f : Finished}
    (htyped : ∀ op ∈ ops, op.isTyped = true) (h : performAll ops (.start n) = .ok () a)
    (hf : a.finish = .ok f) :
    (∀ offsets, Strides f.code 0 offsets ↔
        offsets = (written (history ops (.start n))).map Prod.fst) ∧
      ∀ pc op, (pc, op) ∈ written (history ops (.start n)) →
        ∃ i, decodeAt f.code pc = .ok i ∧ op.ReadAs i ∧
          ∀ action, op.action? = some action →
            ∀ frame : Frame, frame.code = f.code → frame.pc = pc → frame.fetch = .ok (i, action) := by
  obtain ⟨-, hcode, -⟩ := Assembler.finish_ok hf
  rw [hcode]
  obtain ⟨es, hruns, hall⟩ := located_of_performAll htyped (.nil _) h
  have hread := readAs_of_causes a.labels.offset? hall
  have hsweep := sweep_eq hruns
  have hwalk : Walk a.code 0 (sweep a.code).instructions.toList := .of_sweep (by rw [hsweep])
  rw [hsweep] at hwalk
  constructor
  · have hfst : (written (history ops (.start n))).map Prod.fst =
        (instructionsFrom a.labels.offset? 0 es).map Prod.fst := by
      rw [← List.forall₂_eq_eq_eq, List.forall₂_map_left_iff, List.forall₂_map_right_iff]
      exact hread.imp fun _ _ hxy => hxy.1
    intro offsets
    rw [hfst]
    constructor
    · intro hoffsets
      exact hoffsets.unique hwalk.strides
    · rintro rfl
      exact hwalk.strides
  · intro pc op hmem
    obtain ⟨⟨_, i⟩, hi, rfl, hop⟩ := forall₂_left hread hmem
    have hdecode := (hwalk.mem hi).1
    refine ⟨i, hdecode, hop, ?_⟩
    intro action haction frame hframe hpc
    refine Frame.fetch_of_action? (by rw [hframe, hpc]; exact hdecode) ?_
    cases op with
    | branch => cases haction
    | _ =>
      obtain ⟨action', haction', hi'⟩ := hop
      rwa [← haction, haction']

/-- The finished body of operations, if there is one. -/
def assembled? (n : Nat) (ops : List AsmOp) : Option Finished :=
  match performAll ops (.start n) with
  | .ok _ a => a.finish.toOption
  | .error _ _ => none

theorem finish_of_assembled? {n : Nat} {ops : List AsmOp} {f : Finished}
    (h : assembled? n ops = some f) :
    ∃ a, performAll ops (.start n) = .ok () a ∧ a.finish = .ok f := by
  unfold assembled? at h
  cases hops : performAll ops (.start n) with
  | error e a =>
    rw [hops] at h
    cases h
  | ok u a =>
    have hfinish : a.finish.toOption = some f := by rwa [hops] at h
    cases hf : a.finish with
    | error e => simp [hf, Except.toOption] at hfinish
    | ok f' =>
      obtain rfl : f' = f := by simpa [hf, Except.toOption] using hfinish
      exact ⟨a, rfl, hf⟩

/-- A loop through a variable that only the longest loads and stores reach. -/
def spill : List AsmOp :=
  [.newLabel, .place ⟨0⟩, .smallInt (-300), .store .int 256, .load .int 256, .branch .ifne ⟨0⟩,
    .ret none]

theorem strides_of_finish_spill : ∃ a f, (∀ op ∈ spill, op.isTyped = true) ∧
    performAll spill (.start 1) = .ok () a ∧ a.finish = .ok f ∧
    Strides f.code 0 [0, 3, 7, 11, 14] ∧
    ∀ frame : Frame, frame.code = f.code → frame.pc = 7 →
      ∃ i, frame.fetch = .ok (i, .frame (.load .int 256)) := by
  have htyped : ∀ op ∈ spill, op.isTyped = true := by decide
  have hsome : (assembled? 1 spill).isSome = true := by cbv
  have hhistory : (written (history spill (.start 1))) = [(0, .smallInt (-300)),
      (3, .store .int 256), (7, .load .int 256), (11, .branch .ifne ⟨0⟩), (14, .ret none)] := by cbv
  obtain ⟨f, hassembled⟩ := Option.isSome_iff_exists.1 hsome
  obtain ⟨a, ha, hf⟩ := finish_of_assembled? hassembled
  obtain ⟨hstrides, hread⟩ := strides_of_finish htyped ha hf
  rw [hhistory] at hstrides hread
  obtain ⟨i, -, -, hfetch⟩ := hread 7 (.load .int 256) (by simp)
  exact ⟨a, f, htyped, ha, hf, (hstrides _).2 rfl, fun frame hcode hpc =>
    ⟨i, hfetch _ rfl frame hcode hpc⟩⟩

end ClassFoundry
