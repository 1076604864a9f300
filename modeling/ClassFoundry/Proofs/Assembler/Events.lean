import ClassFoundry.Proofs.Success

/-!
# What the assembler does

Every operation of the assembler is one of four events: an instruction is appended, a branch is
appended, a label is made, or a label is placed. For each of them this file says once what becomes
of the state; what holds of whole runs is then proved by induction on the events.

## Main definitions

* `Instruction.encodable`: the bytes of an instruction determine it
* `Emits`, `Branches`, `Places`: the state after an event, field by field
* `Event`, `Event.Happens`, `Runs`: events and runs

## Main results

* `instruction_emits`, `plain_emits`, `load_emits`, `store_emits`: operations that append an
  instruction
* `branch_branches`, `place_places`: branches and labels
-/

namespace ClassFoundry

/-- Whether the opcode of an instruction has the format of the instruction, so that the bytes
determine it. -/
def Instruction.encodable : Instruction → Bool
  | .plain op => op.format? == some .plain
  | .byte op _ => op.format? == some .byte
  | .short op _ => op.format? == some .short
  | .wide op _ => op.isIndexedLocal

namespace LabelTable

/-- The stack depth that a label is known to have. -/
def depthAt? (t : LabelTable) (l : Label) : Option Nat := t.states[l.id]?.bind LabelState.entryDepth

theorem offset?_eq (t : LabelTable) (l : Label) :
    t.offset? l = t.states[l.id]?.bind LabelState.offset := by
  unfold offset?
  cases t.states[l.id]? <;> rfl

theorem fresh_offset? (t : LabelTable) (l : Label) : t.fresh.2.offset? l = t.offset? l := by
  rw [offset?_eq, offset?_eq]
  simp only [fresh, Array.getElem?_push]
  split
  · rename_i h
    simp [h]
  · rfl

theorem fresh_depthAt? (t : LabelTable) (l : Label) : t.fresh.2.depthAt? l = t.depthAt? l := by
  simp only [fresh, depthAt?, Array.getElem?_push]
  split
  · rename_i h
    simp [h]
  · rfl

variable {t t' : LabelTable} {l : Label} {d : Nat}

theorem noteDepth_ok (h : t.noteDepth l d = .ok t') :
    l.id < t.states.size ∧ t'.states.size = t.states.size ∧ t'.pending = t.pending ∧
      (∀ l', t'.offset? l' = t.offset? l') ∧
      ∀ l', t'.depthAt? l' = if l' = l then (t.depthAt? l).or (some d) else t.depthAt? l' := by
  unfold noteDepth at h
  split at h
  · rename_i s hs
    cases h
    obtain ⟨hlt, hget⟩ := Array.getElem?_eq_some_iff.1 hs
    refine ⟨hlt, by simp, rfl, fun l' => ?_, fun l' => ?_⟩
    · simp only [offset?_eq, Array.getElem?_setIfInBounds]
      split
      · rename_i h
        simp [← h, hlt, hget]
      · rfl
    · simp only [depthAt?, Array.getElem?_setIfInBounds]
      by_cases hl : l' = l
      · simp [hl, hlt, hget]
      · have hid : l.id ≠ l'.id := fun h => hl (by cases l; cases l'; simp_all)
        simp [hl, hid]
  · simp at h

/-- A depth can be recorded for every label that was made. -/
theorem exists_noteDepth_iff : (∃ t', t.noteDepth l d = .ok t') ↔ l.id < t.states.size := by
  constructor
  · rintro ⟨t', h⟩
    exact (noteDepth_ok h).1
  · intro hknown
    unfold noteDepth
    rw [Array.getElem?_eq_getElem hknown]
    exact ⟨_, rfl⟩

theorem place_ok {offset : Nat} {ws : List PendingBranch} (h : t.place l offset = .ok (ws, t')) :
    l.id < t.states.size ∧ t.offset? l = none ∧ t'.states.size = t.states.size ∧
      ws = (t.pending.filter (·.label = l)).toList ∧
      t'.pending = t.pending.filter (·.label ≠ l) ∧
      (∀ l', t'.offset? l' = if l' = l then some offset else t.offset? l') ∧
      ∀ l', t'.depthAt? l' = t.depthAt? l' := by
  unfold place at h
  split at h
  · simp at h
  · rename_i s hs
    obtain ⟨hlt, hget⟩ := Array.getElem?_eq_some_iff.1 hs
    split at h
    · simp at h
    · rename_i hoff
      cases h
      have hnone : s.offset = none := by simpa using hoff
      refine ⟨hlt, by simp [offset?_eq, hs, hnone], by simp, rfl, rfl, fun l' => ?_, fun l' => ?_⟩
      · simp only [offset?_eq, Array.getElem?_setIfInBounds]
        by_cases hl : l' = l
        · simp [hl, hlt]
        · have hid : l.id ≠ l'.id := fun h => hl (by cases l; cases l'; simp_all)
          simp [hl, hid]
      · simp only [depthAt?, Array.getElem?_setIfInBounds]
        split
        · rename_i h
          simp [← h, hlt, hget]
        · rfl

/-- A label can be placed once, after it was made. -/
theorem exists_place_iff {offset : Nat} :
    (∃ bs t', t.place l offset = .ok (bs, t')) ↔ l.id < t.states.size ∧ t.offset? l = none := by
  constructor
  · rintro ⟨bs, t', h⟩
    obtain ⟨hknown, hopen, -⟩ := place_ok h
    exact ⟨hknown, hopen⟩
  · rintro ⟨hknown, hopen⟩
    rw [offset?_eq, Array.getElem?_eq_getElem hknown] at hopen
    unfold place
    rw [Array.getElem?_eq_getElem hknown]
    dsimp only
    rw [if_neg (by simpa using hopen)]
    exact ⟨_, _, rfl⟩

end LabelTable

/-- The state after an instruction was appended. -/
structure Emits (a : Assembler) (i : Instruction) (pops pushes : Nat) (a' : Assembler) : Prop where
  code : a'.code.toList = a.code.toList ++ i.encode
  labels : a'.labels = a.labels
  branches : a'.branches = a.branches
  trace : ∃ op, a'.trace = a.trace.push ⟨a.code.size, a.depth, op⟩
  pops_le : pops ≤ a.depth
  depth : a'.depth = a.depth - pops + pushes
  maxDepth : a.depth ≤ a.maxDepth → a'.maxDepth = max a.maxDepth a'.depth
  maxDepth_le : a.maxDepth ≤ maxFrameWords → a'.maxDepth ≤ maxFrameWords
  maxLocals : a.maxLocals ≤ a'.maxLocals
  maxLocals_le : a.maxLocals ≤ maxFrameWords → a'.maxLocals ≤ maxFrameWords
  alive : a'.alive = (a.alive && !i.opcode.isTerminal)

/-- The state after a branch was appended. -/
structure Branches (a : Assembler) (op : Opcode) (l : Label) (a' : Assembler) : Prop where
  known : l.id < a.labels.states.size
  trace : a'.trace = a.trace.push ⟨a.code.size, a.depth, op⟩
  branches : a'.branches = a.branches.push (a.code.size, l)
  pops_le : op.branchPops ≤ a.depth
  depth : a'.depth = a.depth - op.branchPops
  maxDepth : a'.maxDepth = a.maxDepth
  maxLocals : a'.maxLocals = a.maxLocals
  alive : a'.alive = (a.alive && !op.isTerminal)
  size : a'.labels.states.size = a.labels.states.size
  offset : ∀ l', a'.labels.offset? l' = a.labels.offset? l'
  entry : ∀ l', a'.labels.depthAt? l' =
    if l' = l then (a.labels.depthAt? l).or (some a'.depth) else a.labels.depthAt? l'
  /-- A backward branch is complete, a forward one is left open. -/
  operand : (∃ t w, a.labels.offset? l = some t ∧ Asm.relative a.code.size t = .ok w ∧
      a'.code.toList = a.code.toList ++ op :: be16 w ∧ a'.labels.pending = a.labels.pending) ∨
    (a.labels.offset? l = none ∧ a'.code.toList = a.code.toList ++ op :: be16 0 ∧
      a'.labels.pending = a.labels.pending.push ⟨a.code.size, a.code.size + 1, l⟩)

/-- Code in which the operands of open branches are filled in. -/
def patches (target : Nat) : List PendingBranch → CodeArray → Except AsmError CodeArray
  | [], code => .ok code
  | b :: rest, code =>
    match Asm.relative b.branch target with
    | .ok value => patches target rest (Asm.patch code b.operand value)
    | .error e => .error e

/-- The state after a label was placed. -/
structure Places (a : Assembler) (l : Label) (a' : Assembler) : Prop where
  known : l.id < a.labels.states.size
  unplaced : a.labels.offset? l = none
  trace : a'.trace = a.trace
  branches : a'.branches = a.branches
  maxDepth : a'.maxDepth = a.maxDepth
  maxLocals : a'.maxLocals = a.maxLocals
  depth : a'.depth = if a.alive then a.depth else (a.labels.depthAt? l).getD a.depth
  alive : a'.alive = true
  size : a'.labels.states.size = a.labels.states.size
  offset : ∀ l', a'.labels.offset? l' = if l' = l then some a.code.size else a.labels.offset? l'
  entry : ∀ l', a'.labels.depthAt? l' =
    if l' = l then (a.labels.depthAt? l).or (some a.depth) else a.labels.depthAt? l'
  pending : a'.labels.pending = a.labels.pending.filter (·.label ≠ l)
  code : patches a.code.size (a.labels.pending.filter (·.label = l)).toList a.code = .ok a'.code

namespace Asm

variable {a a' : Assembler} {u : Unit}

theorem toList_foldl_push (bytes : Bytes) (code : CodeArray) :
    (bytes.foldl Array.push code).toList = code.toList ++ bytes := by
  induction bytes generalizing code with
  | nil => simp
  | cons b rest ih =>
    rw [List.foldl_cons, ih]
    simp

theorem emit_ok {bytes : Bytes} :
    emit bytes a = .ok u a' ↔ { a with code := bytes.foldl Array.push a.code } = a' :=
  modify_ok

theorem record_ok {op : Opcode} :
    record op a = .ok u a' ↔ { a with trace := a.trace.push ⟨a.code.size, a.depth, op⟩ } = a' :=
  modify_ok

theorem pc_ok {n : Nat} : pc a = .ok n a' ↔ a.code.size = n ∧ a = a' := by
  simp only [pc, bind_ok, get_ok, pure_ok, Assembler.pc]
  constructor
  · rintro ⟨_, _, ⟨rfl, rfl⟩, h⟩
    exact h
  · rintro ⟨rfl, rfl⟩
    exact ⟨_, _, ⟨rfl, rfl⟩, rfl, rfl⟩

theorem popWords_ok {n offset : Nat} :
    popWords n offset a = .ok u a' ↔ n ≤ a.depth ∧ { a with depth := a.depth - n } = a' := by
  unfold popWords
  by_cases h : n ≤ a.depth <;> simp [h]

theorem pushWords_ok {n : Nat} :
    pushWords n a = .ok u a' ↔ a.depth + n ≤ maxFrameWords ∧
      { a with depth := a.depth + n, maxDepth := max a.maxDepth (a.depth + n) } = a' := by
  unfold pushWords
  by_cases h : a.depth + n ≤ maxFrameWords <;> simp [h]

theorem touchLocal_ok {kind : Kind} {slot : Nat} :
    touchLocal kind slot a = .ok u a' ↔ slot + kind.words ≤ maxFrameWords ∧
      { a with maxLocals := max a.maxLocals (slot + kind.words) } = a' := by
  unfold touchLocal
  by_cases h : slot + kind.words ≤ maxFrameWords <;> simp [h]

/-- An instruction with a known effect is appended. Whether the code after it is alive is left to
the caller. -/
theorem instruction_appends {i : Instruction} {pops pushes : Nat}
    (h : instruction i pops pushes a = .ok u a') :
    a'.alive = a.alive ∧
      Emits a i pops pushes { a' with alive := a.alive && !i.opcode.isTerminal } := by
  simp only [instruction, bind_ok, record_ok, pc_ok, emit_ok, popWords_ok, pushWords_ok] at h
  obtain ⟨_, _, rfl, _, _, ⟨rfl, rfl⟩, _, _, rfl, _, _, ⟨hpops, rfl⟩, hroom, rfl⟩ := h
  dsimp only at hpops hroom
  exact ⟨rfl, {
    code := toList_foldl_push _ _
    labels := rfl
    branches := rfl
    trace := ⟨_, rfl⟩
    pops_le := hpops
    depth := rfl
    maxDepth := fun _ => rfl
    maxDepth_le := fun hle => Nat.max_le.2 ⟨hle, hroom⟩
    maxLocals := Nat.le_refl _
    maxLocals_le := id
    alive := rfl }⟩

theorem instruction_emits {i : Instruction} {pops pushes : Nat} (hi : i.opcode.isTerminal = false)
    (h : instruction i pops pushes a = .ok u a') : Emits a i pops pushes a' := by
  obtain ⟨halive, hemits⟩ := instruction_appends h
  rwa [hi, Bool.not_false, Bool.and_true, ← halive] at hemits

/-- An instruction without operands. -/
theorem plain_emits {op : Opcode} (h : plain op a = .ok u a') :
    ∃ pops pushes, op.effect? = some (pops, pushes) ∧ Emits a (.plain op) pops pushes a' := by
  unfold plain at h
  cases heffect : op.effect? with
  | none =>
    rw [heffect] at h
    exact absurd h throw_ok.1
  | some effect =>
    obtain ⟨pops, pushes⟩ := effect
    rw [heffect] at h
    simp only [endIfTerminal, bind_ok, modify_ok] at h
    obtain ⟨_, b, hb, rfl⟩ := h
    obtain ⟨halive, hemits⟩ := instruction_appends hb
    rw [halive]
    exact ⟨pops, pushes, rfl, hemits⟩

/-- The shortest load or store of a slot. -/
def localInstruction (op short : Opcode) (slot : Nat) : Instruction :=
  if slot ≤ 3 then .plain (short + UInt8.ofNat slot)
  else if slot ≤ 0xff then .byte op (UInt8.ofNat slot)
  else .wide op (UInt16.ofNat slot)

theorem localAccess_ok {op short : Opcode} {slot : Nat} (h : localAccess op short slot a = .ok u a') :
    ∃ shown, a' = { a with
      code := (localInstruction op short slot).encode.foldl Array.push a.code
      trace := a.trace.push ⟨a.code.size, a.depth, shown⟩ } := by
  unfold localAccess at h
  unfold localInstruction
  split at h
  · simp only [bind_ok, record_ok, emit_ok] at h
    obtain ⟨_, _, rfl, rfl⟩ := h
    exact ⟨short, by simp only [*, if_true]⟩
  · split at h <;> simp only [bind_ok, record_ok, emit_ok] at h <;>
      obtain ⟨_, _, rfl, rfl⟩ := h
    · exact ⟨op, by simp only [*, if_true, if_false]⟩
    · exact ⟨.wide, by simp only [*, if_false]⟩

/-- What is known of an instruction that the compiler appends: its bytes determine it, it has the
given meaning, and control passes to the next instruction. -/
structure Means (i : Instruction) (action : Action) : Prop where
  encodable : i.encodable = true
  action : i.action? = some action
  straight : i.opcode.isTerminal = false
  branchless : i.opcode.isBranch = false

theorem localInstruction_means {op short : Opcode} {access : Nat → FrameOp} {slot : Nat}
    (hslot : slot ≤ 0xffff)
    (hshort : ∀ k : Fin 4, Means (.plain (short + UInt8.ofNat k)) (.frame (access k)))
    (hbyte : ∀ b, Means (.byte op b) (.frame (access b.toNat)))
    (hwide : ∀ w, Means (.wide op w) (.frame (access w.toNat))) :
    Means (localInstruction op short slot) (.frame (access slot)) := by
  unfold localInstruction
  split
  · exact hshort ⟨slot, by omega⟩
  · split
    · have h := hbyte (UInt8.ofNat slot)
      rwa [UInt8.toNat_ofNat', Nat.mod_eq_of_lt (by omega)] at h
    · have h := hwide (UInt16.ofNat slot)
      rwa [UInt16.toNat_ofNat', Nat.mod_eq_of_lt (by omega)] at h

theorem loadInstruction_means (kind : Kind) (slot : Nat) (hslot : slot ≤ 0xffff) :
    Means (localInstruction kind.loadOp kind.loadShort slot) (.frame (.load kind slot)) := by
  cases kind
  all_goals
    refine localInstruction_means hslot ?_ (fun _ => ⟨rfl, rfl, rfl, rfl⟩)
      (fun _ => ⟨rfl, rfl, rfl, rfl⟩)
    intro k
    match k with
    | 0 | 1 | 2 | 3 => exact ⟨rfl, rfl, rfl, rfl⟩

theorem storeInstruction_means (kind : Kind) (slot : Nat) (hslot : slot ≤ 0xffff) :
    Means (localInstruction kind.storeOp kind.storeShort slot) (.frame (.store kind slot)) := by
  cases kind
  all_goals
    refine localInstruction_means hslot ?_ (fun _ => ⟨rfl, rfl, rfl, rfl⟩)
      (fun _ => ⟨rfl, rfl, rfl, rfl⟩)
    intro k
    match k with
    | 0 | 1 | 2 | 3 => exact ⟨rfl, rfl, rfl, rfl⟩

/-- The load of a slot. -/
theorem load_emits {kind : Kind} {slot : Nat} (h : load kind slot a = .ok u a') :
    slot + kind.words ≤ maxFrameWords ∧
      Emits a (localInstruction kind.loadOp kind.loadShort slot) 0 kind.words a' := by
  simp only [load, bind_ok, touchLocal_ok, pushWords_ok] at h
  obtain ⟨_, b, hb, _, _, ⟨hslot, rfl⟩, hroom, rfl⟩ := h
  obtain ⟨shown, rfl⟩ := localAccess_ok hb
  dsimp only at hroom
  have hmeans := loadInstruction_means kind slot (by unfold maxFrameWords at hslot; omega)
  exact ⟨hslot, {
    code := toList_foldl_push _ _
    labels := rfl
    branches := rfl
    trace := ⟨_, rfl⟩
    pops_le := Nat.zero_le _
    depth := rfl
    maxDepth := fun _ => rfl
    maxDepth_le := fun hle => Nat.max_le.2 ⟨hle, hroom⟩
    maxLocals := Nat.le_max_left _ _
    maxLocals_le := fun hle => Nat.max_le.2 ⟨hle, hslot⟩
    alive := by simp [hmeans.straight] }⟩

/-- The store to a slot. -/
theorem store_emits {kind : Kind} {slot : Nat} (h : store kind slot a = .ok u a') :
    slot + kind.words ≤ maxFrameWords ∧
      Emits a (localInstruction kind.storeOp kind.storeShort slot) kind.words 0 a' := by
  simp only [store, bind_ok, pc_ok, touchLocal_ok, popWords_ok] at h
  obtain ⟨_, _, ⟨rfl, rfl⟩, _, b, hb, _, _, ⟨hslot, rfl⟩, hpops, rfl⟩ := h
  obtain ⟨shown, rfl⟩ := localAccess_ok hb
  dsimp only at hpops
  have hmeans := storeInstruction_means kind slot (by unfold maxFrameWords at hslot; omega)
  exact ⟨hslot, {
    code := toList_foldl_push _ _
    labels := rfl
    branches := rfl
    trace := ⟨_, rfl⟩
    pops_le := hpops
    depth := rfl
    maxDepth := fun hle => (Nat.max_eq_left (Nat.le_trans (Nat.sub_le _ _) hle)).symm
    maxDepth_le := id
    maxLocals := Nat.le_max_left _ _
    maxLocals_le := fun hle => Nat.max_le.2 ⟨hle, hslot⟩
    alive := by simp [hmeans.straight] }⟩

theorem noteDepth_ok {l : Label} (h : noteDepth l a = .ok u a') :
    ∃ t, a.labels.noteDepth l a.depth = .ok t ∧ a' = { a with labels := t } := by
  unfold noteDepth at h
  split at h
  · rename_i t ht
    cases h
    exact ⟨t, ht, rfl⟩
  · simp at h

/-- **A branch to a label**. -/
theorem branch_branches {op : Opcode} {l : Label} (h : branch op l a = .ok u a') :
    Branches a op l a' := by
  simp only [branch, bind_ok, record_ok, pc_ok, popWords_ok, emit_ok, modify_ok, get_ok] at h
  obtain ⟨_, _, rfl, _, _, ⟨rfl, rfl⟩, _, _, ⟨hpops, rfl⟩, _, b, hb, _, _, rfl, _, _, rfl, _, _,
    ⟨rfl, rfl⟩, h⟩ := h
  obtain ⟨t, ht, rfl⟩ := noteDepth_ok hb
  obtain ⟨hknown, hsize, hpending, hoffset, hentry⟩ := LabelTable.noteDepth_ok ht
  dsimp only at h hpops hknown hsize hpending hoffset hentry
  rw [hoffset] at h
  -- a branch back gets its distance now, one forward waits until its label is placed
  cases hl : a.labels.offset? l with
  | some target =>
    rw [hl] at h
    dsimp only at h
    cases hw : relative a.code.size target with
    | error e =>
      rw [hw] at h
      simp only [bind_ok, throw_ok, false_and, exists_false] at h
    | ok w =>
      rw [hw] at h
      simp only [bind_ok, emit_ok, endIfTerminal, modify_ok] at h
      obtain ⟨_, _, rfl, rfl⟩ := h
      exact {
        known := hknown
        trace := rfl
        branches := rfl
        pops_le := hpops
        depth := rfl
        maxDepth := rfl
        maxLocals := rfl
        alive := rfl
        size := hsize
        offset := hoffset
        entry := hentry
        operand := .inl ⟨target, w, hl, hw, by simp [be16], hpending⟩ }
  | none =>
    rw [hl] at h
    simp only [bind_ok, pc_ok, emit_ok, modify_ok, endIfTerminal] at h
    obtain ⟨_, _, ⟨rfl, rfl⟩, _, _, rfl, _, _, rfl, rfl⟩ := h
    exact {
      known := hknown
      trace := rfl
      branches := rfl
      pops_le := hpops
      depth := rfl
      maxDepth := rfl
      maxLocals := rfl
      alive := rfl
      size := hsize
      offset := hoffset
      entry := hentry
      operand := .inr ⟨hl, by simp [be16], by simp [LabelTable.addPending, hpending]⟩ }

theorem patchAll_ok {target : Nat} {ws : List PendingBranch} (h : patchAll target ws a = .ok u a') :
    ∃ code, patches target ws a.code = .ok code ∧ a' = { a with code } := by
  induction ws generalizing a with
  | nil =>
    rw [patchAll, pure_ok] at h
    exact ⟨a.code, rfl, h.2.symm⟩
  | cons b rest ih =>
    rw [patchAll] at h
    rw [patches]
    cases hw : relative b.branch target with
    | error e =>
      rw [hw] at h
      exact absurd h throw_ok.1
    | ok w =>
      rw [hw] at h
      simp only [bind_ok, modify_ok] at h
      obtain ⟨_, _, rfl, h⟩ := h
      exact ih h

/-- **The placing of a label**. -/
theorem place_places {l : Label} (h : place l a = .ok u a') : Places a l a' := by
  simp only [place, bind_ok, pc_ok] at h
  obtain ⟨_, _, ⟨rfl, rfl⟩, ws, b, hb, _, d, hd, h⟩ := h
  unfold takePending at hb
  split at hb
  · rename_i waiting labels hplace
    cases hb
    obtain ⟨hknown, hnone, hsize, rfl, hpending, hoffset, hentry⟩ := LabelTable.place_ok hplace
    obtain ⟨code, hcode, rfl⟩ := patchAll_ok hd
    dsimp only at hcode
    unfold enterLabel at h
    dsimp only at h
    have hstate : l.id < labels.states.size := by rw [hsize]; exact hknown
    have hdepth : labels.entryDepth? l = .ok (labels.depthAt? l) := by
      simp [LabelTable.entryDepth?, LabelTable.depthAt?, hstate]
    rw [hdepth, hentry] at h
    -- a label that no branch has reached notes the current depth when it is placed
    cases hl : a.labels.depthAt? l with
    | some depth =>
      rw [hl] at h
      cases h
      exact {
        known := hknown
        unplaced := hnone
        trace := rfl
        branches := rfl
        maxDepth := rfl
        maxLocals := rfl
        depth := by simp [hl]
        alive := rfl
        size := hsize
        offset := hoffset
        entry := fun l' => by
          rw [hentry]
          split
          · simp_all
          · rfl
        pending := hpending
        code := hcode }
    | none =>
      rw [hl] at h
      dsimp only at h
      split at h
      · rename_i labels' hnote
        cases h
        obtain ⟨-, hsize', hpending', hoffset', hentry'⟩ := LabelTable.noteDepth_ok hnote
        exact {
          known := hknown
          unplaced := hnone
          trace := rfl
          branches := rfl
          maxDepth := rfl
          maxLocals := rfl
          depth := by simp [hl]
          alive := rfl
          size := hsize'.trans hsize
          offset := fun l' => (hoffset' l').trans (hoffset l')
          entry := fun l' => by rw [hentry' l', hentry, hentry]
          pending := hpending'.trans hpending
          code := hcode }
      · simp at h
  · simp at hb

theorem newLabel_ok {l : Label} (h : newLabel a = .ok l a') :
    l = ⟨a.labels.states.size⟩ ∧ a' = { a with labels := a.labels.fresh.2 } := by
  cases h
  exact ⟨rfl, rfl⟩

end Asm

end ClassFoundry
