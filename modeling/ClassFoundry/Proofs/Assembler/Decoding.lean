import ClassFoundry.Proofs.Assembler.Rendering

/-!
# Reading a method body back

The bytes of a finished body are walked from instruction to instruction exactly as they were
appended: the linear sweep finds every instruction at the offset at which it was appended, each
branch with the distance to the place of its label, and ends at the end of the code.

## Main definitions

* `instructionsFrom`: the instructions of events, with the operands of branches
* `Assembler.Closed`: no branch waits for its label

## Main results

* `decodeAt_append`: an instruction is read back from its bytes
* `sweep_eq`: the sweep of a run's code
* `decode_emitted`, `decode_branch`: what stands at the offset of an event
-/

namespace ClassFoundry

theorem wordAt?_append (code : CodeArray) (front rest : Bytes) (w : UInt16)
    (h : code.toList = front ++ be16 w ++ rest) : wordAt? code front.length = some w := by
  have hhi : code[front.length]? = some (hiByte w) := by
    rw [← Array.getElem?_toList, h]
    simp [be16]
  have hlo : code[front.length + 1]? = some (loByte w) := by
    rw [← Array.getElem?_toList, h]
    simp [be16]
  simp [wordAt?, hhi, hlo]

/-- An instruction is read back from its bytes. -/
theorem decodeAt_append (rest : Bytes) {code : CodeArray} {front : Bytes} {i : Instruction}
    (hi : i.encodable = true) (h : code.toList = front ++ i.encode ++ rest) :
    decodeAt code front.length = .ok i := by
  have hop : ∀ (op : UInt8) (tail : Bytes), code.toList = front ++ op :: tail →
      code[front.length]? = some op := by
    intro op tail h
    rw [← Array.getElem?_toList, h]
    simp
  have hnext : ∀ (op x : UInt8) (tail : Bytes), code.toList = front ++ op :: x :: tail →
      code[front.length + 1]? = some x := by
    intro op x tail h
    rw [← Array.getElem?_toList, h]
    simp
  -- the prefix of a wide index has no format of its own, so no opcode is taken for it
  have hwide : ∀ {op : Opcode} {f : Format}, op.format? = some f → op ≠ Opcode.wide := by
    rintro op f hf rfl
    cases hf
  cases i with
  | plain op =>
    have hf : op.format? = some .plain := by simpa [Instruction.encodable] using hi
    have hcode := hop op rest (by simpa [Instruction.encode] using h)
    simp [decodeAt, formatAt?, hcode, hwide hf, hf]
  | byte op x =>
    have hf : op.format? = some .byte := by simpa [Instruction.encodable] using hi
    have hbytes : code.toList = front ++ op :: x :: rest := by
      simpa [Instruction.encode] using h
    simp [decodeAt, formatAt?, hop op _ hbytes, hnext op x _ hbytes, hwide hf, hf]
  | short op w =>
    have hf : op.format? = some .short := by simpa [Instruction.encodable] using hi
    have hbytes : code.toList = front ++ op :: (be16 w ++ rest) := by
      simpa [Instruction.encode] using h
    have hword : wordAt? code (front.length + 1) = some w := by
      have := wordAt?_append code (front ++ [op]) rest w
        (by simp [hbytes])
      simpa using this
    simp [decodeAt, formatAt?, hop op _ hbytes, hword, hwide hf, hf]
  | wide op w =>
    have hlocal : op.isIndexedLocal = true := by simpa [Instruction.encodable] using hi
    have hbytes : code.toList = front ++ Opcode.wide :: op :: (be16 w ++ rest) := by
      simpa [Instruction.encode] using h
    have hword : wordAt? code (front.length + 2) = some w := by
      have := wordAt?_append code (front ++ [Opcode.wide, op]) rest w
        (by simp [hbytes])
      simpa using this
    simp [decodeAt, formatAt?, hop _ _ hbytes, hnext _ op _ hbytes, hword, hlocal]

theorem Opcode.format?_of_isBranch {op : Opcode} (h : op.isBranch = true) :
    op.format? = some .short := by
  have hlo : 0x99 ≤ op.toNat := by
    simp only [Opcode.isBranch, Bool.and_eq_true, decide_eq_true_eq, UInt8.le_iff_toNat_le] at h
    exact h.1
  have hhi : op.toNat ≤ 0xa7 := by
    simp only [Opcode.isBranch, Bool.and_eq_true, decide_eq_true_eq, UInt8.le_iff_toNat_le] at h
    exact h.2
  have hfin : ∀ n : Fin 256, 0x99 ≤ n.val → n.val ≤ 0xa7 →
      Opcode.format? (UInt8.ofNat n) = some .short := by decide +kernel
  have := hfin ⟨op.toNat, op.toNat_lt⟩ hlo hhi
  simpa using this

/-- Whether an event is one that an assembler can produce. -/
def Event.Valid : Event → Prop
  | .emit i _ _ => i.encodable = true ∧ i.opcode.isBranch = false
  | .branch op _ => op.isBranch = true
  | .fresh | .place _ => True

theorem Runs.valid {es : List Event} {a b : Assembler} (h : Runs es a b) : ∀ e ∈ es, e.Valid := by
  induction h with
  | nil a => nofun
  | cons head tail ih =>
    intro e he
    rcases List.mem_cons.1 he with rfl | he
    · cases head with
      | emit encodable branchless _ => exact ⟨encodable, branchless⟩
      | branch isBranch _ => exact isBranch
      | fresh => trivial
      | place _ => trivial
    · exact ih e he

/-- The instructions of events with their offsets. -/
def instructionsFrom (place : Label → Option Nat) : Nat → List Event → List (Nat × Instruction)
  | _, [] => []
  | offset, e :: es =>
    match e with
    | .emit i _ _ => (offset, i) :: instructionsFrom place (offset + e.length) es
    | .branch op l =>
      (offset, .short op (operandOf place offset l)) ::
        instructionsFrom place (offset + e.length) es
    | .fresh | .place _ => instructionsFrom place offset es

theorem instructionsFrom_append (place : Label → Option Nat) (offset : Nat) (es fs : List Event) :
    instructionsFrom place offset (es ++ fs) =
      instructionsFrom place offset es ++ instructionsFrom place (offset + bytesOf es) fs := by
  induction es generalizing offset with
  | nil => rfl
  | cons e es ih => cases e <;> simp [instructionsFrom, ih, bytesOf, Event.length, Nat.add_assoc]

theorem map_fst_instructionsFrom (place : Label → Option Nat) (offset : Nat) (es : List Event) :
    (instructionsFrom place offset es).map Prod.fst = starts offset es := by
  induction es generalizing offset with
  | nil => rfl
  | cons e es ih => cases e <;> simp [instructionsFrom, starts, ih]

/-- The instructions of events are those that were appended and the branches. -/
theorem mem_instructionsFrom {place : Label → Option Nat} {es : List Event} {offset pc : Nat}
    {i : Instruction} (h : (pc, i) ∈ instructionsFrom place offset es) :
    (∃ pops pushes, (pc, Event.emit i pops pushes) ∈ located offset es) ∨
      ∃ op l, (pc, Event.branch op l) ∈ located offset es ∧
        i = .short op (operandOf place pc l) := by
  induction es generalizing offset with
  | nil => cases h
  | cons e es ih =>
    -- an instruction of the later events is one of these
    have hrest {o : Nat} (ho : o = offset + e.length) (hi : (pc, i) ∈ instructionsFrom place o es) :
        (∃ pops pushes, (pc, Event.emit i pops pushes) ∈ located offset (e :: es)) ∨
          ∃ op l, (pc, Event.branch op l) ∈ located offset (e :: es) ∧
            i = .short op (operandOf place pc l) := by
      subst ho
      rcases ih hi with ⟨pops, pushes, hmem⟩ | ⟨op, l, hmem, heq⟩
      · exact .inl ⟨pops, pushes, List.mem_cons_of_mem _ hmem⟩
      · exact .inr ⟨op, l, List.mem_cons_of_mem _ hmem, heq⟩
    cases e with
    | emit j pops pushes =>
      rcases List.mem_cons.1 h with heq | h
      · cases heq
        exact .inl ⟨pops, pushes, List.mem_cons_self⟩
      · exact hrest rfl h
    | branch op l =>
      rcases List.mem_cons.1 h with heq | h
      · cases heq
        exact .inr ⟨op, l, List.mem_cons_self, rfl⟩
      · exact hrest rfl h
    | fresh => exact hrest rfl h
    | place l => exact hrest rfl h

/-- The sweep over the rest of the events, when everything before them has been read. -/
theorem sweepFrom_render {code : CodeArray} {place : Label → Option Nat} (es : List Event)
    (hvalid : ∀ e ∈ es, e.Valid) {front : Bytes} {fuel : Nat} {acc : Array (Nat × Instruction)}
    (hcode : code.toList = front ++ render place front.length es) (hfuel : bytesOf es ≤ fuel) :
    sweepFrom code fuel front.length acc =
      ⟨acc ++ (instructionsFrom place front.length es).toArray, none⟩ := by
  induction es generalizing front fuel acc with
  | nil =>
    have hsize : code.size = front.length := by
      rw [← Array.length_toList, hcode]
      simp [render]
    cases fuel <;> simp [sweepFrom, hsize, instructionsFrom]
  | cons e es ih =>
    have hrest : ∀ e ∈ es, e.Valid := fun x hx => hvalid x (List.mem_cons_of_mem _ hx)
    -- an event with bytes is read as one instruction, and the others leave nothing in the code
    have hstep : ∀ (i : Instruction), i.encodable = true → 0 < i.length → i.length = e.length →
        e.bytes place front.length = i.encode →
        sweepFrom code fuel front.length acc =
          ⟨acc ++ ((front.length, i) ::
            instructionsFrom place (front.length + e.length) es).toArray, none⟩ := by
      intro i hi hpos hlen hbytes
      have hsplit : code.toList = front ++ i.encode ++ render place (front.length + e.length) es := by
        rw [hcode, render, hbytes, List.append_assoc]
      have hdecode := decodeAt_append _ hi hsplit
      have hnext : front.length + e.length = (front ++ i.encode).length := by
        rw [List.length_append, i.length_encode, hlen]
      have hsize : front.length < code.size := by
        rw [← Array.length_toList, hsplit]
        simp only [List.length_append, i.length_encode]
        omega
      have hbytesOf : bytesOf (e :: es) = e.length + bytesOf es := by simp [bytesOf]
      obtain ⟨fuel, rfl⟩ : ∃ k, fuel = k + 1 := ⟨fuel - 1, by omega⟩
      rw [sweepFrom, if_pos hsize, hdecode]
      dsimp only
      rw [hlen, hnext]
      rw [hnext] at hsplit
      rw [ih hrest hsplit (by omega)]
      simp
    cases e with
    | emit i pops pushes =>
      have hi := (hvalid _ List.mem_cons_self).1
      exact hstep i hi (by cases i <;> exact Nat.succ_pos _) rfl rfl
    | branch op l =>
      have hop : op.isBranch = true := hvalid _ List.mem_cons_self
      exact hstep (.short op (operandOf place front.length l))
        (by simp [Instruction.encodable, Opcode.format?_of_isBranch hop]) (Nat.succ_pos _) rfl rfl
    | fresh => exact ih hrest hcode (by simpa [bytesOf, Event.length] using hfuel)
    | place l => exact ih hrest hcode (by simpa [bytesOf, Event.length] using hfuel)

/-- **The sweep of the code of a run** finds its instructions, and ends at the end. -/
theorem sweep_eq {es : List Event} {a : Assembler} {n : Nat} (h : Runs es (.start n) a) :
    sweep a.code = ⟨(instructionsFrom a.labels.offset? 0 es).toArray, none⟩ := by
  have hr := h.rendered
  have := @sweepFrom_render a.code a.labels.offset? es h.valid [] a.code.size #[] hr.code
    (Nat.le_of_eq hr.size.symm)
  simpa [sweep] using this

/-- No branch waits for its label. -/
def Assembler.Closed (a : Assembler) : Prop := a.labels.pending = #[]

/-- When no branch waits, the label of every branch has a place. -/
theorem Rendered.placed {es : List Event} {a : Assembler} (h : Rendered es a) (ha : a.Closed)
    {b : Nat × Label} (hb : b ∈ branchesFrom 0 es) : ∃ t, a.labels.offset? b.2 = some t := by
  have hopen : openBranches a.labels.offset? 0 es = [] := by rw [← h.pending, ha]
  cases hl : a.labels.offset? b.2 with
  | some t => exact ⟨t, rfl⟩
  | none =>
    simp only [openBranches, List.map_eq_nil_iff, List.filter_eq_nil_iff] at hopen
    have := hopen b hb
    simp [hl] at this

theorem LabelTable.firstUnresolved?_eq_none_iff {t : LabelTable} :
    t.firstUnresolved? = none ↔ t.pending = #[] := by
  -- a label that has been found is replaced, never lost
  have hsome {f : Option Label → PendingBranch → Option Label} (hf : ∀ l b, (f l b).isSome)
      (bs : List PendingBranch) (b : PendingBranch) (l : Option Label) :
      ((b :: bs).foldl f l).isSome := by
    induction bs generalizing b l with
    | nil => exact hf l b
    | cons b' bs ih => exact ih b' (f l b)
  unfold firstUnresolved?
  rw [← Array.foldl_toList, ← Array.toList_eq_nil_iff]
  cases t.pending.toList with
  | nil => simp
  | cons b bs =>
    refine iff_of_false (Option.isSome_iff_ne_none.1 (hsome ?_ bs b none)) (List.cons_ne_nil b bs)
    intro l b
    cases l <;> rfl

theorem Assembler.finish_ok {a : Assembler} {f : Finished} (h : a.finish = .ok f) :
    a.Closed ∧ f.code = a.code ∧ f.maxStack = a.maxDepth ∧ f.maxLocals = a.maxLocals ∧
      a.code.size ≤ maxCodeLength := by
  unfold finish at h
  split at h
  · simp at h
  · rename_i hnone
    split at h
    · simp at h
    · rename_i hsize
      obtain ⟨branches, -, hf⟩ := Except.bind_eq_ok.1 h
      cases hf
      exact ⟨LabelTable.firstUnresolved?_eq_none_iff.1 hnone, rfl, rfl, rfl, Nat.not_lt.1 hsize⟩

/-- The operand of a branch leads to its target. -/
theorem branchTarget_relative {branch target : Nat} {w : UInt16}
    (h : Asm.relative branch target = .ok w) : branchTarget branch w = target := by
  unfold Asm.relative at h
  dsimp only at h
  split at h
  · rename_i hrange
    cases h
    have hint : (Int16.ofInt ((target : Int) - branch)).toInt = (target : Int) - branch :=
      Int16.toInt_ofInt_of_le (by omega) (by omega)
    simp only [branchTarget, Int16.toInt16_toUInt16, hint]
    omega
  · simp at h

section Placed

variable {a a' f : Assembler} {es fs : List Event} {n : Nat}

/-- **An instruction stays where it was appended**, whatever is appended after it. -/
theorem decode_emitted {i : Instruction} {pops pushes : Nat} (hes : Runs es (.start n) a)
    (he : (Event.emit i pops pushes).Happens a a') (hfs : Runs fs a' f) :
    decodeAt f.code a.pc = .ok i := by
  have hr := ((hes.append (.single he)).append hfs).rendered
  have hsize : (render f.labels.offset? 0 es).length = a.pc := by
    rw [length_render, ← hes.rendered.size, Assembler.pc]
  have hcode := hr.code
  rw [render_append, render_append] at hcode
  rw [← hsize]
  cases he with
  | emit encodable _ _ =>
    refine decodeAt_append (render f.labels.offset? (bytesOf (es ++ [.emit i pops pushes])) fs)
      encodable ?_
    rw [hcode]
    simp [render, Event.bytes]

/-- **A branch leads to the place of its label** once all branches are complete. -/
theorem decode_branch {op : Opcode} {l : Label} (hes : Runs es (.start n) a)
    (he : (Event.branch op l).Happens a a') (hfs : Runs fs a' f) (hf : f.Closed) :
    ∃ t w, f.labels.offset? l = some t ∧ decodeAt f.code a.pc = .ok (.short op w) ∧
      branchTarget a.pc w = t := by
  have hr := ((hes.append (.single he)).append hfs).rendered
  have hpc : a.pc = bytesOf es := hes.rendered.size
  have hmem : (a.pc, l) ∈ branchesFrom 0 (es ++ [.branch op l] ++ fs) := by
    rw [branchesFrom_append, branchesFrom_append, hpc]
    simp [branchesFrom]
  obtain ⟨t, ht⟩ := hr.placed hf hmem
  obtain ⟨w, hw⟩ := hr.fits _ hmem t ht
  refine ⟨t, w, ht, ?_, branchTarget_relative hw⟩
  have hsize : (render f.labels.offset? 0 es).length = a.pc := by rw [length_render, hpc]
  have hcode := hr.code
  rw [render_append, render_append] at hcode
  rw [← hsize]
  cases he with
  | branch isBranch _ =>
    refine decodeAt_append (render f.labels.offset? (bytesOf (es ++ [.branch op l])) fs)
      (by simp [Instruction.encodable, Opcode.format?_of_isBranch isBranch]) ?_
    rw [hcode]
    simp [render, Event.bytes, operandOf, ht, ← hpc, hw, Instruction.encode]

end Placed

end ClassFoundry
