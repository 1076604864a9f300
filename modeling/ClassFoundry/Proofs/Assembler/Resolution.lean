import ClassFoundry.Proofs.Assembler.Decoding
import Mathlib.Data.List.Forall2

/-!
# Branches are resolved completely and exactly

Whatever operations a method body is made of, and in whatever order labels are made, branched to and
placed: a body can be finished exactly if every label that is branched to was placed and the code is
short enough. The finished body tells for every branch the offset at which its label was placed, the
operand of the branch is the distance to that offset, and all other bytes are as they were emitted.

## Main definitions

* `AsmOp`, `AsmOp.perform`, `performAll`: the operations on a method body, and sequences of them
* `history`: the operations of a sequence with the offsets at which they were performed
* `Unplaced`: a label that is branched to but not placed
* `Tracks`: the invariant that ties the state to the history

## Main results

* `Tracks.step`: one operation keeps the invariant
* `Tracks.run`: so does a sequence
* `render_getElem?_eq`: only the operands of branches depend on the places of labels
* `finish_of_performAll`: what becomes of a body in the end
-/

namespace ClassFoundry

/-! ## Operations -/

/-- **The operations on a method body**. -/
inductive AsmOp where
  | plain (op : Opcode)
  | byte (op : Opcode) (operand : UInt8) (pops pushes : Nat)
  | short (op : Opcode) (operand : UInt16) (pops pushes : Nat)
  | smallInt (value : Int32)
  | constant (index : UInt16)
  | longConstant (index : UInt16)
  | load (kind : Kind) (slot : Nat)
  | store (kind : Kind) (slot : Nat)
  | ret (kind : Option Kind)
  | invoke (op : Opcode) (index : UInt16) (argWords returnWords : Nat)
  | getStatic (index : UInt16) (words : Nat)
  | newObject (index : UInt16)
  | newLabel
  | branch (op : Opcode) (target : Label)
  | place (label : Label)

namespace AsmOp

/-- Performs an operation. -/
def perform : AsmOp → Asm Unit
  | .plain op => Asm.plain op
  | .byte op operand pops pushes => Asm.instruction (.byte op operand) pops pushes
  | .short op operand pops pushes => Asm.instruction (.short op operand) pops pushes
  | .smallInt value => do
    let _ ← Asm.smallInt value
  | .constant index => Asm.constant index
  | .longConstant index => Asm.longConstant index
  | .load kind slot => Asm.load kind slot
  | .store kind slot => Asm.store kind slot
  | .ret kind => Asm.ret kind
  | .invoke op index argWords returnWords => Asm.invoke op index argWords returnWords
  | .getStatic index words => Asm.getStatic index words
  | .newObject index => Asm.newObject index
  | .newLabel => do
    let _ ← Asm.newLabel
  | .branch op target => Asm.branch op target
  | .place label => Asm.place label

/-- The label that an operation branches to. -/
def target? : AsmOp → Option Label
  | .branch _ target => some target
  | _ => none

/-- Whether an operation neither branches nor places a label. -/
def isQuiet : AsmOp → Bool
  | .branch _ _ | .place _ => false
  | _ => true

end AsmOp

/-- Performs operations one after the other, up to the first that fails. -/
def performAll (ops : List AsmOp) : Asm Unit := ops.forM AsmOp.perform

/-- The operations of a sequence with the offsets at which they are performed. -/
def history : List AsmOp → Assembler → List (Nat × AsmOp)
  | [], _ => []
  | op :: ops, a =>
    (a.pc, op) ::
      match op.perform a with
      | .ok _ a' => history ops a'
      | .error _ _ => []

/-- The branches of a history with their labels. -/
def branchesOf (h : List (Nat × AsmOp)) : List (Nat × Label) :=
  h.filterMap fun e => e.2.target?.map (e.1, ·)

/-- A label that is branched to but not placed. -/
def Unplaced (ops : List AsmOp) (l : Label) : Prop :=
  (∃ op, .branch op l ∈ ops) ∧ .place l ∉ ops

theorem branchesOf_append (h h' : List (Nat × AsmOp)) :
    branchesOf (h ++ h') = branchesOf h ++ branchesOf h' :=
  List.filterMap_append

theorem performAll_append {ops ops' : List AsmOp} {a c : Assembler} :
    performAll (ops ++ ops') a = .ok () c ↔
      ∃ b, performAll ops a = .ok () b ∧ performAll ops' b = .ok () c := by
  induction ops generalizing a with
  | nil => simp [performAll, pure_ok]
  | cons op ops ih =>
    constructor
    · intro h
      obtain ⟨_, b, hop, hrest⟩ := bind_ok.1 h
      obtain ⟨b', hops, hops'⟩ := ih.1 hrest
      exact ⟨b', bind_ok.2 ⟨_, b, hop, hops⟩, hops'⟩
    · rintro ⟨b', h, hops'⟩
      obtain ⟨_, b, hop, hops⟩ := bind_ok.1 h
      exact bind_ok.2 ⟨_, b, hop, ih.2 ⟨b', hops, hops'⟩⟩

theorem history_append {ops ops' : List AsmOp} {a a' : Assembler}
    (h : performAll ops a = .ok () a') :
    history (ops ++ ops') a = history ops a ++ history ops' a' := by
  induction ops generalizing a with
  | nil =>
    obtain ⟨-, rfl⟩ := pure_ok.1 h
    rfl
  | cons op ops ih =>
    obtain ⟨_, b, hop, hops⟩ := bind_ok.1 h
    simp only [history, List.cons_append, hop, ih hops]

/-- A sequence that succeeds performs all of its operations. -/
theorem map_snd_history {ops : List AsmOp} {a a' : Assembler} (h : performAll ops a = .ok () a') :
    (history ops a).map Prod.snd = ops := by
  induction ops generalizing a with
  | nil => rfl
  | cons op ops ih =>
    obtain ⟨_, b, hop, hops⟩ := bind_ok.1 h
    simp only [history, List.map_cons, hop, ih hops]

/-! ## One operation -/

section Emission

variable {a a' : Assembler} {es : List Event}

/-- The invariant of the bytes does not ask whether the code is alive. -/
theorem Rendered.of_alive {alive : Bool} (h : Rendered es { a with alive }) : Rendered es a :=
  ⟨h.code, h.pending, h.branches, h.starts, h.fits, h.boundary⟩

/-- What an operation that only emits does: it may append an instruction, and leaves the labels
alone. -/
def EmitsOnly (es : List Event) (a a' : Assembler) : Prop :=
  a'.labels = a.labels ∧ ∃ fs, Rendered (es ++ fs) a' ∧ ∀ offset, branchesFrom offset fs = []

theorem EmitsOnly.of_emits (h : Rendered es a) {i : Instruction} {pops pushes : Nat}
    (he : Emits a i pops pushes a') : EmitsOnly es a a' :=
  ⟨he.labels, [.emit i pops pushes], h.emit he, fun _ => rfl⟩

theorem instruction_emitsOnly (h : Rendered es a) {i : Instruction} {pops pushes : Nat}
    (hi : Asm.instruction i pops pushes a = .ok () a') : EmitsOnly es a a' := by
  obtain ⟨-, hemits⟩ := Asm.instruction_appends hi
  obtain ⟨hlabels, fs, hfs, hquiet⟩ := EmitsOnly.of_emits h hemits
  exact ⟨hlabels, fs, hfs.of_alive, hquiet⟩

theorem plain_emitsOnly (h : Rendered es a) {op : Opcode} (hop : Asm.plain op a = .ok () a') :
    EmitsOnly es a a' := by
  obtain ⟨_, _, -, hemits⟩ := Asm.plain_emits hop
  exact .of_emits h hemits

theorem smallInt_emitsOnly (h : Rendered es a) {value : Int32} {small : Bool}
    (hop : Asm.smallInt value a = .ok small a') : EmitsOnly es a a' := by
  unfold Asm.smallInt at hop
  rcases ite_ok.1 hop with ⟨-, hop⟩ | ⟨-, hop⟩
  · obtain ⟨_, b, hb, hop⟩ := bind_ok.1 hop
    obtain ⟨-, rfl⟩ := pure_ok.1 hop
    exact plain_emitsOnly h hb
  · rcases ite_ok.1 hop with ⟨-, hop⟩ | ⟨-, hop⟩
    · obtain ⟨_, b, hb, hop⟩ := bind_ok.1 hop
      obtain ⟨-, rfl⟩ := pure_ok.1 hop
      exact instruction_emitsOnly h hb
    · rcases ite_ok.1 hop with ⟨-, hop⟩ | ⟨-, hop⟩
      · obtain ⟨_, b, hb, hop⟩ := bind_ok.1 hop
        obtain ⟨-, rfl⟩ := pure_ok.1 hop
        exact instruction_emitsOnly h hb
      · -- a number that is not small is left to a constant
        obtain ⟨-, rfl⟩ := pure_ok.1 hop
        exact ⟨rfl, [], by rwa [List.append_nil], fun _ => rfl⟩

theorem constant_emitsOnly (h : Rendered es a) {index : UInt16}
    (hop : Asm.constant index a = .ok () a') : EmitsOnly es a a' := by
  rcases ite_ok.1 hop with ⟨-, hop⟩ | ⟨-, hop⟩
  · exact instruction_emitsOnly h hop
  · exact instruction_emitsOnly h hop

end Emission

/-! ## Histories -/

/-- **The invariant of a sequence of operations**: the code is rendered from events whose branches are
those of the history, and a label has the place at which the history placed it. -/
structure Tracks (H : List (Nat × AsmOp)) (es : List Event) (a : Assembler) : Prop where
  rendered : Rendered es a
  branches : branchesFrom 0 es = branchesOf H
  placed : ∀ l t, a.labels.offset? l = some t ↔ (t, .place l) ∈ H

namespace Tracks

variable {H : List (Nat × AsmOp)} {es : List Event} {a a' : Assembler}

theorem start (n : Nat) : Tracks [] [] (.start n) where
  rendered := .start n
  branches := rfl
  placed := by simp [LabelTable.offset?, Assembler.start]

/-- An operation that neither branches nor places a label. -/
theorem quiet (h : Tracks H es a) {op : AsmOp} (hop : op.isQuiet = true) {fs : List Event}
    (hfs : Rendered (es ++ fs) a') (hbranches : ∀ offset, branchesFrom offset fs = [])
    (hlabels : ∀ l, a'.labels.offset? l = a.labels.offset? l) :
    Tracks (H ++ [(a.pc, op)]) (es ++ fs) a' where
  rendered := hfs
  branches := by
    have htarget : op.target? = none := by
      cases op with
      | branch _ _ => cases hop
      | _ => rfl
    rw [branchesFrom_append, hbranches, h.branches, branchesOf_append]
    simp [branchesOf, htarget]
  placed := by
    intro l t
    have hne : op ≠ .place l := by
      rintro rfl
      cases hop
    rw [hlabels, h.placed, List.mem_append, List.mem_singleton, Prod.mk.injEq]
    simp [hne.symm]

theorem emission (h : Tracks H es a) {op : AsmOp} (hop : op.isQuiet = true)
    (he : EmitsOnly es a a') : ∃ fs, Tracks (H ++ [(a.pc, op)]) (es ++ fs) a' := by
  obtain ⟨hlabels, fs, hfs, hquiet⟩ := he
  exact ⟨fs, h.quiet hop hfs hquiet fun l => by rw [hlabels]⟩

theorem branch (h : Tracks H es a) {op : Opcode} {l : Label} (hb : Branches a op l a') :
    Tracks (H ++ [(a.pc, .branch op l)]) (es ++ [.branch op l]) a' where
  rendered := h.rendered.branch hb
  branches := by
    rw [branchesFrom_append, h.branches, branchesOf_append, Assembler.pc, h.rendered.size]
    simp [branchesOf, branchesFrom, AsmOp.target?]
  placed := by
    intro l' t
    rw [hb.offset, h.placed]
    simp

theorem place (h : Tracks H es a) {l : Label} (hp : Places a l a') :
    Tracks (H ++ [(a.pc, .place l)]) (es ++ [.place l]) a' where
  rendered := h.rendered.place hp
  branches := by
    rw [branchesFrom_append, h.branches, branchesOf_append]
    simp [branchesOf, branchesFrom, AsmOp.target?]
  placed := by
    intro l' t
    rw [hp.offset, List.mem_append, ← h.placed, List.mem_singleton, Prod.mk.injEq]
    by_cases hl : l' = l
    · -- a label is placed once, so there is no other place
      subst hl
      simp [hp.unplaced, Assembler.pc, eq_comm]
    · simp [hl]

/-- **One operation** keeps the invariant. -/
theorem step (h : Tracks H es a) {op : AsmOp} (hop : op.perform a = .ok () a') :
    ∃ fs, Tracks (H ++ [(a.pc, op)]) (es ++ fs) a' := by
  cases op with
  | plain op => exact h.emission rfl (plain_emitsOnly h.rendered hop)
  | byte op operand pops pushes => exact h.emission rfl (instruction_emitsOnly h.rendered hop)
  | short op operand pops pushes => exact h.emission rfl (instruction_emitsOnly h.rendered hop)
  | smallInt value =>
    obtain ⟨_, b, hb, hop⟩ := bind_ok.1 hop
    obtain ⟨-, rfl⟩ := pure_ok.1 hop
    exact h.emission rfl (smallInt_emitsOnly h.rendered hb)
  | constant index => exact h.emission rfl (constant_emitsOnly h.rendered hop)
  | longConstant index => exact h.emission rfl (instruction_emitsOnly h.rendered hop)
  | load kind slot => exact h.emission rfl (.of_emits h.rendered (Asm.load_emits hop).2)
  | store kind slot => exact h.emission rfl (.of_emits h.rendered (Asm.store_emits hop).2)
  | ret kind => exact h.emission rfl (plain_emitsOnly h.rendered hop)
  | invoke op index argWords returnWords =>
    exact h.emission rfl (instruction_emitsOnly h.rendered hop)
  | getStatic index words => exact h.emission rfl (instruction_emitsOnly h.rendered hop)
  | newObject index => exact h.emission rfl (instruction_emitsOnly h.rendered hop)
  | newLabel =>
    obtain ⟨_, b, hb, hop⟩ := bind_ok.1 hop
    obtain ⟨-, rfl⟩ := pure_ok.1 hop
    obtain ⟨-, rfl⟩ := Asm.newLabel_ok hb
    exact ⟨[.fresh], h.quiet rfl h.rendered.fresh (fun _ => rfl) a.labels.fresh_offset?⟩
  | branch op l => exact ⟨_, h.branch (Asm.branch_branches hop)⟩
  | place l => exact ⟨_, h.place (Asm.place_places hop)⟩

/-- **A sequence of operations** keeps the invariant, and its events come after those before it. -/
theorem run (h : Tracks H es a) {ops : List AsmOp} (hops : performAll ops a = .ok () a') :
    ∃ fs, Tracks (H ++ history ops a) (es ++ fs) a' := by
  induction ops generalizing H es a with
  | nil =>
    obtain ⟨-, rfl⟩ := pure_ok.1 hops
    exact ⟨[], by simpa [history] using h⟩
  | cons op ops ih =>
    obtain ⟨_, b, hop, hops⟩ := bind_ok.1 hops
    obtain ⟨fs, hb⟩ := h.step hop
    obtain ⟨gs, hg⟩ := ih hb hops
    refine ⟨fs ++ gs, ?_⟩
    simpa [history, hop] using hg

end Tracks

/-! ## Finished bodies -/

/-- Only the operands of branches depend on the places of labels. -/
theorem render_getElem?_eq (p q : Label → Option Nat) (es : List Event) {offset i : Nat}
    (h : ∀ b ∈ branchesFrom offset es, offset + i ≠ b.1 + 1 ∧ offset + i ≠ b.1 + 2) :
    (render p offset es)[i]? = (render q offset es)[i]? := by
  induction es generalizing offset i with
  | nil => rfl
  | cons e es ih =>
    have hrest : ∀ b ∈ branchesFrom (offset + e.length) es, b ∈ branchesFrom offset (e :: es) := by
      intro b hb
      cases e with
      | branch op l => exact List.mem_cons_of_mem _ hb
      | _ => exact hb
    simp only [render]
    by_cases hi : i < e.length
    · rw [List.getElem?_append_left (by rwa [Event.length_bytes]),
        List.getElem?_append_left (by rwa [Event.length_bytes])]
      cases e with
      | branch op l =>
        -- the first byte is the opcode, the others are the operand
        obtain ⟨h₁, h₂⟩ := h (offset, l) List.mem_cons_self
        have hzero : i = 0 := by
          simp only [Event.length] at hi
          omega
        rw [hzero]
        rfl
      | _ => rfl
    · rw [List.getElem?_append_right (by rw [Event.length_bytes]; omega),
        List.getElem?_append_right (by rw [Event.length_bytes]; omega), Event.length_bytes,
        Event.length_bytes]
      refine ih fun b hb => ?_
      have := h b (hrest b hb)
      omega

theorem mem_branchesFrom_split {es : List Event} {offset o : Nat} {l : Label}
    (h : (o, l) ∈ branchesFrom offset es) :
    ∃ front op rest, es = front ++ .branch op l :: rest ∧ o = offset + bytesOf front := by
  induction es generalizing offset with
  | nil => cases h
  | cons e es ih =>
    have hrest (hmem : (o, l) ∈ branchesFrom (offset + e.length) es) :
        ∃ front op rest, e :: es = front ++ .branch op l :: rest ∧ o = offset + bytesOf front := by
      obtain ⟨front, op, rest, rfl, rfl⟩ := ih hmem
      exact ⟨e :: front, op, rest, rfl, by rw [bytesOf, Nat.add_assoc]⟩
    cases e with
    | branch op l' =>
      rcases List.mem_cons.1 h with heq | h
      · cases heq
        exact ⟨[], op, es, rfl, rfl⟩
      · exact hrest h
    | _ => exact hrest h

/-- The operand of a branch whose label has a place. -/
theorem Rendered.wordAt?_branch {es : List Event} {a : Assembler} (h : Rendered es a) {o t : Nat}
    {l : Label} (hmem : (o, l) ∈ branchesFrom 0 es) (ht : a.labels.offset? l = some t) :
    ∃ w, wordAt? a.code (o + 1) = some w ∧ Asm.relative o t = .ok w := by
  obtain ⟨w, hw⟩ := h.fits (o, l) hmem t ht
  obtain ⟨front, op, rest, rfl, ho⟩ := mem_branchesFrom_split hmem
  rw [Nat.zero_add] at ho
  have hcode := h.code
  rw [render_append, render, Nat.zero_add, ← ho] at hcode
  have hoperand : operandOf a.labels.offset? o l = w := by simp only [operandOf, ht, hw]
  have hlength : (render a.labels.offset? 0 front ++ [op]).length = o + 1 := by
    rw [List.length_append, length_render, ho, List.length_singleton]
  refine ⟨w, ?_, hw⟩
  rw [← hlength]
  refine wordAt?_append a.code _ (render a.labels.offset? (o + 3) rest) w ?_
  rw [hcode]
  simp [Event.bytes, Event.length, hoperand]

/-- Keeping the smaller label, branch by branch, leads to the smallest one. -/
theorem foldl_least {g : Option Label → PendingBranch → Option Label}
    (hg : ∀ l b, g (some l) b = some (if b.label.id < l.id then b.label else l))
    (bs : List PendingBranch) (l : Label) : ∃ l', bs.foldl g (some l) = some l' ∧
      (l' = l ∨ ∃ b ∈ bs, b.label = l') ∧ l'.id ≤ l.id ∧ ∀ b ∈ bs, l'.id ≤ b.label.id := by
  induction bs generalizing l with
  | nil => exact ⟨l, rfl, .inl rfl, Nat.le_refl _, by simp⟩
  | cons b bs ih =>
    obtain ⟨l', hl', hfrom, hle, hleast⟩ := ih (if b.label.id < l.id then b.label else l)
    refine ⟨l', by rw [List.foldl_cons, hg, hl'], ?_, ?_, ?_⟩
    · rcases hfrom with rfl | ⟨b', hb', rfl⟩
      · split
        · exact .inr ⟨b, List.mem_cons_self, rfl⟩
        · exact .inl rfl
      · exact .inr ⟨b', List.mem_cons_of_mem _ hb', rfl⟩
    · split at hle <;> omega
    · refine List.forall_mem_cons.2 ⟨?_, hleast⟩
      split at hle <;> omega

/-- The smallest label that a branch waits for, if there is one. -/
theorem LabelTable.firstUnresolved?_least (t : LabelTable) {b : PendingBranch} (hb : b ∈ t.pending) :
    ∃ l, t.firstUnresolved? = some l ∧ (∃ b ∈ t.pending, b.label = l) ∧
      ∀ b ∈ t.pending, l.id ≤ b.label.id := by
  obtain ⟨g, hfold, hg⟩ : ∃ g, t.firstUnresolved? = t.pending.toList.foldl g none ∧
      (∀ b, g none b = some b.label) ∧
      ∀ l b, g (some l) b = some (if b.label.id < l.id then b.label else l) :=
    ⟨_, (Array.foldl_toList ..).symm, fun _ => rfl, fun _ _ => rfl⟩
  rw [hfold]
  simp only [← Array.mem_toList_iff] at hb ⊢
  cases hpending : t.pending.toList with
  | nil =>
    rw [hpending] at hb
    cases hb
  | cons b bs =>
    obtain ⟨l, hl, hfrom, hle, hleast⟩ := foldl_least hg.2 bs b.label
    refine ⟨l, by rw [List.foldl_cons, hg.1, hl], ?_, List.forall_mem_cons.2 ⟨hle, hleast⟩⟩
    rcases hfrom with rfl | ⟨b', hb', rfl⟩
    · exact ⟨b, List.mem_cons_self, rfl⟩
    · exact ⟨b', List.mem_cons_of_mem _ hb', rfl⟩

/-- Where all labels have places, every branch gets its target. -/
theorem resolveBranches_ok {labels : LabelTable} {branches : List (Nat × Label)}
    (h : ∀ b ∈ branches, ∃ t, labels.offset? b.2 = some t) :
    ∃ resolved, resolveBranches labels branches = .ok resolved ∧
      List.Forall₂ (fun b r => r.1 = b.1 ∧ labels.offset? b.2 = some r.2) branches resolved := by
  induction branches with
  | nil => exact ⟨[], rfl, .nil⟩
  | cons b branches ih =>
    obtain ⟨⟨t, ht⟩, hrest⟩ := List.forall_mem_cons.1 h
    obtain ⟨resolved, hresolved, hall⟩ := ih hrest
    refine ⟨(b.1, t) :: resolved, ?_, .cons ⟨rfl, ht⟩ hall⟩
    unfold resolveBranches at hresolved ⊢
    rw [List.mapM_cons, hresolved]
    obtain ⟨offset, l⟩ := b
    dsimp only at ht ⊢
    rw [ht]
    rfl

/-- The operand of a branch is the distance to its target. -/
theorem toInt_relative {branch target : Nat} {w : UInt16} (h : Asm.relative branch target = .ok w) :
    w.toInt16.toInt = (target : Int) - branch := by
  unfold Asm.relative at h
  dsimp only at h
  split at h
  · cases h
    rw [Int16.toInt16_toUInt16, Int16.toInt_ofInt_of_le (by omega) (by omega)]
  · cases h

/-- **What a finished body tells** of the operations that it was made of. -/
structure Resolves (n : Nat) (ops : List AsmOp) (f : Finished) : Prop where
  /-- All branches are listed in order, with the offsets at which their labels were placed. -/
  branches : List.Forall₂
    (fun b r => r.1 = b.1 ∧ (r.2, AsmOp.place b.2) ∈ history ops (.start n))
    (branchesOf (history ops (.start n))) f.branches
  /-- The operand of a branch is the distance to its target. -/
  operands : ∀ r ∈ f.branches, ∃ w, wordAt? f.code (r.1 + 1) = some w ∧
    w.toInt16.toInt = (r.2 : Int) - r.1
  /-- All other bytes are those that were there when the operations up to them had been performed. -/
  kept : ∀ before after a, ops = before ++ after → performAll before (.start n) = .ok () a →
    ∀ i < a.code.size, (∀ r ∈ f.branches, i ≠ r.1 + 1 ∧ i ≠ r.1 + 2) → f.code[i]? = a.code[i]?

section Finish

variable {n : Nat} {ops : List AsmOp} {a : Assembler}

theorem Tracks.of_performAll (h : performAll ops (.start n) = .ok () a) :
    ∃ es, Tracks (history ops (.start n)) es a := by
  obtain ⟨es, hes⟩ := (Tracks.start n).run h
  exact ⟨es, hes⟩

/-- A branch waits exactly for the labels that are branched to but not placed. -/
theorem pending_iff_unplaced (h : performAll ops (.start n) = .ok () a) {l : Label} :
    (∃ b ∈ a.labels.pending, b.label = l) ↔ Unplaced ops l := by
  obtain ⟨es, htracks⟩ := Tracks.of_performAll h
  have hmem (op : AsmOp) : op ∈ ops ↔ ∃ t, (t, op) ∈ history ops (.start n) := by
    conv_lhs => rw [← map_snd_history h]
    simp
  have hplace : a.labels.offset? l = none ↔ .place l ∉ ops := by
    rw [hmem, Option.eq_none_iff_forall_ne_some, not_exists]
    exact forall_congr' fun t => not_congr (htracks.placed l t)
  have hbranch : (∃ o, (o, l) ∈ branchesFrom 0 es) ↔ ∃ op, .branch op l ∈ ops := by
    rw [htracks.branches]
    simp only [hmem, branchesOf, List.mem_filterMap]
    constructor
    · rintro ⟨o, ⟨o', op⟩, he, heq⟩
      cases op with
      | branch op l' =>
        cases heq
        exact ⟨op, o', he⟩
      | _ => cases heq
    · rintro ⟨op, o, he⟩
      exact ⟨o, (o, .branch op l), he, rfl⟩
  -- the branches that wait are those rendered to labels without a place
  unfold Unplaced
  rw [← hbranch, ← hplace]
  simp only [← Array.mem_toList_iff, htracks.rendered.pending, openBranches, List.mem_map,
    List.mem_filter, Option.isNone_iff_eq_none]
  constructor
  · rintro ⟨_, ⟨b, ⟨hb, hnone⟩, rfl⟩, rfl⟩
    exact ⟨⟨b.1, hb⟩, hnone⟩
  · rintro ⟨⟨o, hb⟩, hnone⟩
    exact ⟨_, ⟨(o, l), ⟨hb, hnone⟩, rfl⟩, rfl⟩

/-- The finished body, once its branches have their targets. -/
theorem resolves_of_performAll (h : performAll ops (.start n) = .ok () a) {f : Finished}
    (hcode : f.code = a.code)
    (hbranches : List.Forall₂ (fun b r => r.1 = b.1 ∧ a.labels.offset? b.2 = some r.2)
      (branchesOf (history ops (.start n))) f.branches) : Resolves n ops f := by
  obtain ⟨es, htracks⟩ := Tracks.of_performAll h
  obtain ⟨hlength, hget⟩ := List.forall₂_iff_get.1 hbranches
  refine ⟨hbranches.imp fun b r hr => ⟨hr.1, (htracks.placed _ _).1 hr.2⟩, ?_, ?_⟩
  · intro r hr
    obtain ⟨i, hi, rfl⟩ := List.getElem_of_mem hr
    obtain ⟨hfst, hplace⟩ := hget i (by omega) hi
    have hmem : (branchesOf (history ops (.start n))).get ⟨i, by omega⟩ ∈ branchesFrom 0 es := by
      rw [htracks.branches]
      exact List.get_mem _ _
    obtain ⟨w, hword, hw⟩ := htracks.rendered.wordAt?_branch hmem hplace
    rw [← hfst] at hword hw
    exact ⟨w, hcode ▸ hword, toInt_relative hw⟩
  · intro before after b hops hbefore i hi hoperand
    subst hops
    obtain ⟨_, hbefore', hafter⟩ := performAll_append.1 h
    rw [hbefore] at hbefore'
    cases hbefore'
    -- the events of the first operations come first
    obtain ⟨es₁, htracks₁⟩ := Tracks.of_performAll hbefore
    obtain ⟨fs, htracks₂⟩ := htracks₁.run hafter
    rw [← history_append hbefore] at htracks₂
    have hkept : ∀ b ∈ branchesFrom 0 es₁, 0 + i ≠ b.1 + 1 ∧ 0 + i ≠ b.1 + 2 := by
      intro b hb
      have hall : b ∈ branchesOf (history (before ++ after) (.start n)) := by
        rw [← htracks₂.branches, branchesFrom_append]
        exact List.mem_append_left _ hb
      obtain ⟨k, hk, rfl⟩ := List.getElem_of_mem hall
      obtain ⟨hfst, -⟩ := hget k hk (by omega)
      rw [Nat.zero_add]
      exact hfst ▸ hoperand _ (List.get_mem _ ⟨k, by omega⟩)
    rw [hcode, ← Array.getElem?_toList, ← Array.getElem?_toList, htracks₂.rendered.code,
      htracks₁.rendered.code, render_append, List.getElem?_append_left ?_]
    · exact render_getElem?_eq _ _ es₁ hkept
    · rw [length_render, ← htracks₁.rendered.size]
      exact hi

/-- **What becomes of a body in the end**: the smallest label that is branched to but not placed is
reported, otherwise code that is too long, and otherwise the body is finished. -/
theorem finish_of_performAll (h : performAll ops (.start n) = .ok () a) :
    ((∃ l, Unplaced ops l) → ∃ l, Unplaced ops l ∧ (∀ l', Unplaced ops l' → l.id ≤ l'.id) ∧
      a.finish = .error (.unresolvedBranch l)) ∧
    ((∀ l, ¬ Unplaced ops l) →
      (maxCodeLength < a.code.size → a.finish = .error (.codeTooLarge a.code.size)) ∧
      (a.code.size ≤ maxCodeLength →
        ∃ f, a.finish = .ok f ∧ f.code = a.code ∧ Resolves n ops f)) := by
  refine ⟨?_, ?_⟩
  · rintro ⟨l, hl⟩
    obtain ⟨b, hb, -⟩ := (pending_iff_unplaced h).2 hl
    obtain ⟨l', hfirst, hpending, hleast⟩ := a.labels.firstUnresolved?_least hb
    refine ⟨l', (pending_iff_unplaced h).1 hpending, fun l'' hl'' => ?_, ?_⟩
    · obtain ⟨b', hb', rfl⟩ := (pending_iff_unplaced h).2 hl''
      exact hleast b' hb'
    · unfold Assembler.finish
      rw [hfirst]
  · intro hnone
    have hpending : a.labels.pending = #[] := by
      refine Array.eq_empty_iff_forall_not_mem.2 fun b hb => ?_
      exact hnone _ ((pending_iff_unplaced h).1 ⟨b, hb, rfl⟩)
    have hfirst : a.labels.firstUnresolved? = none := by
      unfold LabelTable.firstUnresolved?
      rw [hpending]
      rfl
    unfold Assembler.finish
    rw [hfirst]
    refine ⟨fun hsize => if_pos hsize, fun hsize => ?_⟩
    dsimp only
    rw [if_neg (Nat.not_lt.2 hsize)]
    obtain ⟨es, htracks⟩ := Tracks.of_performAll h
    have hplaced : ∀ b ∈ a.branches.toList, ∃ t, a.labels.offset? b.2 = some t := by
      intro b hb
      rw [htracks.rendered.branches] at hb
      exact htracks.rendered.placed hpending hb
    obtain ⟨resolved, hresolved, hall⟩ := resolveBranches_ok hplaced
    rw [htracks.rendered.branches, htracks.branches] at hall
    rw [hresolved]
    exact ⟨_, rfl, rfl, resolves_of_performAll h rfl hall⟩

end Finish

/-- A loop that counts a variable down: its test branches forward over the body, and the body back. -/
def countdown : List AsmOp :=
  [.newLabel, .newLabel, .place ⟨0⟩, .load .int 0, .branch .ifeq ⟨1⟩, .load .int 0, .smallInt 1,
    .plain .isub, .store .int 0, .branch .goto ⟨0⟩, .place ⟨1⟩, .ret none]

theorem finish_of_performAll_countdown : ∃ a f, performAll countdown (.start 1) = .ok () a ∧
    (∀ l, ¬ Unplaced countdown l) ∧ a.code.size = 12 ∧ a.finish = .ok f ∧
    Resolves 1 countdown f := by
  have hsize : (match performAll countdown (.start 1) with
      | .ok _ a => some a.code.size
      | .error _ _ => none) = some 12 := by decide +kernel
  have hnone : ∀ l, ¬ Unplaced countdown l := by
    rintro l ⟨⟨op, hop⟩, hplace⟩
    simp [countdown] at hop hplace
    grind
  split at hsize
  next a ha =>
    have hsize := Option.some.inj hsize
    obtain ⟨f, hf, -, hresolves⟩ := ((finish_of_performAll ha).2 hnone).2 (by rw [hsize]; decide)
    exact ⟨a, f, ha, hnone, hsize, hf, hresolves⟩
  next => cases hsize

end ClassFoundry
