import ClassFoundry.Proofs.TruthValues

/-!
# Branches that do not reach

A branch whose target is too far away is refused, either where it is emitted or where its label is
placed. Both come too late to leave nothing behind: the branch is listed, its label has a place and no
longer waits for one. So a body that is carried on with can be finished like any other, as soon as all
labels have places and the code is short enough, and the branch is handed out with the target that it
does not reach. Only if the code is too long for one of the two ends nothing is handed out.

What is shown here holds of all sequences of operations, of which any number may fail.

## Main definitions

* `Assembler.after`, `Assembler.afterAll`: the state after operations that may fail
* `Appends`: an operation that does nothing but append code
* `Grown`: what no operation takes back
* `Booked`: the invariant that ties the listed branches to the labels

## Main results

* `branch_error`, `place_error`: what is left behind where an operation fails
* `Booked.after`: what one operation keeps, also if it fails
* `Booked.afterAll`: what a sequence of operations keeps
* `finish_of_branchTooFar`: **what becomes of a body** in which a branch did not reach
-/

namespace ClassFoundry

/-- The state that a computation leaves behind, whether it succeeds or fails. -/
def stateAfter {ε σ α : Type} (x : EStateM ε σ α) (s : σ) : σ :=
  match x s with
  | .ok _ s' | .error _ s' => s'

namespace Assembler

/-- The state after an operation, whether it succeeds or fails. -/
def after (a : Assembler) (op : AsmOp) : Assembler := stateAfter op.perform a

/-- The state after operations, one after the other. -/
def afterAll (a : Assembler) (ops : List AsmOp) : Assembler := ops.foldl after a

end Assembler

section Failure

variable {ε σ α β : Type} {s s' : σ}

theorem bind_error {x : EStateM ε σ α} {f : α → EStateM ε σ β} {e : ε} :
    (x >>= f) s = .error e s' ↔
      x s = .error e s' ∨ ∃ v s₁, x s = .ok v s₁ ∧ f v s₁ = .error e s' := by
  show EStateM.bind x f s = .error e s' ↔ _
  unfold EStateM.bind
  cases x s with
  | ok v s₁ =>
    constructor
    · exact fun h => .inr ⟨v, s₁, rfl, h⟩
    · rintro (h | ⟨_, _, h, hf⟩)
      · cases h
      · cases h
        exact hf
  | error e' s₁ => simp

theorem throw_error {e e' : ε} : (throw e : EStateM ε σ α) s = .error e' s' ↔ e = e' ∧ s = s' := by
  show EStateM.Result.error e s = .error e' s' ↔ _
  simp

theorem modify_error {f : σ → σ} {e : ε} : (modify f : EStateM ε σ Unit) s = .error e s' ↔ False := by
  show EStateM.Result.ok () (f s) = .error e s' ↔ False
  simp

theorem get_error {e : ε} : (get : EStateM ε σ σ) s = .error e s' ↔ False := by
  show EStateM.Result.ok s s = .error e s' ↔ False
  simp

end Failure

/-! ## Operations that append code -/

/-- Nothing but code was appended. -/
structure Appends (a a' : Assembler) : Prop where
  size : a.code.size ≤ a'.code.size
  labels : a'.labels = a.labels
  branches : a'.branches = a.branches

theorem Appends.refl (a : Assembler) : Appends a a := ⟨Nat.le_refl _, rfl, rfl⟩

theorem Appends.trans {a b c : Assembler} (h : Appends a b) (h' : Appends b c) : Appends a c :=
  ⟨h.size.trans h'.size, h'.labels.trans h.labels, h'.branches.trans h.branches⟩

namespace Asm

variable {α β : Type}

/-- Work that does nothing but append code, however it ends. -/
def AppendsOnly (x : Asm α) : Prop := ∀ a, Appends a (stateAfter x a)

theorem AppendsOnly.bind {x : Asm α} {f : α → Asm β} (hx : AppendsOnly x)
    (hf : ∀ v, AppendsOnly (f v)) : AppendsOnly (x >>= f) := by
  intro a
  have hfirst := hx a
  show Appends a (stateAfter (EStateM.bind x f) a)
  unfold stateAfter EStateM.bind at *
  cases hxa : x a with
  | ok v b =>
    rw [hxa] at hfirst
    exact hfirst.trans (hf v b)
  | error e b =>
    rw [hxa] at hfirst
    exact hfirst

theorem appendsOnly_pure (v : α) : AppendsOnly (pure v) := Appends.refl

theorem appendsOnly_throw (e : AsmError) : AppendsOnly (throw e : Asm α) := Appends.refl

theorem appendsOnly_modify {f : Assembler → Assembler} (hf : ∀ a, Appends a (f a)) :
    AppendsOnly (modify f) := hf

theorem record_appendsOnly (op : Opcode) : AppendsOnly (record op) :=
  appendsOnly_modify fun _ => ⟨Nat.le_refl _, rfl, rfl⟩

theorem pc_appendsOnly : AppendsOnly pc := Appends.refl

theorem emit_appendsOnly (bytes : Bytes) : AppendsOnly (emit bytes) := by
  refine appendsOnly_modify fun a => ⟨?_, rfl, rfl⟩
  show a.code.size ≤ (bytes.foldl Array.push a.code).size
  rw [size_foldl_push]
  exact Nat.le_add_right ..

/-- A change that is made only under a condition. -/
theorem appendsOnly_guarded {p : Assembler → Prop} [DecidablePred p] {f : Assembler → Assembler}
    {e : Assembler → AsmError} (hf : ∀ a, Appends a (f a)) :
    AppendsOnly (fun a => if p a then .ok () (f a) else .error (e a) a) := by
  intro a
  unfold stateAfter
  dsimp only
  by_cases h : p a
  · rw [if_pos h]
    exact hf a
  · rw [if_neg h]
    exact .refl a

theorem popWords_appendsOnly (n offset : Nat) : AppendsOnly (popWords n offset) :=
  appendsOnly_guarded fun _ => ⟨Nat.le_refl _, rfl, rfl⟩

theorem pushWords_appendsOnly (n : Nat) : AppendsOnly (pushWords n) :=
  appendsOnly_guarded fun _ => ⟨Nat.le_refl _, rfl, rfl⟩

theorem touchLocal_appendsOnly (kind : Kind) (slot : Nat) : AppendsOnly (touchLocal kind slot) :=
  appendsOnly_guarded fun _ => ⟨Nat.le_refl _, rfl, rfl⟩

theorem instruction_appendsOnly (i : Instruction) (pops pushes : Nat) :
    AppendsOnly (instruction i pops pushes) :=
  (record_appendsOnly _).bind fun _ => pc_appendsOnly.bind fun _ => (emit_appendsOnly _).bind fun _ =>
    (popWords_appendsOnly _ _).bind fun _ => pushWords_appendsOnly _

theorem plain_appendsOnly (op : Opcode) : AppendsOnly (plain op) := by
  unfold plain
  cases op.effect? with
  | none => exact appendsOnly_throw _
  | some effect =>
    exact (instruction_appendsOnly _ _ _).bind fun _ =>
      appendsOnly_modify fun _ => ⟨Nat.le_refl _, rfl, rfl⟩

theorem smallInt_appendsOnly (value : Int32) : AppendsOnly (smallInt value) := by
  unfold smallInt
  dsimp only
  split
  · exact (plain_appendsOnly _).bind fun _ => appendsOnly_pure _
  · split
    · exact (instruction_appendsOnly _ _ _).bind fun _ => appendsOnly_pure _
    · split
      · exact (instruction_appendsOnly _ _ _).bind fun _ => appendsOnly_pure _
      · exact appendsOnly_pure _

theorem constant_appendsOnly (index : UInt16) : AppendsOnly (constant index) := by
  unfold constant
  split <;> exact instruction_appendsOnly _ _ _

theorem localAccess_appendsOnly (op short : Opcode) (slot : Nat) :
    AppendsOnly (localAccess op short slot) := by
  unfold localAccess
  split
  · exact (record_appendsOnly _).bind fun _ => emit_appendsOnly _
  · split <;> exact (record_appendsOnly _).bind fun _ => emit_appendsOnly _

end Asm

/-- Operations that neither branch nor have to do with labels append code. -/
theorem AsmOp.appendsOnly {op : AsmOp} (hquiet : op.isQuiet = true) (hlabel : op ≠ .newLabel) :
    Asm.AppendsOnly op.perform := by
  cases op with
  | plain op => exact Asm.plain_appendsOnly op
  | byte op operand pops pushes | short op operand pops pushes =>
    exact Asm.instruction_appendsOnly _ _ _
  | smallInt value => exact (Asm.smallInt_appendsOnly value).bind fun _ => Asm.appendsOnly_pure _
  | constant index => exact Asm.constant_appendsOnly index
  | longConstant index => exact Asm.instruction_appendsOnly _ _ _
  | load kind slot =>
    exact (Asm.localAccess_appendsOnly _ _ _).bind fun _ =>
      (Asm.touchLocal_appendsOnly _ _).bind fun _ => Asm.pushWords_appendsOnly _
  | store kind slot =>
    exact Asm.pc_appendsOnly.bind fun _ => (Asm.localAccess_appendsOnly _ _ _).bind fun _ =>
      (Asm.touchLocal_appendsOnly _ _).bind fun _ => Asm.popWords_appendsOnly _ _
  | ret kind => exact Asm.plain_appendsOnly _
  | invoke op index argWords returnWords | getStatic index words | newObject index =>
    exact Asm.instruction_appendsOnly _ _ _
  | newLabel => exact absurd rfl hlabel
  | branch op target | place label => cases hquiet

/-! ## Branches and labels that fail -/

namespace Asm

variable {a a' : Assembler} {e : AsmError} {l : Label}

theorem relative_error {branch target : Nat} (h : relative branch target = .error e) :
    e = .branchTooFar branch target ∧
      ¬ (-32768 ≤ (target : Int) - branch ∧ (target : Int) - branch ≤ 32767) := by
  unfold relative at h
  dsimp only at h
  split at h
  · cases h
  · rename_i hfar
    cases h
    exact ⟨rfl, hfar⟩

theorem pc_error : pc a = .error e a' ↔ False := by
  show EStateM.Result.ok a.pc a = .error e a' ↔ False
  simp

theorem popWords_error {n offset : Nat} :
    popWords n offset a = .error e a' ↔ ¬ n ≤ a.depth ∧ .stackUnderflow offset = e ∧ a = a' := by
  unfold popWords
  by_cases h : n ≤ a.depth <;> simp [h]

theorem noteDepth_error (h : noteDepth l a = .error e a') :
    a' = a ∧ ∃ e', e = .ofLabelError e' := by
  unfold noteDepth at h
  split at h
  · simp at h
  · cases h
    exact ⟨rfl, _, rfl⟩

theorem ofLabelError_ne (e : LabelError) (b t : Nat) : AsmError.ofLabelError e ≠ .branchTooFar b t := by
  cases e <;> exact AsmError.noConfusion

/-- **A branch that fails** leaves nothing behind, unless it does not reach its target. Then it is
listed, without an operand. -/
theorem branch_error {op : Opcode} (h : branch op l a = .error e a') :
    (a'.code = a.code ∧ a'.labels = a.labels ∧ a'.branches = a.branches ∧
      ∀ b t, e ≠ .branchTooFar b t) ∨
    ∃ t, a.labels.offset? l = some t ∧ relative a.code.size t = .error e ∧
      a'.code.size = a.code.size + 1 ∧ a'.labels.pending = a.labels.pending ∧
      (∀ l', a'.labels.offset? l' = a.labels.offset? l') ∧
      a'.branches = a.branches.push (a.code.size, l) := by
  simp only [branch, record, emit, bind_error, modify_error, modify_ok, pc_error, pc_ok,
    popWords_error, popWords_ok, get_error, get_ok, false_or] at h
  obtain ⟨_, _, rfl, _, _, ⟨rfl, rfl⟩, ⟨-, rfl, rfl⟩ | ⟨_, _, ⟨-, rfl⟩, h⟩⟩ := h
  · exact .inl ⟨rfl, rfl, rfl, fun _ _ => AsmError.noConfusion⟩
  rcases h with h | ⟨_, b, hb, _, _, rfl, _, _, rfl, _, _, ⟨rfl, rfl⟩, h⟩
  · obtain ⟨rfl, e', rfl⟩ := noteDepth_error h
    exact .inl ⟨rfl, rfl, rfl, ofLabelError_ne e'⟩
  -- the branch is listed before its label is looked at
  obtain ⟨t, ht, rfl⟩ := noteDepth_ok hb
  obtain ⟨-, -, hpending, hoffset, -⟩ := LabelTable.noteDepth_ok ht
  dsimp only at h hpending hoffset
  rw [hoffset] at h
  right
  cases hl : a.labels.offset? l with
  | none =>
    rw [hl] at h
    simp only [bind_error, pc_error, pc_ok, modify_error, modify_ok, endIfTerminal, false_or,
      and_false, exists_false] at h
  | some target =>
    rw [hl] at h
    dsimp only at h
    cases hw : relative a.code.size target with
    | ok w =>
      rw [hw] at h
      simp only [bind_error, modify_error, modify_ok, endIfTerminal, false_or, and_false,
        exists_false] at h
    | error e' =>
      rw [hw] at h
      simp only [bind_error, throw_error, throw_ok, false_and, exists_false, or_false] at h
      obtain ⟨rfl, rfl⟩ := h
      exact ⟨target, rfl, hw, by simp, hpending, hoffset, rfl⟩

/-- Filling in operands fails at the first branch that does not reach. -/
theorem patchAll_error {target : Nat} {ws : List PendingBranch}
    (h : patchAll target ws a = .error e a') :
    (∃ p ∈ ws, relative p.branch target = .error e) ∧ a'.code.size = a.code.size ∧
      a'.labels = a.labels ∧ a'.branches = a.branches := by
  induction ws generalizing a with
  | nil => cases h
  | cons p rest ih =>
    rw [patchAll] at h
    cases hw : relative p.branch target with
    | error e' =>
      rw [hw] at h
      obtain ⟨rfl, rfl⟩ := throw_error.1 h
      exact ⟨⟨p, List.mem_cons_self, hw⟩, rfl, rfl, rfl⟩
    | ok w =>
      rw [hw] at h
      simp only [bind_error, modify_error, modify_ok, false_or] at h
      obtain ⟨_, _, rfl, h⟩ := h
      -- an operand is written over bytes that are already there
      obtain ⟨⟨q, hq, hfar⟩, hsize, hlabels, hbranches⟩ := ih h
      refine ⟨⟨q, List.mem_cons_of_mem _ hq, hfar⟩, ?_, hlabels, hbranches⟩
      rw [hsize]
      simp [patch]

theorem enterLabel_ne_error (hl : l.id < a.labels.states.size) : enterLabel l a ≠ .error e a' := by
  obtain ⟨state, hstate⟩ : ∃ state, a.labels.states[l.id]? = some state :=
    ⟨_, Array.getElem?_eq_getElem hl⟩
  unfold enterLabel LabelTable.entryDepth? LabelTable.noteDepth
  rw [hstate]
  dsimp only
  cases state.entryDepth <;> simp

/-- **A label that cannot be placed** stays as it was, unless a branch to it does not reach. Then it has
its place, and nothing waits for it any more. -/
theorem place_error (h : place l a = .error e a') :
    (a' = a ∧ ∀ b t, e ≠ .branchTooFar b t) ∨
    ∃ ws, a.labels.place l a.code.size = .ok (ws, a'.labels) ∧
      (∃ p ∈ ws, relative p.branch a.code.size = .error e) ∧
      a'.code.size = a.code.size ∧ a'.branches = a.branches := by
  simp only [place, bind_error, pc_error, pc_ok, false_or] at h
  obtain ⟨_, _, ⟨rfl, rfl⟩, h | ⟨ws, b, hb, h⟩⟩ := h
  · unfold takePending at h
    split at h
    · cases h
    · cases h
      exact .inl ⟨rfl, ofLabelError_ne _⟩
  · unfold takePending at hb
    split at hb
    · rename_i waiting labels hplace
      cases hb
      rcases h with h | ⟨_, c, hc, h⟩
      · obtain ⟨hfar, hsize, rfl, hbranches⟩ := patchAll_error h
        exact .inr ⟨_, hplace, hfar, hsize, hbranches⟩
      · -- a label that was just placed can be entered
        obtain ⟨code, -, rfl⟩ := patchAll_ok hc
        obtain ⟨hknown, -, hsize, -⟩ := LabelTable.place_ok hplace
        exact absurd h (enterLabel_ne_error (by rw [hsize]; exact hknown))
    · cases hb

/-- A label to which a branch does not reach. -/
theorem place_far {ws : List PendingBranch} {labels : LabelTable}
    (hplace : a.labels.place l a.code.size = .ok (ws, labels))
    (hpatch : patchAll a.code.size ws { a with labels } = .error e a') : place l a = .error e a' := by
  have htake : takePending l a = .ok ws { a with labels } := by
    unfold takePending
    rw [hplace]
  exact bind_error.2 (.inr ⟨a.code.size, a, pc_ok.2 ⟨rfl, rfl⟩,
    bind_error.2 (.inr ⟨ws, _, htake, bind_error.2 (.inl hpatch)⟩)⟩)

end Asm

/-! ## What operations keep -/

/-- What no operation takes back: code, branches, and the places of labels. -/
structure Grown (a a' : Assembler) : Prop where
  size : a.code.size ≤ a'.code.size
  branches : ∀ b ∈ a.branches, b ∈ a'.branches
  placed : ∀ l t, a.labels.offset? l = some t → a'.labels.offset? l = some t

theorem Grown.refl (a : Assembler) : Grown a a := ⟨Nat.le_refl _, fun _ h => h, fun _ _ h => h⟩

theorem Grown.trans {a b c : Assembler} (h : Grown a b) (h' : Grown b c) : Grown a c :=
  ⟨h.size.trans h'.size, fun e he => h'.branches e (h.branches e he),
    fun l t ht => h'.placed l t (h.placed l t ht)⟩

/-- **The books of a method body**: branches and the places of labels lie within the code, a branch
waits exactly if its label has no place, and all that wait are listed. -/
structure Booked (a : Assembler) : Prop where
  starts : ∀ b ∈ a.branches, b.1 < a.code.size
  inside : ∀ l t, a.labels.offset? l = some t → t ≤ a.code.size
  waits : ∀ b ∈ a.branches, a.labels.offset? b.2 = none → ∃ p ∈ a.labels.pending, p.label = b.2
  listed : ∀ p ∈ a.labels.pending,
    (p.branch, p.label) ∈ a.branches ∧ a.labels.offset? p.label = none

namespace Booked

variable {a a' : Assembler} {l : Label}

theorem start (n : Nat) : Booked (.start n) where
  starts := by simp [Assembler.start]
  inside := by simp [Assembler.start, LabelTable.offset?]
  waits := by simp [Assembler.start]
  listed := by simp [Assembler.start]

/-- Code may be appended, and labels may be made. -/
theorem keep (h : Booked a) (hsize : a.code.size ≤ a'.code.size)
    (hoffset : ∀ l, a'.labels.offset? l = a.labels.offset? l)
    (hpending : a'.labels.pending = a.labels.pending) (hbranches : a'.branches = a.branches) :
    Grown a a' ∧ Booked a' := by
  refine ⟨⟨hsize, fun b hb => hbranches ▸ hb, fun l t ht => by rw [hoffset, ht]⟩, ?_, ?_, ?_, ?_⟩
  · intro b hb
    exact Nat.lt_of_lt_of_le (h.starts b (hbranches ▸ hb)) hsize
  · intro l t ht
    rw [hoffset] at ht
    exact (h.inside l t ht).trans hsize
  · rw [hbranches, hpending]
    intro b hb hnone
    rw [hoffset] at hnone
    exact h.waits b hb hnone
  · rw [hbranches, hpending]
    intro p hp
    rw [hoffset]
    exact h.listed p hp

/-- A branch may be listed, and waits if its label has no place. -/
theorem list (h : Booked a) (hsize : a.code.size < a'.code.size)
    (hoffset : ∀ l, a'.labels.offset? l = a.labels.offset? l)
    (hbranches : a'.branches = a.branches.push (a.code.size, l))
    (hpending : (∃ t, a.labels.offset? l = some t ∧ a'.labels.pending = a.labels.pending) ∨
      (a.labels.offset? l = none ∧
        a'.labels.pending = a.labels.pending.push ⟨a.code.size, a.code.size + 1, l⟩)) :
    Grown a a' ∧ Booked a' := by
  have hold : ∀ p ∈ a.labels.pending, p ∈ a'.labels.pending := by
    intro p hp
    rcases hpending with ⟨-, -, heq⟩ | ⟨-, heq⟩ <;> rw [heq]
    · exact hp
    · exact Array.mem_push_of_mem _ hp
  refine ⟨⟨hsize.le, fun b hb => ?_, fun l t ht => by rw [hoffset, ht]⟩, ?_, ?_, ?_, ?_⟩
  · rw [hbranches]
    exact Array.mem_push_of_mem _ hb
  · rw [hbranches]
    intro b hb
    rcases Array.mem_push.1 hb with hb | rfl
    · exact (h.starts b hb).trans hsize
    · exact hsize
  · intro l t ht
    rw [hoffset] at ht
    exact (h.inside l t ht).trans hsize.le
  · rw [hbranches]
    intro b hb hnone
    rw [hoffset] at hnone
    rcases Array.mem_push.1 hb with hb | rfl
    · obtain ⟨p, hp, hlabel⟩ := h.waits b hb hnone
      exact ⟨p, hold p hp, hlabel⟩
    · -- the new branch waits itself if nothing else does
      rcases hpending with ⟨t, ht, -⟩ | ⟨-, heq⟩
      · rw [ht] at hnone
        cases hnone
      · rw [heq]
        exact ⟨_, Array.mem_push_self, rfl⟩
  · rw [hbranches]
    intro p hp
    rw [hoffset]
    have hlisted (hp : p ∈ a.labels.pending) : (p.branch, p.label) ∈
        a.branches.push (a.code.size, l) ∧ a.labels.offset? p.label = none :=
      ⟨Array.mem_push_of_mem _ (h.listed p hp).1, (h.listed p hp).2⟩
    rcases hpending with ⟨-, -, heq⟩ | ⟨hnone, heq⟩ <;> rw [heq] at hp
    · exact hlisted hp
    · rcases Array.mem_push.1 hp with hp | rfl
      · exact hlisted hp
      · exact ⟨Array.mem_push_self, hnone⟩

/-- A label may be placed, and then nothing waits for it. -/
theorem settle (h : Booked a) (hnone : a.labels.offset? l = none)
    (hsize : a'.code.size = a.code.size)
    (hoffset : ∀ l', a'.labels.offset? l' =
      if l' = l then some a.code.size else a.labels.offset? l')
    (hpending : a'.labels.pending = a.labels.pending.filter (·.label ≠ l))
    (hbranches : a'.branches = a.branches) : Grown a a' ∧ Booked a' := by
  -- a label is placed only once, so it is none of those that have places
  have hkept {l' : Label} {t : Nat} (ht : a.labels.offset? l' = some t) : l' ≠ l := by
    rintro rfl
    rw [hnone] at ht
    cases ht
  refine ⟨⟨hsize.ge, fun b hb => hbranches ▸ hb, ?_⟩, ?_, ?_, ?_, ?_⟩
  · intro l' t ht
    rw [hoffset, if_neg (hkept ht), ht]
  · rw [hbranches, hsize]
    exact h.starts
  · intro l' t ht
    rw [hoffset] at ht
    rw [hsize]
    split at ht
    · exact (Option.some.inj ht).ge
    · exact h.inside l' t ht
  · rw [hbranches, hpending]
    intro b hb hnone'
    rw [hoffset] at hnone'
    split at hnone'
    · cases hnone'
    · rename_i hne
      obtain ⟨p, hp, hlabel⟩ := h.waits b hb hnone'
      refine ⟨p, Array.mem_filter.2 ⟨hp, ?_⟩, hlabel⟩
      rw [hlabel]
      exact decide_eq_true hne
  · rw [hbranches, hpending]
    intro p hp
    obtain ⟨hp, hne⟩ := Array.mem_filter.1 hp
    rw [hoffset, if_neg (of_decide_eq_true hne)]
    exact h.listed p hp

/-- **One operation** keeps the books, also if it fails. -/
theorem after (h : Booked a) (op : AsmOp) : Grown a (a.after op) ∧ Booked (a.after op) := by
  unfold Assembler.after
  by_cases hquiet : op.isQuiet = true
  · by_cases hlabel : op = .newLabel
    · subst hlabel
      exact h.keep (Nat.le_refl _) a.labels.fresh_offset? rfl rfl
    · obtain ⟨hsize, hlabels, hbranches⟩ := AsmOp.appendsOnly hquiet hlabel a
      exact h.keep hsize (fun l => by rw [hlabels]) (by rw [hlabels]) hbranches
  · -- branches and places, each of which may succeed or fail
    unfold stateAfter
    cases hop : op.perform a with
    | ok u a' =>
      dsimp only
      cases op with
      | branch op l =>
        have hb := Asm.branch_branches hop
        refine h.list ?_ hb.offset hb.branches ?_
        · rcases hb.operand with ⟨t, w, -, -, hcode, -⟩ | ⟨-, hcode, -⟩ <;>
            rw [← Array.length_toList, ← Array.length_toList, hcode] <;> simp
        · rcases hb.operand with ⟨t, w, ht, -, -, hpending⟩ | ⟨hnone, -, hpending⟩
          · exact .inl ⟨t, ht, hpending⟩
          · exact .inr ⟨hnone, hpending⟩
      | place l =>
        have hp := Asm.place_places hop
        exact h.settle hp.unplaced (size_patches hp.code) hp.offset hp.pending hp.branches
      | _ => exact absurd rfl hquiet
    | error e a' =>
      dsimp only
      cases op with
      | branch op l =>
        rcases Asm.branch_error hop with
          ⟨hcode, hlabels, hbranches, -⟩ | ⟨t, ht, -, hsize, hpending, hoffset, hbranches⟩
        · exact h.keep (by rw [hcode]) (fun l => by rw [hlabels]) (by rw [hlabels]) hbranches
        · -- the branch is listed, and its label has a place, so nothing has to wait
          exact h.list (by omega) hoffset hbranches (.inl ⟨t, ht, hpending⟩)
      | place l =>
        rcases Asm.place_error hop with ⟨rfl, -⟩ | ⟨ws, hplace, -, hsize, hbranches⟩
        · exact ⟨.refl _, h⟩
        · obtain ⟨-, hnone, -, -, hpending, hoffset, -⟩ := LabelTable.place_ok hplace
          exact h.settle hnone hsize hoffset hpending hbranches
      | _ => exact absurd rfl hquiet

/-- **Operations one after the other** keep the books, however many of them fail. -/
theorem afterAll (h : Booked a) (ops : List AsmOp) :
    Grown a (a.afterAll ops) ∧ Booked (a.afterAll ops) := by
  induction ops generalizing a with
  | nil => exact ⟨.refl a, h⟩
  | cons op ops ih =>
    obtain ⟨hgrown, hbooked⟩ := h.after op
    obtain ⟨hgrown', hbooked'⟩ := ih hbooked
    exact ⟨hgrown.trans hgrown', hbooked'⟩

/-- A branch that does not reach is listed, and its label has a place. -/
theorem far {op : AsmOp} {b t : Nat} (h : Booked a) (hop : op.isQuiet = false)
    (hfar : op.perform a = .error (.branchTooFar b t) a') :
    ¬ (-32768 ≤ (t : Int) - b ∧ (t : Int) - b ≤ 32767) ∧
      ∃ l, (b, l) ∈ a'.branches ∧ a'.labels.offset? l = some t := by
  cases op with
  | branch op l =>
    rcases Asm.branch_error hfar with
      ⟨-, -, -, hne⟩ | ⟨t', ht, hrelative, -, -, hoffset, hbranches⟩
    · exact absurd rfl (hne b t)
    · obtain ⟨heq, hdistance⟩ := Asm.relative_error hrelative
      cases heq
      refine ⟨hdistance, l, ?_, by rw [hoffset, ht]⟩
      rw [hbranches]
      exact Array.mem_push_self
  | place l =>
    rcases Asm.place_error hfar with ⟨-, hne⟩ | ⟨ws, hplace, ⟨p, hp, hrelative⟩, -, hbranches⟩
    · exact absurd rfl (hne b t)
    · obtain ⟨heq, hdistance⟩ := Asm.relative_error hrelative
      cases heq
      obtain ⟨-, -, -, rfl, -, hoffset, -⟩ := LabelTable.place_ok hplace
      obtain ⟨hp, hlabel⟩ := Array.mem_filter.1 (Array.mem_toList_iff.1 hp)
      have hlabel : p.label = l := of_decide_eq_true hlabel
      refine ⟨hdistance, l, ?_, by rw [hoffset, if_pos rfl]⟩
      rw [hbranches, ← hlabel]
      exact (h.listed p hp).1
  | _ => cases hop

/-! ## Finished bodies -/

/-- A body with places for all labels is finished with all its branches, if it is not too long. -/
theorem finish (h : Booked a) (hplaced : ∀ b ∈ a.branches, ∃ t, a.labels.offset? b.2 = some t)
    (hsize : a.code.size ≤ maxCodeLength) :
    ∃ f, a.finish = .ok f ∧ List.Forall₂
      (fun b r => r.1 = b.1 ∧ a.labels.offset? b.2 = some r.2) a.branches.toList f.branches := by
  -- what waits is listed and has no place
  have hpending : a.labels.pending = #[] := by
    refine Array.eq_empty_iff_forall_not_mem.2 fun p hp => ?_
    obtain ⟨hlisted, hnone⟩ := h.listed p hp
    obtain ⟨t, ht⟩ := hplaced _ hlisted
    rw [hnone] at ht
    cases ht
  have hfirst : a.labels.firstUnresolved? = none :=
    LabelTable.firstUnresolved?_eq_none_iff.2 hpending
  obtain ⟨resolved, hresolved, hall⟩ :=
    resolveBranches_ok fun b hb => hplaced b (Array.mem_toList_iff.1 hb)
  refine ⟨⟨a.code, a.maxDepth, a.maxLocals, resolved⟩, ?_, hall⟩
  unfold Assembler.finish
  rw [hfirst]
  dsimp only
  rw [if_neg (Nat.not_lt.2 hsize), hresolved]
  rfl

/-- A body that is finished has places for all labels, and is not too long. -/
theorem of_finish (h : Booked a) {f : Finished} (hf : a.finish = .ok f) :
    (∀ b ∈ a.branches, ∃ t, a.labels.offset? b.2 = some t) ∧ a.code.size ≤ maxCodeLength := by
  obtain ⟨hclosed, -, -, -, hsize⟩ := Assembler.finish_ok hf
  refine ⟨fun b hb => Option.ne_none_iff_exists'.1 fun hnone => ?_, hsize⟩
  obtain ⟨p, hp, -⟩ := h.waits b hb hnone
  rw [hclosed] at hp
  exact Array.not_mem_empty p hp

/-- A finished body lists every branch with the place of its label. -/
theorem mem_finish (h : Booked a) {f : Finished} (hf : a.finish = .ok f) {b t : Nat}
    (hlisted : (b, l) ∈ a.branches) (hplaced : a.labels.offset? l = some t) : (b, t) ∈ f.branches := by
  obtain ⟨hall, hsize⟩ := h.of_finish hf
  obtain ⟨f', hf', hbranches⟩ := h.finish hall hsize
  rw [hf] at hf'
  cases hf'
  obtain ⟨hlength, hget⟩ := List.forall₂_iff_get.1 hbranches
  obtain ⟨i, hb⟩ := List.get_of_mem (Array.mem_toList_iff.2 hlisted)
  obtain ⟨hfst, hsnd⟩ := hget i i.isLt (hlength ▸ i.isLt)
  rw [hb] at hfst hsnd
  rw [hplaced] at hsnd
  have hr : f.branches.get ⟨i, hlength ▸ i.isLt⟩ = (b, t) :=
    Prod.ext hfst (Option.some.inj hsnd).symm
  rw [← hr]
  exact List.get_mem _ _

end Booked

/-- **What becomes of a body in which a branch did not reach**, whatever is done before and after. It
can be finished exactly if all labels that are branched to have places and the code is not too long. A
finished body lists the branch with the target that it does not reach. Nothing is handed out if one of
the two is too far behind for any body. -/
theorem finish_of_branchTooFar {n b t : Nat} {before : List AsmOp} {op : AsmOp} {a : Assembler}
    (hop : op.isQuiet = false)
    (hfar : op.perform ((Assembler.start n).afterAll before) = .error (.branchTooFar b t) a)
    (after : List AsmOp) :
    ¬ (-32768 ≤ (t : Int) - b ∧ (t : Int) - b ≤ 32767) ∧
      ((∃ f, (a.afterAll after).finish = .ok f) ↔
        (∀ e ∈ (a.afterAll after).branches,
          ∃ place, (a.afterAll after).labels.offset? e.2 = some place) ∧
        (a.afterAll after).code.size ≤ maxCodeLength) ∧
      (∀ f, (a.afterAll after).finish = .ok f → (b, t) ∈ f.branches) ∧
      (maxCodeLength ≤ b ∨ maxCodeLength < t → ∀ f, (a.afterAll after).finish ≠ .ok f) := by
  have hbefore := ((Booked.start n).afterAll before).2
  obtain ⟨hdistance, l, hlisted, hplaced⟩ := hbefore.far hop hfar
  -- the operation that failed has kept the books, too
  have hbooked : Booked a := by
    have hkept := (hbefore.after op).2
    unfold Assembler.after stateAfter at hkept
    rwa [hfar] at hkept
  obtain ⟨hgrown, hafter⟩ := hbooked.afterAll after
  have hlisted := hgrown.branches _ hlisted
  have hplaced := hgrown.placed l t hplaced
  refine ⟨hdistance, ⟨?_, ?_⟩, fun f hf => hafter.mem_finish hf hlisted hplaced, ?_⟩
  · rintro ⟨f, hf⟩
    exact hafter.of_finish hf
  · rintro ⟨hall, hsize⟩
    obtain ⟨f, hf, -⟩ := hafter.finish hall hsize
    exact ⟨f, hf⟩
  · -- both ends of the branch lie within the code
    intro hlong f hf
    obtain ⟨-, hsize⟩ := hafter.of_finish hf
    have hstart : b < (a.afterAll after).code.size := hafter.starts _ hlisted
    have hinside := hafter.inside l t hplaced
    omega

theorem nop_ok {a : Assembler} (hdepth : a.depth ≤ maxFrameWords) :
    ∃ a', AsmOp.perform (.plain .nop) a = .ok () a' ∧ a'.labels = a.labels ∧
      a'.branches = a.branches ∧ a'.depth = a.depth ∧ a'.code.size = a.code.size + 1 := by
  refine ⟨_, bind_ok.2 ⟨(), _, bind_ok.2 ⟨(), _, Asm.record_ok.2 rfl, bind_ok.2 ⟨_, _,
    Asm.pc_ok.2 ⟨rfl, rfl⟩, bind_ok.2 ⟨(), _, Asm.emit_ok.2 rfl, bind_ok.2 ⟨(), _,
      Asm.popWords_ok.2 ⟨Nat.zero_le _, rfl⟩, Asm.pushWords_ok.2 ⟨hdepth, rfl⟩⟩⟩⟩⟩,
    modify_ok.2 rfl⟩, rfl, rfl, rfl, ?_⟩
  exact Array.size_push ..

/-- A state with as much more code as is said. -/
theorem afterAll_nops {a : Assembler} (hdepth : a.depth ≤ maxFrameWords) (k : Nat) :
    ∃ a', a.afterAll (List.replicate k (.plain .nop)) = a' ∧ a'.labels = a.labels ∧
      a'.branches = a.branches ∧ a'.code.size = a.code.size + k := by
  induction k generalizing a with
  | zero => exact ⟨a, rfl, rfl, rfl, rfl⟩
  | succ k ih =>
    obtain ⟨b, hb, hlabels, hbranches, hdepth', hsize⟩ := nop_ok hdepth
    have hstep : a.after (.plain .nop) = b := by
      unfold Assembler.after stateAfter
      rw [hb]
    obtain ⟨c, hc, hlabels', hbranches', hsize'⟩ := ih (hdepth'.trans_le hdepth)
    refine ⟨c, ?_, hlabels'.trans hlabels, hbranches'.trans hbranches, by omega⟩
    rw [List.replicate_succ, Assembler.afterAll, List.foldl_cons, hstep]
    exact hc

/-- A jump over more code than a branch can pass. -/
def farJump : List AsmOp :=
  [.newLabel, .branch .goto ⟨0⟩] ++ List.replicate 32768 (.plain .nop)

/-- A jump that does not reach its label is handed out all the same. -/
theorem finish_of_branchTooFar_jump : ∃ a f,
    AsmOp.perform (.place ⟨0⟩) ((Assembler.start 0).afterAll farJump) =
      .error (.branchTooFar 0 32771) a ∧
    a.finish = .ok f ∧ (0, 32771) ∈ f.branches := by
  obtain ⟨s, hs, hlabels, hbranches, hsize⟩ :=
    @afterAll_nops ((Assembler.start 0).afterAll [.newLabel, .branch .goto ⟨0⟩]) (by decide) 32768
  have hstate : (Assembler.start 0).afterAll farJump = s := by
    rw [← hs]
    exact List.foldl_append
  have hlength : s.code.size = 32771 := hsize
  have hlabel : s.labels.place ⟨0⟩ s.code.size =
      .ok ([⟨0, 1, ⟨0⟩⟩], ⟨#[⟨some 32771, some 0⟩], #[]⟩) := by
    rw [hlabels, hlength]
    rfl
  obtain ⟨a, hfar, hone, hplaced, hshort⟩ : ∃ a,
      AsmOp.perform (.place ⟨0⟩) ((Assembler.start 0).afterAll farJump) =
        .error (.branchTooFar 0 32771) a ∧
      a.branches = #[(0, ⟨0⟩)] ∧ a.labels.offset? ⟨0⟩ = some 32771 ∧ a.code.size = 32771 := by
    rw [hstate]
    exact ⟨{ s with labels := ⟨#[⟨some 32771, some 0⟩], #[]⟩ },
      Asm.place_far hlabel (by rw [hlength]; rfl), hbranches, rfl, hlength⟩
  obtain ⟨-, hfinish, hlisted, -⟩ := finish_of_branchTooFar rfl hfar []
  have hall : ∀ e ∈ a.branches, ∃ place, a.labels.offset? e.2 = some place := by
    intro e he
    rw [hone, Array.mem_singleton] at he
    exact ⟨32771, he ▸ hplaced⟩
  obtain ⟨f, hf⟩ := hfinish.2 ⟨hall, hshort.trans_le (by decide)⟩
  exact ⟨a, f, hfar, hf, hlisted f hf⟩

end ClassFoundry
