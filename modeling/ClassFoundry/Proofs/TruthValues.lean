import ClassFoundry.Proofs.StraightLine

/-!
# Truth values can be lowered

A truth value is one of two constants, with a branch over the other. The branches lead forward, to labels
that are placed a few bytes later, so that they always reach them.

## Main definitions

* `fork`, `join`: the code of a truth value, with its first and its second constant
* `Assembler.Forked`: a body between the two

## Main results

* `branch_succeeds`, `place_succeeds`: branches forward, and the labels that they lead to
* `truthValue_succeeds`: a truth value, after any code without branches
* `compareBranch_advances`: the code of a comparison of numbers
* `FunDef.lowers_truth`: a function that returns a truth value can be lowered
-/

namespace ClassFoundry

/-! ## Branches forward -/

section Labels

variable {a : Assembler} {l : Label}

/-- A branch to a label that has no place yet. -/
theorem branch_succeeds (op : Opcode) (hknown : l.id < a.labels.states.size)
    (hopen : a.labels.offset? l = none) (hpops : op.branchPops ≤ a.depth) :
    ∃ a', Asm.branch op l a = .ok () a' := by
  obtain ⟨t, ht⟩ : ∃ t, a.labels.noteDepth l (a.depth - op.branchPops) = .ok t :=
    LabelTable.exists_noteDepth_iff.2 hknown
  have hoffset : t.offset? l = none := by
    obtain ⟨-, -, -, hsame, -⟩ := LabelTable.noteDepth_ok ht
    rw [hsame, hopen]
  let b : Assembler :=
    { a with trace := a.trace.push ⟨a.code.size, a.depth, op⟩, depth := a.depth - op.branchPops }
  have hnote : Asm.noteDepth l b = .ok () { b with labels := t } := by
    unfold Asm.noteDepth
    rw [show a.labels.noteDepth l (a.depth - op.branchPops) = .ok t from ht]
  refine Exists.imp (fun a' h => bind_ok.2 ⟨(), _, Asm.record_ok.2 rfl,
    bind_ok.2 ⟨_, _, Asm.pc_ok.2 ⟨rfl, rfl⟩, bind_ok.2 ⟨(), b, Asm.popWords_ok.2 ⟨hpops, rfl⟩,
      bind_ok.2 ⟨(), _, hnote, bind_ok.2 ⟨(), _, Asm.emit_ok.2 rfl,
        bind_ok.2 ⟨(), _, modify_ok.2 rfl, bind_ok.2 ⟨_, _, get_ok.2 ⟨rfl, rfl⟩, h⟩⟩⟩⟩⟩⟩⟩) ?_
  dsimp only
  rw [hoffset]
  exact ⟨_, rfl⟩

/-- Branches over less than half of the longest code can be completed. -/
theorem patchAll_succeeds {target : Nat} {ws : List PendingBranch}
    (hnear : ∀ b ∈ ws, b.branch ≤ target ∧ target ≤ b.branch + 32767) (a : Assembler) :
    ∃ a', Asm.patchAll target ws a = .ok () a' := by
  induction ws generalizing a with
  | nil => exact ⟨a, rfl⟩
  | cons b ws ih =>
    obtain ⟨hb, hws⟩ := List.forall_mem_cons.1 hnear
    have hfits : -32768 ≤ (target : Int) - b.branch ∧ (target : Int) - b.branch ≤ 32767 := by omega
    unfold Asm.patchAll Asm.relative
    dsimp only
    rw [if_pos hfits]
    exact ih hws _

/-- A label that no branch far away waits for can be placed. -/
theorem place_succeeds (hknown : l.id < a.labels.states.size) (hopen : a.labels.offset? l = none)
    (hnear : ∀ b ∈ a.labels.pending, b.branch ≤ a.code.size ∧ a.code.size ≤ b.branch + 32767) :
    ∃ a', Asm.place l a = .ok () a' := by
  obtain ⟨ws, t, ht⟩ : ∃ ws t, a.labels.place l a.code.size = .ok (ws, t) :=
    LabelTable.exists_place_iff.2 ⟨hknown, hopen⟩
  obtain ⟨-, -, hsize, hws, -⟩ := LabelTable.place_ok ht
  have htake : Asm.takePending l a = .ok ws { a with labels := t } := by
    unfold Asm.takePending
    rw [ht]
  have hwaiting : ∀ b ∈ ws, b.branch ≤ a.code.size ∧ a.code.size ≤ b.branch + 32767 := by
    intro b hb
    rw [hws, Array.mem_toList_iff] at hb
    exact hnear b (Array.mem_filter.1 hb).1
  obtain ⟨b, hb⟩ := patchAll_succeeds hwaiting { a with labels := t }
  obtain ⟨code, -, rfl⟩ := Asm.patchAll_ok hb
  have hstate : l.id < t.states.size := by rwa [hsize]
  unfold Asm.place
  rw [bind_of_ok (Asm.pc_ok.2 ⟨rfl, rfl⟩), bind_of_ok htake, bind_of_ok hb]
  unfold Asm.enterLabel LabelTable.entryDepth? LabelTable.noteDepth
  dsimp only
  rw [Array.getElem?_eq_getElem hstate]
  dsimp only
  cases t.states[l.id].entryDepth with
  | some depth => exact ⟨_, rfl⟩
  | none => exact ⟨_, rfl⟩

theorem size_patches {target : Nat} {ws : List PendingBranch} {code code' : CodeArray}
    (h : patches target ws code = .ok code') : code'.size = code.size := by
  induction ws generalizing code with
  | nil =>
    cases h
    rfl
  | cons b ws ih =>
    unfold patches at h
    split at h
    · rw [ih h]
      simp [Asm.patch]
    · cases h

end Labels

/-! ## Truth values -/

/-- The code of a truth value up to the end of its first constant, from the branch that decides it on. -/
def fork (test : Opcode) (otherwise done : Label) : Asm Unit := do
  Asm.branch test otherwise
  Asm.plain .iconst_1
  Asm.branch .goto done

/-- The rest of the code of a truth value. -/
def join (otherwise done : Label) : Asm Unit := do
  Asm.place otherwise
  Asm.plain .iconst_0
  Asm.place done

/-- **A body between the two constants** of a truth value, with one branch to each of two labels. -/
structure Assembler.Forked (a : Assembler) (start : Nat) : Prop where
  size : a.code.size = start + 7
  alive : a.alive = false
  states : a.labels.states.size = 2
  unplaced : a.labels.offset? ⟨0⟩ = none ∧ a.labels.offset? ⟨1⟩ = none
  entry : a.labels.depthAt? ⟨0⟩ = some 0
  pending : a.labels.pending = #[⟨start, start + 1, ⟨0⟩⟩, ⟨start + 4, start + 5, ⟨1⟩⟩]
  branches : a.branches = #[(start, ⟨0⟩), (start + 4, ⟨1⟩)]

theorem Branches.size_eq {a a' : Assembler} {op : Opcode} {l : Label} (h : Branches a op l a') :
    a'.code.size = a.code.size + 3 := by
  rw [← Array.length_toList]
  rcases h.operand with ⟨t, w, -, -, hcode, -⟩ | ⟨-, hcode, -⟩ <;> simp [hcode, be16]

theorem Branches.pending_eq {a a' : Assembler} {op : Opcode} {l : Label} (h : Branches a op l a')
    (hopen : a.labels.offset? l = none) :
    a'.labels.pending = a.labels.pending.push ⟨a.code.size, a.code.size + 1, l⟩ := by
  rcases h.operand with ⟨t, w, ht, -⟩ | ⟨-, -, hpending⟩
  · rw [hopen] at ht
    cases ht
  · exact hpending

theorem Emits.size_eq {a a' : Assembler} {op : Opcode} {pops pushes : Nat}
    (h : Emits a (.plain op) pops pushes a') : a'.code.size = a.code.size + 1 := by
  rw [← Array.length_toList, h.code]
  simp [Instruction.encode]

/-- A constant of one word. -/
theorem constant_emits {a : Assembler} (op : Opcode) (heffect : op.effect? = some (0, 1))
    (hdepth : a.depth = 0) : ∃ a', Asm.plain op a = .ok () a' ∧ Emits a (.plain op) 0 1 a' := by
  have hplain : ∃ a', Asm.plain op a = .ok () a' := by
    unfold Asm.plain
    rw [heffect]
    refine ⟨_, bind_ok.2 ⟨(), _, bind_ok.2 ⟨(), _, Asm.record_ok.2 rfl,
      bind_ok.2 ⟨_, _, Asm.pc_ok.2 ⟨rfl, rfl⟩, bind_ok.2 ⟨(), _, Asm.emit_ok.2 rfl,
        bind_ok.2 ⟨(), _, Asm.popWords_ok.2 ⟨Nat.zero_le _, rfl⟩,
          Asm.pushWords_ok.2 ⟨?_, rfl⟩⟩⟩⟩⟩, modify_ok.2 rfl⟩⟩
    show a.depth - 0 + 1 ≤ maxFrameWords
    rw [hdepth]
    decide
  obtain ⟨a', ha'⟩ := hplain
  obtain ⟨pops, pushes, heffect', hemits⟩ := Asm.plain_emits ha'
  obtain ⟨rfl, rfl⟩ : 0 = pops ∧ 1 = pushes := by simpa using heffect.symm.trans heffect'
  exact ⟨a', ha', hemits⟩

/-- The first constant, with a branch over it and one over the second. -/
theorem fork_succeeds {a : Assembler} {test : Opcode} (hlabels : a.labels = ⟨#[{}, {}], #[]⟩)
    (hbranches : a.branches = #[]) (hdepth : a.depth = test.branchPops) :
    ∃ a', fork test ⟨0⟩ ⟨1⟩ a = .ok () a' ∧ a'.Forked a.code.size := by
  have hstates : a.labels.states.size = 2 := by
    rw [hlabels]
    rfl
  have hfree : a.labels.offset? ⟨0⟩ = none ∧ a.labels.offset? ⟨1⟩ = none := by
    rw [hlabels]
    exact ⟨rfl, rfl⟩
  obtain ⟨a₁, h₁⟩ := branch_succeeds test (by rw [hstates]; exact Nat.zero_lt_two) hfree.1
    hdepth.ge
  have hb₁ := Asm.branch_branches h₁
  have hd₁ : a₁.depth = 0 := by rw [hb₁.depth, hdepth, Nat.sub_self]
  obtain ⟨a₂, h₂, he₂⟩ := constant_emits .iconst_1 rfl hd₁
  have hs₂ : a₂.code.size = a.code.size + 4 := by rw [he₂.size_eq, hb₁.size_eq]
  have hstates₂ : a₂.labels.states.size = 2 := by rw [he₂.labels, hb₁.size, hstates]
  have hoffset₂ (l : Label) : a₂.labels.offset? l = a.labels.offset? l := by
    rw [he₂.labels, hb₁.offset]
  have hfree₂ : a₂.labels.offset? ⟨1⟩ = none := by rw [hoffset₂, hfree.2]
  obtain ⟨a₃, h₃⟩ := branch_succeeds .goto (by rw [hstates₂]; exact Nat.one_lt_two) hfree₂
    (Nat.zero_le _)
  have hb₃ := Asm.branch_branches h₃
  refine ⟨a₃, bind_ok.2 ⟨(), a₁, h₁, bind_ok.2 ⟨(), a₂, h₂, h₃⟩⟩, ?_, ?_, ?_, ?_, ?_, ?_, ?_⟩
  · rw [hb₃.size_eq, hs₂]
  · rw [hb₃.alive]
    exact Bool.and_false _
  · rw [hb₃.size, hstates₂]
  · rw [hb₃.offset, hb₃.offset, hoffset₂, hoffset₂]
    exact hfree
  · -- the branch to the first label was the first to leave a depth there
    rw [hb₃.entry, if_neg (by decide), he₂.labels, hb₁.entry, if_pos rfl, hlabels, hd₁]
    rfl
  · rw [hb₃.pending_eq hfree₂, he₂.labels, hb₁.pending_eq hfree.1, hlabels, hs₂]
    rfl
  · rw [hb₃.branches, he₂.branches, hb₁.branches, hbranches, hs₂]
    rfl

/-- The second constant, and the labels before and after it. -/
theorem Assembler.Forked.join_succeeds {a : Assembler} {start : Nat} (h : a.Forked start) :
    ∃ a', join ⟨0⟩ ⟨1⟩ a = .ok () a' ∧ a'.depth = 1 ∧ a'.code.size = start + 8 ∧
      a'.labels.pending = #[] ∧ ∀ b ∈ a'.branches, ∃ t, a'.labels.offset? b.2 = some t := by
  obtain ⟨a₁, h₁⟩ := place_succeeds (a := a) (l := ⟨0⟩) (by rw [h.states]; exact Nat.zero_lt_two)
    h.unplaced.1 (by rw [h.pending, h.size]; simp; omega)
  have hp₁ := Asm.place_places h₁
  have hs₁ : a₁.code.size = start + 7 := by rw [size_patches hp₁.code, h.size]
  have hpending₁ : a₁.labels.pending = #[⟨start + 4, start + 5, ⟨1⟩⟩] := by
    rw [hp₁.pending, h.pending]
    rfl
  -- the code before the label goes elsewhere, so that the depth is that of the branch
  have hd₁ : a₁.depth = 0 := by
    rw [hp₁.depth, h.alive, h.entry]
    rfl
  obtain ⟨a₂, h₂, he₂⟩ := constant_emits .iconst_0 rfl hd₁
  have hs₂ : a₂.code.size = start + 8 := by rw [he₂.size_eq, hs₁]
  have halive₂ : a₂.alive = true := by
    rw [he₂.alive, hp₁.alive]
    rfl
  obtain ⟨a₃, h₃⟩ := place_succeeds (a := a₂) (l := ⟨1⟩)
    (by rw [he₂.labels, hp₁.size, h.states]; exact Nat.one_lt_two)
    (by rw [he₂.labels, hp₁.offset, if_neg (by decide), h.unplaced.2])
    (by rw [he₂.labels, hpending₁, hs₂]; simp; omega)
  have hp₃ := Asm.place_places h₃
  refine ⟨a₃, bind_ok.2 ⟨(), a₁, h₁, bind_ok.2 ⟨(), a₂, h₂, h₃⟩⟩, ?_, ?_, ?_, ?_⟩
  · rw [hp₃.depth, halive₂, if_pos rfl, he₂.depth, hd₁]
  · rw [size_patches hp₃.code, hs₂]
  · rw [hp₃.pending, he₂.labels, hpending₁]
    rfl
  · intro b hb
    rw [hp₃.branches, he₂.branches, hp₁.branches, h.branches] at hb
    have hplaced : b.2 = ⟨0⟩ ∨ b.2 = ⟨1⟩ := by
      rcases List.mem_pair.1 (Array.mem_toList_iff.2 hb) with rfl | rfl
      · exact .inl rfl
      · exact .inr rfl
    rw [hp₃.offset, he₂.labels, hp₁.offset]
    rcases hplaced with h₀ | h₁ <;> simp [*]

/-! ## Functions -/

section Functions

open Lower

variable {l : Locals} {slots bytes : Nat}

/-- **A truth value** is lowered if the code up to its branch is, and leaves no branch open. -/
theorem truthValue_succeeds {branch : Bool → Label → Lower Unit} {test : Opcode} {x : Lower Unit}
    (hx : Advances l slots bytes 0 test.branchPops x)
    (hbranch : ∀ s, branch false ⟨0⟩ s = (do x; code (Asm.branch test ⟨0⟩) : Lower Unit) s)
    {m n k : Nat} {s : LowerState} (hs : s.Ready (.start k) l (slots + m) (bytes + (8 + n)) 0) :
    ∃ s', Lowering.truthValue branch s = .ok () s' ∧ s'.Ready s'.asm l m n 1 ∧
      s'.asm.labels.pending = #[] ∧
      ∀ b ∈ s'.asm.branches, ∃ t, s'.asm.labels.offset? b.2 = some t := by
  -- the two labels are made before the code that decides
  have hlabel (a : Assembler) : Asm.newLabel a = .ok ⟨a.labels.states.size⟩
    { a with labels := a.labels.fresh.2 } := rfl
  let a₁ : Assembler := { s.asm with labels := ⟨#[{}, {}], #[]⟩ }
  have hs₁ : LowerState.Ready { s with asm := a₁ } a₁ l (slots + m) (bytes + (8 + n)) 0 :=
    ⟨hs.locals, hs.pool, hs.asm.depth, hs.asm.size, rfl, rfl⟩
  obtain ⟨s₂, h₂, hs₂⟩ := hx m (8 + n) _ hs₁
  obtain ⟨a₃, h₃, hforked⟩ := fork_succeeds hs₂.asm.labels (hs₂.asm.branches.trans hs.asm.branches)
    hs₂.asm.depth
  obtain ⟨a₄, h₄, hdepth, hsize, hpending, hplaced⟩ := hforked.join_succeeds
  obtain ⟨_, b₁, hb₁, hrest⟩ := bind_ok.1 h₃
  obtain ⟨_, b₂, hb₂, hb₃⟩ := bind_ok.1 hrest
  obtain ⟨_, b₄, hb₄, hrest⟩ := bind_ok.1 h₄
  obtain ⟨_, b₅, hb₅, hb₆⟩ := bind_ok.1 hrest
  refine ⟨{ s₂ with asm := a₄ }, ?_, ⟨hs₂.locals, hs₂.pool, hdepth, ?_, rfl, rfl⟩, hpending, hplaced⟩
  · have hcode {y : Asm Unit} {a a' : Assembler} (h : y a = .ok () a') :
        code y { s₂ with asm := a } = .ok () { s₂ with asm := a' } := code_ok.2 ⟨a', h, rfl⟩
    have htest : branch false ⟨0⟩ { s with asm := a₁ } = .ok () { s₂ with asm := b₁ } := by
      rw [hbranch]
      exact bind_ok.2 ⟨(), s₂, h₂, hcode hb₁⟩
    refine bind_ok.2 ⟨⟨0⟩, { s with asm := { s.asm with labels := ⟨#[{}], #[]⟩ } },
      code_ok.2 ⟨_, ?_, rfl⟩, bind_ok.2 ⟨⟨1⟩, { s with asm := a₁ }, rfl, bind_ok.2 ⟨(), _, htest,
        bind_ok.2 ⟨(), _, hcode hb₂, bind_ok.2 ⟨(), _, hcode hb₃, bind_ok.2 ⟨(), _, hcode hb₄,
          bind_ok.2 ⟨(), _, hcode hb₅, hcode hb₆⟩⟩⟩⟩⟩⟩⟩
    rw [hlabel, hs.asm.labels]
    rfl
  · have := hs₂.asm.size
    show a₄.code.size + n ≤ maxCodeLength
    omega

/-! ### Comparisons -/

/-- The code that compares two numbers, and the branch that its result decides. -/
def Comparison.test (op : Comparison) : (long unsigned : Bool) → Lower Unit × Opcode
  | false, false => (pure (), op.intBranch)
  | false, true => (invokeStatic (unsignedInt "compareUnsigned" "(II)I") 2 1, op.zeroBranch)
  | true, false => (plain .lcmp, op.zeroBranch)
  | true, true => (invokeStatic (unsignedLong "compareUnsigned" "(JJ)I") 4 1, op.zeroBranch)

theorem shortText_compareUnsigned : ShortText "java/lang/Integer" ∧ ShortText "java/lang/Long" ∧
    ShortText "compareUnsigned" ∧ ShortText "(II)I" ∧ ShortText "(JJ)I" := by
  unfold ShortText
  decide

theorem Comparison.test_advances (op : Comparison) (long unsigned : Bool) :
    Advances l 6 3 (if long then 4 else 2) (op.test long unsigned).2.branchPops
      (op.test long unsigned).1 := by
  obtain ⟨hint, hlong, hname, hints, hlongs⟩ := shortText_compareUnsigned
  have hzero : op.zeroBranch.branchPops = 0 + 1 := by cases op <;> rfl
  cases long with
  | false =>
    cases unsigned with
    | false =>
      -- two ints are compared by the branch
      have hpops : op.intBranch.branchPops = 2 := by cases op <;> rfl
      show Advances l 6 3 2 op.intBranch.branchPops (pure ())
      rw [hpops]
      exact pure_advances.mono (Nat.zero_le _) (Nat.zero_le _)
    | true =>
      show Advances l 6 3 (0 + 2) op.zeroBranch.branchPops (invokeStatic _ _ _)
      rw [hzero]
      exact invokeStatic_advances (unsignedInt "compareUnsigned" "(II)I") hint hname hints (by decide)
  | true =>
    cases unsigned with
    | false =>
      show Advances l 6 3 (0 + 4) op.zeroBranch.branchPops (plain .lcmp)
      rw [hzero]
      exact (plain_advances rfl (by decide)).mono (Nat.zero_le 6) (by decide : 1 ≤ 3)
    | true =>
      show Advances l 6 3 (0 + 4) op.zeroBranch.branchPops (invokeStatic _ _ _)
      rw [hzero]
      exact invokeStatic_advances (unsignedLong "compareUnsigned" "(JJ)I") hlong hname hlongs
        (by decide)

/-- A number as one of a kind that holds it. -/
theorem numberAs_succeeds {e : Expr} {x : Lower Unit} {i j d d₁ : Nat} (he : e.ty.IsNumber)
    {kind : Kind} (hkind : kind = .long ∨ kind = e.ty.numberKind) (hdepth : d + 4 ≤ maxFrameWords)
    (hx : Advances l i j d₁ (d + e.ty.numberKind.words) x) :
    Advances l (i + 2) (j + 5) d₁ (d + kind.words) (numberAs e x kind) := by
  rcases hkind with rfl | hkind
  · exact hx.seq (widen_long_advances he hdepth)
  · exact (numberAs_advances he rfl (.inl hkind) (by omega) hx).mono (by omega) (by omega)

theorem compareBranch_eq (op : Comparison) (whole : Expr) {lhs rhs : Expr} (left right : Lower Unit)
    (hlhs : lhs.ty.IsNumber) (hrhs : rhs.ty.IsNumber) (jumpIf : Bool) (target : Label)
    (s : LowerState) : compareBranch op whole lhs rhs left right jumpIf target s =
      compareNumbers op lhs rhs left right
        (lhs.ty.numberKind == .long || rhs.ty.numberKind == .long) jumpIf target s := by
  refine (bind_of_ok (valueKind_ok.2 ⟨hlhs.kind?, rfl⟩)).trans
    ((bind_of_ok (valueKind_ok.2 ⟨hrhs.kind?, rfl⟩)).trans ?_)
  cases hl : lhs.ty.numberKind with
  | reference => exact absurd hl lhs.ty.numberKind_ne
  | int | long =>
    cases hr : rhs.ty.numberKind with
    | reference => exact absurd hr rhs.ty.numberKind_ne
    | int | long => rfl

theorem compareNumbers_eq (op : Comparison) (lhs rhs : Expr) (left right : Lower Unit) (long : Bool)
    (target : Label) : compareNumbers op lhs rhs left right long false target = (do
      numberAs lhs left (if long then .long else .int)
      numberAs rhs right (if long then .long else .int)
      let test := op.negate.test long
        ((lhs.ty.needsUnsignedOps || rhs.ty.needsUnsignedOps) && op.isOrdered)
      test.1
      code (Asm.branch test.2 target)) := by
  unfold compareNumbers
  dsimp only
  generalize ((lhs.ty.needsUnsignedOps || rhs.ty.needsUnsignedOps) && op.isOrdered) = unsigned
  cases long <;> cases unsigned <;> simp [Comparison.test]

/-- **A comparison of numbers** is a branch after code that takes what its sides take, and at most ten
slots and thirteen bytes more. -/
theorem compareBranch_advances (op : Comparison) (whole : Expr) {lhs rhs : Expr}
    {left right : Lower Unit} {i i' j j' : Nat} (hlhs : lhs.ty.IsNumber) (hrhs : rhs.ty.IsNumber)
    (hleft : Advances l i j 0 (0 + lhs.ty.numberKind.words) left)
    (hright : ∀ d ≤ 2, Advances l i' j' d (d + rhs.ty.numberKind.words) right) :
    ∃ test x, Advances l (i + i' + 10) (j + j' + 13) 0 (Opcode.branchPops test) x ∧
      ∀ target s, compareBranch op whole lhs rhs left right false target s =
        (do x; code (Asm.branch test target) : Lower Unit) s := by
  simp only [compareBranch_eq op whole left right hlhs hrhs, compareNumbers_eq]
  have htest (long : Bool) := op.negate.test_advances (l := l) long
    ((lhs.ty.needsUnsignedOps || rhs.ty.needsUnsignedOps) && op.isOrdered)
  cases hlong : lhs.ty.numberKind == .long || rhs.ty.numberKind == .long with
  | true =>
    have hfirst := numberAs_succeeds hlhs (.inl rfl) (by decide) hleft
    have hsecond := numberAs_succeeds hrhs (.inl rfl) (by decide) (hright 2 (Nat.le_refl 2))
    refine ⟨_, _, (hfirst.seq (hsecond.seq (htest true))).mono (by omega) (by omega), ?_⟩
    intro target s
    simp only [bind_assoc, if_true]
  | false =>
    have hint {ty : DataType} (h : (ty.numberKind == .long) = false) : .int = ty.numberKind := by
      unfold DataType.numberKind at h ⊢
      cases hty : ty.isLong with
      | true => simp [hty] at h
      | false => rfl
    obtain ⟨hl, hr⟩ := Bool.or_eq_false_iff.1 hlong
    have hfirst := numberAs_succeeds hlhs (.inr (hint hl)) (by decide) hleft
    have hsecond := numberAs_succeeds hrhs (.inr (hint hr)) (by decide) (hright 1 (by decide))
    refine ⟨_, _, (hfirst.seq (hsecond.seq (htest false))).mono (by omega) (by omega), ?_⟩
    intro target s
    simp only [bind_assoc, Bool.false_eq_true, if_false]

/-- **A function that returns a truth value** can be lowered if the code up to its branch can. -/
theorem FunDef.lowers_truth {p : Program} {f : FunDef} {e : Expr}
    {branch : CallTable → Bool → Label → Lower Unit}
    (hl : Locals.ofFunction f f.reservedSlots = .ok l) (hbody : f.body = [.ret (some e)])
    (hty : e.ty = f.returnType) (hbool : f.returnType = .bool) (hbytes : bytes + 9 ≤ maxCodeLength)
    (hvalue : ∀ table, (lower ⟨table, f⟩ e).value = Lowering.truthValue (branch table))
    (h : ∀ table, table.Of p → ∃ test x, Advances l slots bytes 0 test.branchPops x ∧
      ∀ s, branch table false ⟨0⟩ s = (do x; code (Asm.branch test ⟨0⟩) : Lower Unit) s) :
    f.Lowers p slots := by
  refine ⟨l, hl, fun table n pool htable hpool => ?_⟩
  obtain ⟨test, x, hx, hbranch⟩ := h table htable
  have hstart : LowerState.Ready ⟨pool, l, .start l.maxLocals⟩ (.start l.maxLocals) l (slots + n)
      (bytes + (8 + 1)) 0 :=
    ⟨rfl, hpool, rfl, by simpa [Assembler.start] using hbytes, rfl, rfl⟩
  obtain ⟨s₁, h₁, hs₁, hpending, hplaced⟩ := truthValue_succeeds hx hbranch hstart
  have hret : Advances l 0 1 (0 + 1) (0 + 0) (code (Asm.ret (some .int))) :=
    plain_advances rfl (Nat.zero_le _)
  obtain ⟨s₂, h₂, hs₂⟩ := hret n 0 s₁ (by rwa [Nat.zero_add])
  obtain ⟨body, hfinish⟩ := finishBody_succeeds hs₂ hpending hplaced
  refine ⟨body, s₂, ?_, hs₂.pool⟩
  rw [lowerFunction_eq hbody hty (by rw [hbool]; rfl), hvalue]
  exact bind_ok.2 ⟨(), s₁, h₁, bind_ok.2 ⟨(), s₂, h₂, hfinish⟩⟩

end Functions

end ClassFoundry
