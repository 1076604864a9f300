import ClassFoundry.Proofs.ExactComparisons
import ClassFoundry.Proofs.Structured.Truth

/-!
# Branches on conditions

The code of a condition leads to its target or to its end. Which of the two it is depends on whether the
condition holds and on nothing else: the stack may hold anything, and it is the same afterwards, as are
the locals. A condition that holds leaves one if it is wanted as a value, and zero otherwise.

What a condition comes to is told by its tree. Where a comparison needs a method of the library, the class
may not have the name of that library class, for a method of its own would then take the place of the
other. Nothing is said of numbers that are misordered.

## Main definitions

* `returningRules`: rules under which nothing fails and calls return
* `Spec.ComesTo`: what a computation comes to
* `Lowered`: code within the finished code of a method

## Main results

* `closed_reaches`: the steps of a call lead back to states from which another can be reached
* `reaches_branch`, `reaches_truth`: where the code of a condition leads to
* `branches_on_truth`: **conditions branch on their truth**
-/

namespace ClassFoundry

/-! ## Runs that go on -/

/-- What a step leads to is on the way to a state. -/
def Outcome.Reaches (c : ClassFile) (t : State) : Outcome → Prop
  | .next m f callers => ClassFoundry.Reaches c ⟨m, f, callers⟩ t
  | .done _ _ | .fault _ _ => False

/-- **Rules under which nothing fails**, and methods of the class return to the call that waits for
them. -/
def returningRules (c : ClassFile) (callers : List Frame) : Rules where
  fault _ _ := False
  own callee receiver args Q out := ∀ (m : Machine) (f : Frame), m.output = out →
    ∃ (m' : Machine) (r : Option Value), Q m'.output r ∧
      (call c m f callers callee receiver args).Reaches c ⟨m', f.resume r, callers⟩
  locals _ := True
  stores _ _ := True
  result _ _ := False
  timeout := False
  stores_refl _ := trivial
  own_mono hQ h m f hout := by
    obtain ⟨m', r, hr, hreach⟩ := h m f hout
    exact ⟨m', r, hQ _ _ hr, hreach⟩

section Reaches

variable {c : ClassFile} {s t u : State}

theorem Reaches.of_outcome (h : (s.outcome c).Reaches c t) : Reaches c s t := by
  cases hout : s.outcome c with
  | next m f callers =>
    rw [hout] at h
    exact .head (t := ⟨m, f, callers⟩) hout h
  | done m r =>
    rw [hout] at h
    exact h.elim
  | fault m e =>
    rw [hout] at h
    exact h.elim

/-- A run comes to a halt in one state only. -/
theorem Reaches.eq_of_halted (h : Reaches c s t) (h' : Reaches c s u) (ht : ∀ v, ¬ Steps c t v)
    (hu : ∀ v, ¬ Steps c u v) : t = u := by
  have hend {a b : State} (hab : Reaches c a b) (ha : ∀ v, ¬ Steps c a v) : a = b := by
    rcases Relation.ReflTransGen.cases_head hab with rfl | ⟨v, hv, -⟩
    · rfl
    · exact absurd hv (ha v)
  -- of two states of a run one comes before the other
  have hunique : Relator.RightUnique (Steps c) := fun _ _ _ => Steps.unique
  rcases Relation.ReflTransGen.total_of_right_unique hunique h h' with h | h
  · exact hend h ht
  · exact (hend h hu).symm

/-- Behind the code of a method there is nothing to do. -/
theorem not_steps_of_end {site : Site} {pc : Nat} (hpc : pc = site.code.size)
    (m : Machine) (L : Array Value) (st : List Value) (t : State) :
    ¬ Steps c (site.state m pc L st) t := by
  have hdecode : decodeAt site.code pc = .error .outside := by
    unfold decodeAt
    rw [hpc, Array.getElem?_size]
  have hfetch : (site.frame pc L st).fetch = .error (.fellOffCode site.method pc) := by
    unfold Frame.fetch Site.frame
    dsimp only
    rw [hdecode]
  intro hstep
  unfold Steps Site.state State.outcome step at hstep
  dsimp only at hstep
  rw [hfetch] at hstep
  cases hstep

/-- **The steps of a call lead back to states from which others can be reached**, if nothing fails and
all calls return. -/
theorem closed_reaches (c : ClassFile) (σ : Site) (T : State → Prop) :
    σ.Closed c (returningRules c σ.callers) 0 fun _ s => ∃ t, Reaches c s t ∧ T t where
  zero h := h.elim
  antitone _ _ h := h
  bounded _ _ h := h
  step _ hstep _ _ h := by
    obtain ⟨t, ht, hT⟩ := h
    exact ⟨t, .head hstep ht, hT⟩
  fault _ _ h := h.elim
  ret _ _ _ h := h.elim
  own {_ m _ pc' L _ st' _ _ _ _} _ _ hout hown hQ := by
    -- the method returns, and the run goes on from there
    obtain ⟨m', r, hr, hreach⟩ := hown m.tick (σ.frame pc' L st') rfl
    obtain ⟨t, ht, hT⟩ := hQ m' r hr
    rw [← hout] at hreach
    have hresume : (σ.frame pc' L st').resume r = σ.frame pc' L (r.toList ++ st') := by
      cases r <;> rfl
    rw [hresume] at hreach
    exact ⟨t, Relation.ReflTransGen.trans (Reaches.of_outcome hreach) ht, hT⟩

end Reaches

/-! ## Code within a method -/

/-- **What a computation comes to**: a value, with the output at the end. -/
def Spec.ComesTo {α : Type} (m : Spec α) (out : String) (a : α) (out' : String) : Prop :=
  m (fun o x => o = out' ∧ x = a) out

/-- **Code within the finished code of a method** of a class: a lowering has gone from one state to
another in the middle of a body, which has become `z` when all its labels had places. -/
structure Lowered (c : ClassFile) (σ : Names) (x : Lower Unit) (s s' : LowerState) (z : Assembler) :
    Prop where
  ready : Ready σ s
  reached : Reached s.asm
  ok : x s = .ok () s'
  becomes : Becomes s'.asm z
  closed : z.Closed
  pool : s'.pool.pool ≤ c.pool

section Lowered

variable {c : ClassFile} {σ : Names} {s s' : LowerState} {z : Assembler}

theorem Lowered.fragment_at {x : Lower Unit} {code : Fragment} {P : Prop}
    (h : Lowered c σ x s s' z) (hx : Lowers σ x code P) :
    code.At c.pool z.code s.asm.pc s'.asm.pc := by
  obtain ⟨hbuilds, -⟩ := hx h.ready h.ok
  exact Fragment.Laid.at h.closed code (Fragment.Laid.mono h.pool code hbuilds.laid) h.reached
    h.becomes

theorem Lowered.condition_at {x : Bool → Label → Lower Unit} {cond : Condition} {P : Prop}
    {jumpIf : Bool} {target : Label} {t : Nat} (h : Lowered c σ (x jumpIf target) s s' z)
    (hx : LowersCondition σ x cond P) (ht : z.labels.offset? target = some t) :
    cond.At c.pool z.code jumpIf t s.asm.pc s'.asm.pc := by
  obtain ⟨hbuilds, -⟩ := hx h.ready h.ok
  exact Condition.Laid.at h.closed cond (Condition.Laid.mono h.pool cond hbuilds.laid) h.reached
    h.becomes ht

/-- The code of a condition as a value begins with its code as a branch. -/
theorem Lowered.branch_of_truth {x : Bool → Label → Lower Unit} {cond : Condition} {P : Prop}
    (h : Lowered c σ (Lowering.truthValue x) s s' z) (hx : LowersCondition σ x cond P) :
    ∃ (target : Label) (s₁ s₂ : LowerState) (t : Nat), s₁.asm.pc = s.asm.pc ∧
      Lowered c σ (x false target) s₁ s₂ z ∧ z.labels.offset? target = some t := by
  obtain ⟨s₂, s₃, s₄, s₅, s₆, hok, hone, hjump, hplace, hzero, hend, hpool, -, -⟩ :=
    truthValue_ok hx h.ready h.ok
  let s₁ : LowerState := { s with asm := s.asm.withLabel.withLabel }
  have hready : Ready σ s₁ := h.ready.code _
  have hreached : Reached s₁.asm :=
    h.reached.becomes ((becomes_withLabel _).trans (becomes_withLabel _))
  -- the label is placed between the two values
  have hto : Becomes s₂.asm s₄.asm := (Operation.Laid.becomes hone.laid).trans (.single hjump)
  have hfrom : Becomes s₅.asm z :=
    (Operation.Laid.becomes hzero.laid).trans ((Becomes.single hend).trans h.becomes)
  have hcond := (Condition.Laid.stretch cond (hx hready hok).1.laid).becomes
  have hplaced := (place_at (hreached.becomes (hcond.trans hto)) hplace hfrom).1
  exact ⟨_, s₁, s₂, _, rfl, ⟨hready, hreached, hok, hto.trans ((Becomes.single hplace).trans hfrom),
    h.closed, ConstantPool.le_trans (ConstantPool.le_trans hone.pool.le hpool.le) h.pool⟩, hplaced⟩

end Lowered

/-! ## Conditions -/

section Conditions

variable {c : ClassFile} {L : Array Value} {cond : Condition} {test : Spec Bool} {b : Bool}
  {out : String} {m : Machine} {pc pc' : Nat}

/-- **Where the code of a condition leads to**. -/
theorem reaches_branch (site : Site) {jumpIf : Bool} {t : Nat}
    (hcond : cond.Decides c (returningRules c site.callers) L test)
    (htest : test.ComesTo m.output b out) (hat : cond.At c.pool site.code jumpIf t pc pc')
    (st : List Value) :
    ∃ m' : Machine, m'.output = out ∧
      Reaches c (site.state m pc L st) (site.state m' (if b = jumpIf then t else pc') L st) := by
  let T (u : State) : Prop := ∃ m' : Machine, m'.output = out ∧
    u = site.state m' (if b = jumpIf then t else pc') L st
  have hstart : ∃ u, Reaches c (site.state m pc L st) u ∧ T u := by
    refine Condition.At.sound (n := 0) (closed_reaches c site T) trivial cond hat
      (hcond _ (fun b' o st' => o = out ∧ b' = b ∧ st' = st) m.output st htest
        fun o b' h => ⟨h.1, h.2, rfl⟩) ?_ m rfl
    -- behind the code the state is there
    rintro b' o st' ⟨rfl, rfl, rfl⟩ m' hm'
    exact ⟨_, .refl, m', hm', rfl⟩
  obtain ⟨_, hreach, m', hm', rfl⟩ := hstart
  exact ⟨m', hm', hreach⟩

/-- **What the code of a condition leaves** as a value. -/
theorem reaches_truth (site : Site) (hcond : cond.Decides c (returningRules c site.callers) L test)
    (htest : test.ComesTo m.output b out)
    (hat : (Fragment.truth cond).At c.pool site.code pc pc') (st : List Value) :
    ∃ m' : Machine, m'.output = out ∧ Reaches c (site.state m pc L st)
      (site.state m' pc' L (.int (if b then 1 else 0) :: st)) := by
  let T (u : State) : Prop := ∃ m' : Machine, m'.output = out ∧
    u = site.state m' pc' L (.int (if b then 1 else 0) :: st)
  have hstart : ∃ u, Reaches c (site.state m pc L st) u ∧ T u := by
    let Q : Post := fun o st' => o = out ∧ st' = .int (if b then 1 else 0) :: st
    have hwp : (Fragment.truth cond).wp c (returningRules c site.callers) L Q m.output st := by
      refine hcond _ _ m.output st htest ?_
      rintro o b' ⟨rfl, rfl⟩
      exact ⟨rfl, rfl⟩
    refine Fragment.At.sound (n := 0) (closed_reaches c site T) trivial (.truth cond) hat hwp ?_ m rfl
    rintro o st' ⟨rfl, rfl⟩ m' hm'
    exact ⟨_, .refl, m', hm', rfl⟩
  obtain ⟨_, hreach, m', hm', rfl⟩ := hstart
  exact ⟨m', hm', hreach⟩

end Conditions

/-- **Conditions branch on their truth**. Let a condition come to `b` for some locals, its operands one
after the other from left to right, and the right side of a connective only if the left one leaves it
open. Then its code leads to its target if `b` is what it jumps on, and to its end if it is not, and the
code of its value leaves one or zero. The locals and the stack below stay as they are. -/
theorem branches_on_truth {c : ClassFile} {σ : Names} {e : Expr} {L : Array Value} {b : Bool}
    {out : String} {m : Machine} {callers : List Frame}
    (hhelper : ∀ n ∈ e.nodes, n.helper? ≠ some (c.name?.getD ""))
    (he : (evaluated c (returningRules c callers) L σ e).test.ComesTo m.output b out)
    (method : String) (st : List Value) :
    (∀ {jumpIf : Bool} {target : Label} {s s' : LowerState} {z : Assembler} {t : Nat},
      Lowered c σ ((lower σ.scope e).branch jumpIf target) s s' z →
      z.labels.offset? target = some t →
      ∃ m' : Machine, m'.output = out ∧
        Reaches c (Site.state ⟨method, z.code, callers⟩ m s.asm.pc L st)
          (Site.state ⟨method, z.code, callers⟩ m' (if b = jumpIf then t else s'.asm.pc) L st)) ∧
    ∀ {s s' : LowerState} {z : Assembler},
      Lowered c σ (Lowering.truthValue (lower σ.scope e).branch) s s' z →
      ∃ m' : Machine, m'.output = out ∧
        Reaches c (Site.state ⟨method, z.code, callers⟩ m s.asm.pc L st)
          (Site.state ⟨method, z.code, callers⟩ m' s'.asm.pc L
            (.int (if b then 1 else 0) :: st)) := by
  have hcond := (select_evaluated σ e hhelper (W := returningRules c callers) (L := L)).2
  constructor
  · intro jumpIf target s s' z t h ht
    exact reaches_branch ⟨method, z.code, callers⟩ hcond he
      (h.condition_at (lower_lowers σ e).branch ht) st
  · intro s s' z h
    exact reaches_truth ⟨method, z.code, callers⟩ hcond he
      (h.fragment_at (truthValue_lowers (lower_lowers σ e).branch)) st

/-! ## Comparisons that need the library -/

/-- `a < b`, for numbers without sign. -/
def lessCondition : Expr :=
  .compare .lt (.ident "a" (.int .w32 true)) (.ident "b" (.int .w32 true)) .bool

/-- The parameters of a function that compares two numbers without sign. -/
def lessLocals : Locals :=
  ⟨"less", [⟨"b", .int .w32 true, .integer, 1, 1⟩, ⟨"a", .int .w32 true, .integer, 0, 1⟩], 2, 2, 2, 2⟩

/-- The names in such a function. -/
def lessNames : Names := ⟨⟨{}, lessFunction (.int .w32 true) (.int .w32 true)⟩, lessLocals.find?⟩

/-- A method on two ints that gives zero. -/
def zeroMethod (name descriptor : UInt16) : Method :=
  ⟨AccessFlags.pub ||| AccessFlags.static, name, descriptor, 0, 1, 2,
    #[Opcode.iconst_0, Opcode.ireturn]⟩

theorem zeroMethod_returns (c : ClassFile) (m : Machine) (caller : Frame) (callers : List Frame)
    (name : String) (n d : UInt16) (args : List Value) :
    Reaches c ⟨m, .enter name (zeroMethod n d) none args, caller :: callers⟩
      ⟨m.tick.tick, caller.resume (some (.int 0)), callers⟩ := by
  let site : Site := ⟨name, (zeroMethod n d).code, caller :: callers⟩
  let L := Frame.initialLocals 2 none args
  have hpush : Steps c (site.state m 0 L []) (site.state m.tick 1 L [.int 0]) := rfl
  have hret : Steps c (site.state m.tick 1 L [.int 0])
      ⟨m.tick.tick, caller.resume (some (.int 0)), callers⟩ := rfl
  exact .head hpush (.head hret .refl)

/-- A class of any name with a method `compareUnsigned` that gives zero, and with the code of a comparison
that means the method of the library. -/
theorem exists_lessCondition_lowered {name : String} (hname : ShortText name) :
    ∃ (c : ClassFile) (s s' : LowerState) (n d : UInt16), c.name? = some name ∧
      c.find? "compareUnsigned" "(II)I" = some (zeroMethod n d) ∧
      Lowered c lessNames (Lowering.truthValue (lower lessNames.scope lessCondition).branch) s s'
        s'.asm := by
  obtain ⟨-, -, hcompare, hints, -⟩ := shortText_compareUnsigned
  -- the texts of the method are there before the code is, and stay
  let b₀ : PoolBuilder := .withLimit maxPoolIndex
  obtain ⟨i, b, hb, hroom⟩ := PoolBuilder.internMethod_takes (m := ⟨name, "compareUnsigned", "(II)I"⟩)
    hname hcompare hints 10 b₀ (by unfold PoolBuilder.HasRoom; decide)
  obtain ⟨hgrows, cls, sig, -, hmember⟩ := (PoolBuilder.internMethod_interns _).ok
    (PoolBuilder.sound_withLimit maxPoolIndex) trivial hb
  obtain ⟨hcls, n, d, -, hn, hd⟩ := ConstantPool.memberOf?_eq_some_iff.1 hmember
  have hinteger := DataType.isInteger_int .w32 true
  obtain ⟨test, x, hx, hbranch⟩ := comparison_advances
    (rfl : Locals.ofFunction (lessFunction (.int .w32 true) (.int .w32 true)) 0 = .ok lessLocals)
    hinteger hinteger rfl .lt lessCondition
  let s : LowerState := ⟨b, lessLocals, .start 2⟩
  have hs : s.Ready (.start 2) lessLocals (10 + 0) (21 + (8 + 0)) 0 :=
    ⟨rfl, hroom, rfl, (by decide : 0 + 29 ≤ maxCodeLength), rfl, rfl⟩
  obtain ⟨s', hs', -, hclosed, -⟩ := truthValue_succeeds hx (hbranch ⟨0⟩) hs
  have hready : Ready lessNames s :=
    ⟨hgrows.sound, fun c hc => absurd hc (Array.not_mem_empty c), fun _ _ h => h⟩
  have hle : b.pool ≤ s'.pool.pool :=
    (truthValue_lowers (lower_lowers lessNames lessCondition).branch hready hs').1.pool.le
  let c : ClassFile := { pool := s'.pool.pool, thisClass := cls, methods := [zeroMethod n d] }
  refine ⟨c, s, s', n, d, ConstantPool.className?_mono hle hcls, ?_, hready, ⟨[], 2, .nil _⟩, hs',
    ⟨[], .nil _⟩, hclosed, ConstantPool.le_refl _⟩
  have hnames : s'.pool.pool.text? n = some "compareUnsigned" ∧ s'.pool.pool.text? d = some "(II)I" :=
    ⟨ConstantPool.text?_mono hle hn, ConstantPool.text?_mono hle hd⟩
  simp [ClassFile.find?, c, zeroMethod, hnames]

/-- Three is less than six. -/
theorem lessCondition_comesTo (c : ClassFile) :
    (evaluated c (returningRules c []) #[.int 3, .int 6] lessNames lessCondition).test.ComesTo "" true
      "" :=
  ⟨rfl, rfl⟩

/-- Three is less than six for the method of the library, if the class does not hide it. -/
theorem branches_on_truth_less : ∃ (c : ClassFile) (s s' : LowerState),
    Lowered c lessNames (Lowering.truthValue (lower lessNames.scope lessCondition).branch) s s'
        s'.asm ∧
      (∃ m, Reaches c (Site.state ⟨"less", s'.asm.code, []⟩ {} s.asm.pc #[.int 3, .int 6] [])
        (Site.state ⟨"less", s'.asm.code, []⟩ m s'.asm.pc #[.int 3, .int 6] [.int 1])) ∧
      ∃ (target : Label) (s₁ s₂ : LowerState) (t : Nat),
        Lowered c lessNames ((lower lessNames.scope lessCondition).branch false target) s₁ s₂ s'.asm ∧
        s'.asm.labels.offset? target = some t ∧
        ∃ m, Reaches c (Site.state ⟨"less", s'.asm.code, []⟩ {} s₁.asm.pc #[.int 3, .int 6] [.null])
          (Site.state ⟨"less", s'.asm.code, []⟩ m s₂.asm.pc #[.int 3, .int 6] [.null]) := by
  have hshort : ShortText "Less" := by
    unfold ShortText
    decide
  obtain ⟨c, s, s', n, d, hname, -, hlowered⟩ := exists_lessCondition_lowered hshort
  have hhelper : ∀ n ∈ lessCondition.nodes, n.helper? ≠ some (c.name?.getD "") := by
    rw [hname]
    decide
  have hruns := branches_on_truth hhelper (lessCondition_comesTo c) (m := {}) "less"
  obtain ⟨m, -, hvalue⟩ := (hruns []).2 hlowered
  obtain ⟨target, s₁, s₂, t, -, hbranch, ht⟩ :=
    hlowered.branch_of_truth (lower_lowers lessNames lessCondition).branch
  obtain ⟨m', -, hjump⟩ := (hruns [.null]).1 hbranch ht
  exact ⟨c, s, s', hlowered, ⟨m, hvalue⟩, target, s₁, s₂, t, hbranch, ht, m', hjump⟩

/-- The method of the library that compares ints without sign is not called in a class of its name. -/
theorem unsignedInt_hidden {c : ClassFile} {n d : UInt16} (hname : c.name? = some "java/lang/Integer")
    (hfind : c.find? "compareUnsigned" "(II)I" = some (zeroMethod n d)) (a b : Value)
    (Q : String → Value → Prop) (out : String) (hQ : Q out (.int 0)) :
    (returningRules c []).libraryValue c (unsignedInt "compareUnsigned" "(II)I") a b Q out := by
  have howner : (unsignedInt "compareUnsigned" "(II)I").owner = c.name?.getD "" := by
    rw [hname]
    rfl
  unfold Rules.libraryValue
  rw [Rules.calls_of_count Rules.parameters?_unsignedInts]
  show Rules.called c _ (unsignedInt "compareUnsigned" "(II)I") none [a, b] _ out
  rw [Rules.called, if_pos howner]
  rintro m f rfl
  refine ⟨m.tick.tick, some (.int 0), hQ, ?_⟩
  have hcall : call c m f [] (unsignedInt "compareUnsigned" "(II)I") none [a, b] =
      .next m (.enter "compareUnsigned" (zeroMethod n d) none [a, b]) [f] := by
    have hfound : c.find? (unsignedInt "compareUnsigned" "(II)I").name
        (unsignedInt "compareUnsigned" "(II)I").descriptor = some (zeroMethod n d) := hfind
    unfold call
    rw [if_pos howner, hfound]
    rfl
  rw [hcall]
  exact zeroMethod_returns c m f [] "compareUnsigned" n d [a, b]

/-- A class that hides the library decides the comparison as its own method does: three is not less than
six. -/
theorem not_branches_on_truth_hidden : ∃ (c : ClassFile) (s s' : LowerState),
    Lowered c lessNames (Lowering.truthValue (lower lessNames.scope lessCondition).branch) s s'
        s'.asm ∧
      (evaluated c (returningRules c []) #[.int 3, .int 6] lessNames lessCondition).test.ComesTo "" true
        "" ∧
      ¬ ∃ m, Reaches c (Site.state ⟨"less", s'.asm.code, []⟩ {} s.asm.pc #[.int 3, .int 6] [])
        (Site.state ⟨"less", s'.asm.code, []⟩ m s'.asm.pc #[.int 3, .int 6] [.int 1]) := by
  obtain ⟨c, s, s', n, d, hname, hfind, hlowered⟩ :=
    exists_lessCondition_lowered shortText_compareUnsigned.1
  refine ⟨c, s, s', hlowered, lessCondition_comesTo c, ?_⟩
  rintro ⟨m, hone⟩
  let W := returningRules c []
  let L : Array Value := #[.int 3, .int 6]
  have hcond := comparison_decides (c := c) (W := W) (L := L) (variable_computes lessNames "a")
    (variable_computes lessNames "b") .lt (.int .w32 true) (.int .w32 true)
  -- the method of the class says that the two are equal
  have htest : (compareMeaning c W .lt (.int .w32 true) (.int .w32 true)
      (variableMeaning W L lessNames "a") (variableMeaning W L lessNames "b")).ComesTo "" false "" :=
    unsignedInt_hidden hname hfind (.int 3) (.int 6) _ "" ⟨rfl, rfl⟩
  obtain ⟨m', -, hzero⟩ := reaches_truth ⟨"less", s'.asm.code, []⟩ hcond (m := {}) htest
    (hlowered.fragment_at (truthValue_lowers (lower_lowers lessNames lessCondition).branch)) []
  -- there is no code behind the comparison, so the run cannot have come to both
  have hsame := hone.eq_of_halted hzero (not_steps_of_end rfl m L _) (not_steps_of_end rfl m' L _)
  have hstack : [Value.int 1] = [Value.int 0] := congrArg (fun t : State => t.frame.stack) hsame
  exact absurd hstack (by decide)

end ClassFoundry
