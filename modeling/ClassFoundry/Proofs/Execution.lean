import ClassFoundry.Machine.Run
import ClassFoundry.Proofs.Success
import Mathlib.Logic.Relation

/-!
# Executions

A run of the machine goes through states: the machine, the current frame, and the frames that wait
for it. This file says once what a step can do to the calls in progress and how it can fail, so
that an invariant of all states of a run only has to be checked against these cases.

## Main definitions

* `State`, `State.outcome`: a moment of a run and what comes next
* `Steps`, `Reaches`: one step, and any number of them
* `Moves`, `Fails`: what a step does and how it fails, by the meaning of its instruction
* `Executes`: all ways in which an instruction ends

## Main results

* `State.outcome_cases`, `Steps.moves`, `fails_of_fault`: the cases of a step
* `run_ok`, `run_error`: what a run gives is the outcome of one of its states
* `libraryCall_error`: how library calls fail
* `Frame.apply_ok`: an operation on a frame keeps to its code
* `Steps.outermost`, `ret_of_done`: the outermost call stays the same until it returns
-/

namespace ClassFoundry

/-- **A moment of a run**: the machine, the current call and those that wait for it. -/
structure State where
  machine : Machine
  frame : Frame
  callers : List Frame

namespace State

/-- The calls in progress, the current one first. -/
def frames (s : State) : List Frame := s.frame :: s.callers

/-- What comes next. The step is counted before it is taken. -/
def outcome (c : ClassFile) (s : State) : Outcome :=
  step c { s.machine with steps := s.machine.steps + 1 } s.frame s.callers

/-- The start of a call from outside. -/
def entry (c : ClassFile) (m : Machine) (method : Method) (this : Option Value)
    (args : List Value) : State :=
  ⟨m, .enter ((c.pool.text? method.name).getD "") method this args, []⟩

end State

/-- One step leads from a state to another. -/
def Steps (c : ClassFile) (s t : State) : Prop := s.outcome c = .next t.machine t.frame t.callers

/-- **The states of a run**. -/
def Reaches (c : ClassFile) : State → State → Prop := Relation.ReflTransGen (Steps c)

/-! ## Runs -/

section Run

variable {c : ClassFile} {s t : State} {m m' : Machine}

theorem Steps.unique {u : State} (h : Steps c s t) (h' : Steps c s u) : t = u := by
  obtain ⟨m, f, callers⟩ := t
  obtain ⟨m', f', callers'⟩ := u
  cases h.symm.trans h'
  rfl

theorem Reaches.head (h : Steps c s t) {u : State} (h' : Reaches c t u) : Reaches c s u :=
  Relation.ReflTransGen.head h h'

/-- What holds at the start and is kept by every step holds of all states of a run. -/
theorem Reaches.keeps {P : State → Prop} (hstep : ∀ s t, P s → Steps c s t → P t)
    (hs : P s) (h : Reaches c s t) : P t := by
  induction h with
  | refl => exact hs
  | tail _ hlast ih => exact hstep _ _ ih hlast

/-- The result of a run is what its last state returned. -/
theorem run_ok {fuel : Nat} {f : Frame} {callers : List Frame} {r : Option Value}
    (h : run c fuel m f callers = (.ok r, m')) :
    ∃ t, Reaches c ⟨m, f, callers⟩ t ∧ t.outcome c = .done m' r := by
  induction fuel generalizing m f callers with
  | zero => simp [run] at h
  | succ fuel ih =>
    rw [run] at h
    split at h
    · rename_i m₁ f₁ callers₁ hstep
      obtain ⟨t, ht, hdone⟩ := ih h
      have hfirst : Steps c ⟨m, f, callers⟩ ⟨m₁, f₁, callers₁⟩ := hstep
      exact ⟨t, .head hfirst ht, hdone⟩
    · rename_i hstep
      cases h
      exact ⟨_, .refl, hstep⟩
    · cases h

/-- A run without a result ends with the fault of its last state or runs out of steps. -/
theorem run_error {fuel : Nat} {f : Frame} {callers : List Frame} {e : Fault}
    (h : run c fuel m f callers = (.error e, m')) :
    ∃ t, Reaches c ⟨m, f, callers⟩ t ∧
      (t.outcome c = .fault m' e ∨ e = .stepLimit t.machine.limit) := by
  induction fuel generalizing m f callers with
  | zero =>
    cases h
    exact ⟨_, .refl, .inr rfl⟩
  | succ fuel ih =>
    rw [run] at h
    split at h
    · rename_i m₁ f₁ callers₁ hstep
      obtain ⟨t, ht, hfault⟩ := ih h
      have hfirst : Steps c ⟨m, f, callers⟩ ⟨m₁, f₁, callers₁⟩ := hstep
      exact ⟨t, .head hfirst ht, hfault⟩
    · cases h
    · rename_i hstep
      cases h
      exact ⟨_, .refl, .inl hstep⟩

end Run

/-! ## The cases of a step -/

/-- **What a step does** to the calls in progress, by the meaning of its instruction: the current
frame and those that wait become others. -/
inductive Moves (c : ClassFile) (f : Frame) (callers : List Frame) (next : Nat) :
    Action → Frame → List Frame → Prop where
  | frame {op : FrameOp} {f' : Frame} (applied : f.apply c.pool next op = .ok f') :
      Moves c f callers next (.frame op) f' callers
  | new {index : UInt16} {className : String} (found : c.pool.className? index = some className)
      (ref : Ref) :
      Moves c f callers next (.new index) { f.push (.object ref className) with pc := next } callers
  | ret {kind : Option Kind} {r : Option Value} {caller : Frame} {rest : List Frame}
      (waiting : callers = caller :: rest) :
      Moves c f callers next (.ret kind) (caller.resume r) rest
  | library {mode : CallMode} {index : UInt16} {callee : Member} {receiver : Option Value}
      {args : List Value} {g : Frame} {effect : Effect} {r : Option Value}
      (operands : f.callOperands c.pool mode index = .ok (callee, receiver, args, g))
      (known : libraryCall callee receiver args = .ok effect) :
      Moves c f callers next (.invoke mode index) (Frame.resume { g with pc := next } r) callers
  | enter {mode : CallMode} {index : UInt16} {callee : Member} {receiver : Option Value}
      {args : List Value} {g : Frame} {method : Method}
      (operands : f.callOperands c.pool mode index = .ok (callee, receiver, args, g))
      (found : c.find? callee.name callee.descriptor = some method) :
      Moves c f callers next (.invoke mode index) (.enter callee.name method receiver args)
        ({ g with pc := next } :: callers)

/-- **How a step can fail**, by the meaning of its instruction. -/
inductive Fails (c : ClassFile) (f : Frame) (next : Nat) : Action → Fault → Prop where
  | frame {op : FrameOp} {e : Fault} (refused : f.apply c.pool next op = .error e) :
      Fails c f next (.frame op) e
  | new {index : UInt16} (missing : c.pool.className? index = none) :
      Fails c f next (.new index) (.badConstant index)
  | ret {kind : Kind} {e : Fault} (refused : f.popKind kind = .error e) :
      Fails c f next (.ret (some kind)) e
  | operands {mode : CallMode} {index : UInt16} {e : Fault}
      (refused : f.callOperands c.pool mode index = .error e) : Fails c f next (.invoke mode index) e
  | missing {mode : CallMode} {index : UInt16} (callee : Member) :
      Fails c f next (.invoke mode index) (.noSuchMethod callee.name callee.descriptor)
  | depth {mode : CallMode} {index : UInt16} : Fails c f next (.invoke mode index) .callDepth
  | library {mode : CallMode} {index : UInt16} {callee : Member} {receiver : Option Value}
      {args : List Value} {e : Fault} (refused : libraryCall callee receiver args = .error e) :
      Fails c f next (.invoke mode index) e

/-- **The ways in which an instruction ends**, by its meaning. -/
inductive Executes (c : ClassFile) (m : Machine) (f : Frame) (callers : List Frame) (next : Nat) :
    Action → Outcome → Prop where
  | frame {op : FrameOp} {f' : Frame} (applied : f.apply c.pool next op = .ok f') :
      Executes c m f callers next (.frame op) (.next m f' callers)
  | new {index : UInt16} {className : String} (found : c.pool.className? index = some className) :
      Executes c m f callers next (.new index) (.next (m.newObject className).2
        { f.push (m.newObject className).1 with pc := next } callers)
  | ret {kind : Option Kind} {r : Option Value} {o : Outcome} (returns : o = returnTo m r callers) :
      Executes c m f callers next (.ret kind) o
  | library {mode : CallMode} {index : UInt16} {callee : Member} {receiver : Option Value}
      {args : List Value} {g : Frame} {effect : Effect} {o : Outcome}
      (operands : f.callOperands c.pool mode index = .ok (callee, receiver, args, g))
      (known : libraryCall callee receiver args = .ok effect)
      (affects : o = applyEffect m { g with pc := next } callers effect) :
      Executes c m f callers next (.invoke mode index) o
  | enter {mode : CallMode} {index : UInt16} {callee : Member} {receiver : Option Value}
      {args : List Value} {g : Frame} {method : Method}
      (operands : f.callOperands c.pool mode index = .ok (callee, receiver, args, g))
      (found : c.find? callee.name callee.descriptor = some method) :
      Executes c m f callers next (.invoke mode index)
        (.next m (.enter callee.name method receiver args) ({ g with pc := next } :: callers))
  | fault {a : Action} {e : Fault} (fails : Fails c f next a e) :
      Executes c m f callers next a (.fault m e)

section Cases

variable {c : ClassFile} {s t : State} {m : Machine}

theorem returnTo_eq_next {r : Option Value} {callers rest : List Frame} {f : Frame} {m' : Machine}
    (h : returnTo m r callers = .next m' f rest) :
    ∃ caller, callers = caller :: rest ∧ f = caller.resume r := by
  cases callers with
  | nil => cases h
  | cons caller callers =>
    cases h
    exact ⟨caller, rfl, rfl⟩

/-- A return leaves one call less. -/
theorem length_of_returnTo {r : Option Value} {callers rest : List Frame} {f : Frame} {m' : Machine}
    (h : returnTo m r callers = .next m' f rest) : callers.length = rest.length + 1 := by
  obtain ⟨caller, rfl, -⟩ := returnTo_eq_next h
  rfl

theorem returnTo_ne_fault {r : Option Value} {callers : List Frame} {m' : Machine} {e : Fault} :
    returnTo m r callers ≠ .fault m' e := by
  cases callers <;> nofun

theorem returnTo_inj {r r' : Option Value} {callers : List Frame} {m' : Machine}
    (h : returnTo m r callers = returnTo m' r' callers) : r = r' := by
  cases callers with
  | nil =>
    cases h
    rfl
  | cons caller callers =>
    have hstack : (caller.resume r).stack = (caller.resume r').stack := by
      injection h with _ h
      rw [h]
    cases r <;> cases r' <;> simp_all [Frame.resume, Frame.push]

theorem applyEffect_eq_next {f f' : Frame} {callers callers' : List Frame} {effect : Effect}
    {m' : Machine} (h : applyEffect m f callers effect = .next m' f' callers') :
    callers' = callers ∧ ∃ r, f' = f.resume r := by
  cases effect with
  | print text =>
    cases h
    exact ⟨rfl, none, rfl⟩
  | value v =>
    cases h
    exact ⟨rfl, some v, rfl⟩
  | newString text =>
    cases h
    exact ⟨rfl, some _, rfl⟩
  | nothing =>
    cases h
    exact ⟨rfl, none, rfl⟩

theorem applyEffect_ne_fault {f : Frame} {callers : List Frame} {effect : Effect} {m' : Machine}
    {e : Fault} : applyEffect m f callers effect ≠ .fault m' e := by
  cases effect <;> nofun

theorem execute_executes (c : ClassFile) (m : Machine) (f : Frame) (callers : List Frame)
    (next : Nat) (a : Action) : Executes c m f callers next a (execute c m f callers next a) := by
  cases a with
  | frame op =>
    simp only [execute]
    split
    · exact .frame ‹_›
    · exact .fault (.frame ‹_›)
  | new index =>
    simp only [execute]
    split
    · exact .new ‹_›
    · exact .fault (.new ‹_›)
  | ret kind =>
    cases kind with
    | none => exact .ret rfl
    | some kind =>
      simp only [execute]
      split
      · exact .ret rfl
      · exact .fault (.ret ‹_›)
  | invoke mode index =>
    simp only [execute, call]
    split
    · rename_i callee receiver args g hoperands
      split
      · split
        · exact .fault (.missing callee)
        · split
          · exact .fault .depth
          · exact .enter hoperands ‹_›
      · split
        · exact .library hoperands ‹_› rfl
        · exact .fault (.library ‹_›)
    · exact .fault (.operands ‹_›)

/-- **The cases of what comes next**. All that is said of steps and faults follows from them. -/
theorem State.outcome_cases (c : ClassFile) (s : State) :
    (∃ e, s.frame.fetch = .error e ∧
      s.outcome c = .fault { s.machine with steps := s.machine.steps + 1 } e) ∨
    ∃ i a, s.frame.fetch = .ok (i, a) ∧
      Executes c { s.machine with steps := s.machine.steps + 1 } s.frame s.callers
        (s.frame.pc + i.length) a (s.outcome c) := by
  unfold State.outcome step
  split
  · exact .inr ⟨_, _, ‹_›, execute_executes _ _ _ _ _ _⟩
  · exact .inl ⟨_, ‹_›, rfl⟩

/-- **The cases of a step**. -/
theorem Steps.moves (h : Steps c s t) : ∃ i a, s.frame.fetch = .ok (i, a) ∧
    Moves c s.frame s.callers (s.frame.pc + i.length) a t.frame t.callers := by
  obtain ⟨m', f', callers'⟩ := t
  rcases s.outcome_cases c with ⟨e, -, hfault⟩ | ⟨i, a, hfetch, hexecutes⟩
  · cases hfault.symm.trans h
  rw [h] at hexecutes
  refine ⟨i, a, hfetch, ?_⟩
  cases hexecutes with
  | frame applied => exact .frame applied
  | new found => exact .new found _
  | ret returns =>
    obtain ⟨caller, hcallers, rfl⟩ := returnTo_eq_next returns.symm
    exact .ret hcallers
  | library operands known affects =>
    obtain ⟨rfl, r, rfl⟩ := applyEffect_eq_next affects.symm
    exact .library operands known
  | enter operands found => exact .enter operands found

/-- **The cases of a failure**. -/
theorem fails_of_fault {e : Fault} (h : s.outcome c = .fault m e) :
    s.frame.fetch = .error e ∨ ∃ i a, s.frame.fetch = .ok (i, a) ∧
      Fails c s.frame (s.frame.pc + i.length) a e := by
  rcases s.outcome_cases c with ⟨e', hfetch, hfault⟩ | ⟨i, a, hfetch, hexecutes⟩
  · cases hfault.symm.trans h
    exact .inl hfetch
  rw [h] at hexecutes
  refine .inr ⟨i, a, hfetch, ?_⟩
  cases hexecutes with
  | ret returns => exact absurd returns.symm returnTo_ne_fault
  | library operands known affects => exact absurd affects.symm applyEffect_ne_fault
  | fault fails => exact fails

end Cases

/-! ## Library calls -/

theorem Except.bind_eq_error {ε α β : Type} {x : Except ε α} {f : α → Except ε β} {e : ε} :
    (x >>= f) = .error e ↔ x = .error e ∨ ∃ a, x = .ok a ∧ f a = .error e := by
  cases x <;> simp [bind, Except.bind]

section Library

variable {callee : Member} {receiver : Option Value} {args : List Value} {e : Fault}

theorem argInt_error {i : Nat} (h : argInt callee args i = .error e) :
    e = .unsupportedCall callee := by
  unfold argInt at h
  split at h <;> cases h
  rfl

theorem argLong_error {i : Nat} (h : argLong callee args i = .error e) :
    e = .unsupportedCall callee := by
  unfold argLong at h
  split at h <;> cases h
  rfl

theorem printedText_error (h : printedText callee args = .error e) :
    e = .unsupportedCall callee := by
  have hint {k : Int32 → Except Fault String} (hk : ∀ v, ∃ text, k v = .ok text)
      (h : (argInt callee args 0 >>= k) = .error e) : e = .unsupportedCall callee := by
    rcases Except.bind_eq_error.1 h with h | ⟨v, -, h⟩
    · exact argInt_error h
    · obtain ⟨text, htext⟩ := hk v
      simp [htext] at h
  unfold printedText at h
  split at h
  · cases h
  · exact hint (fun _ => ⟨_, rfl⟩) h
  · exact hint (fun _ => ⟨_, rfl⟩) h
  · exact hint (fun _ => ⟨_, rfl⟩) h
  · rcases Except.bind_eq_error.1 h with h | ⟨v, -, h⟩
    · exact argLong_error h
    · cases h
  · exact hint (fun _ => ⟨_, rfl⟩) h
  · exact hint (fun _ => ⟨_, rfl⟩) h
  · split at h <;> cases h
    rfl
  · cases h
    rfl

theorem textCall_error (h : textCall callee receiver args = .error e) :
    e = .unsupportedCall callee ∨ e = .nullPointer := by
  unfold textCall at h
  split at h
  · cases h
    exact .inl rfl
  · split at h
    · split at h <;> cases h
      exact .inr rfl
    · cases h
    · cases h
    · cases h
      exact .inl rfl

theorem intCall_error (h : intCall callee args = .error e) :
    e = .unsupportedCall callee ∨ e = .divisionByZero := by
  rcases Except.bind_eq_error.1 h with h | ⟨a, -, h⟩
  · exact .inl (argInt_error h)
  · rcases Except.bind_eq_error.1 h with h | ⟨b, -, h⟩
    · exact .inl (argInt_error h)
    · dsimp only at h
      split at h
      · cases h
      · split at h <;> cases h
        exact .inr rfl
      · split at h <;> cases h
        exact .inr rfl
      · cases h
        exact .inl rfl

theorem longCall_error (h : longCall callee args = .error e) :
    e = .unsupportedCall callee ∨ e = .divisionByZero := by
  rcases Except.bind_eq_error.1 h with h | ⟨a, -, h⟩
  · exact .inl (argLong_error h)
  · rcases Except.bind_eq_error.1 h with h | ⟨b, -, h⟩
    · exact .inl (argLong_error h)
    · dsimp only at h
      split at h
      · cases h
      · split at h <;> cases h
        exact .inr rfl
      · split at h <;> cases h
        exact .inr rfl
      · cases h
        exact .inl rfl

/-- **How library calls fail**. -/
theorem libraryCall_error (h : libraryCall callee receiver args = .error e) :
    e = .unsupportedCall callee ∨ e = .divisionByZero ∨ e = .nullPointer := by
  unfold libraryCall at h
  split at h
  · rcases Except.bind_eq_error.1 h with h | ⟨text, -, h⟩
    · exact .inl (printedText_error h)
    · cases h
  · split at h
    · exact (textCall_error h).imp_right .inr
    · split at h
      · exact (intCall_error h).imp_right .inl
      · split at h
        · exact (longCall_error h).imp_right .inl
        · split at h <;> cases h
          exact .inl rfl

end Library

/-! ## What stays the same in a frame -/

/-- The offset that an operation may branch by. -/
def FrameOp.offset? : FrameOp → Option UInt16
  | .branchZero _ offset | .branchInts _ offset | .branchRefs _ offset | .jump offset => some offset
  | _ => none

namespace Frame

/-- A frame that differs from another at most in its stack. -/
def Kept (f g : Frame) : Prop := g = { f with stack := g.stack }

/-- A frame in the same code as another. -/
def SameCode (f g : Frame) : Prop := g.method = f.method ∧ g.code = f.code

variable {f g : Frame} {pool : ConstantPool}

theorem Kept.refl (f : Frame) : Kept f f := rfl

theorem Kept.trans {h : Frame} (h₁ : Kept f g) (h₂ : Kept g h) : Kept f h := by
  unfold Kept at h₁ h₂ ⊢
  rw [h₂, h₁]

theorem Kept.pc (h : Kept f g) : g.pc = f.pc := by
  rw [h]

theorem Kept.sameCode (h : Kept f g) : SameCode f g := by
  rw [h]
  exact ⟨rfl, rfl⟩

theorem SameCode.trans {h : Frame} (h₁ : SameCode f g) (h₂ : SameCode g h) : SameCode f h :=
  ⟨h₂.1.trans h₁.1, h₂.2.trans h₁.2⟩

theorem pop_kept {v : Value} (h : f.pop = .ok (v, g)) : Kept f g := by
  unfold pop at h
  split at h <;> cases h
  exact .refl _

theorem popInt_kept {v : Int32} (h : f.popInt = .ok (v, g)) : Kept f g := by
  unfold popInt at h
  split at h <;> cases h
  exact .refl _

theorem popLong_kept {v : Int64} (h : f.popLong = .ok (v, g)) : Kept f g := by
  unfold popLong at h
  split at h <;> cases h
  exact .refl _

theorem popKind_kept {kind : Kind} {v : Value} (h : f.popKind kind = .ok (v, g)) : Kept f g := by
  unfold popKind at h
  split at h
  · split at h <;> cases h
    exact .refl _
  · cases h

theorem load_kept {kind : Kind} {slot : Nat} (h : f.load kind slot = .ok g) : Kept f g := by
  unfold load at h
  split at h
  · split at h <;> cases h
    exact .refl _
  · cases h

theorem store_sameCode {kind : Kind} {slot : Nat} (h : f.store kind slot = .ok g) :
    SameCode f g := by
  obtain ⟨⟨v, f'⟩, hpop, h⟩ := Except.bind_eq_ok.1 h
  dsimp only at h
  split at h <;> cases h
  exact (popKind_kept hpop).sameCode

theorem popArgs_kept {n : Nat} {acc args : List Value} (h : f.popArgs n acc = .ok (args, g)) :
    Kept f g := by
  induction n generalizing f acc with
  | zero =>
    cases h
    exact .refl _
  | succ n ih =>
    obtain ⟨⟨v, f'⟩, hpop, h⟩ := Except.bind_eq_ok.1 h
    exact (pop_kept hpop).trans (ih h)

theorem callOperands_kept {mode : CallMode} {index : UInt16} {callee : Member}
    {receiver : Option Value} {args : List Value}
    (h : f.callOperands pool mode index = .ok (callee, receiver, args, g)) : Kept f g := by
  unfold callOperands at h
  split at h
  · cases h
  · split at h
    · cases h
    · obtain ⟨⟨args', f'⟩, hargs, h⟩ := Except.bind_eq_ok.1 h
      have hkept := popArgs_kept hargs
      cases mode with
      | static =>
        cases h
        exact hkept
      | virtual | special =>
        obtain ⟨⟨v, f''⟩, hpop, h⟩ := Except.bind_eq_ok.1 h
        dsimp only at h
        split at h <;> cases h
        exact hkept.trans (popKind_kept hpop)

theorem jump_ok {offset : UInt16} (h : f.jump offset = .ok g) :
    SameCode f g ∧ branchTarget f.pc offset = g.pc := by
  unfold jump at h
  dsimp only at h
  split at h <;> cases h
  exact ⟨⟨rfl, rfl⟩, (Int.toNat_of_nonneg ‹_›).symm⟩

/-- Where a frame can be after a jump that depends on a condition. -/
theorem jumpIf_ok {cond : Bool} {offset : UInt16} {next : Nat} {f' : Frame} (hk : Kept f f')
    (h : f'.jumpIf cond offset next = .ok g) :
    SameCode f g ∧ (g.pc = next ∨ branchTarget f.pc offset = g.pc) := by
  unfold jumpIf at h
  split at h
  · obtain ⟨hsame, htarget⟩ := jump_ok h
    exact ⟨hk.sameCode.trans hsame, .inr (hk.pc ▸ htarget)⟩
  · cases h
    exact ⟨hk.sameCode, .inl rfl⟩

/-- A frame that differs at most in its stack, put at another offset with another stack. -/
theorem Kept.moved (h : Kept f g) (next : Nat) (st : List Value) :
    { g with pc := next, stack := st } = { f with pc := next, stack := st } := by
  rw [h]

/-- **An operation that neither branches nor stores** changes only the stack, and control passes
on. -/
theorem apply_straight {next : Nat} {op : FrameOp} (hbranch : op.offset? = none)
    (hstore : ∀ kind slot, op ≠ .store kind slot) (h : f.apply pool next op = .ok g) :
    g = { f with pc := next, stack := g.stack } := by
  cases op with
  | nop | pushNull | pushInt _ | pushLong _ =>
    cases h
    rfl
  | pushConstant index =>
    obtain ⟨v, -, h⟩ := Except.bind_eq_ok.1 h
    cases h
    rfl
  | load kind slot =>
    obtain ⟨f', hload, h⟩ := Except.bind_eq_ok.1 h
    cases h
    exact (load_kept hload).moved _ _
  | pop =>
    obtain ⟨⟨v, f'⟩, h₁, h⟩ := Except.bind_eq_ok.1 h
    cases h
    exact (pop_kept h₁).moved _ _
  | pop2 =>
    obtain ⟨⟨v, f'⟩, h₁, h⟩ := Except.bind_eq_ok.1 h
    dsimp only at h
    split at h
    · cases h
      exact (pop_kept h₁).moved _ _
    · obtain ⟨⟨w, f''⟩, h₂, h⟩ := Except.bind_eq_ok.1 h
      cases h
      exact ((pop_kept h₁).trans (pop_kept h₂)).moved _ _
  | dup =>
    simp only [apply] at h
    split at h <;> cases h
    rfl
  | intOp op =>
    obtain ⟨⟨b, f₁⟩, h₁, h⟩ := Except.bind_eq_ok.1 h
    obtain ⟨⟨a, f₂⟩, h₂, h⟩ := Except.bind_eq_ok.1 h
    dsimp only at h
    split at h <;> cases h
    exact ((popInt_kept h₁).trans (popInt_kept h₂)).moved _ _
  | longOp op =>
    obtain ⟨⟨b, f₁⟩, h₁, h⟩ := Except.bind_eq_ok.1 h
    obtain ⟨⟨a, f₂⟩, h₂, h⟩ := Except.bind_eq_ok.1 h
    dsimp only at h
    split at h <;> cases h
    exact ((popLong_kept h₁).trans (popLong_kept h₂)).moved _ _
  | intShift op =>
    obtain ⟨⟨b, f₁⟩, h₁, h⟩ := Except.bind_eq_ok.1 h
    obtain ⟨⟨a, f₂⟩, h₂, h⟩ := Except.bind_eq_ok.1 h
    cases h
    exact ((popInt_kept h₁).trans (popInt_kept h₂)).moved _ _
  | longShift op =>
    obtain ⟨⟨b, f₁⟩, h₁, h⟩ := Except.bind_eq_ok.1 h
    obtain ⟨⟨a, f₂⟩, h₂, h⟩ := Except.bind_eq_ok.1 h
    cases h
    exact ((popInt_kept h₁).trans (popLong_kept h₂)).moved _ _
  | longCompare =>
    obtain ⟨⟨b, f₁⟩, h₁, h⟩ := Except.bind_eq_ok.1 h
    obtain ⟨⟨a, f₂⟩, h₂, h⟩ := Except.bind_eq_ok.1 h
    cases h
    exact ((popLong_kept h₁).trans (popLong_kept h₂)).moved _ _
  | intNeg | intToLong | intCast _ =>
    obtain ⟨⟨v, f'⟩, h₁, h⟩ := Except.bind_eq_ok.1 h
    cases h
    exact (popInt_kept h₁).moved _ _
  | longNeg | longToInt =>
    obtain ⟨⟨v, f'⟩, h₁, h⟩ := Except.bind_eq_ok.1 h
    cases h
    exact (popLong_kept h₁).moved _ _
  | getStatic index =>
    simp only [apply] at h
    split at h
    · cases h
    · split at h <;> cases h
      rfl
  | store kind slot => exact absurd rfl (hstore kind slot)
  | branchZero _ _ | branchInts _ _ | branchRefs _ _ | jump _ => cases hbranch

/-- **An operation keeps to the code** of its frame, which goes on at the next instruction or where
the operation branches to. -/
theorem apply_ok {next : Nat} {op : FrameOp} (h : f.apply pool next op = .ok g) :
    SameCode f g ∧
      (g.pc = next ∨ ∃ offset, op.offset? = some offset ∧ branchTarget f.pc offset = g.pc) := by
  cases op with
  | store kind slot =>
    obtain ⟨f', hstore, h⟩ := Except.bind_eq_ok.1 h
    cases h
    exact ⟨(store_sameCode hstore).trans ⟨rfl, rfl⟩, .inl rfl⟩
  | branchZero test offset =>
    obtain ⟨⟨v, f'⟩, hpop, h⟩ := Except.bind_eq_ok.1 h
    obtain ⟨hsame, hpc⟩ := jumpIf_ok (popInt_kept hpop) h
    exact ⟨hsame, hpc.imp_right fun ht => ⟨offset, rfl, ht⟩⟩
  | branchInts test offset =>
    obtain ⟨⟨b, f₁⟩, h₁, h⟩ := Except.bind_eq_ok.1 h
    obtain ⟨⟨a, f₂⟩, h₂, h⟩ := Except.bind_eq_ok.1 h
    obtain ⟨hsame, hpc⟩ := jumpIf_ok ((popInt_kept h₁).trans (popInt_kept h₂)) h
    exact ⟨hsame, hpc.imp_right fun ht => ⟨offset, rfl, ht⟩⟩
  | branchRefs same offset =>
    obtain ⟨⟨b, f₁⟩, h₁, h⟩ := Except.bind_eq_ok.1 h
    obtain ⟨⟨a, f₂⟩, h₂, h⟩ := Except.bind_eq_ok.1 h
    obtain ⟨hsame, hpc⟩ := jumpIf_ok ((popKind_kept h₁).trans (popKind_kept h₂)) h
    exact ⟨hsame, hpc.imp_right fun ht => ⟨offset, rfl, ht⟩⟩
  | jump offset =>
    obtain ⟨hsame, ht⟩ := jump_ok h
    exact ⟨hsame, .inr ⟨offset, rfl, ht⟩⟩
  | _ =>
    rw [apply_straight rfl (by simp) h]
    exact ⟨⟨rfl, rfl⟩, .inl rfl⟩

end Frame

/-! ## The outermost call -/

/-- The method of the outermost call. -/
def State.outermost (s : State) : String := (s.callers.getLast?.getD s.frame).method

theorem Frame.method_resume (f : Frame) (r : Option Value) : (f.resume r).method = f.method := by
  cases r <;> rfl

section Outermost

variable {c : ClassFile} {s t : State}

/-- **The outermost call stays the same** until it returns. -/
theorem Steps.outermost (h : Steps c s t) : t.outermost = s.outermost := by
  obtain ⟨i, a, -, hmoves⟩ := h.moves
  unfold State.outermost
  generalize t.frame = f', t.callers = callers' at hmoves ⊢
  have hlast {f g : Frame} (l : List Frame) (hsame : g.method = f.method) :
      (l.getLast?.getD g).method = (l.getLast?.getD f).method := by
    cases l.getLast? with
    | none => exact hsame
    | some _ => rfl
  cases hmoves with
  | frame applied => exact hlast _ (Frame.apply_ok applied).1.1
  | new found ref => exact hlast _ rfl
  | ret waiting =>
    rw [waiting, List.getLast?_cons]
    exact hlast _ (Frame.method_resume _ _)
  | library operands known =>
    exact hlast _ ((Frame.method_resume _ _).trans (Frame.callOperands_kept operands).sameCode.1)
  | enter operands found =>
    rw [List.getLast?_cons]
    exact hlast _ (Frame.callOperands_kept operands).sameCode.1

theorem Reaches.outermost (h : Reaches c s t) : t.outermost = s.outermost :=
  h.keeps (P := fun t => t.outermost = s.outermost) (fun _ _ hs hst => hst.outermost.trans hs) rfl

/-- **A run ends where the outermost call returns**. -/
theorem ret_of_done {m : Machine} {r : Option Value} (h : s.outcome c = .done m r) :
    s.callers = [] ∧ ∃ i kind, s.frame.fetch = .ok (i, .ret kind) := by
  rcases s.outcome_cases c with ⟨e, -, hfault⟩ | ⟨i, a, hfetch, hexecutes⟩
  · cases hfault.symm.trans h
  rw [h] at hexecutes
  cases hexecutes with
  | @ret kind r _ returns =>
    refine ⟨?_, i, kind, hfetch⟩
    cases hcallers : s.callers with
    | nil => rfl
    | cons caller rest =>
      rw [hcallers] at returns
      cases returns
  | @library _ _ _ _ _ _ effect _ _ _ affects => cases effect <;> cases affects

end Outermost

end ClassFoundry
