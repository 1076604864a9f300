import ClassFoundry.Proofs.Execution
import ClassFoundry.Proofs.Structured.Placement

/-!
# A logic for structured code

What has to hold before a piece of structured code so that a given property holds after it. The
preconditions follow the shape of the code and speak of values only: instructions, offsets and steps
do not occur in them. Which faults may end a run, and what a call of a method of the class needs, are
rules that are given from outside.

The link to the machine is a family of properties of states that steps lead back to: if it holds where
a step leads to, it holds before the step. Whether this is a property of all later states or of how
the run ends is left open. The index of the family counts steps, so that loops can be treated by
induction on it.

## Main definitions

* `Rules`: the faults, calls, locals and results that are allowed
* `Fragment.wp`, `Condition.wp`, `Flow.wp`: the preconditions of structured code
* `Site.Closed`: properties of states that the steps of a call lead back to

## Main results

* `Fragment.At.sound`, `Condition.At.sound`, `Flow.At.sound`: where structured code stands, a property
  that holds behind it holds before it, provided the precondition does
-/

namespace ClassFoundry

/-! ## Preconditions -/

/-- What is said of the output so far and of the stack. -/
abbrev Post := String → List Value → Prop

/-- **What code may rely on** and has to respect: the faults that may end the run, what a call of a
method of the class needs to end with a property of its output and result, which locals there may be,
how an instruction may change them, and which results there may be. Where `timeout` holds, nothing is
said of runs that go on for too long. -/
structure Rules where
  fault : String → Fault → Prop
  own : Member → Option Value → List Value → (String → Option Value → Prop) → String → Prop
  locals : Array Value → Prop
  stores : Array Value → Array Value → Prop
  result : String → Option Value → Prop
  timeout : Prop
  stores_refl : ∀ L, stores L L
  own_mono : ∀ {callee receiver args Q Q' out}, (∀ out r, Q out r → Q' out r) →
    own callee receiver args Q out → own callee receiver args Q' out

/-- A computation gives what is wanted, or fails with a fault that is allowed. -/
def Rules.Yields {α : Type} (W : Rules) (out : String) (x : Except Fault α) (Q : α → Prop) : Prop :=
  match x with
  | .ok a => Q a
  | .error e => W.fault out e

/-- What has to hold before a call. -/
def Rules.called (c : ClassFile) (W : Rules) (callee : Member) (receiver : Option Value)
    (args : List Value) (Q : String → Option Value → Prop) (out : String) : Prop :=
  if callee.owner = c.name?.getD "" then W.own callee receiver args Q out
  else W.Yields out (libraryCall callee receiver args) fun
    | .print text => Q (out ++ text) none
    | .value v => Q out (some v)
    | .newString text => ∀ ref, Q out (some (.str ref text))
    | .nothing => Q out none

theorem Rules.called_mono {c : ClassFile} {W : Rules} {callee : Member} {receiver : Option Value}
    {args : List Value} {Q Q' : String → Option Value → Prop} {out : String}
    (hQ : ∀ out r, Q out r → Q' out r) (h : W.called c callee receiver args Q out) :
    W.called c callee receiver args Q' out := by
  unfold called at h ⊢
  split at h <;> rename_i howner
  · rw [if_pos howner]
    exact W.own_mono hQ h
  · rw [if_neg howner]
    cases hlibrary : libraryCall callee receiver args with
    | error e =>
      rw [hlibrary] at h
      exact h
    | ok effect =>
      rw [hlibrary] at h
      cases effect with
      | print text => exact hQ _ _ h
      | value v => exact hQ _ _ h
      | newString text => exact fun ref => hQ _ _ (h ref)
      | nothing => exact hQ _ _ h

section Preconditions

variable (c : ClassFile) (W : Rules) (L : Array Value)

/-- The precondition of an operation on the frame that is no branch. -/
def FrameOp.wp (op : FrameOp) (Q : Post) : Post := fun out st =>
  ∀ (pool : ConstantPool) (next : Nat) (f : Frame), f.locals = L → f.stack = st →
    W.Yields out (f.apply pool next op) fun g => Q out g.stack

/-- The operation that drops a value. -/
def Kind.dropOp : Kind → FrameOp
  | .long => .pop2
  | _ => .pop

/-- The precondition of an operation. Only operations with known kinds stand in code. -/
def Operation.wp : Operation → Post → Post
  | .frame op, Q => fun out st => op.kinds?.isSome → op.wp W L Q out st
  | .drop kind, Q => kind.dropOp.wp W L Q
  | .text value, Q => fun out st => ∀ ref, Q out (.str ref value :: st)
  | .field member, Q => fun out st =>
    if member.owner = systemClass ∧ member.name = "out" then
      Q out (.object .standardOutput printStreamClass :: st)
    else W.fault out (.unsupportedField member.owner member.name)
  | .invoke mode callee _ _, Q => fun out st =>
    ∀ (pool : ConstantPool) (index : UInt16) (f : Frame), pool.member? index = some callee →
      f.stack = st → W.Yields out (f.callOperands pool mode index) fun (callee, receiver, args, g) =>
        W.called c callee receiver args (fun out r => Q out (r.toList ++ g.stack)) out
  | .create className, Q => fun out st => ∀ ref, Q out (.object ref className :: st)

/-- The outcome of a test, and the frame without what was tested. -/
def Test.outcome (f : Frame) : Test → Except Fault (Bool × Frame)
  | .zero test => do
    let (v, f) ← f.popInt
    return (test.holds (orderInts v 0), f)
  | .ints test => do
    let (b, f) ← f.popInt
    let (a, f) ← f.popInt
    return (test.holds (orderInts a b), f)
  | .refs same => do
    let (b, f) ← f.popKind .reference
    let (a, f) ← f.popKind .reference
    return (a.same b == same, f)

/-- The precondition of a test. -/
def Test.wp (t : Test) (Q : Bool → Post) : Post := fun out st =>
  ∀ f : Frame, f.stack = st → W.Yields out (t.outcome f) fun (b, g) => Q b out g.stack

mutual

/-- **The precondition of a fragment**. -/
def Fragment.wp : Fragment → Post → Post
  | .nil, Q => Q
  | .op o, Q => o.wp c W L Q
  | .seq first second, Q => first.wp (second.wp Q)
  | .truth cond, Q => cond.wp fun b out st => Q out (.int (if b then 1 else 0) :: st)

/-- **The precondition of a condition**, with a property for each of its outcomes. -/
def Condition.wp : Condition → (Bool → Post) → Post
  | .test operands t, Q => operands.wp (t.wp W Q)
  | .logic op left right, Q => left.wp fun b => if b = (op == .or) then Q b else right.wp Q
  | .not cond, Q => cond.wp fun b => Q (!b)

end

end Preconditions

/-! ## Operations that may divide by zero -/

section Division

variable {W : Rules} {L : Array Value} {Q : Post} {out : String} {rest : List Value} {op : BinOp}

theorem wp_intOp {a b : Int32} (hnone : op.onInt a b = none → W.fault out .divisionByZero)
    (hsome : ∀ v, op.onInt a b = some v → Q out (.int v :: rest)) :
    (FrameOp.intOp op).wp W L Q out (.int b :: .int a :: rest) := by
  rintro pool next f - hstack
  cases hr : op.onInt a b with
  | none =>
    have happly : f.apply pool next (.intOp op) = .error .divisionByZero := by
      simp [Frame.apply, Frame.popInt, hstack, hr, bind, Except.bind, throw, throwThe,
        MonadExceptOf.throw]
    rw [happly]
    exact hnone hr
  | some v =>
    have happly : f.apply pool next (.intOp op) =
        .ok { f with stack := .int v :: rest, pc := next } := by
      simp [Frame.apply, Frame.popInt, hstack, hr, bind, Except.bind, pure, Except.pure, Frame.push]
    rw [happly]
    exact hsome v hr

theorem wp_longOp {a b : Int64} (hnone : op.onLong a b = none → W.fault out .divisionByZero)
    (hsome : ∀ v, op.onLong a b = some v → Q out (.long v :: rest)) :
    (FrameOp.longOp op).wp W L Q out (.long b :: .long a :: rest) := by
  rintro pool next f - hstack
  cases hr : op.onLong a b with
  | none =>
    have happly : f.apply pool next (.longOp op) = .error .divisionByZero := by
      simp [Frame.apply, Frame.popLong, hstack, hr, bind, Except.bind, throw, throwThe,
        MonadExceptOf.throw]
    rw [happly]
    exact hnone hr
  | some v =>
    have happly : f.apply pool next (.longOp op) =
        .ok { f with stack := .long v :: rest, pc := next } := by
      simp [Frame.apply, Frame.popLong, hstack, hr, bind, Except.bind, pure, Except.pure, Frame.push]
    rw [happly]
    exact hsome v hr

end Division

/-- What has to hold of the output and the locals where control can go from a flow: behind it, to the
end of the loop around it, and to the test of that loop. -/
structure Exits where
  next : String → Array Value → Prop
  exit : String → Array Value → Prop
  test : String → Array Value → Prop

/-- The rounds of a loop, at most a number of them: what has to hold before a round is given by what
has to hold before the next one. -/
def Rules.rounds (W : Rules)
    (before : (String → Array Value → Prop) → String → Array Value → Prop) :
    Nat → String → Array Value → Prop
  | 0 => fun _ _ => W.timeout
  | n + 1 => before (W.rounds before n)

/-- Rounds that keep an invariant can be repeated, if nothing is asked of long runs. -/
theorem Rules.rounds_of_invariant {W : Rules} (htimeout : W.timeout)
    {before : (String → Array Value → Prop) → String → Array Value → Prop}
    {I : String → Array Value → Prop}
    (hround : ∀ again, (∀ out L, I out L → again out L) → ∀ out L, I out L → before again out L)
    (n : Nat) : ∀ out L, I out L → W.rounds before n out L := by
  induction n with
  | zero => exact fun _ _ _ => htimeout
  | succ n ih => exact hround _ ih

/-- **The precondition of a flow**, which starts and ends with an empty stack. Nothing is said of runs
in which a loop takes more than `n` rounds. -/
def Flow.wp (c : ClassFile) (W : Rules) (n : Nat) : Flow → Exits → String → Array Value → Prop
  | .nil, E => E.next
  | .seq first second, E => first.wp c W n { E with next := second.wp c W n E }
  | .run code, E => fun out L => code.wp c W L (fun out st => st = [] ∧ E.next out L) out []
  | .store value kind slot, E => fun out L => value.wp c W L (fun out st =>
      ∀ f : Frame, f.locals = L → f.stack = st → W.Yields out (f.store kind slot) fun g =>
        g.stack = [] ∧ W.stores L g.locals ∧ W.locals g.locals ∧ E.next out g.locals) out []
  | .ret value none, _ => fun out L => value.wp c W L (fun out _ => W.result out none) out []
  | .ret value (some kind), _ => fun out L => value.wp c W L (fun out st =>
      ∀ f : Frame, f.stack = st → W.Yields out (f.popKind kind) fun r =>
        W.result out (some r.1)) out []
  | .ifThen cond body, E => fun out L => cond.wp c W L (fun b out st =>
      st = [] ∧ if b then body.wp c W n E out L else E.next out L) out []
  | .ifElse cond body orElse, E => fun out L => cond.wp c W L (fun b out st =>
      st = [] ∧ if b then body.wp c W n E out L else orElse.wp c W n E out L) out []
  | .loop cond body, E => W.rounds (fun again out L => W.locals L →
      cond.wp c W L (fun b out st =>
        st = [] ∧ if b then body.wp c W n ⟨again, E.next, again⟩ out L else E.next out L) out []) n
  | .break, E => E.exit
  | .continue, E => E.test

/-! ## States of a call -/

/-- A call in progress, without what its own code changes. -/
structure Site where
  method : String
  code : CodeArray
  callers : List Frame

/-- The frame of a call at an offset. -/
def Site.frame (σ : Site) (pc : Nat) (L : Array Value) (st : List Value) : Frame :=
  ⟨σ.method, σ.code, pc, L, st⟩

/-- The state in which a call is at an offset. -/
def Site.state (σ : Site) (m : Machine) (pc : Nat) (L : Array Value) (st : List Value) : State :=
  ⟨m, σ.frame pc L st, σ.callers⟩

/-- The machine when a step has been counted. -/
def Machine.tick (m : Machine) : Machine := { m with steps := m.steps + 1 }

/-- What holds of the states of a call at an offset. -/
def Site.At (σ : Site) (S : State → Prop) (pc : Nat) (L : Array Value) : Post := fun out st =>
  ∀ m : Machine, m.output = out → S (σ.state m pc L st)

/-- **Properties of states that the steps of a call lead back to**. With `S n` where a step leads to,
`S (n + 1)` holds before it; beyond `bound` they do not differ. The run may end in faults and results
that the rules allow, and a call that the rules allow leads back from where it returns to. -/
structure Site.Closed (c : ClassFile) (W : Rules) (bound : Nat) (σ : Site)
    (S : Nat → State → Prop) : Prop where
  zero : W.timeout → ∀ s, S 0 s
  antitone : ∀ n s, S (n + 1) s → S n s
  bounded : ∀ n s, S bound s → S n s
  step : ∀ {n m pc L st t}, W.locals L → Steps c (σ.state m pc L st) t → t.callers = σ.callers →
    W.stores L t.frame.locals → S n t → S (n + 1) (σ.state m pc L st)
  fault : ∀ {n m m' pc L st e}, W.locals L → (σ.state m pc L st).outcome c = .fault m' e →
    W.fault m.output e → S n (σ.state m pc L st)
  ret : ∀ {n m pc L st kind i r}, W.locals L →
    (σ.frame pc L st).fetch = .ok (i, .ret kind) →
    (σ.state m pc L st).outcome c = returnTo m.tick r σ.callers → W.result m.output r →
    S n (σ.state m pc L st)
  own : ∀ {n m pc pc' L st st' callee receiver args Q}, W.locals L →
    callee.owner = c.name?.getD "" →
    (σ.state m pc L st).outcome c =
      call c m.tick (σ.frame pc' L st') σ.callers callee receiver args →
    W.own callee receiver args Q m.output →
    (∀ m' r, Q m'.output r → S n (σ.state m' pc' L (r.toList ++ st'))) →
    S (n + 1) (σ.state m pc L st)

/-! ## Single instructions -/

section Instructions

variable {c : ClassFile} {W : Rules} {σ : Site} {S : Nat → State → Prop} {L : Array Value}
  {m : Machine} {pc bound : Nat} {st : List Value} {i : Instruction} {n : Nat}

theorem Frame.fetch_of_action? {f : Frame} {a : Action} (hi : decodeAt f.code f.pc = .ok i)
    (ha : i.action? = some a) : f.fetch = .ok (i, a) := by
  simp [fetch, hi, ha]

/-- What comes next is told by the meaning of the instruction. -/
theorem Site.outcome_state (st : List Value) {a : Action} (hi : decodeAt σ.code pc = .ok i)
    (ha : i.action? = some a) :
    (σ.state m pc L st).outcome c =
      execute c m.tick (σ.frame pc L st) σ.callers (pc + i.length) a := by
  have hfetch : (σ.frame pc L st).fetch = .ok (i, a) := Frame.fetch_of_action? hi ha
  simp only [state, State.outcome, step, hfetch]
  rfl

theorem Rules.Yields.mono {α : Type} {out : String} {x : Except Fault α} {Q Q' : α → Prop}
    (h : W.Yields out x Q) (hq : ∀ a, x = .ok a → Q a → Q' a) : W.Yields out x Q' := by
  cases x with
  | ok a => exact hq a rfl h
  | error e => exact h

/-- An operation that is no branch changes only the stack, and control passes on. -/
theorem Frame.apply_stack {pool : ConstantPool} {f g : Frame} {next : Nat} {op : FrameOp}
    (hop : op.kinds?.isSome ∨ op = .pop ∨ op = .pop2) (h : f.apply pool next op = .ok g) :
    g = { f with pc := next, stack := g.stack } := by
  refine apply_straight ?_ (fun kind slot hstore => ?_) h
  · rcases hop with hop | rfl | rfl
    · cases op with
      | branchZero _ _ | branchInts _ _ | branchRefs _ _ | jump _ => cases hop
      | _ => rfl
    · rfl
    · rfl
  · subst hstore
    rcases hop with hop | hop | hop <;> cases hop

namespace Site.Closed

variable (hS : σ.Closed c W bound S) (hL : W.locals L)

include hS in
theorem mono {k : Nat} {s : State} (hk : k ≤ n) (h : S n s) : S k s := by
  induction hk with
  | refl => exact h
  | step _ ih => exact ih (hS.antitone _ _ h)

include hS in
theorem at_mono {k : Nat} {out : String} (hk : k ≤ n) (h : σ.At (S n) pc L out st) :
    σ.At (S k) pc L out st :=
  fun m hm => hS.mono hk (h m hm)

include hS hL

/-- An instruction that works on the frame. -/
theorem apply {op : FrameOp} (hi : decodeAt σ.code pc = .ok i) (ha : i.action? = some (.frame op))
    (h : W.Yields m.output ((σ.frame pc L st).apply c.pool (pc + i.length) op) fun g =>
      W.stores L g.locals ∧ S n ⟨m.tick, g, σ.callers⟩) : S (n + 1) (σ.state m pc L st) := by
  have hout := outcome_state (c := c) (m := m) (L := L) st hi ha
  simp only [execute] at hout
  cases happly : (σ.frame pc L st).apply c.pool (pc + i.length) op with
  | ok g =>
    rw [happly] at h hout
    exact hS.step (t := ⟨m.tick, g, σ.callers⟩) hL hout rfl h.1 h.2
  | error e =>
    rw [happly] at h hout
    exact hS.fault hL hout h

/-- An instruction that changes only the stack. -/
theorem frameOp {op : FrameOp} {Q : Post} {out : String}
    (hop : op.kinds?.isSome ∨ op = .pop ∨ op = .pop2) (hi : decodeAt σ.code pc = .ok i)
    (ha : i.action? = some (.frame op)) (hwp : op.wp W L Q out st)
    (hQ : ∀ out st, Q out st → σ.At (S n) (pc + i.length) L out st) :
    σ.At (S (n + 1)) pc L out st := by
  rintro m rfl
  refine hS.apply hL hi ha ((hwp c.pool _ (σ.frame pc L st) rfl rfl).mono fun g hg hq => ?_)
  rw [Frame.apply_stack hop hg]
  exact ⟨W.stores_refl L, hQ _ _ hq m.tick rfl⟩

/-- A constant of the pool is pushed like one in the code. -/
theorem pushConstant {index : UInt16} {v : Value} {out : String}
    (hi : decodeAt σ.code pc = .ok i) (ha : i.action? = some (.frame (.pushConstant index)))
    (hv : constantValue c.pool index = .ok v)
    (h : σ.At (S n) (pc + i.length) L out (v :: st)) : σ.At (S (n + 1)) pc L out st := by
  intro m hm
  refine hS.apply hL hi ha ?_
  simp only [Frame.apply, hv]
  exact ⟨W.stores_refl L, h m.tick hm⟩

/-- A call of a method of the class or of the library. -/
theorem invoke {mode : CallMode} {index : UInt16} {callee : Member} {args : List Kind}
    {result : Option Kind} {Q : Post} {out : String} (hi : decodeAt σ.code pc = .ok i)
    (ha : i.action? = some (.invoke mode index)) (hm : c.pool.member? index = some callee)
    (hwp : (Operation.invoke mode callee args result).wp c W L Q out st)
    (hQ : ∀ out st, Q out st → σ.At (S n) (pc + i.length) L out st) :
    σ.At (S (n + 1)) pc L out st := by
  rintro m rfl
  have hout := outcome_state (c := c) (m := m) (L := L) st hi ha
  have h := hwp c.pool index (σ.frame pc L st) hm rfl
  simp only [execute] at hout
  cases hoperands : (σ.frame pc L st).callOperands c.pool mode index with
  | error e =>
    rw [hoperands] at h hout
    exact hS.fault hL hout h
  | ok r =>
    obtain ⟨callee', receiver, values, g⟩ := r
    rw [hoperands] at h hout
    have hg : { g with pc := pc + i.length } = σ.frame (pc + i.length) L g.stack :=
      (Frame.callOperands_kept hoperands).moved _ _
    dsimp only at hout
    rw [hg] at hout
    simp only [Rules.Yields, Rules.called] at h
    split at h <;> rename_i howner
    · exact hS.own hL howner hout h fun m' r hq => hQ _ _ hq m' rfl
    · simp only [call, if_neg howner] at hout
      cases hlibrary : libraryCall callee' receiver values with
      | error e =>
        rw [hlibrary] at h hout
        exact hS.fault hL hout h
      | ok effect =>
        rw [hlibrary] at h hout
        -- whatever the library does, the run goes on behind the call
        have hsame := W.stores_refl L
        cases effect with
        | print text =>
          exact hS.step (t := ⟨{ m.tick with output := m.output ++ text }, _, _⟩) hL hout rfl hsame
            (hQ _ _ h _ rfl)
        | value v => exact hS.step (t := ⟨m.tick, _, _⟩) hL hout rfl hsame (hQ _ _ h _ rfl)
        | newString text =>
          exact hS.step (t := ⟨(m.tick.newString text).2, _, _⟩) hL hout rfl hsame
            (hQ _ _ (h _) _ rfl)
        | nothing => exact hS.step (t := ⟨m.tick, _, _⟩) hL hout rfl hsame (hQ _ _ h _ rfl)

end Site.Closed

end Instructions

/-! ## Branches -/

/-- The branch that is taken when the test comes out as wanted. -/
def Test.branch (jumpIf : Bool) (offset : UInt16) : Test → FrameOp
  | .zero test => .branchZero (if jumpIf then test else test.negate) offset
  | .ints test => .branchInts (if jumpIf then test else test.negate) offset
  | .refs same => .branchRefs (same == jumpIf) offset

theorem Test.action?_branch (t : Test) (jumpIf : Bool) (offset : UInt16) :
    (Instruction.short (t.opcode jumpIf) offset).action? = some (.frame (t.branch jumpIf offset)) := by
  cases t with
  | zero test => cases jumpIf <;> cases test <;> rfl
  | ints test => cases jumpIf <;> cases test <;> rfl
  | refs same => cases jumpIf <;> cases same <;> rfl

theorem Comparison.holds_branch (test : Comparison) (jumpIf : Bool) (o : Ordering) :
    (if jumpIf then test else test.negate).holds o = (test.holds o == jumpIf) := by
  cases jumpIf
  · simp [Comparison.holds_negate]
  · simp

/-- A branch tests and then jumps or not. -/
theorem Test.apply_branch (t : Test) (jumpIf : Bool) (offset : UInt16) (pool : ConstantPool)
    (f : Frame) (next : Nat) :
    f.apply pool next (t.branch jumpIf offset) =
      t.outcome f >>= fun (b, g) => g.jumpIf (b == jumpIf) offset next := by
  cases t with
  | zero test =>
    simp only [branch, Frame.apply, outcome, Comparison.holds_branch]
    cases f.popInt <;> rfl
  | ints test =>
    simp only [branch, Frame.apply, outcome, Comparison.holds_branch]
    cases f.popInt with
    | error e => rfl
    | ok r =>
      obtain ⟨b, f₁⟩ := r
      show (f₁.popInt >>= _) = _
      cases hpop : f₁.popInt <;> simp [bind, Except.bind, hpop]
      rfl
  | refs same =>
    have hsame (x : Bool) : (x == (same == jumpIf)) = ((x == same) == jumpIf) := by
      cases x <;> cases same <;> cases jumpIf <;> rfl
    simp only [branch, Frame.apply, outcome, hsame]
    cases f.popKind .reference with
    | error e => rfl
    | ok r =>
      obtain ⟨b, f₁⟩ := r
      show (f₁.popKind .reference >>= _) = _
      cases hpop : f₁.popKind .reference <;> simp [bind, Except.bind, hpop]
      rfl

theorem Test.outcome_kept {t : Test} {f g : Frame} {b : Bool} (h : t.outcome f = .ok (b, g)) :
    Frame.Kept f g := by
  cases t with
  | zero test =>
    obtain ⟨⟨v, f₁⟩, h₁, h⟩ := Except.bind_eq_ok.1 h
    cases h
    exact Frame.popInt_kept h₁
  | ints test =>
    obtain ⟨⟨v, f₁⟩, h₁, h⟩ := Except.bind_eq_ok.1 h
    obtain ⟨⟨w, f₂⟩, h₂, h⟩ := Except.bind_eq_ok.1 h
    cases h
    exact (Frame.popInt_kept h₁).trans (Frame.popInt_kept h₂)
  | refs same =>
    obtain ⟨⟨v, f₁⟩, h₁, h⟩ := Except.bind_eq_ok.1 h
    obtain ⟨⟨w, f₂⟩, h₂, h⟩ := Except.bind_eq_ok.1 h
    cases h
    exact (Frame.popKind_kept h₁).trans (Frame.popKind_kept h₂)

theorem Frame.jump_eq {f : Frame} {offset : UInt16} {target : Nat}
    (h : branchTarget f.pc offset = target) : f.jump offset = .ok { f with pc := target } := by
  simp [jump, h]

namespace Site.Closed

variable {c : ClassFile} {W : Rules} {σ : Site} {S : Nat → State → Prop} {L : Array Value}
  {pc pc' target bound : Nat} {st : List Value} {n : Nat} {out : String}
  (hS : σ.Closed c W bound S) (hL : W.locals L)

include hS hL

theorem goto (h : BranchAt σ.code .goto target pc pc') (hQ : σ.At (S n) target L out st) :
    σ.At (S (n + 1)) pc L out st := by
  rintro m rfl
  obtain ⟨⟨offset, hi, htarget⟩, -⟩ := h
  have ha : (Instruction.short .goto offset).action? = some (.frame (.jump offset)) := rfl
  refine hS.apply hL hi ha ?_
  rw [Frame.apply, Frame.jump_eq (f := σ.frame pc L st) htarget]
  exact ⟨W.stores_refl L, hQ m.tick rfl⟩

/-- A branch leads to its target or to the next instruction. -/
theorem branch {t : Test} {jumpIf : Bool} {Q : Bool → Post}
    (h : BranchAt σ.code (t.opcode jumpIf) target pc pc') (hwp : t.wp W Q out st)
    (hQ : ∀ b out st, Q b out st → σ.At (S n) (if b = jumpIf then target else pc') L out st) :
    σ.At (S (n + 1)) pc L out st := by
  rintro m rfl
  obtain ⟨⟨offset, hi, htarget⟩, rfl⟩ := h
  refine hS.apply hL hi (t.action?_branch jumpIf offset) ?_
  rw [Test.apply_branch]
  have hyields := hwp (σ.frame pc L st) rfl
  cases ht : t.outcome (σ.frame pc L st) with
  | error e => rwa [ht] at hyields
  | ok r =>
    obtain ⟨b, g⟩ := r
    rw [ht] at hyields
    have hkept := Test.outcome_kept ht
    have hpc : g.pc = pc := hkept.pc
    -- the test takes its operands, and the answer tells where the frame goes
    have hnext := hQ b m.output g.stack hyields m.tick rfl
    show W.Yields m.output (g.jumpIf (b == jumpIf) offset _) _
    by_cases hb : b = jumpIf
    · have hjump : g.jump offset = .ok (σ.frame target L g.stack) := by
        rw [Frame.jump_eq (hpc.symm ▸ htarget)]
        exact congrArg Except.ok (hkept.moved target g.stack)
      rw [if_pos hb] at hnext
      rw [Frame.jumpIf, if_pos (beq_iff_eq.2 hb), hjump]
      exact ⟨W.stores_refl L, hnext⟩
    · have hpass : { g with pc := pc + 3 } = σ.frame (pc + 3) L g.stack := hkept.moved _ _
      rw [if_neg hb] at hnext
      rw [Frame.jumpIf, if_neg (by simpa using hb)]
      exact hpass ▸ ⟨W.stores_refl L, hnext⟩

end Site.Closed

/-! ## Soundness -/

section Sound

variable {c : ClassFile} {W : Rules} {σ : Site} {S : Nat → State → Prop} {bound : Nat}
  (hS : σ.Closed c W bound S)

include hS

section Values

variable {L : Array Value} (hL : W.locals L)

include hL

theorem Operation.At.sound {o : Operation} {n pc pc' : Nat} {Q : Post} {out : String}
    {st : List Value} (h : o.At c.pool σ.code pc pc') (hwp : o.wp c W L Q out st)
    (hQ : ∀ out st, Q out st → σ.At (S n) pc' L out st) : σ.At (S (n + 1)) pc L out st := by
  obtain ⟨i, hi, hmeans, rfl⟩ := h
  cases o with
  | frame op =>
    obtain ⟨hkinds, ha | ⟨index, ha, ⟨v, rfl, hv⟩ | ⟨v, rfl, hv⟩⟩⟩ := hmeans
    · exact hS.frameOp hL (.inl hkinds) hi ha (hwp hkinds) hQ
    · refine hS.pushConstant hL (v := .int v) hi ha (by simp [constantValue, hv]) ?_
      exact hQ _ _ (hwp rfl c.pool pc (σ.frame pc L st) rfl rfl)
    · refine hS.pushConstant hL (v := .long v) hi ha (by simp [constantValue, hv]) ?_
      exact hQ _ _ (hwp rfl c.pool pc (σ.frame pc L st) rfl rfl)
  | drop kind =>
    obtain rfl : i = .plain kind.popOp := hmeans
    have ha : (Instruction.plain kind.popOp).action? = some (.frame kind.dropOp) := by
      cases kind <;> rfl
    refine hS.frameOp hL ?_ hi ha hwp hQ
    cases kind <;> simp [Kind.dropOp]
  | text value =>
    obtain ⟨index, k, ha, hk, htext⟩ := hmeans
    refine hS.pushConstant hL (v := .str (.literal index) value) hi ha ?_ (hQ _ _ (hwp _))
    simp [constantValue, hk, htext]
  | field member =>
    obtain ⟨index, ha, hm⟩ := hmeans
    rintro m rfl
    refine hS.apply hL hi ha ?_
    simp only [Frame.apply, hm]
    simp only [Operation.wp] at hwp
    split at hwp <;> rename_i hout
    · rw [if_pos hout]
      exact ⟨W.stores_refl L, hQ _ _ hwp m.tick rfl⟩
    · rw [if_neg hout]
      exact hwp
  | invoke mode callee args result =>
    obtain ⟨index, ha, hm⟩ := hmeans
    exact hS.invoke hL hi ha hm hwp hQ
  | create className =>
    obtain ⟨index, ha, hc⟩ := hmeans
    rintro m rfl
    have hout := Site.outcome_state (c := c) (m := m) (L := L) st hi ha
    simp only [execute, hc] at hout
    exact hS.step (t := ⟨(m.tick.newObject className).2, _, _⟩) hL hout rfl (W.stores_refl L)
      (hQ _ _ (hwp _) _ rfl)

mutual

/-- **A property that holds behind a fragment** holds before it, if the precondition does. -/
theorem Fragment.At.sound (code : Fragment) {n pc pc' : Nat} {Q : Post} {out : String}
    {st : List Value} (h : code.At c.pool σ.code pc pc') (hwp : code.wp c W L Q out st)
    (hQ : ∀ out st, Q out st → σ.At (S n) pc' L out st) : σ.At (S n) pc L out st := by
  cases code with
  | nil =>
    obtain rfl : pc' = pc := h
    exact hQ out st hwp
  | op o => exact hS.at_mono (Nat.le_succ n) (Operation.At.sound hS hL h hwp hQ)
  | seq first second =>
    obtain ⟨mid, h₁, h₂⟩ := h
    exact Fragment.At.sound first h₁ hwp fun out st hq => Fragment.At.sound second h₂ hq hQ
  | truth cond =>
    obtain ⟨start, jump, start', hcond, hone, hgoto, hzero⟩ := h
    refine hS.at_mono (Nat.le_succ n) (Condition.At.sound cond hcond hwp fun b out st hq => ?_)
    cases b with
    | true =>
      -- 1 is pushed, and the jump leads behind the fragment
      refine hS.at_mono (Nat.le_succ n) (Operation.At.sound hS hL
        (Q := fun o s => o = out ∧ s = .int 1 :: st) hone ?_ ?_)
      · rintro - pool next f rfl rfl
        exact ⟨rfl, rfl⟩
      · rintro _ _ ⟨rfl, rfl⟩
        exact hS.at_mono (Nat.le_succ n) (hS.goto hL hgoto (hQ _ _ hq))
    | false =>
      refine hS.at_mono (Nat.le_succ n) (Operation.At.sound hS hL
        (Q := fun o s => o = out ∧ s = .int 0 :: st) hzero ?_ ?_)
      · rintro - pool next f rfl rfl
        exact ⟨rfl, rfl⟩
      · rintro _ _ ⟨rfl, rfl⟩
        exact hQ _ _ hq

/-- **A property that holds where a condition leads to** holds before it, if the precondition does. A
condition takes at least one step. -/
theorem Condition.At.sound (cond : Condition) {jumpIf : Bool} {n target pc pc' : Nat}
    {Q : Bool → Post} {out : String} {st : List Value}
    (h : cond.At c.pool σ.code jumpIf target pc pc') (hwp : cond.wp c W L Q out st)
    (hQ : ∀ b out st, Q b out st → σ.At (S n) (if b = jumpIf then target else pc') L out st) :
    σ.At (S (n + 1)) pc L out st := by
  cases cond with
  | test operands t =>
    obtain ⟨mid, hoperands, hbranch⟩ := h
    exact Fragment.At.sound operands hoperands hwp fun out st hq => hS.branch hL hbranch hq hQ
  | logic op left right =>
    unfold Condition.At at h
    split at h <;> rename_i hd
    · -- both sides jump to the target
      obtain ⟨mid, hleft, hright⟩ := h
      refine Condition.At.sound left hleft hwp fun b out st hq => ?_
      rw [← hd] at hq
      split at hq <;> rename_i hb
      · have := hQ _ _ _ hq
        rwa [if_pos hb] at this ⊢
      · rw [if_neg hb]
        exact hS.at_mono (Nat.le_succ n) (Condition.At.sound right hright hq hQ)
    · -- the left side may skip the right one, and then control passes on
      obtain ⟨mid, hleft, hright⟩ := h
      refine Condition.At.sound left hleft hwp fun b out st hq => ?_
      split at hq <;> rename_i hb
      · have := hQ _ _ _ hq
        rw [if_pos hb]
        rwa [if_neg fun h : b = jumpIf => hd (h ▸ hb)] at this
      · rw [if_neg hb]
        exact hS.at_mono (Nat.le_succ n) (Condition.At.sound right hright hq hQ)
  | not cond =>
    refine Condition.At.sound cond h hwp fun b out st hq => ?_
    have := hQ _ _ _ hq
    cases b <;> cases jumpIf <;> exact this

end

end Values

/-- A value is stored behind the fragment that pushes it. -/
theorem Site.Closed.store {L : Array Value} (hL : W.locals L) {i : Instruction} {kind : Kind}
    {n pc slot : Nat} {out : String} {st : List Value} {Q : Array Value → Prop}
    (hi : decodeAt σ.code pc = .ok i) (ha : i.action? = some (.frame (.store kind slot)))
    (h : ∀ f : Frame, f.locals = L → f.stack = st → W.Yields out (f.store kind slot) fun g =>
      g.stack = [] ∧ W.stores L g.locals ∧ W.locals g.locals ∧ Q g.locals)
    (hQ : ∀ L, W.locals L → Q L → σ.At (S n) (pc + i.length) L out []) :
    σ.At (S n) pc L out st := by
  rintro m rfl
  refine hS.antitone _ _ (hS.apply hL hi ha ?_)
  have hyields := h (σ.frame pc L st) rfl rfl
  rw [Frame.apply]
  cases hstore : (σ.frame pc L st).store kind slot with
  | error e => rwa [hstore] at hyields
  | ok g =>
    rw [hstore] at hyields
    obtain ⟨hstack, hstores, hlocals, hq⟩ := hyields
    obtain ⟨hmethod, hcode⟩ := Frame.store_sameCode hstore
    have hframe : { g with pc := pc + i.length } = σ.frame (pc + i.length) g.locals [] := by
      rw [Site.frame, ← hstack, hmethod, hcode]
      rfl
    have := hQ g.locals hlocals hq m.tick rfl
    rw [Site.state, ← hframe] at this
    exact ⟨hstores, this⟩

/-- The call returns behind the fragment that pushes its result. -/
theorem Site.Closed.return {L : Array Value} (hL : W.locals L) {kind : Option Kind} {n pc : Nat}
    {out : String} {st : List Value} (hi : decodeAt σ.code pc = .ok (.plain (returnOpcode kind)))
    (h : match kind with
      | none => W.result out none
      | some kind => ∀ f : Frame, f.stack = st → W.Yields out (f.popKind kind) fun r =>
        W.result out (some r.1)) : σ.At (S n) pc L out st := by
  rintro m rfl
  have ha : (Instruction.plain (returnOpcode kind)).action? = some (.ret kind) := by
    cases kind with
    | none => rfl
    | some kind => cases kind <;> rfl
  have hfetch : (σ.frame pc L st).fetch = .ok (.plain (returnOpcode kind), .ret kind) :=
    Frame.fetch_of_action? hi ha
  have hout := Site.outcome_state (c := c) (m := m) (L := L) st hi ha
  cases kind with
  | none => exact hS.ret hL hfetch hout h
  | some kind =>
    have hyields := h (σ.frame pc L st) rfl
    simp only [execute] at hout
    cases hpop : (σ.frame pc L st).popKind kind with
    | error e =>
      rw [hpop] at hyields hout
      exact hS.fault hL hout hyields
    | ok r =>
      rw [hpop] at hyields hout
      exact hS.ret hL hfetch hout hyields

/-- **A property that holds where a flow leads to** holds before it, if the precondition does. What is
behind a flow matters only if control can get there. -/
theorem Flow.At.sound (flow : Flow) {inner : Option LoopOffsets} {n pc pc' : Nat} {E : Exits}
    {L : Array Value} {out : String} (h : flow.At c.pool σ.code inner pc pc') (hL : W.locals L)
    (hwp : flow.wp c W bound E out L)
    (hnext : flow.ends = false → ∀ out L, W.locals L → E.next out L → σ.At (S n) pc' L out [])
    (hexit : ∀ o ∈ inner, ∀ out L, W.locals L → E.exit out L → σ.At (S n) o.exit L out [])
    (htest : ∀ o ∈ inner, ∀ out L, W.locals L → E.test out L → σ.At (S n) o.test L out []) :
    σ.At (S n) pc L out [] := by
  induction flow generalizing inner n pc pc' E L out with
  | nil =>
    obtain rfl : pc' = pc := h
    exact hnext rfl out L hL hwp
  | seq first second ih₁ ih₂ =>
    obtain ⟨mid, h₁, h₂⟩ := h
    exact ih₁ h₁ hL hwp (fun _ out L hL hq => ih₂ h₂ hL hq hnext hexit htest) hexit htest
  | run code =>
    refine Fragment.At.sound hS hL code h hwp ?_
    rintro out _ ⟨rfl, hq⟩
    exact hnext rfl out L hL hq
  | store value kind slot =>
    obtain ⟨mid, i, hvalue, hi, ha, rfl⟩ := h
    refine Fragment.At.sound hS hL value hvalue hwp fun out st hq => ?_
    exact hS.store hL hi ha hq (hnext rfl out)
  | ret value kind =>
    obtain ⟨mid, hvalue, hi, -⟩ := h
    cases kind with
    | none =>
      refine Fragment.At.sound hS hL value hvalue hwp fun out st hq => ?_
      exact hS.return hL hi hq
    | some kind =>
      refine Fragment.At.sound hS hL value hvalue hwp fun out st hq => ?_
      exact hS.return hL hi hq
  | ifThen cond body ih =>
    obtain ⟨start, hcond, hbody⟩ := h
    refine hS.at_mono (Nat.le_succ n) (Condition.At.sound hS hL cond hcond hwp ?_)
    rintro b out _ ⟨rfl, hq⟩
    cases b with
    | true => exact ih hbody hL hq (fun _ => hnext rfl) hexit htest
    | false => exact hnext rfl out L hL hq
  | ifElse cond body orElse ih₁ ih₂ =>
    obtain ⟨start, jump, start', jump', hcond, hbody, hjump, helse, hjump'⟩ := h
    -- behind a branch that control can leave stands a jump
    have hleave {ends : Bool} {source next : Nat} (h : JumpAt σ.code ends pc' source next)
        (hends : ends = false → (Flow.ifElse cond body orElse).ends = false) :
        ends = false → ∀ out L, W.locals L → E.next out L → σ.At (S n) source L out [] := by
      rintro rfl out L hL hq
      exact hS.at_mono (Nat.le_succ n) (hS.goto hL h (hnext (hends rfl) out L hL hq))
    refine hS.at_mono (Nat.le_succ n) (Condition.At.sound hS hL cond hcond hwp ?_)
    rintro b out _ ⟨rfl, hq⟩
    cases b with
    | true => exact ih₁ hbody hL hq (hleave hjump fun h => by simp [Flow.ends, h]) hexit htest
    | false => exact ih₂ helse hL hq (hleave hjump' fun h => by simp [Flow.ends, h]) hexit htest
  | loop cond body ih =>
    obtain ⟨start, test, hgoto, hbody, hcond⟩ := h
    let before (again : String → Array Value → Prop) (out : String) (L : Array Value) : Prop :=
      W.locals L → cond.wp c W L (fun b out st => st = [] ∧
        if b then body.wp c W bound ⟨again, E.next, again⟩ out L else E.next out L) out []
    -- by induction on the rounds: from the test back to the test at least one step is taken
    have hrounds : ∀ k out L, W.locals L → W.rounds before k out L →
        σ.At (S (min k n)) test L out [] := by
      intro k
      induction k with
      | zero =>
        intro out L _ htimeout m _
        rw [Nat.zero_min]
        exact hS.zero htimeout _
      | succ k ihk =>
        intro out L hL hround
        have hk : min k n ≤ n := Nat.min_le_right k n
        refine hS.at_mono (show min (k + 1) n ≤ min k n + 1 by omega)
          (Condition.At.sound hS hL cond hcond (hround hL) ?_)
        rintro b out _ ⟨rfl, hq⟩
        cases b with
        | true =>
          refine ih hbody hL hq (fun _ => ihk) ?_ ?_
          · rintro o ⟨⟩ out L hL hq
            exact hS.at_mono hk (hnext rfl out L hL hq)
          · rintro o ⟨⟩ out L hL hq
            exact ihk out L hL hq
        | false => exact hS.at_mono hk (hnext rfl out L hL hq)
    have htest : σ.At (S n) test L out [] := by
      intro m hm
      have hmin := hrounds bound out L hL hwp m hm
      rcases Nat.le_total bound n with hle | hle
      · rw [Nat.min_eq_left hle] at hmin
        exact hS.bounded n _ hmin
      · rwa [Nat.min_eq_right hle] at hmin
    exact hS.at_mono (Nat.le_succ n) (hS.goto hL hgoto htest)
  | «break» =>
    obtain ⟨o, rfl, h⟩ := h
    exact hS.at_mono (Nat.le_succ n) (hS.goto hL h (hexit o rfl out L hL hwp))
  | «continue» =>
    obtain ⟨o, rfl, h⟩ := h
    exact hS.at_mono (Nat.le_succ n) (hS.goto hL h (htest o rfl out L hL hwp))

end Sound

end ClassFoundry
