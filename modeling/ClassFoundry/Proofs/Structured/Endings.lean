import ClassFoundry.Proofs.Structured.Logic

/-!
# How runs end

A run ends with a result or a fault and some output, or it does not end. Where a step leads to a state
from which runs end in some way, they do so before the step. That makes the endings of runs a family of
properties that the steps of a call lead back to, so that the preconditions of structured code can be
used to tell how a call ends.

## Main definitions

* `Ending`: how a run ends
* `Ends`: the runs from a state end in a way
* `Outcome.Ends`: the same of what a step leads to

## Main results

* `closed_ends`: the steps of a call lead back to states with the same ending
-/

namespace ClassFoundry

/-- **How a run ends**: with a result or a fault and an output, or not at all. -/
abbrev Ending := Option (Except Fault (Option Value) × String)

/-- The machine with another limit on the number of steps. -/
def Machine.limitTo (m : Machine) (limit : Nat) : Machine := { m with limit }

/-- **The runs from a state end in a way**: all those that may take enough steps, whatever the limit of
the machine, or none that may take only `n`. -/
def Ends (c : ClassFile) (Z : Ending) (n : Nat) (s : State) : Prop :=
  match Z with
  | some (r, out) => ∃ N, ∀ fuel limit, N ≤ fuel →
      ∃ m, run c fuel (s.machine.limitTo limit) s.frame s.callers = (r, m) ∧ m.output = out
  | none => (run c n s.machine s.frame s.callers).1 = .error (.stepLimit s.machine.limit)

/-- What a step leads to ends in a way. -/
def Outcome.Ends (c : ClassFile) (Z : Ending) (n : Nat) : Outcome → Prop
  | .next m f callers => ClassFoundry.Ends c Z n ⟨m, f, callers⟩
  | .done m r => Z = some (.ok r, m.output)
  | .fault m e => Z = some (.error e, m.output)

/-! ## Steps -/

section Steps

variable {c : ClassFile} {Z : Ending} {s t : State} {n : Nat}

/-- The machine after a step. -/
def Outcome.machine : Outcome → Machine
  | .next m _ _ | .done m _ | .fault m _ => m

/-- A machine that has printed more, at the same count of steps and under the same limit. -/
structure Machine.Extends (m m' : Machine) : Prop where
  steps : m'.steps = m.steps
  limit : m'.limit = m.limit
  output : ∃ text, m'.output = m.output ++ text

theorem Machine.Extends.refl (m : Machine) : m.Extends m := ⟨rfl, rfl, "", by simp⟩

theorem applyEffect_extends (m : Machine) (f : Frame) (callers : List Frame) (effect : Effect) :
    m.Extends (applyEffect m f callers effect).machine := by
  cases effect with
  | print text => exact ⟨rfl, rfl, text, rfl⟩
  | newString text => exact ⟨rfl, rfl, "", by simp [applyEffect, Machine.newString, Outcome.machine]⟩
  | value v => exact .refl m
  | nothing => exact .refl m

theorem machine_returnTo (m : Machine) (r : Option Value) (callers : List Frame) :
    (returnTo m r callers).machine = m := by
  cases callers <;> rfl

/-- **What a step does to the machine**: it is counted, and it may print. -/
theorem State.outcome_extends (c : ClassFile) (s : State) :
    s.machine.tick.Extends (s.outcome c).machine := by
  rcases s.outcome_cases c with ⟨e, -, hfault⟩ | ⟨i, a, -, hexecutes⟩
  · rw [hfault]
    exact .refl _
  generalize s.outcome c = o at hexecutes ⊢
  cases hexecutes with
  | frame => exact .refl _
  | new => exact ⟨rfl, rfl, "", by simp [Machine.newObject, Machine.tick, Outcome.machine]⟩
  | ret returns =>
    rw [returns, machine_returnTo]
    exact .refl _
  | library operands known affects =>
    rw [affects]
    exact applyEffect_extends _ _ _ _
  | enter => exact .refl _
  | fault => exact .refl _

/-- A step keeps the limit on the number of steps. -/
theorem Steps.limit (h : Steps c s t) : t.machine.limit = s.machine.limit := by
  have hlimit := (s.outcome_extends c).limit
  rw [h] at hlimit
  exact hlimit

/-- What a step leads to, on a machine with another limit. -/
def Outcome.limitTo (limit : Nat) : Outcome → Outcome
  | .next m f callers => .next (m.limitTo limit) f callers
  | .done m r => .done (m.limitTo limit) r
  | .fault m e => .fault (m.limitTo limit) e

theorem returnTo_limitTo (limit : Nat) (m : Machine) (r : Option Value) (callers : List Frame) :
    returnTo (m.limitTo limit) r callers = (returnTo m r callers).limitTo limit := by
  cases callers <;> rfl

theorem execute_limitTo (limit : Nat) (m : Machine) (f : Frame) (callers : List Frame) (next : Nat)
    (a : Action) :
    execute c (m.limitTo limit) f callers next a =
      (execute c m f callers next a).limitTo limit := by
  cases a with
  | frame op =>
    simp only [execute]
    split <;> rfl
  | new index =>
    simp only [execute]
    split <;> rfl
  | ret kind =>
    cases kind with
    | none => exact returnTo_limitTo limit m none callers
    | some kind =>
      simp only [execute]
      split
      · exact returnTo_limitTo limit m _ callers
      · rfl
  | invoke mode index =>
    simp only [execute, call]
    split
    · split
      · split
        · rfl
        · split <;> rfl
      · split
        · rename_i effect _
          cases effect <;> rfl
        · rfl
    · rfl

/-- A step does not depend on the limit. -/
theorem step_limitTo (limit : Nat) (m : Machine) (f : Frame) (callers : List Frame) :
    step c (m.limitTo limit) f callers = (step c m f callers).limitTo limit := by
  unfold step
  split
  · exact execute_limitTo limit m f callers _ _
  · rfl

/-- A fault leaves the output as it was. -/
theorem output_of_fault {m : Machine} {e : Fault} (h : s.outcome c = .fault m e) :
    m.output = s.machine.output := by
  rcases s.outcome_cases c with ⟨e', -, hfault⟩ | ⟨i, a, -, hexecutes⟩
  · cases hfault.symm.trans h
    rfl
  rw [h] at hexecutes
  cases hexecutes with
  | ret returns => exact absurd returns.symm returnTo_ne_fault
  | library operands known affects => exact absurd affects.symm applyEffect_ne_fault
  | fault => rfl

/-- What a run does first is told by the outcome of its state. -/
theorem run_succ (fuel : Nat) (s : State) :
    run c (fuel + 1) s.machine s.frame s.callers =
      match s.outcome c with
      | .next m f callers => run c fuel m f callers
      | .done m r => (.ok r, m)
      | .fault m e => (.error e, m) :=
  rfl

theorem run_succ_limitTo (fuel limit : Nat) (s : State) :
    run c (fuel + 1) (s.machine.limitTo limit) s.frame s.callers =
      match (s.outcome c).limitTo limit with
      | .next m f callers => run c fuel m f callers
      | .done m r => (.ok r, m)
      | .fault m e => (.error e, m) := by
  rw [State.outcome, ← step_limitTo]
  rfl

/-- **A state ends as what it leads to**. -/
theorem Ends.of_outcome (h : (s.outcome c).Ends c Z n) : Ends c Z (n + 1) s := by
  cases hout : s.outcome c with
  | next m f callers =>
    rw [hout] at h
    cases Z with
    | none =>
      have hlimit : m.limit = s.machine.limit := Steps.limit (t := ⟨m, f, callers⟩) hout
      rw [Ends, run_succ, hout, ← hlimit]
      exact h
    | some ending =>
      obtain ⟨N, hN⟩ := h
      refine ⟨N + 1, fun fuel limit hfuel => ?_⟩
      obtain ⟨fuel, rfl⟩ : ∃ k, fuel = k + 1 := ⟨fuel - 1, by omega⟩
      rw [run_succ_limitTo, hout]
      exact hN fuel limit (by omega)
  | done m r =>
    rw [hout] at h
    obtain rfl : Z = some (.ok r, m.output) := h
    refine ⟨1, fun fuel limit hfuel => ?_⟩
    obtain ⟨fuel, rfl⟩ : ∃ k, fuel = k + 1 := ⟨fuel - 1, by omega⟩
    rw [run_succ_limitTo, hout]
    exact ⟨m.limitTo limit, rfl, rfl⟩
  | fault m e =>
    rw [hout] at h
    obtain rfl : Z = some (.error e, m.output) := h
    refine ⟨1, fun fuel limit hfuel => ?_⟩
    obtain ⟨fuel, rfl⟩ : ∃ k, fuel = k + 1 := ⟨fuel - 1, by omega⟩
    rw [run_succ_limitTo, hout]
    exact ⟨m.limitTo limit, rfl, rfl⟩

theorem ends_zero (c : ClassFile) (s : State) : Ends c none 0 s := rfl

theorem stepLimit_mono (h : Ends c none (n + 1) s) : Ends c none n s := by
  induction n generalizing s with
  | zero => exact ends_zero c s
  | succ n ih =>
    rw [Ends, run_succ] at h ⊢
    cases hout : s.outcome c with
    | next m f callers =>
      have hlimit : m.limit = s.machine.limit := Steps.limit (t := ⟨m, f, callers⟩) hout
      rw [hout] at h
      rw [← hlimit] at h ⊢
      exact ih (s := ⟨m, f, callers⟩) h
    | done m r =>
      rw [hout] at h
      cases h
    | fault m e =>
      rw [hout] at h
      exact h

/-- The number of steps matters only for runs that do not end, and with fewer steps they do not end
either. -/
theorem Ends.mono {k : Nat} (h : Ends c Z n s) (hk : Z = none → k ≤ n) : Ends c Z k s := by
  cases Z with
  | some ending => exact h
  | none =>
    replace hk := hk rfl
    induction hk with
    | refl => exact h
    | step _ ih => exact ih (stepLimit_mono h)

end Steps

/-! ## Calls -/

section Closed

variable {c : ClassFile} {W : Rules} {σ : Site} {Z : Ending} {N k : Nat}

/-- **The steps of a call lead back to states with the same ending**, if the rules allow only the
ending, what the call returns to has the ending, and so have the calls that the rules allow. -/
theorem closed_ends (hk : Z = none → k ≤ N) (htimeout : W.timeout → Z = none)
    (hfault : ∀ out e, W.fault out e → Z = some (.error e, out))
    (hresult : ∀ m r, W.result m.output r → (returnTo m r σ.callers).Ends c Z k)
    (hown : ∀ {callee receiver args Q m f j}, callee.owner = c.name?.getD "" →
      W.own callee receiver args Q m.output → (Z = none → j < k) →
      (∀ m' r, Q m'.output r → Ends c Z j ⟨m', Frame.resume f r, σ.callers⟩) →
      (call c m f σ.callers callee receiver args).Ends c Z j) :
    σ.Closed c W N fun n => Ends c Z (min n k) := by
  refine
    { zero := fun htime s => ?_
      antitone := fun n s h => h.mono fun _ => by omega
      bounded := fun n s h => h.mono fun hZ => by
        have := hk hZ
        omega
      step := ?_
      fault := ?_
      ret := ?_
      own := ?_ }
  · rw [htimeout htime, Nat.zero_min]
    exact ends_zero c s
  · intro n m pc L st t _ hstep _ _ ht
    have hnext : Ends c Z (min n k + 1) (σ.state m pc L st) := .of_outcome (by rwa [hstep])
    exact hnext.mono fun _ => by omega
  · intro n m m' pc L st e _ hout he
    have houtput : m'.output = m.output := output_of_fault hout
    have hnext : Ends c Z (k + 1) (σ.state m pc L st) :=
      .of_outcome (by rw [hout, Outcome.Ends, houtput]; exact hfault _ _ he)
    exact hnext.mono fun _ => by omega
  · intro n m pc L st kind i r _ _ hout hr
    have hnext : Ends c Z (k + 1) (σ.state m pc L st) :=
      .of_outcome (by rw [hout]; exact hresult m.tick r hr)
    exact hnext.mono fun _ => by omega
  · intro n m pc pc' L st st' callee receiver args Q _ howner hout hallowed hQ
    -- the call takes a step, so that one less is left for what it leads to
    let j := min (n + 1) k - 1
    have hnext : Z = none → 0 < k → j < k ∧ j ≤ min n k := fun _ hpos => by omega
    by_cases hzero : Z = none ∧ k = 0
    · rw [hzero.1, hzero.2, Nat.min_zero]
      exact ends_zero c _
    have hpos : Z = none → 0 < k := fun hZ => Nat.pos_of_ne_zero fun hk => hzero ⟨hZ, hk⟩
    have hcall : Ends c Z (j + 1) (σ.state m pc L st) := by
      refine .of_outcome ?_
      rw [hout]
      refine hown (m := m.tick) howner hallowed (fun hZ => (hnext hZ (hpos hZ)).1) fun m' r hr => ?_
      have hreturn := (hQ m' r hr).mono fun hZ => (hnext hZ (hpos hZ)).2
      cases r <;> exact hreturn
    exact hcall.mono fun _ => by omega

end Closed

end ClassFoundry
