import ClassFoundry.Proofs.Structured.Logic

/-!
# Contracts of methods

A contract says how the methods of a class may be called, which locals their calls may have, what they
may return, and which faults may end a run. If the body of every method keeps to the contract, assuming
that the methods which it calls do, then so does every state of every run.

The circle is broken by the number of steps: a state is good for some steps, and a call takes one of
them away.

## Main definitions

* `Contract`: what is asked of the methods of a class
* `Contract.Kept`: every method body keeps to the contract
* `Contract.Good`: a state in which the contract is kept

## Main results

* `Contract.Kept.good`: every state of a run that starts as the contract asks is good
-/

namespace ClassFoundry

/-- **What is asked of the methods of a class**, by name: how they are called, the locals of their
calls and how these change, and their results. Runs may end because of missing methods and too many
calls in progress, and because of other faults as given. -/
structure Contract where
  entry : String → Method → Option Value → List Value → Prop
  locals : String → Array Value → Prop
  stores : String → Array Value → Array Value → Prop
  result : String → Option Value → Prop
  fault : Fault → Prop
  missing : ∀ name descriptor, fault (.noSuchMethod name descriptor)
  depth : fault .callDepth
  stores_refl : ∀ name L, stores name L L

/-- The current call of a state returns a result. -/
def State.Returns (c : ClassFile) (s : State) (r : Option Value) : Prop :=
  ∃ i kind m, s.frame.fetch = .ok (i, .ret kind) ∧ s.outcome c = returnTo m r s.callers

/-- A run ends where its outermost call returns a result. -/
theorem State.returns_of_done {c : ClassFile} {s : State} {m : Machine} {r : Option Value}
    (h : s.outcome c = .done m r) : s.callers = [] ∧ s.Returns c r := by
  obtain ⟨hcallers, i, kind, hfetch⟩ := ret_of_done h
  refine ⟨hcallers, i, kind, m, hfetch, ?_⟩
  rw [h, hcallers]
  rfl

namespace Contract

/-- The rules for the body of a method: the methods that it calls keep to the contract. -/
def rules (K : Contract) (c : ClassFile) (name : String) : Rules where
  fault _ e := K.fault e
  own callee receiver args Q _ :=
    ∀ method, c.find? callee.name callee.descriptor = some method →
      K.entry callee.name method receiver args ∧ ∀ out r, K.result callee.name r → Q out r
  locals := K.locals name
  stores := K.stores name
  result _ r := K.result name r
  timeout := True
  stores_refl := K.stores_refl name
  own_mono hQ hown method hfind :=
    ⟨(hown method hfind).1, fun out r hr => hQ out r ((hown method hfind).2 out r hr)⟩

/-- **A state in which the contract is kept**. -/
structure Good (K : Contract) (c : ClassFile) (s : State) : Prop where
  locals : ∀ f ∈ s.frames, K.locals f.method f.locals
  fault : ∀ m e, s.outcome c = .fault m e → K.fault e
  result : ∀ r, s.Returns c r → K.result s.frame.method r
  stores : ∀ t, Steps c s t → t.callers = s.callers →
    K.stores s.frame.method s.frame.locals t.frame.locals

/-- **A contract is kept** by a class: a method that is called as asked has locals as asked, and its
code is a flow that control cannot leave, with the precondition for these locals. -/
def Kept (K : Contract) (c : ClassFile) : Prop :=
  ∀ name method this args, K.entry name method this args →
    ∃ (flow : Flow) (pc : Nat) (E : Exits), flow.At c.pool method.code none 0 pc ∧ flow.ends = true ∧
      K.locals name (Frame.initialLocals method.maxLocals.toNat this args) ∧
      ∀ n out, flow.wp c (K.rules c name) n E out
        (Frame.initialLocals method.maxLocals.toNat this args)

end Contract

/-- Good for a number of steps. -/
def Safe (c : ClassFile) (good : State → Prop) : Nat → State → Prop
  | 0, _ => True
  | n + 1, s => good s ∧ ∀ t, Steps c s t → Safe c good n t

section Safe

variable {c : ClassFile} {good : State → Prop} {s t : State}

theorem Safe.pred {n : Nat} (h : Safe c good (n + 1) s) : Safe c good n s := by
  induction n generalizing s with
  | zero => trivial
  | succ n ih => exact ⟨h.1, fun t ht => ih (h.2 t ht)⟩

theorem Safe.mono {k n : Nat} (h : Safe c good n s) (hk : k ≤ n) : Safe c good k s := by
  induction hk with
  | refl => exact h
  | step _ ih => exact ih h.pred

theorem Safe.of_good {n : Nat} (hgood : good s)
    (hnext : ∀ k < n, ∀ t, Steps c s t → Safe c good k t) : Safe c good n s := by
  cases n with
  | zero => trivial
  | succ n => exact ⟨hgood, hnext n (Nat.lt_succ_self n)⟩

/-- What is good for any number of steps leads only to good states. -/
theorem Safe.reaches (h : ∀ n, Safe c good n s) (hr : Reaches c s t) : good t := by
  have ht : ∀ n, Safe c good n t :=
    Reaches.keeps (P := fun s => ∀ n, Safe c good n s) (fun _ _ hs hst n => (hs (n + 1)).2 _ hst) h hr
  exact (ht 1).1

end Safe

section Kept

variable {K : Contract} {c : ClassFile}

/-! ### The three ways in which a step can end -/

section Outcomes

variable {s t : State} {m : Machine} {n : Nat}

/-- A fault that the contract allows. -/
theorem Contract.safe_of_fault {e : Fault} (hL : ∀ f ∈ s.frames, K.locals f.method f.locals)
    (hout : s.outcome c = .fault m e) (he : K.fault e) : Safe c (K.Good c) n s := by
  have hstuck (t : State) : ¬ Steps c s t := by
    intro ht
    rw [Steps, hout] at ht
    cases ht
  refine Safe.of_good ⟨hL, fun m' e' h => ?_, ?_, fun t ht => absurd ht (hstuck t)⟩
    fun k hk t ht => absurd ht (hstuck t)
  · rw [hout] at h
    cases h
    exact he
  · rintro r ⟨i, kind, m', -, h⟩
    rw [hout] at h
    exact absurd h.symm returnTo_ne_fault

/-- A step that stays in the call or starts another one. Such a step is no return, for a return
leaves fewer calls. -/
theorem Contract.safe_of_next (hL : ∀ f ∈ s.frames, K.locals f.method f.locals)
    (hstep : Steps c s t) (hdepth : s.callers.length ≤ t.callers.length)
    (hstores : t.callers = s.callers →
      K.stores s.frame.method s.frame.locals t.frame.locals)
    (ht : ∀ k < n, Safe c (K.Good c) k t) : Safe c (K.Good c) n s := by
  refine Safe.of_good ⟨hL, fun m' e h => ?_, ?_, fun t' ht' => Steps.unique hstep ht' ▸ hstores⟩
    fun k hk t' ht' => Steps.unique hstep ht' ▸ ht k hk
  · rw [hstep] at h
    cases h
  · rintro r ⟨i, kind, m', -, h⟩
    have hlength := length_of_returnTo (h.symm.trans hstep)
    omega

/-- A return of a result that the contract allows. -/
theorem Contract.safe_of_return {r : Option Value}
    (hL : ∀ f ∈ s.frames, K.locals f.method f.locals)
    (hout : s.outcome c = returnTo m r s.callers) (hr : K.result s.frame.method r)
    (ht : ∀ k < n, ∀ t, returnTo m r s.callers = .next t.machine t.frame t.callers →
      Safe c (K.Good c) k t) : Safe c (K.Good c) n s := by
  refine Safe.of_good ⟨hL, fun m' e h => ?_, ?_, fun t ht hsame => ?_⟩
    fun k hk t hstep => ht k hk t (hout.symm.trans hstep)
  · rw [hout] at h
    exact absurd h returnTo_ne_fault
  · rintro r' ⟨i, kind, m', -, h⟩
    rw [hout] at h
    exact returnTo_inj h ▸ hr
  · have hlength := length_of_returnTo (hout.symm.trans ht)
    rw [hsame] at hlength
    omega

end Outcomes

/-- Good states for up to `N` steps are led back to by the steps of a call, if the calls that wait are
as asked, calls are safe for fewer steps, and so are the states that it returns to. -/
theorem Contract.closed {σ : Site} {N : Nat} (hcallers : ∀ f ∈ σ.callers, K.locals f.method f.locals)
    (hcall : ∀ k < N, ∀ {name method this args m callers},
      K.entry name method this args → (∀ f ∈ callers, K.locals f.method f.locals) →
      (∀ m r t, K.result name r → returnTo m r callers = .next t.machine t.frame t.callers →
        Safe c (K.Good c) k t) → Safe c (K.Good c) k ⟨m, .enter name method this args, callers⟩)
    (hreturn : ∀ m r t, K.result σ.method r →
      returnTo m r σ.callers = .next t.machine t.frame t.callers → Safe c (K.Good c) N t) :
    σ.Closed c (K.rules c σ.method) N fun n => Safe c (K.Good c) (min n N) := by
  have hframes {m : Machine} {pc : Nat} {L : Array Value} {st : List Value}
      (hL : K.locals σ.method L) :
      ∀ f ∈ (σ.state m pc L st).frames, K.locals f.method f.locals :=
    List.forall_mem_cons.2 ⟨hL, hcallers⟩
  refine
    { zero := fun _ s => by simp [Safe]
      antitone := fun n s h => h.mono (by omega)
      bounded := fun n s h => h.mono (by omega)
      step := ?_
      fault := fun hL hout he => safe_of_fault (hframes hL) hout he
      ret := ?_
      own := ?_ }
  · intro n m pc L st t hL hstep hsame hstores ht
    exact safe_of_next (hframes hL) hstep (Nat.le_of_eq (by rw [hsame]; rfl)) (fun _ => hstores)
      fun k hk => ht.mono (by omega)
  · intro n m pc L st kind i r hL hfetch hout hr
    exact safe_of_return (hframes hL) hout hr
      fun k hk t ht => (hreturn _ _ _ hr ht).mono (by omega)
  · intro n m pc pc' L st st' callee receiver args Q hL howner hout hown hQ
    simp only [call, if_pos howner] at hout
    cases hfind : c.find? callee.name callee.descriptor with
    | none =>
      rw [hfind] at hout
      exact safe_of_fault (hframes hL) hout (K.missing _ _)
    | some method =>
      rw [hfind] at hout
      obtain ⟨hentry, hresult⟩ := hown method hfind
      dsimp only at hout
      split at hout
      · exact safe_of_fault (hframes hL) hout K.depth
      · -- the callee starts above this call, to which it returns
        let t : State := ⟨m.tick, .enter callee.name method receiver args,
          σ.frame pc' L st' :: σ.callers⟩
        refine safe_of_next (t := t) (hframes hL) hout (Nat.le_succ _) (fun hsame => ?_)
          fun k hk => ?_
        · have hlength := congrArg List.length hsame
          simp [t, Site.state] at hlength
        · refine hcall k (by omega) hentry
            (List.forall_mem_cons.2 ⟨hL, hcallers⟩) fun m' r u hr hu => ?_
          have hu : Outcome.next m' (σ.frame pc' L (r.toList ++ st')) σ.callers =
              .next u.machine u.frame u.callers := by
            rw [← hu]
            cases r <;> rfl
          obtain ⟨_, _, _⟩ := u
          cases hu
          exact (hQ _ r (hresult _ r hr)).mono (by omega)

/-- **Every state of a run is good** if the contract is kept and the run starts as it asks. -/
theorem Contract.Kept.good (hK : K.Kept c) {m : Machine} {method : Method} {this : Option Value}
    {args : List Value} {t : State}
    (hentry : K.entry ((c.pool.text? method.name).getD "") method this args)
    (h : Reaches c (.entry c m method this args) t) : K.Good c t := by
  have hsafe (N : Nat) : ∀ {name method this args m callers},
      K.entry name method this args → (∀ f ∈ callers, K.locals f.method f.locals) →
      (∀ m r t, K.result name r → returnTo m r callers = .next t.machine t.frame t.callers →
        Safe c (K.Good c) N t) →
      Safe c (K.Good c) N ⟨m, .enter name method this args, callers⟩ := by
    induction N using Nat.strongRecOn with
    | ind N ih =>
      intro name method this args m callers hentry hcallers hreturn
      obtain ⟨flow, pc, E, hat, hends, hL, hwp⟩ := hK name method this args hentry
      let σ : Site := ⟨name, method.code, callers⟩
      have hclosed : σ.Closed c (K.rules c name) N fun n => Safe c (K.Good c) (min n N) :=
        Contract.closed (σ := σ) hcallers (fun k hk => ih k hk) hreturn
      have hstart := Flow.At.sound hclosed (n := N) flow hat hL (hwp N m.output)
        (fun h => by simp [hends] at h) nofun nofun m rfl
      rwa [Nat.min_self] at hstart
  refine Safe.reaches (fun n => hsafe n hentry (List.forall_mem_nil _) fun m r t _ h => ?_) h
  cases h

end Kept

end ClassFoundry
