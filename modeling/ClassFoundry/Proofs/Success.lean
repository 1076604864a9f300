import ClassFoundry.Lowering.Class

/-!
# Successful computations

The compiler is written in state monads whose effects remain when a computation fails. What is
proved of it concerns runs that succeed, so each way to put computations together gets one lemma
that takes a successful run apart.

## Main results

* `bind_ok`, `pure_ok`, `get_ok`, `modify_ok`: a successful run, by its outermost operation
* `Lower.pool_ok`, `Lower.code_ok`, `Lower.resolve_ok`, `Lower.declare_ok`: the same for the parts of
  the state of a lowering
-/

namespace ClassFoundry

section Monad

variable {ε σ α β : Type} {s s' : σ}

theorem bind_ok {x : EStateM ε σ α} {f : α → EStateM ε σ β} {b : β} :
    (x >>= f) s = .ok b s' ↔ ∃ a s₁, x s = .ok a s₁ ∧ f a s₁ = .ok b s' := by
  show EStateM.bind x f s = .ok b s' ↔ _
  unfold EStateM.bind
  cases x s with
  | ok a s₁ =>
    constructor
    · exact fun h => ⟨a, s₁, rfl, h⟩
    · rintro ⟨_, _, h, hf⟩
      cases h
      exact hf
  | error e s₁ => simp

theorem pure_ok {a b : α} : (pure a : EStateM ε σ α) s = .ok b s' ↔ a = b ∧ s = s' := by
  show EStateM.Result.ok a s = .ok b s' ↔ _
  simp

theorem throw_ok {e : ε} {b : α} : (throw e : EStateM ε σ α) s = .ok b s' ↔ False :=
  ⟨nofun, nofun⟩

theorem get_ok {t : σ} : (get : EStateM ε σ σ) s = .ok t s' ↔ s = t ∧ s = s' := by
  show EStateM.Result.ok s s = .ok t s' ↔ _
  simp

theorem modify_ok {f : σ → σ} {u : Unit} :
    (modify f : EStateM ε σ Unit) s = .ok u s' ↔ f s = s' := by
  show EStateM.Result.ok () (f s) = .ok u s' ↔ _
  simp

theorem ite_ok {p : Prop} [Decidable p] {x y : EStateM ε σ α} {b : α} :
    (if p then x else y) s = .ok b s' ↔ (p ∧ x s = .ok b s') ∨ (¬ p ∧ y s = .ok b s') := by
  by_cases h : p <;> simp [h]

end Monad

namespace Except

theorem bind_eq_ok {ε α β : Type} {x : Except ε α} {f : α → Except ε β} {b : β} :
    (x >>= f) = .ok b ↔ ∃ a, x = .ok a ∧ f a = .ok b := by
  cases x <;> simp [bind, Except.bind]

theorem mapError_eq_ok {ε ε' α : Type} {x : Except ε α} {f : ε → ε'} {a : α} :
    x.mapError f = .ok a ↔ x = .ok a := by
  cases x with
  | ok b =>
    show Except.ok b = .ok a ↔ Except.ok b = .ok a
    simp
  | error e => exact ⟨nofun, nofun⟩

end Except

namespace Lower

variable {α : Type} {s s' : LowerState}

theorem pool_ok {x : PoolM α} {a : α} :
    Lower.pool x s = .ok a s' ↔ ∃ p, x s.pool = .ok a p ∧ s' = { s with pool := p } := by
  obtain ⟨pool, locals, asm⟩ := s
  unfold Lower.pool
  dsimp only
  cases x pool <;> simp [eq_comm, and_assoc]

theorem code_ok {x : Asm α} {a : α} :
    Lower.code x s = .ok a s' ↔ ∃ b, x s.asm = .ok a b ∧ s' = { s with asm := b } := by
  obtain ⟨pool, locals, asm⟩ := s
  unfold Lower.code
  dsimp only
  cases x asm <;> simp [eq_comm, and_assoc]

theorem check_ok {x : Except CompileError α} {a : α} :
    Lower.check x s = .ok a s' ↔ x = .ok a ∧ s = s' := by
  unfold Lower.check
  cases x with
  | ok b => simp [pure_ok]
  | error e => simp [throw_ok]

theorem refuse_ok {v : Violation} {a : α} : Lower.refuse v s = .ok a s' ↔ False := throw_ok

theorem resolve_ok {name : String} {slot : Slot} :
    Lower.resolve name s = .ok slot s' ↔ s.locals.find? name = some slot ∧ s = s' := by
  unfold Lower.resolve Locals.resolve
  cases s.locals.find? name <;> simp

theorem declare_ok {name : String} {ty : DataType} {slot : Nat} :
    Lower.declare name ty s = .ok slot s' ↔
      ∃ l, s.locals.declare name ty = .ok (slot, l) ∧ s' = { s with locals := l } := by
  obtain ⟨pool, locals, asm⟩ := s
  unfold Lower.declare
  dsimp only
  cases locals.declare name ty with
  | ok r => simp [Prod.ext_iff, eq_comm, and_assoc]
  | error e => simp

theorem valueKind_ok {ty : DataType} {kind : Kind} :
    Lower.valueKind ty s = .ok kind s' ↔ ty.kind? = some kind ∧ s = s' := by
  unfold Lower.valueKind DataType.valueKind
  cases ty.kind? <;> simp [check_ok]

theorem plain_ok {op : Opcode} {u : Unit} :
    Lower.plain op s = .ok u s' ↔ ∃ b, Asm.plain op s.asm = .ok () b ∧ s' = { s with asm := b } :=
  code_ok

end Lower

end ClassFoundry
