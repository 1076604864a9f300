import ClassFoundry.Proofs.Structured.Selection
import Mathlib.Data.List.Forall2

/-!
# Types of structured code

Structured code works on a stack of kinds. How exactly the kinds of the values have to be those that
an operation asks for is left open: for the depth of the stack it is enough that they have the
same number of words, for safety they have to be equal. The calls that may occur are left open in
the same way.

## Main definitions

* `Typing`: when a value fits, and which calls and variables there are
* `Fragment.Typed`, `Condition.Typed`, `Flow.Typed`: code that respects a typing
* `Callable.Admitted`: a method that may be called by name

## Main results

* `conversion_typed`, `Arith.fragment_typed`, `compareCondition_typed`: the pieces that the code of
  expressions consists of
* `callFragment_typed`: a call leaves what the method returns
-/

namespace ClassFoundry

/-- **When structured code is typed**: which values can be taken for others, which calls and fields
may occur, and which variables there are. The library calls of the compiler itself are always
allowed. -/
structure Typing where
  fits : Kind → Kind → Prop
  calls : CallMode → Member → List Kind → Option Kind → Prop
  fields : Member → Prop
  slots : Nat → Kind → Prop
  fits_refl : ∀ k, fits k k
  unsignedInts : ∀ name, calls .static (unsignedInt name "(II)I") [.int, .int] (some .int)
  compareLongs :
    calls .static (unsignedLong "compareUnsigned" "(JJ)I") [.long, .long] (some .int)
  unsignedLongs : ∀ op name, Arith.unsignedMethod? op = some name →
    calls .static (unsignedLong name "(JJ)J") [.long, .long] (some .long)
  constructs : ∀ cls, calls .special ⟨cls, "<init>", "()V"⟩ [] none

/-- The variables that have a value at a point, with their kinds. -/
abbrev Env := Nat → Kind → Prop

/-- Whether an operation may occur where the given variables have values. -/
def Operation.Allowed (T : Typing) (Γ : Env) : Operation → Prop
  | .frame (.load kind slot) => Γ slot kind
  | .invoke mode callee args result => T.calls mode callee args result
  | .field member => T.fields member
  | _ => True

/-- An operation takes values that fit off the stack. -/
def Operation.Typed (T : Typing) (Γ : Env) (o : Operation) (s s' : List Kind) : Prop :=
  o.Allowed T Γ ∧ ∃ taken rest, s = taken ++ rest ∧ List.Forall₂ T.fits taken o.takes ∧
    s' = o.gives ++ rest

mutual

/-- **A fragment leads from a stack to another**. -/
def Fragment.Typed (T : Typing) (Γ : Env) : Fragment → List Kind → List Kind → Prop
  | .nil, s, s' => s' = s
  | .op o, s, s' => o.Typed T Γ s s'
  | .seq first second, s, s' => ∃ t, first.Typed T Γ s t ∧ second.Typed T Γ t s'
  | .truth cond, s, s' => cond.Typed T Γ s ∧ s' = .int :: s

/-- A condition leaves the stack as it was, whether it branches or not. -/
def Condition.Typed (T : Typing) (Γ : Env) : Condition → List Kind → Prop
  | .test operands t, s => ∃ taken, operands.Typed T Γ s (taken ++ s) ∧
      List.Forall₂ T.fits taken t.takes
  | .logic _ left right, s => left.Typed T Γ s ∧ right.Typed T Γ s
  | .not cond, s => cond.Typed T Γ s

end

/-- A fragment that leaves a value for one of the given kind, if any, on the empty stack. -/
def Fragment.Gives (T : Typing) (Γ : Env) (c : Fragment) (kind : Option Kind) : Prop :=
  ∃ taken, c.Typed T Γ [] taken ∧ List.Forall₂ T.fits taken kind.toList

/-- **A flow leads from variables with values to others**. It works on an empty stack, returns
values of the given kind, and what a body declares is gone after it. -/
def Flow.Typed (T : Typing) (result : Option Kind) : Flow → Env → Env → Prop
  | .nil, Γ, Γ' => ∀ s k, Γ' s k → Γ s k
  | .seq first second, Γ, Γ' => first.ends = false ∧
      ∃ Δ, first.Typed T result Γ Δ ∧ second.Typed T result Δ Γ'
  | .run code, Γ, Γ' => code.Typed T Γ [] [] ∧ ∀ s k, Γ' s k → Γ s k
  | .store value kind slot, Γ, Γ' => value.Gives T Γ (some kind) ∧ T.slots slot kind ∧
      ∀ s k, Γ' s k → Γ s k ∨ (s = slot ∧ k = kind)
  | .ret value kind, Γ, Γ' => kind = result ∧ value.Gives T Γ kind ∧ ∀ s k, Γ' s k → Γ s k
  | .ifThen cond body, Γ, Γ' => cond.Typed T Γ [] ∧ (∃ Δ, body.Typed T result Γ Δ) ∧
      ∀ s k, Γ' s k → Γ s k
  | .ifElse cond body orElse, Γ, Γ' => cond.Typed T Γ [] ∧ (∃ Δ, body.Typed T result Γ Δ) ∧
      (∃ Δ, orElse.Typed T result Γ Δ) ∧ ∀ s k, Γ' s k → Γ s k
  | .loop cond body, Γ, Γ' => cond.Typed T Γ [] ∧ (∃ Δ, body.Typed T result Γ Δ) ∧
      ∀ s k, Γ' s k → Γ s k
  | .break, Γ, Γ' | .continue, Γ, Γ' => ∀ s k, Γ' s k → Γ s k

/-! ## Pieces of code -/

section Pieces

variable {T : Typing} {Γ : Env} {s s' t : List Kind}

theorem Typing.fits_all (T : Typing) (ks : List Kind) : List.Forall₂ T.fits ks ks :=
  List.forall₂_same.2 fun k _ => T.fits_refl k

/-- An operation on values of exactly the kinds that it takes. -/
theorem Operation.typed_exact (o : Operation) (h : o.Allowed T Γ) (s : List Kind) :
    o.Typed T Γ (o.takes ++ s) (o.gives ++ s) :=
  ⟨h, o.takes, s, rfl, T.fits_all _, rfl⟩

theorem Fragment.Typed.seq {c d : Fragment} (hc : c.Typed T Γ s t) (hd : d.Typed T Γ t s') :
    (Fragment.seq c d).Typed T Γ s s' :=
  ⟨t, hc, hd⟩

open Fragment (ofOp plain)

/-- An operation that only pushes. -/
theorem push_typed {op : FrameOp} {k : Kind} (hk : op.kinds? = some ([], [k]))
    (ha : (Operation.frame op).Allowed T Γ) : (ofOp op).Typed T Γ s (k :: s) :=
  ⟨ha, [], s, rfl, by simp [Operation.takes, hk], by simp [Operation.gives, hk]⟩

/-- An operation on the top of the stack. -/
theorem apply_typed {op : FrameOp} {k k₁ k' : Kind} (hk : op.kinds? = some ([k₁], [k']))
    (ha : (Operation.frame op).Allowed T Γ) (h : T.fits k k₁) :
    (ofOp op).Typed T Γ (k :: s) (k' :: s) :=
  ⟨ha, [k], s, rfl, by simpa [Operation.takes, hk] using h, by simp [Operation.gives, hk]⟩

/-- An operation on the two values on top of the stack. -/
theorem combine_typed {op : FrameOp} {k l k₁ k₂ k' : Kind}
    (hk : op.kinds? = some ([k₁, k₂], [k'])) (ha : (Operation.frame op).Allowed T Γ)
    (h : T.fits k k₁) (h' : T.fits l k₂) : (ofOp op).Typed T Γ (k :: l :: s) (k' :: s) :=
  ⟨ha, [k, l], s, rfl, by simpa [Operation.takes, hk] using ⟨h, h'⟩,
    by simp [Operation.gives, hk]⟩

/-- A library call on two values. -/
theorem invoke_typed {callee : Member} {k l k' : Kind}
    (h : T.calls .static callee [l, k] (some k')) :
    (Fragment.op (.invoke .static callee [l, k] (some k'))).Typed T Γ (k :: l :: s) (k' :: s) :=
  Operation.typed_exact (.invoke .static callee [l, k] (some k')) h s

theorem push_and_typed (s : List Kind) {v : Int32} :
    (Fragment.seq (ofOp (.pushInt v)) (ofOp (.intOp .and))).Typed T Γ (.int :: s) (.int :: s) :=
  .seq (push_typed rfl trivial) (combine_typed rfl trivial (T.fits_refl _) (T.fits_refl _))

theorem cast_typed (cast : IntCast) (s : List Kind) :
    (ofOp (.intCast cast)).Typed T Γ (.int :: s) (.int :: s) :=
  apply_typed rfl trivial (T.fits_refl _)

/-- A number becomes one of the wanted kind. -/
theorem widening_typed {ty : DataType} {k target : Kind} (hk : ty.kind? = some k)
    (hn : k ≠ .reference) (ht : target ≠ .reference) (s : List Kind) :
    (widening ty target).Typed T Γ (k :: s) (target :: s) := by
  unfold widening
  rw [hk]
  have fits := T.fits_refl
  cases k with
  | int =>
    cases target with
    | int => rfl
    | long =>
      dsimp only
      split
      · -- the upper half of an unsigned number is cleared
        exact .seq (apply_typed rfl trivial (fits _))
          (.seq (push_typed rfl trivial) (combine_typed rfl trivial (fits _) (fits _)))
      · exact apply_typed rfl trivial (fits _)
    | reference => exact absurd rfl ht
  | long =>
    cases target with
    | int => exact apply_typed rfl trivial (fits _)
    | long => rfl
    | reference => exact absurd rfl ht
  | reference => exact absurd rfl hn

/-- Narrowing keeps ints, and does nothing to other kinds. -/
theorem narrowing_typed {ty : DataType} {k : Kind} (hk : ty.kind? = some k) (s : List Kind) :
    (narrowing ty).Typed T Γ (k :: s) (k :: s) := by
  have fits := T.fits_refl
  unfold narrowing
  cases hn : ty.narrowing? with
  | none => rfl
  | some n =>
    -- only types of ints are narrowed
    have hint : k = .int ∧ (n = .mask 0xff ∨ n = .convert .i2b ∨ n = .convert .i2s ∨
        n = .convert .i2c) := by
      unfold DataType.narrowing? at hn
      split at hn <;> cases hn <;> cases hk <;> simp
    obtain ⟨rfl, rfl | rfl | rfl | rfl⟩ := hint
    · exact push_and_typed s
    · exact cast_typed .byte s
    · exact cast_typed .short s
    · exact cast_typed .char s

/-- A value that can stand for one of another type is turned into one. -/
theorem conversion_typed {source target : DataType} {k k' : Kind} (hk : source.kind? = some k)
    (hk' : target.kind? = some k') (hp : k = .reference ↔ k' = .reference) (s : List Kind) :
    (conversion source target).Typed T Γ (k :: s) (k' :: s) := by
  unfold conversion
  split
  · rename_i heq
    subst heq
    rw [hk] at hk'
    cases hk'
    rfl
  · rw [hk']
    by_cases hr : k' = .reference
    · obtain rfl := hp.2 hr
      subst hr
      rfl
    · have hn : k ≠ .reference := fun h => hr (hp.1 h)
      have h : (Fragment.seq (widening source k') (narrowing target)).Typed T Γ (k :: s)
          (k' :: s) :=
        .seq (widening_typed hk hn hr s) (narrowing_typed hk' s)
      cases k' with
      | int => exact h
      | long => exact h
      | reference => exact absurd rfl hr

/-- A variable without initial value gets one of its kind. -/
theorem defaultValue_typed {ty : DataType} {k : Kind} (hk : ty.kind? = some k) (s : List Kind) :
    (defaultValue ty).Typed T Γ s (k :: s) := by
  unfold defaultValue
  rw [hk]
  cases k with
  | int => exact push_typed rfl trivial
  | long => exact push_typed rfl trivial
  | reference =>
    dsimp only
    split
    · -- the constructor takes one of two references to the new object
      rename_i name _
      have hdup := Operation.typed_exact (T := T) (Γ := Γ) (.frame .dup) trivial s
      exact .seq (Operation.typed_exact (.create name) trivial s)
        (.seq hdup (Operation.typed_exact (.invoke .special ⟨name, "<init>", "()V"⟩ [] none)
          (T.constructs name) (.reference :: s)))
    · exact push_typed rfl trivial

/-! ## Numbers -/

theorem DataType.numberKind_ne (ty : DataType) : ty.numberKind ≠ .reference := by
  unfold numberKind
  split <;> simp

theorem DataType.IsNumber.kind? {ty : DataType} (h : ty.IsNumber) :
    ty.kind? = some ty.numberKind := by
  unfold numberKind isLong
  rcases h with h | h <;> simp [h]

/-- The operation on numbers takes a number and, if it is a shift, a distance. -/
theorem Arith.fragment_typed (op : Arith) {ty : DataType} (s : List Kind) :
    (op.fragment ty).Typed T Γ
      ((if op.isShift then .int else ty.numberKind) :: ty.numberKind :: s)
      (ty.numberKind :: s) := by
  have hplain : (plain (op.opcode ty.isLong ty.isUnsigned)).Typed T Γ
      ((if op.isShift then .int else ty.numberKind) :: ty.numberKind :: s)
      (ty.numberKind :: s) := by
    have fits := T.fits_refl
    unfold DataType.numberKind
    cases op <;> cases ty.isLong <;> cases ty.isUnsigned <;>
      exact combine_typed rfl trivial (fits _) (fits _)
  unfold Arith.fragment
  cases hm : op.unsignedMethod? with
  | none => exact hplain
  | some name =>
    dsimp only
    split
    · -- only divisions have a library method, and they are no shifts
      have hshift : op.isShift = false := by
        cases op <;> simp_all [Arith.unsignedMethod?, Arith.isShift]
      unfold DataType.numberKind
      rw [hshift]
      split
      · exact invoke_typed (T.unsignedLongs op name hm)
      · exact invoke_typed (T.unsignedInts name)
    · exact hplain

theorem UnaryArith.fragment_typed (op : UnaryArith) {ty : DataType} {k : Kind}
    (h : T.fits k ty.numberKind) (s : List Kind) :
    (op.fragment ty).Typed T Γ (k :: s) (ty.numberKind :: s) := by
  have fits := T.fits_refl
  unfold UnaryArith.fragment
  unfold DataType.numberKind at h ⊢
  revert h
  cases op <;> cases ty.isLong <;> intro h
  · exact apply_typed rfl trivial h
  · exact apply_typed rfl trivial h
  · exact .seq (push_typed rfl trivial) (combine_typed rfl trivial (fits _) h)
  · exact .seq (push_typed rfl trivial) (combine_typed rfl trivial (fits _) h)

/-- A test whether a number is zero. -/
theorem nonzero_typed {ty : DataType} {value : Fragment}
    (h : value.Typed T Γ s (ty.numberKind :: s)) : (nonzero ty value).Typed T Γ s := by
  have fits := T.fits_refl
  unfold nonzero
  unfold DataType.numberKind at h
  split <;> rename_i hl
  · rw [if_pos hl] at h
    refine ⟨[.int], h.seq (.seq (push_typed rfl trivial)
      (combine_typed rfl trivial (fits _) (fits _))), ?_⟩
    exact T.fits_all _
  · rw [if_neg hl] at h
    exact ⟨[.int], h, T.fits_all _⟩

/-- Two operands are pushed one after the other, each as a number of the wanted kind. -/
theorem operands_typed {lhs rhs : DataType} {left right : Fragment} {k k' : Kind}
    (hl : lhs.IsNumber) (hr : rhs.IsNumber) (hk : k ≠ .reference) (hk' : k' ≠ .reference)
    (hleft : ∀ s, left.Typed T Γ s (lhs.numberKind :: s))
    (hright : ∀ s, right.Typed T Γ s (rhs.numberKind :: s)) (s : List Kind) :
    (Fragment.seq left (widening lhs k)).Typed T Γ s (k :: s) ∧
      (Fragment.seq right (widening rhs k')).Typed T Γ (k :: s) (k' :: k :: s) :=
  ⟨.seq (hleft s) (widening_typed hl.kind? lhs.numberKind_ne hk s),
    .seq (hright _) (widening_typed hr.kind? rhs.numberKind_ne hk' _)⟩

theorem compareCondition_typed (op : Comparison) {lhs rhs : DataType} {left right : Fragment}
    (long : Bool) (hl : lhs.IsNumber) (hr : rhs.IsNumber)
    (hleft : ∀ s, left.Typed T Γ s (lhs.numberKind :: s))
    (hright : ∀ s, right.Typed T Γ s (rhs.numberKind :: s)) (s : List Kind) :
    (compareCondition op lhs rhs left right long).Typed T Γ s := by
  have fits := T.fits_refl
  have hboth (k : Kind) (hk : k ≠ .reference) :=
    operands_typed hl hr hk hk hleft hright s
  unfold compareCondition
  dsimp only
  cases long
  · obtain ⟨h₁, h₂⟩ := hboth .int (by simp)
    split
    · exact ⟨[.int, .int], h₁.seq h₂, T.fits_all _⟩
    · exact ⟨[.int], (h₁.seq h₂).seq (invoke_typed (T.unsignedInts _)), T.fits_all _⟩
    · contradiction
    · contradiction
  · obtain ⟨h₁, h₂⟩ := hboth .long (by simp)
    split
    · contradiction
    · contradiction
    · exact ⟨[.int], (h₁.seq h₂).seq (combine_typed rfl trivial (fits _) (fits _)),
        T.fits_all _⟩
    · exact ⟨[.int], (h₁.seq h₂).seq (invoke_typed T.compareLongs), T.fits_all _⟩

end Pieces

/-! ## Calls -/

section Calls

variable {T : Typing} {Γ : Env}

/-- The kinds of the parameters that arguments are passed for. -/
def passedKinds (args : List (Passed × DataType)) : List Kind := args.filterMap (·.2.kind?)

/-- An argument whose value can stand for one of the type of its parameter. -/
def Passed.Suits (T : Typing) (Γ : Env) (p : Passed × DataType) : Prop :=
  p.1.expr.ty.Passes p.2 ∧
    ∀ k, p.1.expr.ty.kind? = some k → ∀ s, p.1.code.Typed T Γ s (k :: s)

theorem Passed.Suits.typed {p : Passed × DataType} (h : Suits T Γ p) :
    ∃ k, p.2.kind? = some k ∧
      ∀ s, (Fragment.seq p.1.code (conversion p.1.expr.ty p.2)).Typed T Γ s (k :: s) := by
  obtain ⟨⟨k, k', hk, hk', hp⟩, hcode⟩ := h
  exact ⟨k', hk', fun s => (hcode k hk s).seq (conversion_typed hk hk' hp s)⟩

/-- Arguments lie on the stack with the last one on top. -/
theorem passArguments_typed {args : List (Passed × DataType)}
    (h : ∀ p ∈ args, Passed.Suits T Γ p) (s : List Kind) :
    (passArguments args).Typed T Γ s ((passedKinds args).reverse ++ s) := by
  induction args generalizing s with
  | nil => rfl
  | cons p rest ih =>
    obtain ⟨k, hk, hp⟩ := (h p List.mem_cons_self).typed
    have hrest := ih (fun q hq => h q (List.mem_cons_of_mem _ hq)) (k :: s)
    refine .seq (hp s) ?_
    simpa [passedKinds, List.filterMap_cons, hk] using hrest

/-- What is asked of a method that is called by name. -/
structure Callable.Admitted (T : Typing) (c : Callable) : Prop where
  calls : T.calls c.mode c.member c.argKinds c.returnType.kind?
  fields : ∀ member, c.receiver = .staticField member → T.fields member
  first : c.receiver = .firstArg → ∀ ty ∈ c.params.head?, ty.kind? = some .reference

theorem Callable.takes_operation {c : Callable} (h : c.receiver ≠ .none) :
    c.operation.takes = c.argKinds.reverse ++ [.reference] := by
  unfold operation mode Operation.takes
  cases hr : c.receiver with
  | none => exact absurd hr h
  | this => by_cases hf : AccessFlags.has c.flags AccessFlags.priv <;> simp [hf]
  | firstArg => simp
  | staticField field => simp

/-- The hidden argument, the arguments and the call itself, above the receiver if there is one. -/
theorem finishCall_typed {c : Callable} {args : List (Passed × DataType)}
    (receiver : List Kind) (hc : c.Admitted T) (hargs : ∀ p ∈ args, Passed.Suits T Γ p)
    (hpassed : passedKinds args = c.passed.filterMap DataType.kind?)
    (htakes : c.operation.takes = c.argKinds.reverse ++ receiver) (s : List Kind) :
    (finishCall c args).Typed T Γ (receiver ++ s) (c.returnType.kind?.toList ++ s) := by
  have hcall := Operation.typed_exact (T := T) (Γ := Γ) c.operation hc.calls s
  rw [htakes, List.append_assoc] at hcall
  unfold finishCall Callable.hidden
  unfold Callable.argKinds at hcall
  rw [← hpassed] at hcall
  cases he : c.entryPoint with
  | false =>
    have hcall : c.operation.Typed T Γ ((passedKinds args).reverse ++ (receiver ++ s))
        (c.operation.gives ++ s) := by simpa [he] using hcall
    exact .seq (t := receiver ++ s) rfl (.seq (passArguments_typed hargs _) hcall)
  | true =>
    have hcall : c.operation.Typed T Γ ((passedKinds args).reverse ++
        (.reference :: (receiver ++ s))) (c.operation.gives ++ s) := by simpa [he] using hcall
    exact .seq (push_typed rfl trivial) (.seq (passArguments_typed hargs _) hcall)

/-- **A call by name** leaves what the method returns. -/
theorem callFragment_typed {c : Callable} {args : List (Passed × DataType)}
    (hc : c.Admitted T) (hargs : ∀ p ∈ args, Passed.Suits T Γ p)
    (hparams : args.map (·.2) = c.params) (hthis : c.receiver = .this → Γ 0 .reference)
    (hfirst : c.receiver = .firstArg → args ≠ []) (s : List Kind) :
    (callFragment c args).Typed T Γ s (c.returnType.kind?.toList ++ s) := by
  have hkinds : passedKinds args = c.params.filterMap DataType.kind? := by
    rw [← hparams, List.filterMap_map]
    rfl
  unfold callFragment
  cases hr : c.receiver with
  | none =>
    refine finishCall_typed [] hc hargs ?_ ?_ s
    · rw [hkinds, Callable.passed, if_neg (by simp [hr])]
    · simp [Callable.operation, Callable.mode, hr, Operation.takes]
  | this =>
    refine .seq (t := .reference :: s) (push_typed rfl (hthis hr)) ?_
    refine finishCall_typed [.reference] hc hargs ?_
      (Callable.takes_operation (by simp [hr])) s
    rw [hkinds, Callable.passed, if_neg (by simp [hr])]
  | staticField field =>
    refine .seq (t := .reference :: s) (Operation.typed_exact (.field field) (hc.fields field hr) s) ?_
    refine finishCall_typed [.reference] hc hargs ?_
      (Callable.takes_operation (by simp [hr])) s
    rw [hkinds, Callable.passed, if_neg (by simp [hr])]
  | firstArg =>
    cases args with
    | nil => exact absurd rfl (hfirst hr)
    | cons p rest =>
      -- the first argument is the receiver, the others are passed
      obtain ⟨k, hk, hp⟩ := (hargs p List.mem_cons_self).typed
      have href := hc.first hr p.2 (by simp [← hparams])
      rw [hk] at href
      cases href
      refine .seq (hp s) ?_
      refine finishCall_typed [.reference] hc
        (fun q hq => hargs q (List.mem_cons_of_mem _ hq)) ?_
        (Callable.takes_operation (by simp [hr])) s
      rw [Callable.passed, if_pos hr, ← hparams, List.map_cons, List.drop_one, List.tail_cons,
        List.filterMap_map]
      rfl

/-- Arguments that are passed as they are. -/
theorem plainArguments_typed {args : List Passed}
    (h : ∀ a ∈ args, ∃ k, a.expr.ty.kind? = some k ∧ ∀ s, a.code.Typed T Γ s (k :: s))
    (s : List Kind) :
    (plainArguments args).Typed T Γ s ((args.filterMap (·.expr.ty.kind?)).reverse ++ s) := by
  induction args generalizing s with
  | nil => rfl
  | cons a rest ih =>
    obtain ⟨k, hk, ha⟩ := h a List.mem_cons_self
    have hrest := ih (fun b hb => h b (List.mem_cons_of_mem _ hb)) (k :: s)
    refine .seq (ha s) ?_
    simpa [List.filterMap_cons, hk] using hrest

end Calls

end ClassFoundry
