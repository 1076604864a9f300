import ClassFoundry.Proofs.Calling

/-!
# Meaning of expressions

What an expression computes, said of the tree and of the locals, without a stack: the values of its
parts one after the other, the faults that may end the run, and the calls. It is given by what is needed
for a property of the value to hold in the end, so that it can be used under any rules. The code that is
selected for an expression computes just that.

## Main definitions

* `Spec`: what a computation needs to end with a property
* `meaning`: the meaning of an expression, as a value and as a condition
* `Fragment.Computes`, `Condition.Decides`: code that computes a meaning

## Main results

* `select_computes`: the code of an expression computes its meaning
-/

namespace ClassFoundry

/-- **What a computation needs** to end with a property of the output and of its value. -/
def Spec (α : Type) := (String → α → Prop) → String → Prop

instance : Monad Spec where
  pure a := fun Q out => Q out a
  bind m f := fun Q out => m (fun out a => f a Q out) out

/-- A computation of which nothing is known. -/
def Spec.never {α : Type} : Spec α := fun _ _ => False

/-! ## Values -/

namespace Rules

variable (c : ClassFile) (W : Rules) {α : Type}

/-- The run ends with a fault. -/
def fails (e : Fault) : Spec α := fun _ out => W.fault out e

/-- The run ends with a fault that depends on where it occurs. -/
def faults : Spec α := fun _ out => ∀ e, W.fault out e

/-- The number in an int. -/
def int : Value → Spec Int32
  | .int v => pure v
  | _ => W.faults

/-- The number in a long. -/
def long : Value → Spec Int64
  | .long v => pure v
  | _ => W.faults

/-- A value of a kind. -/
def ofKind (kind : Kind) (v : Value) : Spec Value :=
  if v.hasKind kind = true then pure v else W.faults

/-- The value of a local. -/
def loaded (L : Array Value) (kind : Kind) (slot : Nat) : Spec Value :=
  match L[slot]? with
  | some v => W.ofKind kind v
  | none => W.faults

/-- The value of a static field. -/
def fieldValue (field : Member) : Spec Value :=
  if field.owner = systemClass ∧ field.name = "out" then
    pure (.object .standardOutput printStreamClass)
  else W.fails (.unsupportedField field.owner field.name)

/-- The value of a division. -/
def divided (x : Option α) : Spec α :=
  match x with
  | some a => pure a
  | none => W.fails .divisionByZero

/-- Nothing, but a fault if a descriptor cannot be read. One that can has to ask for as many arguments
as there are. -/
def reads (callee : Member) (args : List Value) : Spec Unit :=
  match Descriptor.parameters? callee.descriptor with
  | some params => fun Q out => params.length = args.length ∧ Q out ()
  | none => W.faults

/-- The result of a method without receiver. -/
def calls (callee : Member) (args : List Value) : Spec (Option Value) := do
  W.reads callee args
  W.called c callee none args

/-- The result of a method of an object, if there is one. -/
def received (callee : Member) (receiver : Value) (args : List Value) : Spec (Option Value) :=
  fun Q out =>
    if receiver.isReference = false then ∀ e, W.fault out e
    else if receiver = .null then W.fault out .nullPointer
    else W.called c callee (some receiver) args Q out

/-- The result of a method of an object. -/
def sends (callee : Member) (receiver : Value) (args : List Value) : Spec (Option Value) := do
  W.reads callee args
  W.received c callee receiver args

/-- A number as one of another kind. -/
def widened (source : DataType) (target : Kind) (v : Value) : Spec Value :=
  match source.kind?, target with
  | some .int, .long => do
    let i ← W.int v
    return .long (if source.needsUnsignedOps then i.toInt64 &&& 0xffffffff else i.toInt64)
  | some .long, .int => do
    let l ← W.long v
    return .int l.toInt32
  | _, _ => pure v

end Rules

/-- An int cut to the range of a narrower type. -/
def Narrowing.apply : Narrowing → Int32 → Int32
  | .mask bits, v => v &&& bits
  | .convert .i2b, v => IntCast.byte.apply v
  | .convert .i2s, v => IntCast.short.apply v
  | .convert _, v => IntCast.char.apply v

namespace Rules

variable (c : ClassFile) (W : Rules)

/-- A number in the range of its type. -/
def narrowed (ty : DataType) (v : Value) : Spec Value :=
  match ty.narrowing? with
  | some n => do
    let i ← W.int v
    return .int (n.apply i)
  | none => pure v

/-- A value as one of another type. -/
def converted (source target : DataType) (v : Value) : Spec Value :=
  if source = target then pure v
  else
    match target.kind? with
    | some .reference | none => pure v
    | some kind => do
      let w ← W.widened source kind v
      W.narrowed target w

/-- An instruction on two numbers. -/
def combined (op : FrameOp) (a b : Value) : Spec Value :=
  match op with
  | .intOp op => do
    let y ← W.int b
    let x ← W.int a
    let r ← W.divided (op.onInt x y)
    return .int r
  | .longOp op => do
    let y ← W.long b
    let x ← W.long a
    let r ← W.divided (op.onLong x y)
    return .long r
  | .intShift op => do
    let y ← W.int b
    let x ← W.int a
    return .int (op.onInt x y)
  | .longShift op => do
    let y ← W.int b
    let x ← W.long a
    return .long (op.onLong x y)
  | _ => Spec.never

/-- The value of a method that has one. -/
def resultOf : Option Value → Spec Value
  | some v => pure v
  | none => Spec.never

/-- The value of a library method on two numbers. -/
def libraryValue (callee : Member) (a b : Value) : Spec Value := do
  let r ← W.calls c callee [a, b]
  resultOf r

/-- An operation on two numbers of a type. -/
def arith (op : Arith) (ty : DataType) (a b : Value) : Spec Value :=
  let plain : Spec Value :=
    match (op.opcode ty.isLong ty.isUnsigned).plainOp? with
    | some op => W.combined op a b
    | none => Spec.never
  match op.unsignedMethod? with
  | some name =>
    if ty.needsUnsignedOps then
      if ty.isLong then W.libraryValue c (unsignedLong name "(JJ)J") a b
      else W.libraryValue c (unsignedInt name "(II)I") a b
    else plain
  | none => plain

/-- An operation on a number of a type. -/
def unary (op : UnaryArith) (ty : DataType) (v : Value) : Spec Value :=
  if ty.isLong then do
    let l ← W.long v
    return .long (match op with | .neg => -l | .complement => l ^^^ (-1))
  else do
    let i ← W.int v
    return .int (match op with | .neg => -i | .complement => i ^^^ (-1))

/-- Whether an int compares to zero as asked. -/
def comparedToZero (op : Comparison) (v : Value) : Spec Bool := do
  let i ← W.int v
  return op.holds (orderInts i 0)

/-- The order of two longs, as a number. -/
def longOrder (a b : Value) : Spec Value := do
  let y ← W.long b
  let x ← W.long a
  return .int (Ordering.toInt32 (orderLongs x y))

/-- Whether two numbers compare as asked. -/
def compared (op : Comparison) (unsigned long : Bool) (a b : Value) : Spec Bool :=
  match long, unsigned with
  | false, false => do
    let y ← W.int b
    let x ← W.int a
    return op.holds (orderInts x y)
  | false, true => do
    let r ← W.libraryValue c (unsignedInt "compareUnsigned" "(II)I") a b
    W.comparedToZero op r
  | true, false => do
    let r ← W.longOrder a b
    W.comparedToZero op r
  | true, true => do
    let r ← W.libraryValue c (unsignedLong "compareUnsigned" "(JJ)I") a b
    W.comparedToZero op r

/-- Whether two references are the same, as asked. -/
def comparedRefs (same : Bool) (a b : Value) : Spec Bool := do
  let b ← W.ofKind .reference b
  let a ← W.ofKind .reference a
  return a.same b == same

end Rules

/-! ## Expressions -/

/-- The meaning of an expression. -/
structure Meaning where
  value : Spec Value
  test : Spec Bool

/-- An argument with its meaning. -/
structure Given where
  ty : DataType
  value : Spec Value

section Meaning

variable (c : ClassFile) (W : Rules) (L : Array Value)

/-- A test whether a number is not zero. -/
def nonzeroMeaning (ty : DataType) (value : Spec Value) : Spec Bool := do
  let v ← value
  if ty.isLong then
    let r ← W.longOrder v (.long 0)
    W.comparedToZero .ne r
  else W.comparedToZero .ne v

/-- An expression that is a value. -/
def Meaning.ofValue (ty : DataType) (value : Spec Value) : Meaning := ⟨value, nonzeroMeaning W ty value⟩

/-- An expression that is a condition. -/
def Meaning.ofTest (test : Spec Bool) : Meaning where
  value := do
    let b ← test
    return .int (if b then 1 else 0)
  test

/-- Two values, the left one first. -/
def pairMeaning (left right : Spec Value) : Spec (Value × Value) := do
  let a ← left
  let b ← right
  return (a, b)

/-- A number as one of another kind. -/
def numberMeaning (source : DataType) (target : Kind) (value : Spec Value) : Spec Value := do
  let v ← value
  W.widened source target v

/-- A binary operation on numbers. -/
def arithMeaning (op : Arith) (lhs rhs ty : DataType) (left right : Spec Value) : Spec Value := do
  let p ← pairMeaning (numberMeaning W lhs ty.numberKind left)
    (numberMeaning W rhs (if op.isShift then .int else ty.numberKind) right)
  let r ← W.arith c op ty p.1 p.2
  W.narrowed ty r

/-- A unary operation on a number. -/
def unaryMeaning (op : UnaryArith) (operand ty : DataType) (value : Spec Value) : Spec Value := do
  let v ← numberMeaning W operand ty.numberKind value
  let r ← W.unary op ty v
  W.narrowed ty r

/-- A comparison of numbers, in longs if one of them is long. -/
def numbersMeaning (op : Comparison) (lhs rhs : DataType) (left right : Spec Value) (long : Bool) :
    Spec Bool := do
  let kind := if long then Kind.long else Kind.int
  let p ← pairMeaning (numberMeaning W lhs kind left) (numberMeaning W rhs kind right)
  W.compared c op ((lhs.needsUnsignedOps || rhs.needsUnsignedOps) && op.isOrdered) long p.1 p.2

/-- A comparison. -/
def compareMeaning (op : Comparison) (lhs rhs : DataType) (left right : Spec Value) : Spec Bool :=
  if lhs.kind? = some .reference ∧ rhs.kind? = some .reference then do
    let p ← pairMeaning left right
    W.comparedRefs (op == .eq) p.1 p.2
  else numbersMeaning c W op lhs rhs left right (lhs.isLong || rhs.isLong)

/-- Arguments as values of the parameter types. -/
def passedMeaning : List (Given × DataType) → Spec (List Value)
  | [] => pure []
  | (a, ty) :: rest => do
    let v ← a.value
    let v ← W.converted a.ty ty v
    let vs ← passedMeaning rest
    return v :: vs

/-- A call of a method of an object. -/
def sendMeaning (callee : Callable) (receiver : Value) (args : List (Given × DataType)) :
    Spec (Option Value) := do
  let vs ← passedMeaning W args
  W.sends c callee.member receiver (callee.hiddenArgs ++ vs)

/-- A call of a callable method. -/
def calleeMeaning (callee : Callable) (args : List (Given × DataType)) : Spec (Option Value) :=
  match callee.receiver with
  | .none => do
    let vs ← passedMeaning W args
    W.calls c callee.member (callee.hiddenArgs ++ vs)
  | .this => do
    let receiver ← W.loaded L .reference 0
    sendMeaning c W callee receiver args
  | .firstArg =>
    match args with
    | [] => Spec.never
    | (a, ty) :: rest => do
      let v ← a.value
      let receiver ← W.converted a.ty ty v
      sendMeaning c W callee receiver rest
  | .staticField field => do
    let receiver ← W.fieldValue field
    sendMeaning c W callee receiver args

variable (σ : Names)

/-- The variable of a name. -/
def variableMeaning (name : String) : Spec Value :=
  match σ.look name with
  | some slot =>
    match slot.ty.kind? with
    | some kind => W.loaded L kind slot.slot
    | none => Spec.never
  | none => Spec.never

/-- A call by name. Of calls of methods of objects nothing is said. -/
def callMeaning (object : Option String) (name : String) (args : List Given) : Spec (Option Value) :=
  match object, σ.callee? name (args.map (·.ty)) with
  | none, some callee =>
    calleeMeaning c W L callee (args.zip callee.params)
  | _, _ => Spec.never

/-- An integer literal. -/
def literalValue? (value : Int64) (ty : DataType) : Value :=
  if ty.isLong then .long value else .int value.toInt32

mutual

/-- **The meaning of an expression** under names and locals. -/
def meaning : Expr → Meaning
  | .ident name ty => .ofValue W ty (variableMeaning W L σ name)
  | .int value ty => .ofValue W ty (pure (literalValue? value ty))
  | .char ch => .ofValue W .char (pure (.int (Int32.ofNat ch.toNat)))
  | .str text => .ofValue W .string fun Q out => ∀ ref, Q out (.str ref text)
  | .arith op lhs rhs ty =>
    .ofValue W ty (arithMeaning c W op lhs.ty rhs.ty ty (meaning lhs).value (meaning rhs).value)
  | .compare op lhs rhs _ =>
    .ofTest (compareMeaning c W op lhs.ty rhs.ty (meaning lhs).value (meaning rhs).value)
  | .logic op lhs rhs _ => .ofTest do
    let b ← (meaning lhs).test
    if b = (op == .or) then return b else (meaning rhs).test
  | .unary op operand ty => .ofValue W ty (unaryMeaning W op operand.ty ty (meaning operand).value)
  | .not operand _ => .ofTest do
    let b ← (meaning operand).test
    return !b
  | .call object name args ty => .ofValue W ty do
    let r ← callMeaning c W L σ object name (givens args)
    Rules.resultOf r

/-- The meaning of arguments. -/
def givens : List Expr → List Given
  | [] => []
  | e :: rest => ⟨e.ty, (meaning e).value⟩ :: givens rest

end

@[simp] theorem map_ty_givens (args : List Expr) :
    (givens c W L σ args).map (·.ty) = args.map Expr.ty := by
  induction args with
  | nil => rfl
  | cons e rest ih => simp [givens, ih]

end Meaning

/-! ## Code that computes -/

section Computes

variable (c : ClassFile) (W : Rules) (L : Array Value)

/-- **A fragment computes** something from the values that it takes: what it leaves is told by a
computation, whatever lies below. -/
def Fragment.Computes {α : Type} (code : Fragment) (taken : List Value) (m : Spec α)
    (leave : α → List Value) : Prop :=
  ∀ (R : String → α → Prop) (Q : Post) (out : String) (st : List Value), m R out →
    (∀ out a, R out a → Q out (leave a ++ st)) → code.wp c W L Q out (taken ++ st)

/-- **A condition decides** what a computation tells. -/
def Condition.Decides (cond : Condition) (m : Spec Bool) : Prop :=
  ∀ (R : String → Bool → Prop) (Q : Bool → Post) (out : String) (st : List Value), m R out →
    (∀ out b, R out b → Q b out st) → cond.wp c W L Q out st

/-- A test decides what a computation tells from the values that it takes. -/
def Test.Decides (t : Test) (taken : List Value) (m : Spec Bool) : Prop :=
  ∀ (R : String → Bool → Prop) (Q : Bool → Post) (out : String) (st : List Value), m R out →
    (∀ out b, R out b → Q b out st) → t.wp W Q out (taken ++ st)

end Computes

/-- What is left is a value. -/
def single (v : Value) : List Value := [v]

section Pieces

variable {c : ClassFile} {W : Rules} {L : Array Value} {α β : Type} {first second code : Fragment}
  {taken : List Value}

namespace Fragment.Computes

/-- Code that computes in two steps. -/
theorem seq {m : Spec α} {f : α → Spec β} {leave : α → List Value} {leave' : β → List Value}
    (h₁ : first.Computes c W L taken m leave)
    (h₂ : ∀ a, second.Computes c W L (leave a) (f a) leave') :
    (Fragment.seq first second).Computes c W L taken (m >>= f) leave' :=
  fun R Q out st hm hQ => h₁ (fun out a => f a R out) _ out st hm fun out a ha =>
    h₂ a R Q out st ha hQ

/-- What lies below stays. -/
theorem above {m : Spec α} {leave : α → List Value} (h : code.Computes c W L taken m leave)
    (below : List Value) : code.Computes c W L (taken ++ below) m fun a => leave a ++ below := by
  intro R Q out st hm hQ
  rw [List.append_assoc]
  exact h R Q out (below ++ st) hm fun out a ha => List.append_assoc .. ▸ hQ out a ha

/-- Nothing is to be done. -/
theorem nil (leave : α → List Value) (a : α) :
    Fragment.nil.Computes c W L (leave a) (pure a) leave :=
  fun _ _ out _ hm hQ => hQ out a hm

/-- Nothing is known. -/
theorem never (leave : α → List Value) : code.Computes c W L taken Spec.never leave :=
  fun _ _ _ _ hm => hm.elim

/-- An operation on the frame. -/
theorem ofOp {m : Spec α} {leave : α → List Value} {op : FrameOp}
    (h : ∀ (R : String → α → Prop) (Q : Post) (out : String) (st : List Value), m R out →
      (∀ out a, R out a → Q out (leave a ++ st)) → op.wp W L Q out (taken ++ st)) :
    (Fragment.ofOp op).Computes c W L taken m leave :=
  fun R Q out st hm hQ _ => h R Q out st hm hQ

end Fragment.Computes

open Fragment (ofOp plain)

/-! ### Numbers -/

theorem pushInt_computes (v : Int32) (below : List Value) :
    (ofOp (.pushInt v)).Computes c W L below (pure (Value.int v)) fun v => v :: below := by
  refine .ofOp fun R Q out st hm hQ => ?_
  rintro pool next ⟨⟩ rfl rfl
  exact hQ out _ hm

theorem pushLong_computes (v : Int64) (below : List Value) :
    (ofOp (.pushLong v)).Computes c W L below (pure (Value.long v)) fun v => v :: below := by
  refine .ofOp fun R Q out st hm hQ => ?_
  rintro pool next ⟨⟩ rfl rfl
  exact hQ out _ hm

theorem load_computes (kind : Kind) (slot : Nat) :
    (ofOp (.load kind slot)).Computes c W L [] (W.loaded L kind slot) single := by
  refine .ofOp fun R Q out st hm hQ => ?_
  rintro pool next f rfl rfl
  simp only [Rules.loaded] at hm
  simp only [Frame.apply, Frame.load]
  cases hv : f.locals[slot]? with
  | none =>
    rw [hv] at hm
    exact hm _
  | some v =>
    rw [hv] at hm
    dsimp only [Rules.ofKind] at hm ⊢
    split at hm <;> rename_i hkind
    · rw [if_pos hkind]
      exact hQ out v hm
    · rw [if_neg hkind]
      exact hm _

theorem combined_computes (op : FrameOp) (a b : Value) :
    (ofOp op).Computes c W L [b, a] (W.combined op a b) single := by
  refine .ofOp fun R Q out st hm hQ => ?_
  rintro pool next ⟨⟩ rfl rfl
  -- an operand of another kind is some fault, and the meaning then allows for all of them
  cases op with
  | intOp op =>
    cases b with
    | int y =>
      cases a with
      | int x =>
        have hm : W.divided (op.onInt x y) (fun out r => R out (.int r)) out := hm
        refine wp_intOp (fun hr => ?_) (fun v hr => ?_) pool next _ rfl rfl
        · rw [hr] at hm
          exact hm
        · rw [hr] at hm
          exact hQ out _ hm
      | _ => exact hm _
    | _ => exact hm _
  | longOp op =>
    cases b with
    | long y =>
      cases a with
      | long x =>
        have hm : W.divided (op.onLong x y) (fun out r => R out (.long r)) out := hm
        refine wp_longOp (fun hr => ?_) (fun v hr => ?_) pool next _ rfl rfl
        · rw [hr] at hm
          exact hm
        · rw [hr] at hm
          exact hQ out _ hm
      | _ => exact hm _
    | _ => exact hm _
  | intShift op =>
    cases b with
    | int y =>
      cases a with
      | int x => exact hQ out _ hm
      | _ => exact hm _
    | _ => exact hm _
  | longShift op =>
    cases b with
    | int y =>
      cases a with
      | long x => exact hQ out _ hm
      | _ => exact hm _
    | _ => exact hm _
  | _ => exact hm.elim

/-- An operation on an int. -/
theorem ofInt_computes (op : FrameOp) (f : Int32 → Value)
    (h : ∀ (pool : ConstantPool) (next : Nat) (g : Frame), g.apply pool next op = do
      let (v, g) ← g.popInt
      return { g.push (f v) with pc := next }) (v : Value) :
    (ofOp op).Computes c W L [v] (do let i ← W.int v; return f i) single := by
  refine .ofOp fun R Q out st hm hQ => ?_
  rintro pool next ⟨⟩ rfl rfl
  rw [h]
  cases v with
  | int i => exact hQ out _ hm
  | _ => exact hm _

/-- An operation on a long. -/
theorem ofLong_computes (op : FrameOp) (f : Int64 → Value)
    (h : ∀ (pool : ConstantPool) (next : Nat) (g : Frame), g.apply pool next op = do
      let (v, g) ← g.popLong
      return { g.push (f v) with pc := next }) (v : Value) :
    (ofOp op).Computes c W L [v] (do let l ← W.long v; return f l) single := by
  refine .ofOp fun R Q out st hm hQ => ?_
  rintro pool next ⟨⟩ rfl rfl
  rw [h]
  cases v with
  | long l => exact hQ out _ hm
  | _ => exact hm _

/-- A constant, and an operation on it and what is on the stack. -/
theorem withInt_computes (op : FrameOp) (v : Value) (constant : Int32) :
    (Fragment.seq (ofOp (.pushInt constant)) (ofOp op)).Computes c W L [v]
      (W.combined op v (.int constant)) single :=
  (pushInt_computes constant [v]).seq fun b => combined_computes op v b

theorem withLong_computes (op : FrameOp) (v : Value) (constant : Int64) :
    (Fragment.seq (ofOp (.pushLong constant)) (ofOp op)).Computes c W L [v]
      (W.combined op v (.long constant)) single :=
  (pushLong_computes constant [v]).seq fun b => combined_computes op v b

theorem widening_computes (source : DataType) (target : Kind) (v : Value) :
    (widening source target).Computes c W L [v] (W.widened source target v) single := by
  have hwiden := ofInt_computes (c := c) (W := W) (L := L) .intToLong (fun i => .long i.toInt64)
    (fun _ _ _ => rfl) v
  have hcut := ofLong_computes (c := c) (W := W) (L := L) .longToInt (fun l => .int l.toInt32)
    (fun _ _ _ => rfl) v
  have hnil := Fragment.Computes.nil (c := c) (W := W) (L := L) single v
  unfold widening Rules.widened
  cases source.kind? with
  | none => exact hnil
  | some kind =>
    cases kind with
    | int =>
      cases target with
      | long =>
        by_cases hunsigned : source.needsUnsignedOps
        · simp only [hunsigned, if_true]
          exact hwiden.seq fun a => withLong_computes (.longOp .and) a 0xffffffff
        · simp only [hunsigned]
          exact hwiden
      | int | reference => exact hnil
    | long =>
      cases target with
      | int => exact hcut
      | long | reference => exact hnil
    | reference => exact hnil

theorem narrowing_computes (ty : DataType) (v : Value) :
    (narrowing ty).Computes c W L [v] (W.narrowed ty v) single := by
  have hcast (cast : IntCast) := ofInt_computes (c := c) (W := W) (L := L) (.intCast cast)
    (fun i => .int (cast.apply i)) (fun _ _ _ => rfl) v
  unfold narrowing Rules.narrowed
  cases ty with
  | char => exact hcast .char
  | int width unsigned =>
    cases width with
    | w8 =>
      cases unsigned with
      | false => exact hcast .byte
      | true =>
        intro R Q out st hm hQ
        refine withInt_computes (.intOp .and) v 0xff R Q out st ?_ hQ
        exact hm
    | w16 =>
      cases unsigned with
      | false => exact hcast .short
      | true => exact hcast .char
    | w32 | w64 => exact .nil single v
  | _ => exact .nil single v

theorem conversion_computes (source target : DataType) (v : Value) :
    (conversion source target).Computes c W L [v] (W.converted source target v) single := by
  unfold conversion Rules.converted
  by_cases heq : source = target
  · rw [if_pos heq, if_pos heq]
    exact .nil single v
  · rw [if_neg heq, if_neg heq]
    cases target.kind? with
    | none => exact .nil single v
    | some kind =>
      cases kind with
      | reference => exact .nil single v
      | int | long => exact (widening_computes source _ v).seq fun w => narrowing_computes target w

/-! ### Operations on numbers -/

/-- A descriptor that asks for as many arguments as there are lets a call go on. -/
theorem Rules.reads_of_count {callee : Member} {args : List Value}
    (h : (Descriptor.parameters? callee.descriptor).map List.length = some args.length) :
    W.reads callee args = pure () := by
  obtain ⟨params, hparams, hlength⟩ := Option.map_eq_some_iff.1 h
  funext Q out
  simp [reads, hparams, hlength, pure]

theorem Rules.calls_of_count {callee : Member} {args : List Value}
    (h : (Descriptor.parameters? callee.descriptor).map List.length = some args.length) :
    W.calls c callee args = W.called c callee none args := by
  unfold calls
  rw [reads_of_count h]
  rfl

theorem Rules.sends_of_count {callee : Member} {receiver : Value} {args : List Value}
    (h : (Descriptor.parameters? callee.descriptor).map List.length = some args.length) :
    W.sends c callee receiver args = W.received c callee receiver args := by
  unfold sends
  rw [reads_of_count h]
  rfl

theorem Rules.reads_cases {callee : Member} {args : List Value} {Q : String → Unit → Prop}
    {out : String} (h : W.reads callee args Q out) :
    (Descriptor.parameters? callee.descriptor = none ∧ ∀ e, W.fault out e) ∨
      ∃ params, Descriptor.parameters? callee.descriptor = some params ∧
        params.length = args.length ∧ Q out () := by
  unfold reads at h
  cases hparams : Descriptor.parameters? callee.descriptor with
  | none =>
    rw [hparams] at h
    exact .inl ⟨rfl, h⟩
  | some params =>
    rw [hparams] at h
    exact .inr ⟨params, rfl, h⟩

/-- A call without receiver takes its arguments from the stack. -/
theorem invokeStatic_computes (callee : Member) (args : List Kind) (result : Option Kind)
    (vs : List Value) :
    (Fragment.op (.invoke .static callee args result)).Computes c W L vs.reverse
      (W.calls c callee vs) Option.toList := by
  intro R Q out st hm hQ
  rcases Rules.reads_cases hm with ⟨hparams, hfault⟩ | ⟨params, hparams, hlength, hcalled⟩
  · exact wp_invoke_of_none hparams hfault
  · refine wp_invokeStatic hparams (by rw [List.length_reverse, hlength]) ?_
    rw [List.reverse_reverse]
    exact Rules.called_mono hQ hcalled

/-- A call of a method of an object finds the object below the arguments. -/
theorem invokeReceiver_computes {mode : CallMode} (hmode : mode ≠ .static) (callee : Member)
    (args : List Kind) (result : Option Kind) (receiver : Value) (vs : List Value) :
    (Fragment.op (.invoke mode callee args result)).Computes c W L (vs.reverse ++ [receiver])
      (W.sends c callee receiver vs) Option.toList := by
  intro R Q out st hm hQ
  rw [List.append_assoc]
  rcases Rules.reads_cases hm with ⟨hparams, hfault⟩ | ⟨params, hparams, hlength, hm⟩
  · exact wp_invoke_of_none hparams hfault
  · unfold Rules.received at hm
    refine wp_invokeReceiver hmode hparams (by rw [List.length_reverse, hlength]) ?_ ?_ ?_
    · intro hkind
      rwa [if_pos hkind] at hm
    · rintro rfl
      exact hm
    · intro hkind hnull
      rw [if_neg (by simp [hkind]), if_neg hnull] at hm
      rw [List.reverse_reverse]
      exact Rules.called_mono hQ hm

/-- A library method on two numbers. -/
theorem libraryValue_computes (callee : Member) (args : List Kind) (result : Option Kind)
    (a b : Value) :
    (Fragment.op (.invoke .static callee args result)).Computes c W L [b, a]
      (W.libraryValue c callee a b) single := by
  intro R Q out st hm hQ
  refine invokeStatic_computes callee args result [a, b] _ Q out st hm fun out r hr => ?_
  cases r with
  | none => exact hr.elim
  | some v => exact hQ out v hr

theorem plain_computes (op : Opcode) (a b : Value) :
    (plain op).Computes c W L [b, a]
      (match op.plainOp? with
        | some op => W.combined op a b
        | none => Spec.never) single := by
  unfold plain
  cases op.plainOp? with
  | none => exact .never single
  | some op => exact combined_computes op a b

theorem Arith.fragment_computes (op : Arith) (ty : DataType) (a b : Value) :
    (op.fragment ty).Computes c W L [b, a] (W.arith c op ty a b) single := by
  have hplain := plain_computes (c := c) (W := W) (L := L) (op.opcode ty.isLong ty.isUnsigned) a b
  unfold Arith.fragment Rules.arith
  cases op.unsignedMethod? with
  | none => exact hplain
  | some name =>
    by_cases hunsigned : ty.needsUnsignedOps
    · simp only [hunsigned, if_true]
      cases ty.isLong with
      | true => exact libraryValue_computes _ _ _ a b
      | false => exact libraryValue_computes _ _ _ a b
    · simp only [hunsigned]
      exact hplain

theorem UnaryArith.fragment_computes (op : UnaryArith) (ty : DataType) (v : Value) :
    (op.fragment ty).Computes c W L [v] (W.unary op ty v) single := by
  unfold UnaryArith.fragment Rules.unary
  cases hlong : ty.isLong with
  | true =>
    cases op with
    | neg => exact ofLong_computes .longNeg (fun l => .long (-l)) (fun _ _ _ => rfl) v
    | complement => exact withLong_computes (.longOp .xor) v (-1)
  | false =>
    cases op with
    | neg => exact ofInt_computes .intNeg (fun i => .int (-i)) (fun _ _ _ => rfl) v
    | complement => exact withInt_computes (.intOp .xor) v (-1)

/-- A number, turned into one of a kind. -/
theorem number_computes {m : Spec Value} (source : DataType) (target : Kind)
    (h : code.Computes c W L [] m single) :
    (code.seq (widening source target)).Computes c W L [] (numberMeaning W source target m) single :=
  h.seq fun v => widening_computes source target v

/-- Two values, one above the other. -/
theorem pair_computes {left right : Fragment} {l r : Spec Value}
    (hl : left.Computes c W L [] l single) (hr : right.Computes c W L [] r single) :
    (left.seq right).Computes c W L [] (pairMeaning l r) fun p => [p.2, p.1] :=
  fun R Q out st hm hQ => hl (fun out a => r (fun out b => R out (a, b)) out) _ out st hm
    fun out a ha => hr (fun out b => R out (a, b)) Q out (a :: st) ha
      fun out b hb => hQ out (a, b) hb

theorem arithmetic_computes (op : Arith) (lhs rhs ty : DataType) {left right : Fragment}
    {l r : Spec Value} (hl : left.Computes c W L [] l single) (hr : right.Computes c W L [] r single) :
    (arithmetic op lhs rhs ty left right).Computes c W L []
      (arithMeaning c W op lhs rhs ty l r) single := by
  have hpair := pair_computes (number_computes lhs ty.numberKind hl)
    (number_computes rhs (if op.isShift then .int else ty.numberKind) hr)
  intro R Q out st hm hQ
  exact hpair _ _ out st hm fun out p hp =>
    ((op.fragment_computes ty p.1 p.2).seq fun v => narrowing_computes ty v) R Q out st hp hQ

theorem unary_computes (op : UnaryArith) (operand ty : DataType) {m : Spec Value}
    (h : code.Computes c W L [] m single) :
    (unary op operand ty code).Computes c W L [] (unaryMeaning W op operand ty m) single :=
  (number_computes operand ty.numberKind h).seq fun v =>
    (op.fragment_computes ty v).seq fun v => narrowing_computes ty v

/-! ### Conditions -/

namespace Condition.Decides

/-- A test of what a fragment leaves. -/
theorem test {m : Spec α} {f : α → Spec Bool} {leave : α → List Value} {t : Test}
    (h : code.Computes c W L [] m leave) (ht : ∀ a, t.Decides W (leave a) (f a)) :
    (Condition.test code t).Decides c W L (m >>= f) :=
  fun R Q out st hm hQ => h (fun out a => f a R out) _ out st hm fun out a ha =>
    ht a R Q out st ha hQ

theorem not {cond : Condition} {m : Spec Bool} (h : cond.Decides c W L m) :
    (Condition.not cond).Decides c W L (do let b ← m; return !b) :=
  fun R _ out st hm hQ => h (fun out b => R out (!b)) _ out st hm fun out b hb => hQ out (!b) hb

theorem logic {left right : Condition} {m m' : Spec Bool} (op : Connective)
    (h : left.Decides c W L m) (h' : right.Decides c W L m') :
    (Condition.logic op left right).Decides c W L
      (do let b ← m; if b = (op == .or) then return b else m') := by
  intro R Q out st hm hQ
  refine h (fun out b => (if b = (op == .or) then pure b else m') R out) _ out st hm
    fun out b hb => ?_
  -- the right side counts only if the left one leaves the outcome open
  split at hb <;> rename_i hopen
  · rw [if_pos hopen]
    exact hQ out b hb
  · rw [if_neg hopen]
    exact h' R Q out st hb hQ

/-- The outcome of a condition as a value. -/
theorem truth {cond : Condition} {m : Spec Bool} (h : cond.Decides c W L m) :
    (Fragment.truth cond).Computes c W L []
      (do let b ← m; return Value.int (if b then 1 else 0)) single :=
  fun R _ out st hm hQ => h (fun out b => R out (.int (if b then 1 else 0))) _ out st hm
    fun out _ hb => hQ out _ hb

end Condition.Decides

theorem zero_decides (op : Comparison) (v : Value) :
    (Test.zero op).Decides W [v] (W.comparedToZero op v) := by
  intro R Q out st hm hQ
  rintro ⟨⟩ rfl
  cases v with
  | int i => exact hQ out _ hm
  | _ => exact hm _

theorem ints_decides (op : Comparison) (a b : Value) :
    (Test.ints op).Decides W [b, a] (W.compared c op false false a b) := by
  intro R Q out st hm hQ
  rintro ⟨⟩ rfl
  cases b with
  | int y =>
    cases a with
    | int x => exact hQ out _ hm
    | _ => exact hm _
  | _ => exact hm _

theorem refs_decides (same : Bool) (a b : Value) :
    (Test.refs same).Decides W [b, a] (W.comparedRefs same a b) := by
  intro R Q out st hm hQ
  have hm : W.ofKind .reference b (fun out b => W.ofKind .reference a
    (fun out a => R out (a.same b == same)) out) out := hm
  rintro f hstack
  have hfirst : f.popKind .reference = if b.hasKind .reference = true
      then .ok (b, { f with stack := a :: st }) else .error (f.mismatch .reference) := by
    simp only [Frame.popKind, hstack]
    rfl
  -- the right operand is on top, so its kind is looked at first
  unfold Rules.ofKind at hm
  split at hm <;> rename_i hb
  · rw [if_pos hb] at hfirst
    have hm : (if a.hasKind .reference = true then pure a else W.faults : Spec Value)
      (fun out a => R out (a.same b == same)) out := hm
    split at hm <;> rename_i ha
    · have hsecond : Frame.popKind { f with stack := a :: st } .reference =
          .ok (a, { f with stack := st }) := by simp [Frame.popKind, ha]
      simp only [Test.outcome, hfirst]
      show W.Yields out (Frame.popKind { f with stack := a :: st } .reference >>= _) _
      rw [hsecond]
      exact hQ out _ hm
    · have hsecond : Frame.popKind { f with stack := a :: st } .reference =
          .error (f.mismatch .reference) := by
        simp only [Frame.popKind, if_neg ha]
        rfl
      simp only [Test.outcome, hfirst]
      show W.Yields out (Frame.popKind { f with stack := a :: st } .reference >>= _) _
      rw [hsecond]
      exact hm _
  · rw [if_neg hb] at hfirst
    simp only [Test.outcome, hfirst]
    exact hm _

theorem longCompare_computes (a b : Value) :
    (ofOp .longCompare).Computes c W L [b, a] (W.longOrder a b) single := by
  refine .ofOp fun R Q out st hm hQ => ?_
  rintro pool next ⟨⟩ rfl rfl
  cases b with
  | long y =>
    cases a with
    | long x => exact hQ out _ hm
    | _ => exact hm _
  | _ => exact hm _

theorem nonzero_decides (ty : DataType) {m : Spec Value} (h : code.Computes c W L [] m single) :
    (nonzero ty code).Decides c W L (nonzeroMeaning W ty m) := by
  unfold nonzero nonzeroMeaning
  cases ty.isLong with
  | true =>
    have horder : (code.seq (.seq (ofOp (.pushLong 0)) (ofOp .longCompare))).Computes c W L []
        (do let v ← m; W.longOrder v (.long 0)) single :=
      h.seq fun v => (pushLong_computes 0 [v]).seq fun w => longCompare_computes v w
    have hdecides := Condition.Decides.test horder fun r => zero_decides .ne r
    exact hdecides
  | false => exact .test h fun v => zero_decides .ne v

section Comparisons

variable {left right : Fragment} {l r : Spec Value} (hl : left.Computes c W L [] l single)
  (hr : right.Computes c W L [] r single)

include hl hr

theorem compareCondition_decides (op : Comparison) (lhs rhs : DataType) (long : Bool) :
    (compareCondition op lhs rhs left right long).Decides c W L
      (numbersMeaning c W op lhs rhs l r long) := by
  have hpair := pair_computes (number_computes lhs (if long then Kind.long else Kind.int) hl)
    (number_computes rhs (if long then Kind.long else Kind.int) hr)
  have hlibrary (callee : Member) (args : List Kind) (result : Option Kind) :=
    Condition.Decides.test (hpair.seq fun p => libraryValue_computes callee args result p.1 p.2)
      fun v => zero_decides op v
  unfold compareCondition numbersMeaning
  cases (lhs.needsUnsignedOps || rhs.needsUnsignedOps) && op.isOrdered with
  | false =>
    cases long with
    | false =>
      have hdecides := Condition.Decides.test hpair fun p => ints_decides (c := c) op p.1 p.2
      exact hdecides
    | true =>
      have hdecides := Condition.Decides.test (hpair.seq fun p => longCompare_computes p.1 p.2)
        fun v => zero_decides op v
      exact hdecides
  | true =>
    cases long with
    | false => exact hlibrary _ _ _
    | true => exact hlibrary _ _ _

theorem comparison_decides (op : Comparison) (lhs rhs : DataType) :
    (comparison op lhs rhs left right).Decides c W L (compareMeaning c W op lhs rhs l r) := by
  unfold comparison compareMeaning
  split
  · exact .test (pair_computes hl hr) fun p => refs_decides _ p.1 p.2
  · exact compareCondition_decides hl hr op lhs rhs _

end Comparisons

/-! ### Calls -/

variable (c W L) in
/-- The code of an argument computes its meaning. -/
def Passed.Computes (p : Passed) (g : Given) : Prop :=
  p.expr.ty = g.ty ∧ p.code.Computes c W L [] g.value single

variable (c W L) in
/-- The code of arguments for parameters computes their meaning. -/
def PassedComputes (args : List (Passed × DataType)) (givens : List (Given × DataType)) : Prop :=
  List.Forall₂ (fun p q => p.1.Computes c W L q.1 ∧ p.2 = q.2) args givens

theorem PassedComputes.zip {args : List Passed} {givens : List Given}
    (h : List.Forall₂ (Passed.Computes c W L) args givens) (params : List DataType) :
    PassedComputes c W L (args.zip params) (givens.zip params) := by
  induction h generalizing params with
  | nil => exact .nil
  | cons h _ ih =>
    cases params with
    | nil => exact .nil
    | cons ty params => exact .cons ⟨h, rfl⟩ (ih params)

section Calls

variable {args : List (Passed × DataType)} {givens : List (Given × DataType)}

theorem passArguments_computes (h : PassedComputes c W L args givens) :
    (passArguments args).Computes c W L [] (passedMeaning W givens) List.reverse := by
  induction h with
  | nil => exact .nil List.reverse []
  | @cons p q args givens hfirst hrest ih =>
    obtain ⟨⟨expr, code⟩, ty⟩ := p
    obtain ⟨⟨_, value⟩, _⟩ := q
    obtain ⟨⟨rfl, hcode⟩, rfl⟩ := hfirst
    intro R Q out st hm hQ
    -- the first argument lies below the others
    have hvalue := hcode.seq fun v => conversion_computes expr.ty ty v
    refine hvalue _ _ out st hm fun out v hv => ?_
    refine ih.above [v] (fun out vs => R out (v :: vs)) Q out st hv fun out vs hvs => ?_
    have := hQ out (v :: vs) hvs
    rwa [List.reverse_cons] at this

theorem reverse_hiddenArgs (callee : Callable) : callee.hiddenArgs.reverse = callee.hiddenArgs := by
  unfold Callable.hiddenArgs
  split <;> rfl

theorem hidden_computes (callee : Callable) (below : List Value) :
    callee.hidden.Computes c W L below (pure ()) fun _ => callee.hiddenArgs ++ below := by
  intro R Q out st hm hQ
  unfold Callable.hidden
  unfold Callable.hiddenArgs at hQ
  split <;> rename_i hentry
  · rw [if_pos hentry] at hQ
    rintro - pool next f rfl hstack
    have := hQ out () hm
    rw [List.append_assoc, ← hstack] at this
    exact this
  · rw [if_neg hentry] at hQ
    exact hQ out () hm

/-- The arguments lie above the hidden ones, and these above what was there. -/
theorem arguments_computes (h : PassedComputes c W L args givens) (callee : Callable)
    (below : List Value) {m : List Value → Spec α} {leave : α → List Value}
    (hcode : ∀ vs, code.Computes c W L ((callee.hiddenArgs ++ vs).reverse ++ below) (m vs) leave) :
    (Fragment.seq callee.hidden (.seq (passArguments args) code)).Computes c W L below
      (do let vs ← passedMeaning W givens; m vs) leave := by
  intro R Q out st hm hQ
  refine hidden_computes callee below (fun o _ => o = out) _ out st rfl ?_
  rintro _ - rfl
  refine (passArguments_computes h).above (callee.hiddenArgs ++ below) _ _ _ st hm fun out vs hvs => ?_
  have := hcode vs R Q out st hvs hQ
  rwa [List.reverse_append, reverse_hiddenArgs, List.append_assoc vs.reverse] at this

theorem finishCall_computes (h : PassedComputes c W L args givens) {callee : Callable}
    (hmode : callee.mode ≠ .static) (receiver : Value) :
    (finishCall callee args).Computes c W L [receiver] (sendMeaning c W callee receiver givens)
      Option.toList :=
  arguments_computes h callee [receiver] fun vs =>
    invokeReceiver_computes hmode callee.member _ _ receiver (callee.hiddenArgs ++ vs)

theorem field_computes (field : Member) :
    (Fragment.op (.field field)).Computes c W L [] (W.fieldValue field) single := by
  intro R Q out st hm hQ
  simp only [Rules.fieldValue] at hm
  simp only [Fragment.wp, Operation.wp]
  split at hm <;> rename_i hout
  · rw [if_pos hout]
    exact hQ out _ hm
  · rw [if_neg hout]
    exact hm

theorem callFragment_computes (h : PassedComputes c W L args givens) (callee : Callable) :
    (callFragment callee args).Computes c W L [] (calleeMeaning c W L callee givens)
      Option.toList := by
  unfold callFragment calleeMeaning
  cases hreceiver : callee.receiver with
  | none =>
    refine arguments_computes h callee [] fun vs => ?_
    have hmode : callee.mode = .static := by simp [Callable.mode, hreceiver]
    rw [List.append_nil, Callable.operation, hmode]
    exact invokeStatic_computes callee.member _ _ (callee.hiddenArgs ++ vs)
  | this =>
    have hmode : callee.mode ≠ .static := by
      rw [Callable.mode, hreceiver]
      dsimp only
      split <;> simp
    exact (load_computes .reference 0).seq fun receiver => finishCall_computes h hmode receiver
  | firstArg =>
    have hmode : callee.mode ≠ .static := by simp [Callable.mode, hreceiver]
    cases h with
    | nil => exact .never _
    | @cons p q args givens hfirst hrest =>
      obtain ⟨⟨expr, code⟩, ty⟩ := p
      obtain ⟨⟨_, value⟩, _⟩ := q
      obtain ⟨⟨rfl, hcode⟩, rfl⟩ := hfirst
      have hvalue := hcode.seq fun v => conversion_computes expr.ty ty v
      have hcall := hvalue.seq fun receiver => finishCall_computes hrest hmode receiver
      exact hcall
  | staticField field =>
    have hmode : callee.mode ≠ .static := by simp [Callable.mode, hreceiver]
    exact (field_computes field).seq fun receiver => finishCall_computes h hmode receiver

end Calls

/-! ### Expressions -/

variable (σ : Names)

theorem variable_computes (name : String) :
    (σ.load name).Computes c W L [] (variableMeaning W L σ name) single := by
  unfold Names.load variableMeaning
  cases σ.look name with
  | none => exact .never single
  | some slot =>
    dsimp only
    cases slot.ty.kind? with
    | none => exact .never single
    | some kind => exact load_computes kind slot.slot

theorem call_computes {args : List Passed} {givens : List Given}
    (h : List.Forall₂ (Passed.Computes c W L) args givens) (object : Option String) (name : String)
    (ty : DataType) :
    (σ.call object name args ty).Computes c W L [] (callMeaning c W L σ object name givens)
      Option.toList := by
  have htypes : args.map (·.expr.ty) = givens.map (·.ty) := by
    induction h with
    | nil => rfl
    | cons h _ ih => rw [List.map_cons, List.map_cons, h.1, ih]
  unfold Names.call callMeaning
  cases object with
  | some object => exact .never _
  | none =>
    rw [htypes]
    dsimp only
    cases σ.callee? name (givens.map (·.ty)) with
    | none => exact .never _
    | some callee => exact callFragment_computes (.zip h callee.params) callee

theorem literal_computes (value : Int64) (ty : DataType) :
    (literal value ty).Computes c W L [] (pure (literalValue? value ty)) single := by
  unfold literal literalValue?
  cases ty.isLong with
  | true => exact pushLong_computes value []
  | false => exact pushInt_computes value.toInt32 []

variable (c W L) in
/-- **The code of an expression computes its meaning**, as a value and as a condition. -/
def Selection.Computes (s : Selection) (m : Meaning) : Prop :=
  s.value.Computes c W L [] m.value single ∧ s.cond.Decides c W L m.test

theorem Selection.Computes.ofValue (ty : DataType) {m : Spec Value}
    (h : code.Computes c W L [] m single) :
    (Selection.ofValue ty code).Computes c W L (.ofValue W ty m) :=
  ⟨h, nonzero_decides ty h⟩

theorem Selection.Computes.ofTest {cond : Condition} {m : Spec Bool} (h : cond.Decides c W L m) :
    (Selection.ofCondition cond).Computes c W L (.ofTest m) :=
  ⟨h.truth, h⟩

mutual

/-- **The code of an expression computes its meaning**. -/
theorem select_computes (e : Expr) : (select σ e).Computes c W L (meaning c W L σ e) := by
  cases e with
  | ident name ty => exact .ofValue ty (variable_computes σ name)
  | int value ty => exact .ofValue ty (literal_computes value ty)
  | char ch => exact .ofValue .char (pushInt_computes _ [])
  | str text =>
    refine Selection.Computes.ofValue .string fun R Q out st hm hQ => ?_
    exact fun ref => hQ out _ (hm ref)
  | arith op lhs rhs ty =>
    exact .ofValue ty
      (arithmetic_computes op lhs.ty rhs.ty ty (select_computes lhs).1 (select_computes rhs).1)
  | compare op lhs rhs ty =>
    exact .ofTest
      (comparison_decides (select_computes lhs).1 (select_computes rhs).1 op lhs.ty rhs.ty)
  | logic op lhs rhs ty =>
    exact .ofTest (.logic op (select_computes lhs).2 (select_computes rhs).2)
  | unary op operand ty =>
    exact .ofValue ty (unary_computes op operand.ty ty (select_computes operand).1)
  | not operand ty => exact .ofTest (select_computes operand).2.not
  | call object name args ty =>
    refine Selection.Computes.ofValue ty fun R Q out st hm hQ => ?_
    refine call_computes σ (selectArgs_computes args) object name ty _ Q out st hm fun out r hr => ?_
    cases r with
    | none => exact hr.elim
    | some v => exact hQ out v hr

theorem selectArgs_computes (args : List Expr) :
    List.Forall₂ (Passed.Computes c W L) (selectArgs σ args) (givens c W L σ args) := by
  cases args with
  | nil => exact .nil
  | cons e rest => exact .cons ⟨rfl, (select_computes e).1⟩ (selectArgs_computes rest)

end

theorem selectAs_computes {σ : Names} (e : Expr) (ty : DataType) :
    (selectAs σ e ty).Computes c W L [] (do
      let v ← (meaning c W L σ e).value
      W.converted e.ty ty v) single :=
  (select_computes σ e).1.seq fun v => conversion_computes e.ty ty v

end Pieces

end ClassFoundry
