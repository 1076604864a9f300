import ClassFoundry.Proofs.Answers
import ClassFoundry.Proofs.Integers
import ClassFoundry.Proofs.StraightLine

/-!
# Arithmetic is exact modulo the width of the type

A function that returns an expression of one integer type, made of parameters, literals and arithmetic,
answers the number that the expression stands for: every operation is done without any bound, and its
result is reduced to the range of the type. It fails exactly if a right side of a division is zero.

## Main definitions

* `Expr.exact`: the number that an expression stands for
* `Expr.IsArithmetic`: expressions of one integer type
* `Expr.DividesByZero`: some division has zero as its right side
* `Expr.helper?`: the class of the library that an expression needs

## Main results

* `Expr.IsArithmetic.value_eq`: the meaning of an expression is the word of its number
* `answers_exact`: functions answer the numbers of their expressions
-/

namespace ClassFoundry

namespace Expr

/-- **The number that an expression stands for**, given those of the variables; none if there is a
division by zero. -/
def exact (env : String → Int) : Expr → Option Int
  | .ident name _ => some (env name)
  | .int value _ => some value.toInt
  | .char ch => some ch.toNat
  | .arith op lhs rhs ty => do
    let a ← lhs.exact env
    let b ← rhs.exact env
    op.exact ty a b
  | .unary op operand ty => (operand.exact env).map (op.exact ty)
  | _ => none

/-- **Arithmetic of one type**: all nodes are of the type, variables are among the given ones, and
literals are in the range of the type. -/
inductive IsArithmetic (ty : DataType) (names : List String) : Expr → Prop
  | ident {name : String} (hname : name ∈ names) : IsArithmetic ty names (.ident name ty)
  | int {value : Int64} (hvalue : ty.Contains value.toInt) : IsArithmetic ty names (.int value ty)
  | char {ch : Char} (hty : ty = .char) (hch : ty.Contains ch.toNat) : IsArithmetic ty names (.char ch)
  | arith {op : Arith} {lhs rhs : Expr} (hl : IsArithmetic ty names lhs)
    (hr : IsArithmetic ty names rhs) : IsArithmetic ty names (.arith op lhs rhs ty)
  | unary {op : UnaryArith} {operand : Expr} (ho : IsArithmetic ty names operand) :
    IsArithmetic ty names (.unary op operand ty)

/-- **Some division has zero as its right side**. -/
def DividesByZero (env : String → Int) (e : Expr) : Prop :=
  ∃ op lhs rhs ty, .arith op lhs rhs ty ∈ e.nodes ∧ (op = .div ∨ op = .mod) ∧ rhs.exact env = some 0

/-- The class of the library of which an expression calls a method by itself. -/
def helper? : Expr → Option String
  | .arith op _ _ ty => op.helper? ty
  | .compare op lhs rhs _ => op.helper? lhs.ty rhs.ty
  | _ => none

end Expr

theorem DataType.isInteger_int (width : Width) (unsigned : Bool) : (int width unsigned).IsInteger :=
  trivial

theorem DataType.IsInteger.isNumber {ty : DataType} (h : ty.IsInteger) : ty.IsNumber := by
  cases ty with
  | int width unsigned => cases width <;> first | exact .inl rfl | exact .inr rfl
  | char => exact .inl rfl
  | _ => cases h

theorem DataType.isLong_represent (ty : DataType) (z : Int) : (ty.represent z).isLong = ty.isLong := by
  unfold represent
  cases hlong : ty.isLong <;> rfl

/-- Only division fails, and only by zero. -/
theorem Arith.exact_eq_none {op : Arith} {ty : DataType} {a b : Int} :
    op.exact ty a b = none ↔ (op = .div ∨ op = .mod) ∧ b = 0 := by
  cases op <;> simp [Arith.exact, Arith.ideal]

/-- The meaning of a variable that holds the word of a number. -/
theorem value_ident {ty : DataType} (hty : ty.IsInteger) {c : ClassFile} {W : Rules} {L : Array Value}
    {σ : Names} {name : String} {s : Slot} {z : Int} (hs : σ.look name = some s) (hsty : s.ty = ty)
    (hv : L[s.slot]? = some (ty.represent z).toValue) :
    (meaning c W L σ (.ident name ty)).value = pure (ty.represent z).toValue := by
  have hkind : s.ty.kind? = some ty.numberKind := by rw [hsty, hty.isNumber.kind?]
  have hvalue : (ty.represent z).toValue.hasKind ty.numberKind = true :=
    Carries.hasKind ⟨rfl, ty.isLong_represent _⟩
  show variableMeaning W L σ name = _
  simp only [variableMeaning, hs, hkind, Rules.loaded, hv, Rules.ofKind]
  exact if_pos hvalue

/-! ## Numbers of expressions -/

namespace Expr.IsArithmetic

variable {ty : DataType} {names : List String} {e : Expr} (h : e.IsArithmetic ty names)

include h

theorem ty_eq : e.ty = ty := by
  cases h with
  | char hty => exact hty.symm
  | _ => rfl

section Numbers

variable {env : String → Int}

/-- The number of an expression is one of its type. -/
theorem contains_exact (hty : ty.IsInteger) (henv : ∀ name ∈ names, ty.Contains (env name)) {z : Int}
    (hz : e.exact env = some z) : ty.Contains z := by
  cases h with
  | ident hname =>
    cases hz
    exact henv _ hname
  | int hvalue =>
    cases hz
    exact hvalue
  | char _ hch =>
    cases hz
    exact hch
  | arith _ _ =>
    -- what an operation gives has been reduced
    obtain ⟨a, -, hz⟩ := Option.bind_eq_some_iff.1 hz
    obtain ⟨b, -, hz⟩ := Option.bind_eq_some_iff.1 hz
    obtain ⟨x, -, rfl⟩ := Option.map_eq_some_iff.1 hz
    exact DataType.contains_wrap hty x
  | unary _ =>
    obtain ⟨a, -, rfl⟩ := Option.map_eq_some_iff.1 hz
    exact DataType.contains_wrap hty _

/-- **An expression has no number** exactly if some division has zero as its right side. -/
theorem exact_eq_none : e.exact env = none ↔ e.DividesByZero env := by
  induction h with
  | ident _ | int _ | char _ _ => simp [exact, DividesByZero, nodes]
  | @unary op operand _ ih =>
    have hnodes : (Expr.unary op operand ty).DividesByZero env ↔ operand.DividesByZero env := by
      simp [DividesByZero, nodes]
    rw [hnodes, ← ih, exact, Option.map_eq_none_iff]
  | @arith op lhs rhs _ _ ihl ihr =>
    have hnodes : (Expr.arith op lhs rhs ty).DividesByZero env ↔
        ((op = .div ∨ op = .mod) ∧ rhs.exact env = some 0) ∨ lhs.DividesByZero env ∨
          rhs.DividesByZero env := by
      constructor
      · rintro ⟨op', lhs', rhs', ty', hmem, hzero⟩
        rcases List.mem_cons.1 hmem with heq | hmem
        · cases heq
          exact .inl hzero
        rcases List.mem_append.1 hmem with hmem | hmem
        · exact .inr (.inl ⟨op', lhs', rhs', ty', hmem, hzero⟩)
        · exact .inr (.inr ⟨op', lhs', rhs', ty', hmem, hzero⟩)
      · rintro (hzero | ⟨op', lhs', rhs', ty', hmem, hzero⟩ | ⟨op', lhs', rhs', ty', hmem, hzero⟩)
        · exact ⟨op, lhs, rhs, ty, List.mem_cons_self, hzero⟩
        · exact ⟨op', lhs', rhs', ty', List.mem_cons_of_mem _ (List.mem_append_left _ hmem), hzero⟩
        · exact ⟨op', lhs', rhs', ty', List.mem_cons_of_mem _ (List.mem_append_right _ hmem), hzero⟩
    rw [hnodes, ← ihl, ← ihr, exact]
    -- the left side is first, and the division comes last
    cases lhs.exact env with
    | none => simp
    | some a =>
      cases rhs.exact env with
      | none => simp
      | some b => simpa using Arith.exact_eq_none

end Numbers

/-! ## Meanings of expressions -/

/-- **The meaning of an expression is the word of its number**, in locals that hold the words of the
variables. -/
theorem value_eq {env : String → Int} {c : ClassFile} {W : Rules} {L : Array Value} {σ : Names}
    (hty : ty.IsInteger) (henv : ∀ name ∈ names, ty.Contains (env name))
    (hvars : ∀ name ∈ names, ∃ s, σ.look name = some s ∧ s.ty = ty ∧
      L[s.slot]? = some (ty.represent (env name)).toValue)
    (hhelper : ∀ n ∈ e.nodes, n.helper? ≠ some (c.name?.getD "")) :
    (meaning c W L σ e).value =
      W.divided ((e.exact env).map fun z => (ty.represent z).toValue) := by
  induction h with
  | @ident name hname =>
    obtain ⟨s, hs, hsty, hv⟩ := hvars name hname
    exact value_ident hty hs hsty hv
  | @int value hvalue =>
    show pure (literalValue? value ty) = pure (ty.represent value.toInt).toValue
    refine congrArg pure ?_
    unfold literalValue? DataType.represent
    cases ty.isLong with
    | true => exact congrArg Value.long (Int64.ofInt_toInt value).symm
    | false =>
      have hint : value.toInt32 = Int32.ofInt value.toInt := by
        rw [← Int64.toInt32_ofInt, Int64.ofInt_toInt]
      exact congrArg Value.int hint
  | @char ch hch hcontains =>
    subst hch
    rfl
  | @unary op operand ho ih =>
    have ih := ih fun n hn => hhelper n (List.mem_cons_of_mem _ hn)
    show unaryMeaning W op operand.ty ty (meaning c W L σ operand).value = _
    rw [ho.ty_eq, ih, exact]
    cases operand.exact env with
    | none => rfl
    | some a =>
      have hunary := W.unary_number ty op hty.isNumber (ty.isLong_represent a)
      rw [op.onNumber_represent hty] at hunary
      exact hunary
  | @arith op lhs rhs hl hr ihl ihr =>
    have ihl := ihl fun n hn => hhelper n (List.mem_cons_of_mem _ (List.mem_append_left _ hn))
    have ihr := ihr fun n hn => hhelper n (List.mem_cons_of_mem _ (List.mem_append_right _ hn))
    show arithMeaning c W op lhs.ty rhs.ty ty (meaning c W L σ lhs).value
      (meaning c W L σ rhs).value = _
    rw [hl.ty_eq, hr.ty_eq, ihl, ihr, exact]
    -- the left operand comes first: if it divides by zero, the right one does not matter
    cases hx : lhs.exact env with
    | none => rfl
    | some a =>
      obtain ⟨v, hv⟩ := W.exists_widened hty.isNumber (ty.isLong_represent a) ty.numberKind
      cases hy : rhs.exact env with
      | none =>
        show (W.widened ty ty.numberKind (ty.represent a).toValue >>= fun _ =>
          W.fails .divisionByZero : Spec Value) = W.fails .divisionByZero
        rw [hv]
        rfl
      | some b =>
        have harith := W.arith_numbers (c := c) op (hhelper _ (Expr.mem_nodes_self _)) hty.isNumber
          hty.isNumber (ty.isLong_represent a) (ty.isLong_represent b)
        rw [Arith.onNumbers_represent hty (hl.contains_exact hty henv hx)
          (hr.contains_exact hty henv hy)] at harith
        refine harith.trans ?_
        show _ = W.divided ((op.exact ty a b).map _)
        cases op.exact ty a b <;> rfl

end Expr.IsArithmetic

/-! ## Functions -/

/-- Parameters of one type are where the words of their numbers are. -/
theorem HoldsArguments.look {l : Locals} {L : Array Value} {params : List Param} {ty : DataType}
    {env : String → Int} (hparams : ∀ q ∈ params, q.ty = ty)
    (h : HoldsArguments l L params (params.map fun q => (ty.represent (env q.name)).toValue)) :
    ∀ name ∈ params.map (·.name), ∃ s, l.find? name = some s ∧ s.ty = ty ∧
      L[s.slot]? = some (ty.represent (env name)).toValue := by
  rintro name hname
  obtain ⟨q, hq, rfl⟩ := List.mem_map.1 hname
  obtain ⟨s, hs, hty, hv⟩ := List.forall₂_same.1 (List.forall₂_map_right_iff.1 h) q hq
  exact ⟨s, hs, hty.trans (hparams q hq), hv⟩

/-- The words of numbers have the kinds of parameters of one integer type. -/
theorem haveKinds_represent {params : List Param} {ty : DataType} (hty : ty.IsInteger)
    (hparams : ∀ q ∈ params, q.ty = ty) (env : String → Int) :
    HaveKinds ((params.map (·.ty)).filterMap DataType.kind?)
      (params.map fun q => (ty.represent (env q.name)).toValue) := by
  have htypes : ∀ ty' ∈ params.map (·.ty), ty'.IsNumber := by
    rintro _ hty'
    obtain ⟨q, hq, rfl⟩ := List.mem_map.1 hty'
    exact hparams q hq ▸ hty.isNumber
  have hnumbers : NumbersFor (params.map (·.ty)) (params.map fun q => ty.represent (env q.name)) :=
    List.forall₂_map_left_iff.2 (List.forall₂_map_right_iff.2 (List.forall₂_same.2 fun q hq => by
      rw [hparams q hq]
      exact ty.isLong_represent _))
  have hkinds := haveKinds_numbers htypes hnumbers
  rwa [List.map_map] at hkinds

/-- **Arithmetic is exact modulo the width of the type**. A function of parameters of an integer type
that returns arithmetic of the type answers the number of the expression, which is one of the type, or
fails because of a division by zero, which happens exactly if some division has zero as its right side.
The class must not be the one of the library that the divisions need. -/
theorem answers_exact {options : Options} {imports : List Callable} {p : Program} {c : ClassFile}
    (himports : ∀ i ∈ imports, i.methodRef = none)
    (hc : (compileProgram options imports p).result = .ok c) {f : FunDef} (hf : f ∈ p.functions)
    {ty : DataType} (hty : ty.IsInteger) (hparams : ∀ q ∈ f.params, q.ty = ty)
    (hreturn : f.returnType = ty) {e : Expr} (hbody : f.body = [.ret (some e)])
    (he : e.IsArithmetic ty (f.params.map (·.name)))
    (hhelper : ∀ n ∈ e.nodes, n.helper? ≠ some p.name) (env : String → Int)
    (henv : ∀ q ∈ f.params, ty.Contains (env q.name)) {this : Option Value}
    (hthis : this.isSome = !f.isStatic) :
    c.Answers f this (f.params.map fun q => (ty.represent (env q.name)).toValue)
        ((e.exact env).elim (.error .divisionByZero) fun z => .ok (some (ty.represent z).toValue)) ∧
      (∀ z, e.exact env = some z → ty.Contains z) ∧
      (e.exact env = none ↔ e.DividesByZero env) := by
  obtain ⟨table, h⟩ := compiled_of_ok himports hc
  have hrange : ∀ name ∈ f.params.map (·.name), ty.Contains (env name) := by
    rintro _ hname
    obtain ⟨q, hq, rfl⟩ := List.mem_map.1 hname
    exact henv q hq
  refine ⟨?_, fun z hz => he.contains_exact hty hrange hz, he.exact_eq_none⟩
  have hkind : f.returnType.kind? = some ty.numberKind := by rw [hreturn, hty.isNumber.kind?]
  have hown : ∀ n ∈ e.nodes, n.helper? ≠ some (c.name?.getD "") := by
    rwa [h.name?_eq, Option.getD_some]
  have hanswers := h.answers_return hf hthis (haveKinds_represent hty hparams env) hbody
    (he.ty_eq.trans hreturn.symm) hkind
    (x := (e.exact env).map fun z => (ty.represent z).toValue)
    (by
      rintro v hv
      obtain ⟨z, -, rfl⟩ := Option.map_eq_some_iff.1 hv
      exact Carries.hasKind ⟨rfl, ty.isLong_represent z⟩)
    (fun W l L hholds => he.value_eq hty hrange (hholds.look hparams) hown)
  cases hexact : e.exact env with
  | none => rwa [hexact] at hanswers
  | some z => rwa [hexact] at hanswers

/-! ## Arithmetic can be lowered -/

theorem DataType.Contains.hasLiteral {ty : DataType} (hty : ty.IsInteger) {v : Int64}
    (hv : ty.Contains v.toInt) : ty.HasLiteral v := by
  unfold HasLiteral
  by_cases hlong : ty.isLong = true
  · exact .inl hlong
  have hbits : ty.wordBits = 32 := by simp [wordBits, hlong]
  cases hneeds : ty.needsUnsignedOps with
  | false =>
    obtain ⟨hlow, hhigh⟩ := hbits ▸ hv.signed hty hneeds
    exact .inr (.inl ⟨by omega, by omega⟩)
  | true =>
    have hunsigned := isUnsigned_of_needsUnsignedOps hneeds
    obtain ⟨hlow, hhigh⟩ := hbits ▸ hv.natural hunsigned
    exact .inr (.inr ⟨hunsigned, hlow, by omega⟩)

/-- **Arithmetic can be lowered** if there is room: a node takes at most seven slots of the pool, nine
bytes of code and two words of the stack. -/
theorem Expr.IsArithmetic.advances {ty : DataType} {names : List String} {e : Expr}
    (h : e.IsArithmetic ty names) (hty : ty.IsInteger) {l : Locals} {σ : Scope} {d : Nat}
    (hvars : ∀ name ∈ names, ∃ s, l.find? name = some s ∧ s.ty = ty ∧
      s.slot + ty.numberKind.words ≤ maxFrameWords)
    (hdepth : d + 2 * e.nodes.length + 2 ≤ maxFrameWords) :
    Advances l (7 * e.nodes.length) (9 * e.nodes.length) d (d + ty.numberKind.words)
      (lower σ e).value := by
  have hwords : ty.numberKind.words ≤ 2 := by cases ty.numberKind <;> decide
  induction h generalizing d with
  | @ident name hname =>
    obtain ⟨s, hs, hsty, hfits⟩ := hvars name hname
    have hkind := hty.isNumber.kind?
    exact (identValue_advances hs (hsty ▸ hkind) hkind hfits (by omega)).mono (Nat.zero_le _)
      (by decide : 4 ≤ 9)
  | @int value hvalue =>
    exact (literalValue_advances hty.isNumber (hvalue.hasLiteral hty) (by omega)).mono
      (by decide : 2 ≤ 7) (by decide : 3 ≤ 9)
  | @char ch hch hcontains =>
    subst hch
    have hunit : ch.toNat ≤ 0xffff := by
      obtain ⟨-, hlt⟩ : (0 : Int) ≤ ch.toNat ∧ (ch.toNat : Int) < 2 ^ 16 := hcontains
      omega
    have hpush : (lower σ (.char ch)).value = pushInt (Int32.ofNat ch.toNat) := if_pos hunit
    rw [hpush]
    exact (pushInt_advances _ (by omega)).mono (by decide : 1 ≤ 7) (by decide : 3 ≤ 9)
  | @unary op operand ho ih =>
    simp only [Expr.nodes, List.length_cons] at hdepth ⊢
    exact (unaryValue_advances hty.isNumber ho.ty_eq (by omega) (ih (by omega))).mono (by omega)
      (by omega)
  | @arith op lhs rhs hl hr ihl ihr =>
    simp only [Expr.nodes, List.length_cons, List.length_append] at hdepth ⊢
    exact (arithValue_advances hty.isNumber hl.ty_eq hr.ty_eq (by omega) (ihl (by omega))
      (ihr (by omega))).mono (by omega) (by omega)

/-- The parameters that are numbers have slots within the frame. -/
theorem Locals.exists_number_slot {f : FunDef} {l : Locals}
    (hl : Locals.ofFunction f f.reservedSlots = .ok l) {q : Param} (hq : q ∈ f.params)
    (hty : q.ty.IsNumber) : ∃ s, l.find? q.name = some s ∧ s.ty = q.ty ∧
      s.slot + q.ty.numberKind.words ≤ maxFrameWords := by
  obtain ⟨hsound, hplaced, -⟩ := Locals.ofFunction_ok hl
  obtain ⟨storage, slot, hs⟩ := hplaced.find? hq
  have hwithin : slot + q.ty.width ≤ l.maxLocals := hsound.within _ (Locals.mem_of_find? hs).1
  have hmax := hsound.maxLocals_le
  have hwidth : q.ty.width = q.ty.numberKind.words := by rw [DataType.width, hty.kind?]
  exact ⟨_, hs, rfl, by dsimp only; omega⟩

/-- **A program of one function that returns arithmetic has a class** if there is room for it. -/
theorem compileProgram_arithmetic {options : Options} {p : Program} {f : FunDef} {l : Locals}
    {ty : DataType} {e : Expr} (hp : p.Single options f (7 * e.nodes.length))
    (hl : Locals.ofFunction f f.reservedSlots = .ok l) (hty : ty.IsInteger)
    (hparams : ∀ q ∈ f.params, q.ty = ty) (hreturn : f.returnType = ty)
    (hbody : f.body = [.ret (some e)]) (he : e.IsArithmetic ty (f.params.map (·.name)))
    (hbytes : 9 * e.nodes.length + 2 ≤ maxCodeLength) :
    ∃ c, (compileProgram options [] p).result = .ok c := by
  have hkind := hty.isNumber.kind?
  have hvars : ∀ name ∈ f.params.map (·.name), ∃ s, l.find? name = some s ∧ s.ty = ty ∧
      s.slot + ty.numberKind.words ≤ maxFrameWords := by
    intro name hname
    obtain ⟨q, hq, rfl⟩ := List.mem_map.1 hname
    have hslot := Locals.exists_number_slot hl hq (by rw [hparams q hq]; exact hty.isNumber)
    rwa [hparams q hq] at hslot
  have hdepth : 0 + 2 * e.nodes.length + 2 ≤ maxFrameWords := by
    have : maxCodeLength = maxFrameWords := rfl
    omega
  have hadvances (table : CallTable) : Advances l (7 * e.nodes.length) (9 * e.nodes.length) 0
      ty.numberKind.words (lower ⟨table, f⟩ e).value := by
    have hadvances := he.advances (σ := ⟨table, f⟩) hty hvars hdepth
    rwa [Nat.zero_add] at hadvances
  exact hp.compiles (FunDef.lowers_return hl hbody (he.ty_eq.trans hreturn.symm)
    (hreturn.symm ▸ hkind) (by omega) hadvances)

/-! ## The smallest number -/

/-- `a / b >> b` on bytes. -/
def quotientExpr : Expr :=
  .arith .shr
    (.arith .div (.ident "a" (.int .w8 false)) (.ident "b" (.int .w8 false)) (.int .w8 false))
    (.ident "b" (.int .w8 false)) (.int .w8 false)

/-- `quotient(a, b)` divides, and shifts by the divisor. -/
def quotientFunction : FunDef where
  name := "quotient"
  params := [⟨"a", .int .w8 false⟩, ⟨"b", .int .w8 false⟩]
  returnType := .int .w8 false
  body := [.ret (some quotientExpr)]

/-- A program of one function on bytes. -/
def quotient : Program := ⟨"Quotient", [quotientFunction]⟩

/-- The parameters of `quotient`. -/
def quotientLocals : Locals :=
  ⟨"quotient", [⟨"b", .int .w8 false, .integer, 1, 1⟩, ⟨"a", .int .w8 false, .integer, 0, 1⟩],
    2, 2, 2, 2⟩

theorem quotientExpr_isArithmetic : quotientExpr.IsArithmetic (.int .w8 false) ["a", "b"] :=
  .arith (.arith (.ident (by simp)) (.ident (by simp))) (.ident (by simp))

/-- There is a class of `quotient`. -/
theorem compileProgram_quotient : ∃ c, (compileProgram {} [] quotient).result = .ok c := by
  have htexts : ShortText "Quotient" ∧ ShortText Descriptor.objectClass ∧
      quotientFunction.ShortTexts := by
    unfold FunDef.ShortTexts ShortText
    decide
  have hlocals : Locals.ofFunction quotientFunction quotientFunction.reservedSlots =
      .ok quotientLocals := rfl
  exact compileProgram_arithmetic ⟨rfl, htexts.1, htexts.2.1, htexts.2.2, by decide⟩ hlocals
    (DataType.isInteger_int _ _) (by simp [quotientFunction]) rfl rfl quotientExpr_isArithmetic
    (by decide)

/-- The smallest byte divided by minus one is itself, and shifted by minus one, which is 31 modulo 32,
it is minus one. -/
theorem answers_exact_quotient :
    ∃ c, (compileProgram {} [] quotient).result = .ok c ∧
      c.Answers quotientFunction none [.int (-128), .int (-1)] (.ok (some (.int (-1)))) ∧
      c.Answers quotientFunction none [.int 7, .int 0] (.error .divisionByZero) := by
  obtain ⟨c, hc⟩ := compileProgram_quotient
  have hanswers (a b : Int) (ha : DataType.Contains (.int .w8 false) a)
      (hb : DataType.Contains (.int .w8 false) b) :=
    answers_exact (fun i hi => by cases hi) hc (List.mem_singleton.2 rfl)
      (DataType.isInteger_int .w8 false) (by simp [quotientFunction]) rfl rfl
      quotientExpr_isArithmetic (by decide) (fun name => if name = "a" then a else b)
      (by simpa [quotientFunction] using ⟨ha, hb⟩)
      (rfl : (none : Option Value).isSome = !quotientFunction.isStatic)
  have hsmallest := (hanswers (-128) (-1) (by decide) (by decide)).1
  have hzero := (hanswers 7 0 (by decide) (by decide)).1
  have hexact : quotientExpr.exact (fun name => if name = "a" then -128 else -1) = some (-1) := by
    decide
  have hnone : quotientExpr.exact (fun name => if name = "a" then 7 else 0) = none := by decide
  rw [hexact] at hsmallest
  rw [hnone] at hzero
  exact ⟨c, hc, hsmallest, hzero⟩

/-! ## A class that hides the library

Methods are looked for in the class itself if it has the name of the class that is asked for. So a class
that is named as the one of the library with the unsigned operations does not find them. -/

/-- `a / b` on unsigned ints. -/
def unsignedQuotientExpr : Expr :=
  .arith .div (.ident "a" (.int .w32 true)) (.ident "b" (.int .w32 true)) (.int .w32 true)

/-- `divide(a, b)` divides without sign. -/
def divideFunction : FunDef where
  name := "divide"
  params := [⟨"a", .int .w32 true⟩, ⟨"b", .int .w32 true⟩]
  returnType := .int .w32 true
  body := [.ret (some unsignedQuotientExpr)]

/-- A program with the name of a class of the library. -/
def hidingProgram : Program := ⟨"java/lang/Integer", [divideFunction]⟩

/-- The parameters of `divide`. -/
def divideLocals : Locals :=
  ⟨"divide", [⟨"b", .int .w32 true, .integer, 1, 1⟩, ⟨"a", .int .w32 true, .integer, 0, 1⟩],
    2, 2, 2, 2⟩

theorem unsignedQuotientExpr_isArithmetic :
    unsignedQuotientExpr.IsArithmetic (.int .w32 true) ["a", "b"] :=
  .arith (.ident (by simp)) (.ident (by simp))

/-- There is a class of the program. -/
theorem compileProgram_hiding : ∃ c, (compileProgram {} [] hidingProgram).result = .ok c := by
  have htexts : ShortText "java/lang/Integer" ∧ ShortText Descriptor.objectClass ∧
      divideFunction.ShortTexts := by
    unfold FunDef.ShortTexts ShortText
    decide
  have hlocals : Locals.ofFunction divideFunction divideFunction.reservedSlots =
      .ok divideLocals := rfl
  exact compileProgram_arithmetic ⟨rfl, htexts.1, htexts.2.1, htexts.2.2, by decide⟩ hlocals
    (DataType.isInteger_int _ _) (by simp [divideFunction]) rfl rfl
    unsignedQuotientExpr_isArithmetic (by decide)

/-- Six by three is two, but the class that hides the library does not answer so: it has no method for
the division. -/
theorem not_answers_exact_hiding :
    ∃ c, (compileProgram {} [] hidingProgram).result = .ok c ∧
      unsignedQuotientExpr.exact (fun name => if name = "a" then 6 else 3) = some 2 ∧
      c.Answers divideFunction none [.int 6, .int 3]
        (.error (.noSuchMethod "divideUnsigned" "(II)I")) ∧
      ¬ c.Answers divideFunction none [.int 6, .int 3] (.ok (some (.int 2))) := by
  obtain ⟨c, hc⟩ := compileProgram_hiding
  obtain ⟨table, h⟩ := compiled_of_ok (fun i hi => by cases hi) hc
  have hmissing : c.find? "divideUnsigned" "(II)I" = none :=
    h.find?_eq_none (by decide) (by simp [hidingProgram, divideFunction])
  let env (name : String) : Int := if name = "a" then 6 else 3
  have hty := DataType.isInteger_int .w32 true
  have hparams : ∀ q ∈ divideFunction.params, q.ty = .int .w32 true := by simp [divideFunction]
  have howner : "java/lang/Integer" = c.name?.getD "" := by rw [h.name?_eq]; rfl
  have hanswers : c.Answers divideFunction none [.int 6, .int 3]
      (.error (.noSuchMethod "divideUnsigned" "(II)I")) := by
    refine h.answers (List.mem_singleton.2 rfl) rfl (haveKinds_represent hty hparams env)
      fun l L out _ hholds => ?_
    rw [selectBody_return rfl]
    apply ret_wp rfl
    let W := answerRules c (some (.error (.noSuchMethod "divideUnsigned" "(II)I"), out))
    have hholds : HoldsArguments l L divideFunction.params (divideFunction.params.map fun q =>
        (DataType.represent (.int .w32 true) (env q.name)).toValue) := hholds
    have hoperand {name : String} (hname : name ∈ ["a", "b"]) :
        (meaning c W L (l.names table divideFunction) (.ident name (.int .w32 true))).value =
          pure (DataType.represent (.int .w32 true) (env name)).toValue := by
      obtain ⟨s, hs, hsty, hv⟩ := hholds.look hparams name hname
      exact value_ident hty hs hsty hv
    show (arithMeaning c W .div (.int .w32 true) (.int .w32 true) (.int .w32 true)
      (meaning c W L (l.names table divideFunction) (.ident "a" (.int .w32 true))).value
      (meaning c W L (l.names table divideFunction) (.ident "b" (.int .w32 true))).value >>= _) _ _
    rw [hoperand (by simp), hoperand (by simp)]
    -- the call is one of the class itself, and ends the run
    exact libraryValue_missing (unsignedInt "divideUnsigned" "(II)I") (.int 6) (.int 3)
      Rules.parameters?_unsignedInts howner hmissing out _
  exact ⟨c, hc, by decide, hanswers, fun hok => by cases hanswers.unique hok⟩

end ClassFoundry
