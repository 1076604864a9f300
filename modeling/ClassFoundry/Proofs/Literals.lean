import ClassFoundry.Proofs.ExactArithmetic

/-!
# Integer literals

A literal of a 64-bit type stands for itself. One of a smaller type is refused if it does not fit a word
of 32 bits. Otherwise the word holds it, also if the type is narrower than the word and the literal is
outside of its range: then the word is not that of any number of the type.

## Main results

* `DataType.represent_eq_iff`: the numbers that one word carries
* `DataType.HasLiteral.exists_represent_iff`: the literals whose words are those of numbers of their type
* `answers_literal`: functions that return a literal
-/

namespace ClassFoundry

namespace DataType

variable {ty : DataType} {v : Int64}

theorem bmod_eq_bmod_iff (m : Nat) (a b : Int) : a.bmod m = b.bmod m ↔ a % m = b % m := by
  constructor
  · intro h
    rw [← Int.bmod_emod, h, Int.bmod_emod]
  · intro h
    rw [← Int.emod_bmod, h, Int.emod_bmod]

/-- **A word carries all numbers of one remainder**. -/
theorem represent_eq_iff (ty : DataType) (a b : Int) :
    ty.represent a = ty.represent b ↔ a % 2 ^ ty.wordBits = b % 2 ^ ty.wordBits := by
  unfold represent wordBits
  cases ty.isLong with
  | true =>
    rw [if_pos rfl, if_pos rfl, if_pos rfl, Number.long.injEq, ← Int64.toInt_inj, Int64.toInt_ofInt,
      Int64.toInt_ofInt]
    exact bmod_eq_bmod_iff ..
  | false =>
    rw [if_neg Bool.false_ne_true, if_neg Bool.false_ne_true, if_neg Bool.false_ne_true,
      Number.int.injEq, ← Int32.toInt_inj, Int32.toInt_ofInt, Int32.toInt_ofInt]
    exact bmod_eq_bmod_iff ..

/-- A word of the size of the type is that of a number of the type. -/
theorem represent_wrap (hbits : 32 ≤ ty.bits) (z : Int) :
    ty.represent (ty.wrap z) = ty.represent z := by
  have hword : ty.wordBits = ty.bits := by
    cases ty with
    | int width unsigned =>
      cases width with
      | w8 | w16 => simp [bits, Width.bits] at hbits
      | w32 | w64 => rfl
    | _ => simp [bits] at hbits
  rw [represent_eq_iff, hword]
  exact ty.wrap_emod z

/-- A word holds no number of a narrower type but the literal itself. -/
theorem HasLiteral.eq_of_represent (hty : ty.IsInteger) (hv : ty.HasLiteral v) (hbits : ty.bits < 32)
    {z : Int} (hz : ty.Contains z) (h : ty.represent v.toInt = ty.represent z) : v.toInt = z := by
  obtain ⟨hlong, hneeds⟩ : ty.isLong = false ∧ ty.needsUnsignedOps = false := by
    cases ty with
    | int width unsigned =>
      cases width with
      | w8 | w16 => cases unsigned <;> exact ⟨rfl, rfl⟩
      | w32 | w64 => simp [bits, Width.bits] at hbits
    | char => exact ⟨rfl, rfl⟩
    | _ => cases hty
  have hword : ty.wordBits = 32 := by simp [wordBits, hlong]
  have hsigned := hz.signed hty hneeds
  rw [represent_eq_iff, hword] at h
  rw [hword] at hsigned
  rcases hv with hlong' | hfits | ⟨hunsigned, hlow, hhigh⟩
  · rw [hlong] at hlong'
    cases hlong'
  · omega
  · have hnatural := hz.natural hunsigned
    omega

/-- **The literals whose words are those of numbers of their type**: all that the type has if it fills a
word, and else those of its range. -/
theorem HasLiteral.exists_represent_iff (hty : ty.IsInteger) (hv : ty.HasLiteral v) :
    (∃ z, ty.Contains z ∧ z % 2 ^ ty.bits = v.toInt % 2 ^ ty.bits ∧
      ty.represent v.toInt = ty.represent z) ↔ 32 ≤ ty.bits ∨ ty.Contains v.toInt := by
  constructor
  · rintro ⟨z, hz, -, h⟩
    by_cases hbits : 32 ≤ ty.bits
    · exact .inl hbits
    · rw [hv.eq_of_represent hty (Nat.lt_of_not_le hbits) hz h]
      exact .inr hz
  · rintro (hbits | hcontains)
    · exact ⟨ty.wrap v.toInt, contains_wrap hty _, ty.wrap_emod _, (represent_wrap hbits _).symm⟩
    · exact ⟨v.toInt, hcontains, rfl, rfl⟩

end DataType

/-- The value of a literal is the word of its number. -/
theorem literalValue?_eq (v : Int64) (ty : DataType) :
    literalValue? v ty = (ty.represent v.toInt).toValue := by
  unfold literalValue? DataType.represent
  cases ty.isLong with
  | true => rw [if_pos rfl, if_pos rfl, Int64.ofInt_toInt, Number.toValue]
  | false =>
    rw [if_neg Bool.false_ne_true, if_neg Bool.false_ne_true, Int32.ofInt_int64ToInt, Number.toValue]

/-! ## Functions that return a literal -/

section Functions

variable {options : Options} {p : Program} {f : FunDef} {l : Locals} {ty : DataType} {v : Int64}

/-- **A literal that its type has** can be compiled. -/
theorem compileProgram_literal (hp : p.Single options f 2)
    (hl : Locals.ofFunction f f.reservedSlots = .ok l) (hty : ty.IsNumber)
    (hreturn : f.returnType = ty) (hbody : f.body = [.ret (some (.int v ty))])
    (hv : ty.HasLiteral v) : ∃ c, (compileProgram options [] p).result = .ok c := by
  have hadvances (table : CallTable) : Advances l 2 3 0 ty.numberKind.words
      (lower ⟨table, f⟩ (.int v ty)).value := by
    have hliteral := literalValue_advances (l := l) (d := 0) hty hv (by decide)
    rwa [Nat.zero_add] at hliteral
  exact hp.compiles (FunDef.lowers_return hl hbody hreturn.symm (hreturn.symm ▸ hty.kind?)
    (by decide) hadvances)

/-- **A literal that its type does not have** is refused. -/
theorem compileProgram_literal_refused (hp : p.Single options f 2)
    (hl : Locals.ofFunction f f.reservedSlots = .ok l) (hty : ty.IsNumber)
    (hreturn : f.returnType = ty) (hbody : f.body = [.ret (some (.int v ty))])
    (hv : ¬ ty.HasLiteral v) :
    (compileProgram options [] p).result = .error (.violation (.literalTooLarge v ty)) :=
  hp.refused (FunDef.refused_return hl hbody hreturn.symm (hreturn.symm ▸ hty.kind?) fun _ s =>
    literalValue_refuses hty hv s)

/-- All literals of a class are ones that their types have. -/
theorem Compiled.hasLiteral {imports : List Callable} {c : ClassFile} {table : CallTable}
    (h : Compiled options imports p c table) (hf : f ∈ p.functions) (hty : ty.IsNumber)
    (hreturn : f.returnType = ty) (hbody : f.body = [.ret (some (.int v ty))]) :
    ty.HasLiteral v := by
  by_contra hv
  obtain ⟨method, -, hm⟩ := h.find?_function hf
  obtain ⟨b, start, body, s, -, hlower, -⟩ := hm.lowered
  rw [lowerFunction_eq hbody hreturn.symm (hreturn.symm ▸ hty.kind?)] at hlower
  obtain ⟨u, t, hvalue, -⟩ := bind_ok.1 hlower
  cases hvalue.symm.trans (literalValue_refuses hty hv _)

/-- **Integer literals**. A function that returns a literal answers the word of the literal. It is the
word of a number of the type that is congruent to the literal if the type fills a word, or if the literal
is in the range of the type. A program of such a function is refused if the type does not have the
literal, but every type has the literals in its range. -/
theorem answers_literal (options : Options) {imports : List Callable}
    (himports : ∀ i ∈ imports, i.methodRef = none) (hf : f ∈ p.functions) {width : Width}
    {unsigned : Bool} (hty : ty = .int width unsigned) (hreturn : f.returnType = ty) (hbody : f.body = [.ret (some (.int v ty))])
    {this : Option Value} (hthis : this.isSome = !f.isStatic) {values : List Value}
    (hvalues : HaveKinds ((f.params.map (·.ty)).filterMap DataType.kind?) values) :
    (∀ c, (compileProgram options imports p).result = .ok c →
      c.Answers f this values (.ok (some (ty.represent v.toInt).toValue)) ∧
        ((∃ z, ty.Contains z ∧ z % 2 ^ ty.bits = v.toInt % 2 ^ ty.bits ∧
          ty.represent v.toInt = ty.represent z) ↔ 32 ≤ ty.bits ∨ ty.Contains v.toInt)) ∧
    (∀ l, p.Single options f 2 → Locals.ofFunction f f.reservedSlots = .ok l →
      (ty.HasLiteral v → ∃ c, (compileProgram options [] p).result = .ok c) ∧
      (¬ ty.HasLiteral v →
        (compileProgram options [] p).result = .error (.violation (.literalTooLarge v ty)))) ∧
    (ty.Contains v.toInt → ty.HasLiteral v) := by
  have hinteger : ty.IsInteger := hty ▸ DataType.isInteger_int width unsigned
  have hnumber := hinteger.isNumber
  have hkind : f.returnType.kind? = some ty.numberKind := by rw [hreturn, hnumber.kind?]
  refine ⟨?_, ?_, ?_⟩
  · intro c hc
    obtain ⟨table, h⟩ := compiled_of_ok himports hc
    have hv := h.hasLiteral hf hnumber hreturn hbody
    refine ⟨?_, hv.exists_represent_iff hinteger⟩
    exact h.answers_return hf hthis hvalues hbody hreturn.symm hkind
      (x := some (ty.represent v.toInt).toValue)
      (by
        rintro _ ⟨⟩
        exact Carries.hasKind ⟨rfl, ty.isLong_represent _⟩)
      (fun W l L _ => congrArg pure (literalValue?_eq v ty))
  · intro l hp hl
    exact ⟨compileProgram_literal hp hl hnumber hreturn hbody,
      compileProgram_literal_refused hp hl hnumber hreturn hbody⟩
  · intro hcontains
    exact hcontains.hasLiteral hinteger

end Functions

/-- A function that returns a literal. -/
def literalFunction (v : Int64) (ty : DataType) : FunDef where
  name := "literal"
  params := []
  returnType := ty
  body := [.ret (some (.int v ty))]

/-- A program of one literal. -/
def literalProgram (v : Int64) (ty : DataType) : Program := ⟨"Literal", [literalFunction v ty]⟩

/-- The largest number of 32 bits without sign is carried by the word of minus one. A byte of 300 is not
refused, and its word is not that of any byte. An int of `2 ^ 31` is refused. -/
theorem answers_literal_words :
    (∃ c, (compileProgram {} [] (literalProgram 4294967295 (.int .w32 true))).result = .ok c ∧
      c.Answers (literalFunction 4294967295 (.int .w32 true)) none [] (.ok (some (.int (-1)))) ∧
      ∃ z, DataType.Contains (.int .w32 true) z ∧ z % 2 ^ 32 = 4294967295 % 2 ^ 32 ∧
        .int (-1) = DataType.represent (.int .w32 true) z) ∧
    (∃ c, (compileProgram {} [] (literalProgram 300 (.int .w8 false))).result = .ok c ∧
      c.Answers (literalFunction 300 (.int .w8 false)) none [] (.ok (some (.int 300))) ∧
      ¬ ∃ z, DataType.Contains (.int .w8 false) z ∧ z % 2 ^ 8 = 300 % 2 ^ 8 ∧
        .int 300 = DataType.represent (.int .w8 false) z) ∧
    (compileProgram {} [] (literalProgram 2147483648 (.int .w32 false))).result =
      .error (.violation (.literalTooLarge 2147483648 (.int .w32 false))) := by
  have hnames : ShortText "Literal" ∧ ShortText ({} : Options).superClass := by
    unfold ShortText
    decide +kernel
  have htexts : (literalFunction 4294967295 (.int .w32 true)).ShortTexts ∧
      (literalFunction 300 (.int .w8 false)).ShortTexts ∧
      (literalFunction 2147483648 (.int .w32 false)).ShortTexts := by
    unfold FunDef.ShortTexts ShortText
    decide +kernel
  have himports : ∀ i ∈ ([] : List Callable), i.methodRef = none := by simp
  have hliteral (v : Int64) (width : Width) (unsigned : Bool) :=
    answers_literal {} (p := literalProgram v (.int width unsigned)) himports
      (List.mem_singleton.2 rfl) rfl rfl rfl (rfl : (none : Option Value).isSome = false)
      (.nil : HaveKinds [] [])
  have hsingle (v : Int64) (width : Width) (unsigned : Bool)
      (hf : (literalFunction v (.int width unsigned)).ShortTexts) :
      (literalProgram v (.int width unsigned)).Single {} (literalFunction v (.int width unsigned)) 2 :=
    ⟨rfl, hnames.1, hnames.2, hf, by decide⟩
  refine ⟨?_, ?_, ?_⟩
  · obtain ⟨hanswers, hcompiles, -⟩ := hliteral 4294967295 .w32 true
    obtain ⟨c, hc⟩ := (hcompiles _ (hsingle _ _ _ htexts.1) rfl).1 (by decide)
    obtain ⟨hanswer, hiff⟩ := hanswers c hc
    have hword : DataType.represent (.int .w32 true) (4294967295 : Int64).toInt = .int (-1) := by
      decide
    rw [hword] at hanswer hiff
    exact ⟨c, hc, hanswer, hiff.2 (.inl (by decide))⟩
  · obtain ⟨hanswers, hcompiles, -⟩ := hliteral 300 .w8 false
    obtain ⟨c, hc⟩ := (hcompiles _ (hsingle _ _ _ htexts.2.1) rfl).1 (by decide)
    obtain ⟨hanswer, hiff⟩ := hanswers c hc
    have hword : DataType.represent (.int .w8 false) (300 : Int64).toInt = .int 300 := by decide
    rw [hword] at hanswer hiff
    exact ⟨c, hc, hanswer, fun h => absurd (hiff.1 h) (by decide)⟩
  · obtain ⟨-, hcompiles, -⟩ := hliteral 2147483648 .w32 false
    exact (hcompiles _ (hsingle _ _ _ htexts.2.2) rfl).2 (by decide)

end ClassFoundry
