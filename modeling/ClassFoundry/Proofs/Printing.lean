import ClassFoundry.Proofs.ExactArithmetic

/-!
# Printed integers

There are methods that print ints and longs, but none for the other integer types. A number of one of
those goes to a method that prints a type with all its values, if there is one. For the numbers of 64
bits without sign there is none: they are printed as longs, and from `2 ^ 63` on a negative number is
shown.

## Main definitions

* `DataType.shown`: the number that is shown for a number of a type

## Main results

* `DataType.text_represent`: the text of a number is that of the number that is shown
* `callMeaning_print`: a call that prints sends the number to the standard output
* `FunDef.lowers_print`: a function that prints a number can be lowered
* `prints_integer`: functions that print their parameter
-/

namespace ClassFoundry

/-! ## Texts -/

namespace DataType

/-- **The number that is shown** for a number of an integer type: one of 64 bits without sign is taken
for one with a sign. -/
def shown (ty : DataType) (z : Int) : Int :=
  if ty = .int .w64 true ∧ 2 ^ 63 ≤ z then z - 2 ^ 64 else z

theorem shown_eq_iff (ty : DataType) (z : Int) :
    ty.shown z = z ↔ ¬ (ty = .int .w64 true ∧ 2 ^ 63 ≤ z) := by
  by_cases h : ty = .int .w64 true ∧ 2 ^ 63 ≤ z
  · rw [shown, if_pos h]
    exact iff_of_false (by omega) (not_not.2 h)
  · rw [shown, if_neg h]
    exact iff_of_true rfl h

theorem shown_of_ne {ty : DataType} (hty : ty ≠ .int .w64 true) (z : Int) : ty.shown z = z :=
  (ty.shown_eq_iff z).2 fun h => hty h.1

variable {width : Width} {unsigned : Bool} {z : Int}

/-- A word of 32 bits is read with its sign, unless the type has all of its bits but no sign. -/
theorem Contains.toInt_word (hz : (int width unsigned).Contains z)
    (hlong : (int width unsigned).isLong = false)
    (hneeds : (int width unsigned).needsUnsignedOps = false) : (Int32.ofInt z).toInt = z := by
  have hbits : (int width unsigned).wordBits = 32 := by simp [wordBits, hlong]
  obtain ⟨hlow, hhigh⟩ := hbits ▸ hz.signed (isInteger_int ..) hneeds
  exact toInt_ofInt_of_range (w := 31) hlow hhigh

/-- **The text of a number** is that of the number that is shown. -/
theorem text_represent (hz : (int width unsigned).Contains z) :
    ((int width unsigned).represent z).text (int width unsigned) =
      toString ((int width unsigned).shown z) := by
  cases width with
  | w8 | w16 =>
    rw [shown_of_ne (by simp)]
    cases unsigned <;> exact congrArg toString (hz.toInt_word rfl rfl)
  | w32 =>
    rw [shown_of_ne (by simp)]
    cases unsigned with
    | false => exact congrArg toString (hz.toInt_word rfl rfl)
    | true =>
      -- the word is extended by zeros before it is printed
      obtain ⟨hlow, hhigh⟩ : 0 ≤ z ∧ z < 2 ^ 32 := hz
      lift z to Nat using hlow
      show toString (BitVec.ofInt 32 z).toNat = toString (z : Int)
      rw [toNat_ofInt_of_range (Int.natCast_nonneg z) hhigh]
      rfl
  | w64 =>
    apply congrArg toString
    show (BitVec.ofInt 64 z).toInt = _
    cases unsigned with
    | false =>
      obtain ⟨hlow, hhigh⟩ : -2 ^ 63 ≤ z ∧ z < 2 ^ 63 := hz
      rw [shown_of_ne (by simp), toInt_ofInt_of_range (w := 63) hlow hhigh]
    | true =>
      -- no method prints all the words, and the upper half of them is read with a sign
      obtain ⟨hlow, hhigh⟩ : 0 ≤ z ∧ z < 2 ^ 64 := hz
      by_cases hhalf : 2 ^ 63 ≤ z
      · have hword : BitVec.ofInt 64 z = BitVec.ofInt 64 (z - 2 ^ 64) := ofInt_congr (by omega)
        rw [shown, if_pos ⟨rfl, hhalf⟩, hword]
        exact toInt_ofInt_of_range (w := 63) (by omega) (by omega)
      · rw [shown, if_neg fun h => hhalf h.2]
        exact toInt_ofInt_of_range (w := 63) (by omega) (by omega)

end DataType

/-! ## Calls that print -/

section Tables

variable {p : Program} {table : CallTable} {name : String}
  (hfunctions : ∀ g ∈ p.functions, g.name ≠ name)

include hfunctions

/-- A name that neither the program nor its imports use stands for a built-in method. -/
theorem CallTable.resolve_builtin {imports own : List Callable}
    (hentries : table.entries.toList = builtins ++ (imports ++ own))
    (hown : List.Forall₂ (Callable.Registers p.name) p.functions own)
    (himports : ∀ i ∈ imports, i.name ≠ name) (args : List DataType) :
    table.resolve name args = CallTable.withBuiltins.resolve name args := by
  refine CallTable.resolve_append hentries ?_ args
  intro e he
  rcases List.mem_append.1 he with he | he
  · exact himports e he
  · obtain ⟨g, hg, i, rfl⟩ := forall₂_right hown he
    exact hfunctions g hg

theorem Compiled.resolve_builtin {options : Options} {imports : List Callable} {c : ClassFile}
    (h : Compiled options imports p c table) (himports : ∀ i ∈ imports, i.name ≠ name)
    (args : List DataType) :
    table.resolve name args = CallTable.withBuiltins.resolve name args := by
  obtain ⟨own, hentries, hown⟩ := h.entries
  rw [List.append_assoc] at hentries
  exact CallTable.resolve_builtin hfunctions hentries hown himports args

theorem CallTable.Of.resolve_builtin (h : table.Of p) (args : List DataType) :
    table.resolve name args = CallTable.withBuiltins.resolve name args := by
  obtain ⟨own, hentries, hown⟩ := h
  have hentries : table.entries.toList = builtins ++ ([] ++ own) := hentries
  exact CallTable.resolve_builtin hfunctions hentries hown (by simp) args

end Tables

/-- **A call that prints a number** sends it to the standard output, as one of the type that it is
printed as. -/
theorem callMeaning_print {c : ClassFile} {W : Rules} {L : Array Value} {σ : Names} {name : String}
    {e : Expr} (hcallee : σ.callee? name [e.ty] = some (printMethod name e.ty.printed))
    (he : e.ty.IsNumber) {n : Number} (hn : n.isLong = e.ty.isLong)
    (hvalue : (meaning c W L σ e).value = pure n.toValue) :
    callMeaning c W L σ none name (givens c W L σ [e]) =
      W.sends c (printMethod name e.ty.printed).member (.object .standardOutput printStreamClass)
        [(n.convert e.ty e.ty.printed).toValue] := by
  have hpassed : passedMeaning W [((⟨e.ty, (meaning c W L σ e).value⟩ : Given), e.ty.printed)] =
      pure [(n.convert e.ty e.ty.printed).toValue] := by
    simp only [passedMeaning]
    rw [hvalue, Spec.pure_bind, W.converted_number he e.ty.isNumber_printed hn]
    rfl
  simp only [callMeaning, map_ty_givens, List.map_cons, List.map_nil, hcallee]
  show sendMeaning c W (printMethod name e.ty.printed) (.object .standardOutput printStreamClass)
    [((⟨e.ty, (meaning c W L σ e).value⟩ : Given), e.ty.printed)] = _
  rw [sendMeaning, hpassed]
  rfl

/-! ## Functions that print can be lowered -/

/-- The texts of the methods that print, and of the field that they are sent to. -/
theorem shortText_printing : ShortText systemClass ∧ ShortText "out" ∧
    ShortText (Descriptor.ofClass printStreamClass) ∧ ShortText printStreamClass ∧
    ShortText "print" ∧ ShortText "println" ∧
    ∀ ty ∈ printableTypes, ShortText (Descriptor.ofMethod [ty] .void) := by
  unfold ShortText
  decide

section Lowering

variable {table : CallTable} {f : FunDef} {l : Locals} {name : String} {e : Expr} {i : Nat}
  {annotated : DataType}

/-- The code of a call that prints: the field, the number, and the call of the method. -/
theorem lowerCall_print
    (hresolve : table.resolve name [e.ty] = .ok (i, printMethod name e.ty.printed)) :
    lowerCall ⟨table, f⟩ none name [e] annotated = (do
      let field ← Lower.pool (PoolBuilder.internField standardOutput)
      Lower.code (Asm.getStatic field 1)
      valueAs e (lower ⟨table, f⟩ e).value e.ty.printed
      let method ← Lower.pool (PoolBuilder.internMethod (printMethod name e.ty.printed).member)
      Lower.code (Asm.invoke .invokevirtual method (printMethod name e.ty.printed).argWords 0)) := by
  have hcheck : Lower.check (table.resolve name [e.ty]) =
      (pure (i, printMethod name e.ty.printed) : Lower (Nat × Callable)) := by
    rw [hresolve]
    rfl
  simp only [lowerCall, callAny, callFunction, lowerArgs, List.map_cons, List.map_nil, hcheck,
    pure_bind, pushReceiver, printMethod, bind_assoc, pushArguments, List.zip_cons_cons,
    List.zip_nil_right, Callable.returnWords, Bool.false_eq_true, if_false, DataType.kind?,
    bind_pure_unit]
  rfl

section Numbers

variable (hname : name = "print" ∨ name = "println") (he : e.ty.IsNumber) {slots bytes : Nat}

include hname he

/-- **Printing a number** takes fifteen slots and fifteen bytes more than the number, or less. -/
theorem lowerCall_print_advances {d : Nat}
    (hresolve : table.resolve name [e.ty] = .ok (i, printMethod name e.ty.printed))
    (hdepth : d + 5 ≤ maxFrameWords)
    (hx : Advances l slots bytes (d + 1) (d + 1 + e.ty.numberKind.words)
      (lower ⟨table, f⟩ e).value) :
    Advances l (slots + 15) (bytes + 15) d d (lowerCall ⟨table, f⟩ none name [e] annotated) := by
  obtain ⟨hsystem, hout, hfield, hclass, hprint, hprintln, hdescriptors⟩ := shortText_printing
  have hnumber := e.ty.isNumber_printed
  have hget : Advances l 6 3 (d + 0) (d + 1) (do
      let field ← Lower.pool (PoolBuilder.internField standardOutput)
      Lower.code (Asm.getStatic field 1)) :=
    Takes.advances (PoolBuilder.internField_takes hsystem hout hfield) fun field =>
      instruction_straight (.short .getstatic field) (by omega)
  have hvalue := valueAs_advances he hnumber (by omega) hx
  have hwords : (printMethod name e.ty.printed).argWords = e.ty.printed.numberKind.words := by
    show 0 + e.ty.printed.width + 0 = _
    simp only [DataType.width, hnumber.kind?, Nat.zero_add, Nat.add_zero]
  have hinvoke : Advances l 6 3 (d + 1 + e.ty.printed.numberKind.words) (d + 0) (do
      let method ← Lower.pool (PoolBuilder.internMethod (printMethod name e.ty.printed).member)
      Lower.code (Asm.invoke .invokevirtual method (printMethod name e.ty.printed).argWords 0)) := by
    rw [hwords, Nat.add_assoc, Nat.add_comm 1]
    refine Takes.advances (PoolBuilder.internMethod_takes hclass ?_
      (hdescriptors _ e.ty.printed_mem)) fun method =>
      instruction_straight (.short .invokevirtual method) (by omega)
    rcases hname with rfl | rfl
    · exact hprint
    · exact hprintln
  rw [lowerCall_print hresolve]
  have hall := hget.seq (hvalue.seq hinvoke)
  rw [bind_assoc] at hall
  exact hall.mono (by omega) (by omega)

/-- **A function that prints a number** can be lowered. -/
theorem FunDef.lowers_print {p : Program} (hl : Locals.ofFunction f f.reservedSlots = .ok l)
    (hreturn : f.returnType = .void) (hbody : f.body = [.call none name [e] annotated])
    (hfunctions : ∀ g ∈ p.functions, g.name ≠ name) (hbytes : bytes + 16 ≤ maxCodeLength)
    (hx : ∀ table, Advances l slots bytes 1 (1 + e.ty.numberKind.words) (lower ⟨table, f⟩ e).value) :
    f.Lowers p (slots + 15) := by
  refine FunDef.lowers_of_advances hl hbytes fun table htable => ?_
  obtain ⟨i, hresolve⟩ := resolve_print hname he
  rw [← htable.resolve_builtin hfunctions] at hresolve
  have hcall : Advances l (slots + 15) (bytes + 15) 0 0
      (lowerCall ⟨table, f⟩ none name [e] annotated) :=
    lowerCall_print_advances hname he hresolve (by decide) (hx table)
  have hret : Advances l 0 1 (0 + 0) (0 + 0) (Lower.plain .vreturn) :=
    plain_advances rfl (Nat.zero_le _)
  have hlower : lowerBody ⟨table, f⟩ = (do
      lowerCall ⟨table, f⟩ none name [e] annotated
      Lower.code (Asm.ret none)) := by
    simp [lowerBody, hbody, blockTerminates, Stmt.terminates, lowerBlock, lowerStmt, hreturn]
  rw [hlower]
  exact hcall.seq hret

end Numbers

end Lowering

/-! ## Functions that print their parameter -/

section Parameter

variable {options : Options} {imports : List Callable} {p : Program} {f : FunDef} {x : String}
  {ty annotated : DataType} (hfunctions : ∀ g ∈ p.functions, g.name ≠ "println")
  (hparams : f.params = [⟨x, ty⟩]) (hreturn : f.returnType = .void)
  (hbody : f.body = [.call none "println" [.ident x ty] annotated])

include hfunctions hparams hbody

include hreturn in
/-- **A program of one function that prints its parameter has a class** if there is room for it. -/
theorem compileProgram_print (hp : p.Single options f 15) (hty : ty.IsNumber) :
    ∃ c, (compileProgram options [] p).result = .ok c := by
  have hmax : maxFrameWords = 65535 := rfl
  have hwords : ty.numberKind.words ≤ 2 := by cases ty.numberKind <;> decide
  have hwidth : ty.width = ty.numberKind.words := by simp only [DataType.width, hty.kind?]
  have hreserved : f.reservedSlots ≤ 1 := by
    unfold FunDef.reservedSlots
    split <;> decide
  obtain ⟨l, hl⟩ : ∃ l, Locals.ofFunction f f.reservedSlots = .ok l := by
    apply Locals.exists_ofFunction
    · simp [hparams, hty.kind?]
    · simp [hparams]
    · rw [hparams, hbody]
      show f.reservedSlots + (ty.width + 0) + 0 ≤ maxFrameWords
      omega
  obtain ⟨s, hs, hsty, hfits⟩ := Locals.exists_number_slot hl (q := ⟨x, ty⟩) (by simp [hparams]) hty
  have hdepth : 1 + ty.numberKind.words ≤ maxFrameWords := by omega
  have hload (table : CallTable) : Advances l 0 4 1 (1 + ty.numberKind.words)
      (lower ⟨table, f⟩ (.ident x ty)).value :=
    identValue_advances hs (hsty ▸ hty.kind?) hty.kind? hfits hdepth
  exact hp.compiles (FunDef.lowers_print (e := .ident x ty) (.inr rfl) hty hl hreturn hbody
    hfunctions (by decide) hload)

/-- The body of a function that prints its parameter sends the number to the standard output. -/
theorem Compiled.print_wp {c : ClassFile} {table : CallTable}
    (h : Compiled options imports p c table) (himports : ∀ i ∈ imports, i.name ≠ "println")
    (hty : ty.IsInteger) {W : Rules} {l : Locals} {L : Array Value} {out : String} {n : Nat}
    {E : Exits} {z : Int} (hholds : HoldsArguments l L f.params [(ty.represent z).toValue])
    (hsends : W.sends c (printMethod "println" ty.printed).member
      (.object .standardOutput printStreamClass) [((ty.represent z).convert ty ty.printed).toValue]
      (fun out r => r = none ∧ W.result out none) out) :
    (selectBody (l.names table f)).wp c W n E out L := by
  obtain ⟨i, hresolve⟩ := resolve_print (.inr rfl) hty.isNumber
  rw [← h.resolve_builtin hfunctions himports] at hresolve
  have hcallee : (l.names table f).callee? "println" [ty] =
      some (printMethod "println" ty.printed) := by
    simp [Names.callee?, Locals.names, hresolve]
  obtain ⟨s, hs, hsty, hv⟩ : ∃ s, l.find? x = some s ∧ s.ty = ty ∧
      L[s.slot]? = some (ty.represent z).toValue := by
    rw [hparams] at hholds
    exact (List.forall₂_cons.1 hholds).1
  have hvalue : (meaning c W L (l.names table f) (.ident x ty)).value =
      pure (ty.represent z).toValue := value_ident hty hs hsty hv
  refine selectBody_call_wp hbody ?_ ?_
  · show (Names.returned _ none "println" [ty] annotated).kind? = none
    simp [Names.returned, hcallee, printMethod, DataType.kind?]
  · rw [callMeaning_print (e := .ident x ty) hcallee hty.isNumber (ty.isLong_represent z) hvalue]
    exact hsends

include hreturn in
/-- **Printing an integer**. A function that prints its parameter and a line end adds the decimal text
of the number to the output, for all integer types but one: of 64 bits without sign, numbers from
`2 ^ 63` on are shown as what is left when `2 ^ 64` is taken off. A class of the name of the one that
prints has no such method, so that there the call fails. A program of such a function has a class. -/
theorem prints_integer (options : Options)
    (himports : ∀ i ∈ imports, i.methodRef = none ∧ i.name ≠ "println") (hf : f ∈ p.functions)
    {width : Width} {unsigned : Bool} (hty : ty = .int width unsigned) {z : Int}
    (hz : ty.Contains z) {this : Option Value} (hthis : this.isSome = !f.isStatic) :
    (∀ c, (compileProgram options imports p).result = .ok c →
      (p.name ≠ printStreamClass → c.Prints f this [(ty.represent z).toValue]
        (toString (ty.shown z) ++ "\n") (.ok none)) ∧
      (p.name = printStreamClass → c.Answers f this [(ty.represent z).toValue]
        (.error (.noSuchMethod "println" (Descriptor.ofMethod [ty.printed] .void))))) ∧
    (ty.shown z = z ↔ ¬ (ty = .int .w64 true ∧ 2 ^ 63 ≤ z)) ∧
    (p.Single options f 15 → ∃ c, (compileProgram options [] p).result = .ok c) := by
  have hinteger : ty.IsInteger := hty ▸ DataType.isInteger_int width unsigned
  have hnumber := hinteger.isNumber
  refine ⟨?_, ty.shown_eq_iff z, ?_⟩
  · intro c hc
    obtain ⟨table, h⟩ := compiled_of_ok (fun i hi => (himports i hi).1) hc
    have hnames : ∀ i ∈ imports, i.name ≠ "println" := fun i hi => (himports i hi).2
    have hcount := length_parameters?_printMethod "println" ty.printed_mem
    have hvalues : HaveKinds ((f.params.map (·.ty)).filterMap DataType.kind?)
        [(ty.represent z).toValue] := by
      have hsingle : ∀ q ∈ [(⟨x, ty⟩ : Param)], q.ty = ty := by simp
      rw [hparams]
      exact haveKinds_represent hinteger hsingle fun _ => z
    have hargs : [(ty.represent z).toValue] = f.hiddenArgs ++ [(ty.represent z).toValue] := by
      rw [FunDef.hiddenArgs_of_params (by simp [hparams]), List.nil_append]
    rw [hargs]
    constructor
    · intro hother
      have hlibrary : printStreamClass ≠ c.name?.getD "" := by
        rw [h.name?_eq]
        exact hother.symm
      refine h.prints hf hthis hvalues fun l L out _ hholds => ?_
      refine h.print_wp hfunctions hparams hbody hnames hinteger hholds ?_
      refine sends_print rfl hlibrary (.inr rfl) hcount
        (printedText_number "println" hnumber (ty.isLong_represent z)) ⟨rfl, ?_⟩
      subst hty
      rw [DataType.text_represent hz]
      rfl
    · intro hsame
      refine h.answers hf hthis hvalues fun l L out _ hholds => ?_
      refine h.print_wp hfunctions hparams hbody hnames hinteger hholds ?_
      refine sends_missing hcount ?_ ?_ out _
      · rw [h.name?_eq]
        exact hsame.symm
      · exact h.find?_eq_none (show "println" ≠ "<init>" by decide) hfunctions
  · intro hp
    exact compileProgram_print hfunctions hparams hreturn hbody hp hnumber

end Parameter

/-- `show(x)` prints `x`. -/
def showFunction (ty : DataType) : FunDef where
  name := "show"
  params := [⟨"x", ty⟩]
  returnType := .void
  body := [.call none "println" [.ident "x" ty] .void]

/-- A program that prints a number. -/
def showProgram (ty : DataType) : Program := ⟨"Show", [showFunction ty]⟩

/-- The word of minus one is that of the largest number of 32 bits, and is printed so. It is also that
of the largest number of 64 bits, but then it is printed as minus one. -/
theorem prints_integer_largest :
    (∃ c, (compileProgram {} [] (showProgram (.int .w32 true))).result = .ok c ∧
      c.Prints (showFunction (.int .w32 true)) none [.int (-1)] "4294967295\n" (.ok none)) ∧
    (∃ c, (compileProgram {} [] (showProgram (.int .w64 true))).result = .ok c ∧
      c.Prints (showFunction (.int .w64 true)) none [.long (-1)] "-1\n" (.ok none)) := by
  have hnames : ShortText "Show" ∧ ShortText ({} : Options).superClass := by
    unfold ShortText
    decide
  have htexts : (showFunction (.int .w32 true)).ShortTexts ∧
      (showFunction (.int .w64 true)).ShortTexts := by
    unfold FunDef.ShortTexts ShortText
    decide
  have himports : ∀ i ∈ ([] : List Callable), i.methodRef = none ∧ i.name ≠ "println" := by simp
  have hshow (width : Width) {z : Int} (hz : DataType.Contains (.int width true) z) :=
    prints_integer (p := showProgram (.int width true)) (by simp [showProgram, showFunction]) rfl rfl
      rfl {} himports (List.mem_singleton.2 rfl) rfl hz (rfl : (none : Option Value).isSome = false)
  constructor
  · obtain ⟨hprints, -, hcompiles⟩ := hshow .w32 (z := 4294967295) (by decide)
    obtain ⟨c, hc⟩ := hcompiles ⟨rfl, hnames.1, hnames.2, htexts.1, by decide⟩
    exact ⟨c, hc, (hprints c hc).1 (by decide)⟩
  · obtain ⟨hprints, -, hcompiles⟩ := hshow .w64 (z := 18446744073709551615) (by decide)
    obtain ⟨c, hc⟩ := hcompiles ⟨rfl, hnames.1, hnames.2, htexts.2, by decide⟩
    exact ⟨c, hc, (hprints c hc).1 (by decide)⟩

end ClassFoundry
