import ClassFoundry.Proofs.RangedCalls

/-!
# Narrow variables stay in range

A variable of a type narrower than an int holds only numbers in the range of the type, in every state of
a run, and so do the results of functions. Numbers are cut to the range where they are computed and
converted; everywhere else the value of an expression is in the range of its type already.

That rests on descriptors that are read as they were written, or not at all: if the delimiter that ends
class names stands within one, a call may pass other arguments than it was given.

## Main definitions

* `Expr.Declared`: annotations as declared
* `FunDef.Takes`: arguments in range
* `Program.RangedAt`: states in which narrow variables are in range

## Main results

* `Compiled.range_kept`: compiled classes keep to the contract
* `inRange_of_compile`: narrow variables stay in range
* `exists_not_rangedAt_relay`: they may not, if a class name has delimiters in it
-/

namespace ClassFoundry

/-! ## Function bodies -/

/-- The result type that is declared for the functions of a name. -/
def Program.resultType? (p : Program) (name : String) : Option DataType :=
  match p.function? name with
  | some f => some f.returnType
  | none => (builtins.find? (·.name == name)).map (·.returnType)

/-- **Annotations as declared**: variables are annotated with the types of their declarations, calls
with declared result types and conditions as such, calls have no objects, and literals are in the
ranges of their types. -/
def Expr.Declared (p : Program) (f : FunDef) : Expr → Prop
  | .ident name ty => ∀ l s, f.locals? = .ok l → l.find? name = some s → s.ty = ty
  | .int value ty => ty.InRange value.toInt
  | .compare _ _ _ ty | .logic _ _ _ ty | .not _ ty => ty = .bool
  | .call object name _ ty => object = none ∧ ∀ result, p.resultType? name = some result → result = ty
  | _ => True

theorem FunDef.Ranged.assigned {f : FunDef} {L L' : Array Value} (h : f.Ranged L)
    (hassigns : f.Assigns L L') : f.Ranged L' := by
  intro l hl name s hs hnarrow
  rcases hassigns l hl name s hs hnarrow with hsame | hint
  · rw [hsame]
    exact h l hl name s hs hnarrow
  · exact .inl hint

/-- **A value that fits is assigned in range**: other variables lie elsewhere. -/
theorem assigns_storedLocals {f : FunDef} {l : Locals} (hl : f.locals? = .ok l)
    {reserved paramsEnd firstReference : Nat} (hsound : l.Sound reserved paramsEnd firstReference)
    {L : Array Value} {name : String} {s : Slot} (hs : l.find? name = some s) {kind : Kind}
    (hkind : s.ty.kind? = some kind) {v : Value} (hv : v.Fits s.ty)
    (hroom : s.slot + kind.words ≤ L.size) : f.Assigns L (storedLocals L kind s.slot v) := by
  intro l' hl' name' s' hs' hnarrow
  cases hl.symm.trans hl'
  have hint := s'.ty.kind?_of_bounds? hnarrow
  by_cases hname : name' = name
  · subst hname
    cases hs.symm.trans hs'
    obtain ⟨n, rfl⟩ := Value.eq_int_of_hasKind (hv.kind .int hint)
    exact .inr ⟨n, storedLocals_self _ hroom, hv.range n rfl⟩
  · left
    have hapart := hsound.apart_of_find? hs' hs hname
    have hwidth : s.ty.width = kind.words ∧ s'.ty.width = 1 := by
      simp [DataType.width, hkind, hint, Kind.words]
    unfold Slot.Apart at hapart
    exact storedLocals_of_apart (by omega)

section Bodies

variable {options : Options} {p : Program} {c : ClassFile} {table : CallTable}
  (h : Compiled options [] p c table)
include h

theorem Compiled.resultType?_of_resolve {name : String} {args : List DataType} {i : Nat}
    {callee : Callable} (hresolve : table.resolve name args = .ok (i, callee)) :
    p.resultType? name = some callee.returnType := by
  obtain ⟨-, hname, -⟩ := CallTable.resolve_ok hresolve
  unfold Program.resultType?
  rcases h.callee_cases (CallTable.mem_of_resolve hresolve) with hb | ⟨f, hf, hregisters⟩
  · rw [(h.not_defined hresolve hb).1]
    -- built-in methods of one name have one result type
    have hresults : ∀ b ∈ builtins, ∀ b' ∈ builtins, b.name = b'.name →
        b.returnType = b'.returnType := by decide
    obtain ⟨b, hfound⟩ : ∃ b, builtins.find? (·.name == name) = some b := by
      rw [← Option.isSome_iff_exists, List.find?_isSome]
      exact ⟨callee, hb, by simpa using hname⟩
    have hsame : b.name = name := by simpa using List.find?_some hfound
    rw [hfound, Option.map_some,
      hresults b (List.mem_of_find?_eq_some hfound) callee hb (hsame.trans hname.symm)]
  · have hf' : f.name = name := by
      obtain ⟨j, rfl⟩ := hregisters
      exact hname
    rw [← hf', h.function?_eq hf, hregisters.returnType]

theorem Compiled.annotated {f : FunDef} {l : Locals} (hl : f.locals? = .ok l) {e : Expr}
    (he : e.Declared p f) : e.Annotated (l.names table f) := by
  cases e with
  | ident name ty => exact fun s hs => he l s hl hs
  | int value ty => exact he
  | compare op lhs rhs ty => exact he
  | logic op lhs rhs ty => exact he
  | not operand ty => exact he
  | call object name args ty =>
    obtain ⟨hobject, hty⟩ := he
    refine ⟨hobject, fun callee hcallee => ?_⟩
    obtain ⟨i, hresolve⟩ := Names.resolve_of_callee? _ hcallee
    exact hty _ (h.resultType?_of_resolve hresolve)
  | _ => trivial

variable (hundivided : ∀ f ∈ p.functions, ∀ q ∈ f.params, q.ty.Undivided)
include hundivided

/-- **The contract lets function bodies keep variables in range**. -/
theorem Compiled.keeps {f : FunDef} (hf : f ∈ p.functions) {l : Locals} (hl : f.locals? = .ok l)
    {reserved paramsEnd firstReference : Nat}
    (hsound : l.Sound reserved paramsEnd firstReference) :
    (l.names table f).Keeps c ((rangeContract options p c table).rules c f.name) where
  keep := h.keep hundivided f.name rfl
  timeout := trivial
  ranged L hL name s hs n hn := by
    by_cases hnarrow : s.ty.bounds?.isSome = true
    · rcases hL f hf rfl l hl name s hs hnarrow with ⟨n', hn', hrange⟩ | ⟨-, hnone⟩
      · cases hn.symm.trans hn'
        exact hrange
      · exact absurd hn (hnone n)
    · exact DataType.inRange_of_bounds? (by simpa using hnarrow) _
  stores hL hs hkind hv hroom := by
    have hassigns := assigns_storedLocals hl hsound hs hkind hv hroom
    refine ⟨fun g hg hname => ?_, fun g hg hname => ?_⟩
    · obtain rfl := h.eq_of_name hf hg hname.symm
      exact hassigns
    · obtain rfl := h.eq_of_name hf hg hname.symm
      exact (hL f hf rfl).assigned hassigns
  creates name ref := h.constructor_gives hundivided f.name name (.object ref name)
  result out r hr := by
    refine ⟨fun g hg hname => ?_, fun hnone => absurd rfl (hnone f hf)⟩
    obtain rfl := h.eq_of_name hf hg hname.symm
    exact hr

/-- The added constructor does nothing but to call another. -/
theorem Compiled.constructor_keeps (hnames : ∀ f ∈ p.functions, f.name ≠ constructorName) {n : Nat}
    {E : Exits} {out : String} {L : Array Value} :
    (constructorFlow options.superClass).wp c
      ((rangeContract options p c table).rules c constructorName) n E out L := by
  have hloaded := Rules.loaded_gives
    (W := (rangeContract options p c table).rules c constructorName) (fun _ _ => trivial) L .reference 0
  refine load_computes (c := c) .reference 0 (fun _ _ => True) _ out []
    (hloaded _ out fun _ _ _ => trivial) ?_
  intro out this _
  refine invokeReceiver_computes (by decide) _ [] none this [] (fun _ r => r = none) _ out []
    (h.constructor_gives hundivided constructorName options.superClass this _ out fun _ _ hr => hr) ?_
  rintro out _ rfl
  exact ⟨rfl, fun f hf hname => absurd hname (hnames f hf), fun _ => rfl⟩

/-- **The contract is kept** by classes of programs that are annotated as declared. -/
theorem Compiled.range_kept
    (hdeclared : ∀ f ∈ p.functions, ∀ e ∈ Stmt.liveNodesOf f.body, e.Declared p f) :
    (rangeContract options p c table).Kept c := by
  rintro name method this args (⟨rfl, hm, hnames⟩ | ⟨f, hf, rfl, hm, hranged⟩)
  · obtain ⟨a, hbody⟩ := hm.body
    exact ⟨_, _, .free, hbody.at, rfl, fun f hf hname => absurd hname (hnames f hf), fun n out =>
      h.constructor_keeps hundivided hnames⟩
  · obtain ⟨start, final, a, hstart, hfinal, hgrows, hchecked, hbody⟩ := hm.body
    obtain ⟨hsound, -, hnext⟩ := Locals.ofFunction_ok hstart
    have hsound := hgrows.sound _ _ _ hsound (Nat.le_of_eq (by rw [hnext]))
    have hlocals : (rangeContract options p c table).locals f.name
        (Frame.initialLocals method.maxLocals.toNat this args) := by
      intro g hg hname
      obtain rfl := h.eq_of_name hf hg hname.symm
      exact hranged
    refine ⟨_, _, .free, hbody.at, ends_selectBody _, hlocals, fun n out => ?_⟩
    exact selectBody_keeps (h.keeps hundivided hf hfinal hsound) hchecked
      (fun e he => h.annotated hfinal (hdeclared f hf e he)) hlocals

end Bodies

/-! ## Runs -/

/-- **Arguments for a function**: a receiver exactly if it is not static, values of the kinds of the
parameters, and numbers in the ranges of their types. -/
structure FunDef.Takes (f : FunDef) (this : Option Value) (args : List Value) : Prop where
  receiver : this.isSome = !f.isStatic
  kinds : HaveKinds f.argKinds args
  range : ∀ a ∈ f.params.zip (args.drop f.hiddenFields.length), ∀ n, a.2 = .int n →
    a.1.ty.InRange n.toInt

/-- **A state in which narrow variables are in range**: those of all calls in progress are, the next
step assigns in range, and a result that it returns is a value of its type. -/
structure Program.RangedAt (p : Program) (c : ClassFile) (t : State) : Prop where
  locals : ∀ f ∈ p.functions, ∀ frame ∈ t.frames, f.name = frame.method → f.Ranged frame.locals
  assigns : ∀ f ∈ p.functions, f.name = t.frame.method → ∀ t', Steps c t t' →
    t'.callers = t.callers → f.Assigns t.frame.locals t'.frame.locals
  returns : ∀ f ∈ p.functions, f.name = t.frame.method → ∀ r, t.Returns c r → f.returnType.Returns r

theorem fits_of_haveKinds {params : List Param} {vs : List Value}
    (hsome : ∀ q ∈ params, q.ty.kind?.isSome)
    (hkinds : HaveKinds ((params.map (·.ty)).filterMap DataType.kind?) vs)
    (hrange : ∀ a ∈ params.zip vs, ∀ n, a.2 = .int n → a.1.ty.InRange n.toInt) :
    List.Forall₂ (fun q v => Value.Fits q.ty v) params vs := by
  induction params generalizing vs with
  | nil =>
    cases hkinds
    exact .nil
  | cons q params ih =>
    obtain ⟨hq, hrest⟩ := List.forall_mem_cons.1 hsome
    obtain ⟨k, hk⟩ := Option.isSome_iff_exists.1 hq
    simp only [List.map_cons, List.filterMap_cons, hk] at hkinds
    obtain ⟨v, vs, hv, hothers, rfl⟩ := List.forall₂_cons_left_iff.1 hkinds
    obtain ⟨hfirst, hranges⟩ := List.forall_mem_cons.1 hrange
    refine .cons ⟨fun k' hk' => ?_, hfirst⟩ (ih hrest hothers hranges)
    cases hk.symm.trans hk'
    exact hv

/-- A call from outside starts as the contract asks. -/
theorem Compiled.range_entry {options : Options} {p : Program} {c : ClassFile} {table : CallTable}
    (h : Compiled options [] p c table) {m : Method} {name descriptor : String}
    (hm : c.find? name descriptor = some m) {this : Option Value} {args : List Value}
    (htakes : ∀ f ∈ p.functions, f.name = name → f.Takes this args) :
    (rangeContract options p c table).entry name m this args := by
  rcases h.find?_cases hm with ⟨hname, hm, hnames⟩ | ⟨f, hf, hname, -, hm⟩
  · exact .inl ⟨hname, hm, hnames⟩
  · obtain ⟨hreceiver, hkinds, hrange⟩ := htakes f hf hname
    have hvalues : HaveKinds ((f.params.map (·.ty)).filterMap DataType.kind?)
        (args.drop f.hiddenFields.length) := by
      have hkinds := hkinds
      unfold FunDef.argKinds at hkinds
      unfold FunDef.hiddenFields
      split at hkinds <;> rename_i hentry
      · obtain ⟨v, rest, -, hrest, rfl⟩ := List.forall₂_cons_left_iff.1 hkinds
        rwa [if_pos hentry]
      · rwa [if_neg hentry]
    exact .inr ⟨f, hf, hname, hm, hm.ranged_initialLocals _ hreceiver hkinds
      (fits_of_haveKinds (h.kind?_of_mem_params hf) hvalues hrange)⟩

/-- **Narrow variables stay in range**: a call of a method with arguments in range goes only through
states in which narrow variables are in range, and ends with a value of the type of the function. -/
theorem inRange_of_compile {options : Options} {p : Program} {c : ClassFile}
    (hdeclared : ∀ f ∈ p.functions, ∀ e ∈ Stmt.liveNodesOf f.body, e.Declared p f)
    (hundivided : ∀ f ∈ p.functions, ∀ q ∈ f.params, q.ty.Undivided)
    (h : (compileProgram options [] p).result = .ok c) (m : Machine) {name descriptor : String}
    {method : Method} (hmethod : c.find? name descriptor = some method) {this : Option Value}
    {args : List Value} (htakes : ∀ f ∈ p.functions, f.name = name → f.Takes this args) :
    (∀ t, Reaches c (.entry c m method this args) t → p.RangedAt c t) ∧
      ∀ r, (m.invoke c name descriptor this args).1 = .ok r →
        ∀ f ∈ p.functions, f.name = name → f.returnType.Returns r := by
  obtain ⟨table, hcompiled⟩ := compiled_of_ok (by simp) h
  have htext : (c.pool.text? method.name).getD "" = name := by
    have htexts := List.find?_some hmethod
    simp only [Bool.and_eq_true, beq_iff_eq] at htexts
    rw [htexts.1]
    rfl
  have hentry := hcompiled.range_entry hmethod htakes
  have hgood {t : State} (ht : Reaches c (.entry c m method this args) t) :
      (rangeContract options p c table).Good c t :=
    (hcompiled.range_kept hundivided hdeclared).good (htext ▸ hentry) ht
  have hranged {t : State} (ht : Reaches c (.entry c m method this args) t) : p.RangedAt c t :=
    ⟨fun f hf frame hframe hname => (hgood ht).locals frame hframe f hf hname,
      fun f hf hname t' hstep hsame => (hgood ht).stores t' hstep hsame f hf hname,
      fun f hf hname r hr => ((hgood ht).result r hr).1 f hf hname⟩
  refine ⟨fun t ht => hranged ht, fun r hr f hf hname => ?_⟩
  rw [Machine.invoke, hmethod] at hr
  -- the result is what the outermost call returns in the last state
  obtain ⟨t, hreach, hdone⟩ := run_ok (Prod.ext hr rfl)
  obtain ⟨hcallers, hreturns⟩ := State.returns_of_done hdone
  have houtermost := hreach.outermost
  simp only [State.outermost, hcallers, List.getLast?_nil, Option.getD_none, Frame.enter, htext]
    at houtermost
  exact (hranged hreach).returns f hf (hname.trans houtermost.symm) r hreturns

/-! ## A class name with delimiters -/

/-- The arguments of the call in `relay`. -/
def relayPassed (className : String) : List Expr :=
  [.ident "y" (.int .w8 true), .ident "a" (.struct className), .ident "x" .i32,
    .ident "y" (.int .w8 true)]

/-- `relay(b, a, x, y)` is `b`, or `y` in place of zero. The class of `a` has a given name. -/
def relayFunction (className : String) : FunDef where
  name := "relay"
  params := [⟨"b", .int .w8 true⟩, ⟨"a", .struct className⟩, ⟨"x", .i32⟩, ⟨"y", .int .w8 true⟩]
  returnType := .int .w8 true
  body := [
    .ifThen (.not (.ident "b" (.int .w8 true)) .bool)
      [.ret (some (.call none "relay" (relayPassed className) (.int .w8 true)))],
    .ret (some (.ident "b" (.int .w8 true)))]

/-- A program of one function, which calls itself. -/
def relay (className : String) : Program := ⟨"Relay", [relayFunction className]⟩

/-- The parameters of `relay`. -/
def relayLocals (className : String) : Locals :=
  ⟨"relay", [⟨"y", .int .w8 true, .integer, 3, 1⟩, ⟨"x", .i32, .integer, 2, 1⟩,
    ⟨"a", .struct className, .reference, 1, 1⟩, ⟨"b", .int .w8 true, .integer, 0, 1⟩], 4, 4, 4, 4⟩

/-- Arguments for `relay`. -/
def relayArgs : List Value := [.int 0, .null, .int 300, .int 9]

theorem locals?_relayFunction (className : String) :
    (relayFunction className).locals? = .ok (relayLocals className) := by
  have hstart : Locals.ofFunction (relayFunction className) (relayFunction className).reservedSlots =
      .ok (relayLocals className) := rfl
  rw [FunDef.locals?, hstart]
  simp [relayFunction, Locals.afterBlock, Locals.afterStmt, bind, Except.bind, pure, Except.pure]

theorem relayFunction_lowers {className : String} (h : className = "A" ∨ className = "A;)") :
    (relayFunction className).Lowers (relay className) 0 := by
  refine ⟨relayLocals className, rfl, ?_⟩
  rintro ⟨entries⟩ n pool ⟨own, hentries, hown⟩ hpool
  -- the table holds the function behind the built-in methods, under some index
  obtain ⟨_, _, ⟨i, rfl⟩, hnil, rfl⟩ := List.forall₂_cons_left_iff.1 hown
  cases hnil
  obtain rfl := Array.toList_inj.1 (hentries.trans (List.toList_toArray ..).symm)
  have hafter : poolAfter? (lowerFunction ⟨⟨(builtins ++ [{ Callable.ofFunction "Relay"
      (relayFunction className) with methodRef := some i }]).toArray⟩, relayFunction className⟩
      ⟨pool, relayLocals className, .start (relayLocals className).maxLocals⟩) = some pool := by
    rcases h with rfl | rfl <;> cbv
  obtain ⟨body, s, hs, rfl⟩ := exists_ok_of_poolAfter? hafter
  exact ⟨body, s, hs, by rwa [Nat.zero_add] at hpool⟩

/-- There are classes of `relay`. -/
theorem compileProgram_relay {className : String} (h : className = "A" ∨ className = "A;)") :
    ∃ c, (compileProgram {} [] (relay className)).result = .ok c := by
  have htexts : ShortText "Relay" ∧ ShortText Descriptor.objectClass ∧
      (relayFunction className).ShortTexts := by
    unfold FunDef.ShortTexts ShortText
    rcases h with rfl | rfl <;> decide +kernel
  have hlowers : ∀ f ∈ (relay className).functions,
      f.ShortTexts ∧ f.Lowers (relay className) 0 := by
    intro f hf
    obtain rfl := List.mem_singleton.1 hf
    exact ⟨htexts.2.2, relayFunction_lowers h⟩
  have hroom : 13 + (0 + 8) * 1 ≤ min ({} : Options).poolLimit maxPoolIndex := by decide
  exact compileProgram_succeeds htexts.1 htexts.2.1 hlowers (List.pairwise_singleton _ _) hroom

theorem liveNodes_relay (className : String) :
    Stmt.liveNodesOf (relayFunction className).body =
      [.not (.ident "b" (.int .w8 true)) .bool, .ident "b" (.int .w8 true),
        .call none "relay" (relayPassed className) (.int .w8 true)] ++ relayPassed className ++
        [.ident "b" (.int .w8 true)] := by
  simp [relayFunction, relayPassed, Stmt.liveNodesOf, Stmt.liveNodes, Stmt.nodes, Expr.nodes,
    Expr.nodesOf?, Expr.nodesOf, Stmt.terminates]

/-- The annotations in `relay` are as declared. -/
theorem relay_declared (className : String) : ∀ f ∈ (relay className).functions,
    ∀ e ∈ Stmt.liveNodesOf f.body, e.Declared (relay className) f := by
  intro f hf
  obtain rfl := List.mem_singleton.1 hf
  have hident (name : String) (s : Slot) (hs : (relayLocals className).find? name = some s) :
      (Expr.ident name s.ty).Declared (relay className) (relayFunction className) := by
    intro l s' hl hs'
    cases (locals?_relayFunction className).symm.trans hl
    cases hs.symm.trans hs'
    rfl
  have hb := hident "b" _ rfl
  have hy := hident "y" _ rfl
  have hresult : (relay className).resultType? "relay" = some (.int .w8 true) := rfl
  rw [liveNodes_relay, relayPassed]
  simp only [List.forall_mem_append, List.forall_mem_cons]
  refine ⟨⟨⟨rfl, hb, ⟨rfl, fun result h => ?_⟩, nofun⟩, hy, hident "a" _ rfl, hident "x" _ rfl, hy,
    nofun⟩, hb, nofun⟩
  exact Option.some.inj (h.symm.trans hresult)

theorem relay_takes (className : String) : ∀ f ∈ (relay className).functions, f.name = "relay" →
    f.Takes none relayArgs := by
  intro f hf _
  obtain rfl := List.mem_singleton.1 hf
  have hzip : (relayFunction className).params.zip
      (relayArgs.drop (relayFunction className).hiddenFields.length) =
      [(⟨"b", .int .w8 true⟩, .int 0), (⟨"a", .struct className⟩, .null), (⟨"x", .i32⟩, .int 300),
        (⟨"y", .int .w8 true⟩, .int 9)] := rfl
  refine ⟨rfl, .cons rfl (.cons rfl (.cons rfl (.cons rfl .nil))), ?_⟩
  rw [hzip]
  simp only [List.forall_mem_cons]
  refine ⟨?_, nofun, fun n _ => DataType.inRange_of_bounds? rfl _, ?_, nofun⟩
  · rintro _ ⟨⟩ _ ⟨⟩
    decide
  · rintro _ ⟨⟩ _ ⟨⟩
    decide

/-- A call of `relay` keeps bytes in range. -/
theorem inRange_of_compile_relay :
    ∃ c, (compileProgram {} [] (relay "A")).result = .ok c ∧
      (∀ f ∈ (relay "A").functions, ∀ e ∈ Stmt.liveNodesOf f.body, e.Declared (relay "A") f) ∧
      (∀ f ∈ (relay "A").functions, ∀ q ∈ f.params, q.ty.Undivided) ∧
      (∀ f ∈ (relay "A").functions, f.name = "relay" → f.Takes none relayArgs) ∧
      ∃ method, c.find? "relay" "(SLA;IS)S" = some method ∧
        (∀ t, Reaches c (.entry c {} method none relayArgs) t → (relay "A").RangedAt c t) ∧
        ∀ r, (({} : Machine).invoke c "relay" "(SLA;IS)S" none relayArgs).1 = .ok r →
          ∀ f ∈ (relay "A").functions, f.name = "relay" → f.returnType.Returns r := by
  obtain ⟨c, hc⟩ := compileProgram_relay (.inl rfl)
  obtain ⟨table, hcompiled⟩ := compiled_of_ok (by simp) hc
  have hdescriptor : (relayFunction "A").descriptor = "(SLA;IS)S" := by decide +kernel
  have hundivided : ∀ f ∈ (relay "A").functions, ∀ q ∈ f.params, q.ty.Undivided := by
    intro f hf
    obtain rfl := List.mem_singleton.1 hf
    have hname : (DataType.struct "A").Undivided := by
      rintro _ ⟨⟩
      decide +kernel
    exact List.forall_mem_cons.2 ⟨nofun, List.forall_mem_cons.2 ⟨hname, List.forall_mem_cons.2
      ⟨nofun, List.forall_mem_cons.2 ⟨nofun, nofun⟩⟩⟩⟩
  obtain ⟨method, hfind, -⟩ := hcompiled.find?_function (List.mem_singleton.2 rfl)
  rw [hdescriptor] at hfind
  exact ⟨c, hc, relay_declared "A", hundivided, relay_takes "A", method, hfind,
    inRange_of_compile (relay_declared "A") hundivided hc {} hfind (relay_takes "A")⟩

/-- `relay` as its callers see it if the name of the class has delimiters in it. -/
def relayMember : Member := ⟨"Relay", "relay", "(SLA;);IS)S"⟩

/-- Rules under which nothing may happen but a call of `relay` with the last two of its arguments. -/
def relayRules : Rules where
  fault _ _ := False
  own callee receiver args _ _ :=
    callee = relayMember ∧ receiver = none ∧ args = [.int 300, .int 9]
  locals _ := True
  stores _ _ := True
  result _ _ := False
  timeout := False
  stores_refl _ := trivial
  own_mono _ h := h

section Relay

variable {c : ClassFile} {σ : Names} {L : Array Value}
  (hlook : σ.look = (relayLocals "A;)").find?)
  (hL : ∀ (i : Nat) (v : Value), relayArgs[i]? = some v → L[i]? = some v)
include hlook hL

theorem variable_relay (name : String) {s : Slot} {v : Value} {kind : Kind}
    (hs : (relayLocals "A;)").find? name = some s) (hkind : s.ty.kind? = some kind)
    (hv : relayArgs[s.slot]? = some v) (hk : v.hasKind kind = true) :
    variableMeaning relayRules L σ name = pure v := by
  simp [variableMeaning, hlook, hs, hkind, Rules.loaded, hL _ _ hv, Rules.ofKind, hk]

theorem test_relay :
    (meaning c relayRules L σ (.not (.ident "b" (.int .w8 true)) .bool)).test = pure true := by
  simp only [meaning, Meaning.ofTest, Meaning.ofValue, nonzeroMeaning]
  rw [variable_relay hlook hL "b" rfl rfl rfl rfl]
  rfl

theorem passed_relay :
    passedMeaning relayRules ((givens c relayRules L σ (relayPassed "A;)")).zip
      ((relayFunction "A;)").params.map (·.ty))) = pure [.int 9, .null, .int 300, .int 9] := by
  have hy := variable_relay hlook hL "y" rfl rfl rfl rfl
  have ha := variable_relay hlook hL "a" rfl rfl rfl rfl
  have hx := variable_relay hlook hL "x" rfl rfl rfl rfl
  simp only [relayPassed, givens, meaning, Meaning.ofValue, hy, ha, hx]
  rfl

variable {callee : Callable} (hname : c.name?.getD "" = "Relay")
  (hcallee : σ.callee? "relay" ((relayPassed "A;)").map Expr.ty) = some callee)
  (hregisters : Callable.Registers "Relay" (relayFunction "A;)") callee)
include hname hcallee hregisters

/-- **The call in `relay` passes the last two of its arguments**: within the name of the class, the
descriptor looks as if its parameters ended there. -/
theorem call_relay (Q : Post) (out : String) :
    (σ.call none "relay" (selectArgs σ (relayPassed "A;)")) (.int .w8 true)).wp c relayRules L Q out
      [] := by
  have hparams : Descriptor.parameters? relayMember.descriptor = some ["S", "LA;"] := by
    decide
  have hmember : callee.member = relayMember := by
    rw [hregisters.member]
    decide +kernel
  have hreceiver : callee.receiver = .none := hregisters.receiver
  have hhidden : callee.hiddenArgs = [] := hregisters.hiddenArgs
  have hcode (vs : List Value) : (Fragment.op callee.operation).Computes c relayRules L
      ((callee.hiddenArgs ++ vs).reverse ++ [])
      (fun _ _ => vs = [.int 9, .null, .int 300, .int 9] : Spec Unit) fun _ => [] := by
    rintro R Q out st rfl -
    rw [hhidden, Callable.operation, hmember, Callable.mode, hreceiver]
    have hlength : [Value.int 9, Value.int 300].length = ["S", "LA;"].length := rfl
    have howner : relayMember.owner = c.name?.getD "" := hname.symm
    show Operation.wp c relayRules L _ Q out ([.int 9, .int 300] ++ ([.null, .int 9] ++ st))
    refine wp_invokeStatic hparams hlength ?_
    rw [Rules.called, if_pos howner]
    exact ⟨rfl, rfl, rfl⟩
  have hargs := selectArgs_computes (c := c) (W := relayRules) (L := L) σ (relayPassed "A;)")
  have hcomputes := arguments_computes (.zip hargs callee.params) callee [] hcode
  have htypes : (selectArgs σ (relayPassed "A;)")).map (·.expr.ty) =
      (relayPassed "A;)").map Expr.ty := rfl
  rw [Names.call, htypes, hcallee]
  simp only [callFragment, hreceiver]
  refine hcomputes (fun _ _ => False) Q out [] ?_ fun _ _ => False.elim
  rw [hregisters.params, passed_relay hlook hL]
  rfl

theorem body_relay (hfunction : σ.scope.function = relayFunction "A;)") (n : Nat) (E : Exits)
    (out : String) : (selectBody σ).wp c relayRules n E out L := by
  have hbody : selectBody σ =
      .seq (.ifThen (select σ (.not (.ident "b" (.int .w8 true)) .bool)).cond
        (.ret (selectAs σ (.call none "relay" (relayPassed "A;)") (.int .w8 true)) (.int .w8 true))
          (some .int))) (selectBlock σ [.ret (some (.ident "b" (.int .w8 true)))]) := by
    simp [selectBody, hfunction, relayFunction, blockTerminates, Stmt.terminates, selectBlock,
      selectStmt, DataType.kind?]
  rw [hbody]
  refine (select_computes σ _).2 (fun _ b => b = true) _ out [] ?_ ?_
  · rw [test_relay hlook hL]
    rfl
  · rintro out _ rfl
    exact ⟨rfl, call_relay hlook hL hname hcallee hregisters _ out⟩

end Relay

/-- The callee of the call in `relay`. -/
theorem Compiled.callee_relay {c : ClassFile} {table : CallTable}
    (h : Compiled {} [] (relay "A;)") c table) {l : Locals}
    (hchecked : (l.names table (relayFunction "A;)")).BodyChecked) :
    ∃ callee, (l.names table (relayFunction "A;)")).callee? "relay"
        ((relayPassed "A;)").map Expr.ty) = some callee ∧
      Callable.Registers "Relay" (relayFunction "A;)") callee := by
  -- the checks on the body include one that the call has a callee
  obtain ⟨⟨⟨-, -, ⟨⟨hcalls, -⟩, -⟩, -⟩, -⟩, -⟩ := hchecked
  obtain ⟨callee, hcall⟩ := hcalls
  obtain ⟨i, hresolve⟩ := hcall.resolved
  refine ⟨callee, hcall.callee?, ?_⟩
  have hothers : ∀ b ∈ builtins, b.name ≠ "relay" := by decide
  rcases h.callee_cases (CallTable.mem_of_resolve hresolve) with hb | ⟨f, hf, hregisters⟩
  · exact absurd (CallTable.resolve_ok hresolve).2.1 (hothers callee hb)
  · obtain rfl := List.mem_singleton.1 hf
    exact hregisters

/-- **A call of `relay` leads to one in which a byte is out of range**. -/
theorem Compiled.reaches_relay {c : ClassFile} {table : CallTable}
    (h : Compiled {} [] (relay "A;)") c table) {method : Method}
    (hfind : c.find? "relay" "(SLA;);IS)S" = some method)
    (hm : CompiledFunction c.pool table (relayFunction "A;)") method) (m : Machine) :
    ∃ t, Reaches c ⟨m, .enter "relay" method none relayArgs, []⟩ t ∧ t.frame.method = "relay" ∧
      t.frame.locals[0]? = some (.int 300) := by
  obtain ⟨start, final, a, -, hfinal, -, hchecked, hbody⟩ := hm.body
  cases (locals?_relayFunction "A;)").symm.trans hfinal
  obtain ⟨callee, hcallee, hregisters⟩ := h.callee_relay hchecked
  have hname : c.name?.getD "" = "Relay" := by
    rw [h.name?_eq]
    rfl
  have hlocals (n : Nat) (args : List Value) (hslots : args.flatMap Value.slots = args) (i : Nat)
      (v : Value) (hv : args[i]? = some v) : (Frame.initialLocals n none args)[i]? = some v := by
    rw [← Array.getElem?_toList, toList_initialLocals, hslots, Option.toList_none, List.nil_append,
      List.getElem?_append_left (List.getElem?_eq_some_iff.1 hv).1, hv]
  let site : Site := ⟨"relay", method.code, []⟩
  let S : Nat → State → Prop := fun _ s =>
    ∃ t, Reaches c s t ∧ t.frame.method = "relay" ∧ t.frame.locals[0]? = some (.int 300)
  have hclosed : site.Closed c relayRules 0 S :=
    { zero := False.elim
      antitone := fun _ _ hs => hs
      bounded := fun _ _ hs => hs
      step := fun _ hstep _ _ ⟨t, ht, hbad⟩ => ⟨t, .head hstep ht, hbad⟩
      fault := fun _ _ hfault => hfault.elim
      ret := fun _ _ _ hresult => hresult.elim
      own := by
        rintro n m pc pc' L st st' _ _ _ Q - howner hout ⟨rfl, rfl, rfl⟩ -
        have hfound : c.find? relayMember.name relayMember.descriptor = some method := hfind
        rw [call, if_pos howner, hfound] at hout
        exact ⟨⟨_, _, _⟩, .single hout, rfl, hlocals _ _ rfl 0 _ rfl⟩ }
  exact Flow.At.sound hclosed (n := 0) (E := .free) _ hbody.at trivial
    (body_relay rfl (hlocals _ relayArgs rfl) hname hcallee hregisters rfl 0 .free m.output)
    (fun hends => by simp [ends_selectBody] at hends) (fun _ h => by cases h)
    (fun _ h => by cases h) m rfl

/-- **Bytes do not stay in range** if the name of a class has delimiters in it. -/
theorem exists_not_rangedAt_relay :
    ∃ c, (compileProgram {} [] (relay "A;)")).result = .ok c ∧
      (∀ f ∈ (relay "A;)").functions, ∀ e ∈ Stmt.liveNodesOf f.body,
        e.Declared (relay "A;)") f) ∧
      (∀ f ∈ (relay "A;)").functions, f.name = "relay" → f.Takes none relayArgs) ∧
      ∃ method, c.find? "relay" "(SLA;);IS)S" = some method ∧
        ∃ t, Reaches c (.entry c {} method none relayArgs) t ∧ ¬ (relay "A;)").RangedAt c t := by
  obtain ⟨c, hc⟩ := compileProgram_relay (.inr rfl)
  obtain ⟨table, hcompiled⟩ := compiled_of_ok (by simp) hc
  have hdescriptor : (relayFunction "A;)").descriptor = "(SLA;);IS)S" := by decide +kernel
  obtain ⟨method, hfind, hm⟩ := hcompiled.find?_function (List.mem_singleton.2 rfl)
  have hfind : c.find? "relay" "(SLA;);IS)S" = some method := hdescriptor ▸ hfind
  obtain ⟨t, hreach, hmethod, hvalue⟩ := hcompiled.reaches_relay hfind hm {}
  have htext : (c.pool.text? method.name).getD "" = "relay" := by
    rw [hm.name]
    rfl
  refine ⟨c, hc, relay_declared _, relay_takes _, method, hfind, t, ?_, fun hranged => ?_⟩
  · rwa [State.entry, htext]
  · have hb := hranged.locals (relayFunction "A;)") (List.mem_singleton.2 rfl) t.frame
      List.mem_cons_self hmethod.symm _ (locals?_relayFunction _) "b" _ rfl rfl
    rcases hb with ⟨n, hn, hrange⟩ | ⟨hparam, -⟩
    · cases hvalue.symm.trans hn
      exact absurd (hrange (0, 255) rfl).2 (by decide)
    · exact hparam _ List.mem_cons_self rfl

end ClassFoundry
