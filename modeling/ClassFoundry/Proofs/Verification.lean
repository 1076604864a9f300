import ClassFoundry.Proofs.Compilation
import ClassFoundry.Proofs.Descriptor
import ClassFoundry.Proofs.Progress
import ClassFoundry.Proofs.Structured.Ends

/-!
# Generated classes verify

The compiler and the verifier know nothing of each other. What the compiler builds passes every
check: the constants refer to constants of the right sort, the methods differ in name or
descriptor and have room for their arguments, and every branch leads to an instruction.

## Main results

* `verifyPool_of_sound`: pools under construction are sound at any time
* `verifyCode_of_laid`: the code of a flow that control cannot leave
* `verify_of_compile`: **every class that the compiler gives**
-/

namespace ClassFoundry

theorem Except.forM_eq_ok {ε α : Type} {f : α → Except ε PUnit} {l : List α}
    (h : ∀ x ∈ l, f x = .ok ()) : l.forM f = .ok () := by
  induction l with
  | nil => rfl
  | cons x l ih =>
    show (f x >>= fun _ => l.forM f) = .ok ()
    rw [h x List.mem_cons_self]
    exact ih fun y hy => h y (List.mem_cons_of_mem _ hy)

/-! ## Pools -/

theorem ConstantPool.expect_of_get? {pool : ConstantPool} {i : UInt16} {c : Constant}
    (h : pool.get? i = some c) : pool.expect i c.tagName = .ok () :=
  ConstantPool.expectAny_of_get? _ _ h (.inl rfl)

/-- A constant that refers to constants of the right sort passes. -/
theorem verifyConstant_of_refers {pool : ConstantPool} {i : UInt16} {c : Constant}
    (h : c.Refers pool)
    (hlong : ∀ v, c = .long v → pool.constants[i.toNat]? = some .unusable) :
    verifyConstant pool i c = .ok () := by
  have htext : ∀ {j}, (∃ t, pool.get? j = some (.utf8 t)) → pool.expect j "Utf8" = .ok () :=
    fun ⟨_, ht⟩ => ConstantPool.expect_of_get? ht
  cases c with
  | utf8 text => exact if_neg (Nat.not_lt.2 h)
  | integer v => rfl
  | long v => exact if_pos (hlong v rfl)
  | «class» name => exact htext h
  | string text => exact htext h
  | fieldRef cls sig | methodRef cls sig =>
    obtain ⟨⟨n, hn⟩, m, d, hd⟩ := h
    have hcls : pool.expect cls "Class" = .ok () := ConstantPool.expect_of_get? hn
    have hsig : pool.expect sig "NameAndType" = .ok () := ConstantPool.expect_of_get? hd
    rw [verifyConstant, hcls]
    exact hsig
  | nameAndType name descriptor =>
    rw [verifyConstant, htext h.1]
    exact htext h.2
  | unusable => rfl

/-- An entry of a pool is found under its index. -/
theorem ConstantPool.get?_of_mem_entries {pool : ConstantPool} (hsize : pool.size ≤ maxPoolIndex)
    {i : UInt16} {c : Constant} (h : (i, c) ∈ pool.entries) : pool.get? i = some c := by
  obtain ⟨⟨d, k⟩, hmem, heq⟩ := List.mem_filterMap.1 h
  obtain ⟨-, hk, hd⟩ := List.mem_zipIdx hmem
  dsimp only at heq
  split at heq
  · cases heq
  · rename_i hne
    cases heq
    have hlt : k < pool.constants.size := by simpa using hk
    have hnat : (UInt16.ofNat (k + 1)).toNat = k + 1 := by
      simp only [ConstantPool.size, maxPoolIndex] at hsize
      rw [UInt16.toNat_ofNat']
      omega
    rw [ConstantPool.get?_eq_some_iff, hnat]
    refine ⟨fun h0 => ?_, hne, ?_⟩
    · rw [h0] at hnat
      simp at hnat
    · simp [hd, hlt]

/-- **Pools under construction** pass at any time. -/
theorem verifyPool_of_sound {b : PoolBuilder} (hb : b.Sound) : verifyPool b.pool = .ok () := by
  refine Except.forM_eq_ok fun ⟨i, c⟩ hmem => ?_
  have hget := ConstantPool.get?_of_mem_entries (Nat.le_trans hb.size_le hb.limit_le) hmem
  refine verifyConstant_of_refers (hb.refers hget) fun v hv => ?_
  exact hb.continued (hv ▸ hget)

/-! ## Code -/

theorem Sweep.mem_boundaries {s : Sweep} {pc : Nat} :
    pc ∈ s.boundaries ↔ pc ∈ s.instructions.toList.map Prod.fst := by
  have hfold (l : List (Nat × Instruction)) (found : Std.HashSet Nat) :
      pc ∈ l.foldl (fun found x => found.insert x.1) found ↔ pc ∈ found ∨ pc ∈ l.map Prod.fst := by
    induction l generalizing found with
    | nil => simp
    | cons x l ih =>
      rw [List.foldl_cons, ih, Std.HashSet.mem_insert, List.map_cons, List.mem_cons]
      simp only [beq_iff_eq, eq_comm (a := pc)]
      tauto
  rw [Sweep.boundaries, ← Array.foldl_toList, hfold]
  simp

/-- A branch passes if its label was placed at an instruction. -/
theorem verifyBranch_of_placed {method : String} {boundaries : Std.HashSet Nat} {pc t : Nat}
    {op : Opcode} {l : Label} {w : UInt16} {place : Label → Option Nat} (hl : place l = some t)
    (hw : Asm.relative pc t = .ok w) (ht : t ∈ boundaries) :
    verifyBranch method boundaries pc (.short op (operandOf place pc l)) = .ok () := by
  have hoperand : operandOf place pc l = w := by simp [operandOf, hl, hw]
  rw [hoperand, verifyBranch]
  cases hop : op.isBranch with
  | false => simp [Instruction.target?, hop]
  | true => simp [Instruction.target?, hop, branchTarget_relative hw, ht]

/-- The verifier only looks at the target of a branch. -/
theorem verifyOperand_branch {pool : ConstantPool} {op : Opcode} (h : op.isBranch = true)
    (w : UInt16) : verifyOperand pool (.short op w) = .ok () := by
  unfold verifyOperand
  split
  case h_9 => rfl
  -- the other instructions have a constant as their operand, and none of them is a branch
  all_goals
    rename_i heq
    cases heq <;> exact absurd h (by decide)

theorem verifyBranch_of_branchless {method : String} {boundaries : Std.HashSet Nat} {pc : Nat}
    {i : Instruction} (h : i.opcode.isBranch = false) :
    verifyBranch method boundaries pc i = .ok () := by
  cases i <;> simp_all [verifyBranch, Instruction.target?, Instruction.opcode]

/-- **The code of a flow that control cannot leave** passes. -/
theorem verifyCode_of_laid {pool : ConstantPool} {flow : Flow} {initial : Nat} {a : Assembler}
    (method : String) (hends : flow.ends = true) (hlaid : flow.Laid pool none (.start initial) a)
    (hclosed : a.Closed) : verifyCode pool method a.code = .ok () := by
  obtain ⟨es, hruns, hverified⟩ := (Flow.Laid.stretch flow hlaid).runs
  have hstart : Reached (.start initial) := ⟨[], initial, .nil _⟩
  obtain ⟨hsealed, hpos⟩ := Flow.Laid.sealed flow hends hstart (by simp [LoopLabels.list]) hlaid
  have hr := hruns.rendered
  have hsweep := sweep_eq hruns
  have hboundary (t : Nat) : t ∈ (sweep a.code).boundaries ↔ t ∈ starts 0 es := by
    rw [Sweep.mem_boundaries, hsweep]
    dsimp only
    rw [map_fst_instructionsFrom]
  have hoperands : ∀ x ∈ (sweep a.code).instructions.toList,
      inMethod (verifyOperand pool x.2) = .ok () := by
    rintro ⟨pc, i⟩ hx
    rw [hsweep] at hx
    refine Except.mapError_eq_ok.2 ?_
    rcases mem_instructionsFrom (by simpa using hx) with ⟨pops, pushes, hmem⟩ | ⟨op, l, hmem, rfl⟩
    · exact hverified _ (mem_of_mem_located hmem).1
    · exact verifyOperand_branch (hruns.valid _ (mem_of_mem_located hmem).1) _
  have hbranches : ∀ x ∈ (sweep a.code).instructions.toList,
      verifyBranch method (sweep a.code).boundaries x.1 x.2 = .ok () := by
    rintro ⟨pc, i⟩ hx
    rw [hsweep] at hx
    rcases mem_instructionsFrom (by simpa using hx) with ⟨pops, pushes, hmem⟩ | ⟨op, l, hmem, rfl⟩
    · exact verifyBranch_of_branchless (hruns.valid _ (mem_of_mem_located hmem).1).2
    · have hbr := mem_branchesFrom_of_located hmem
      -- every branch is complete, and none leads to the end
      obtain ⟨t, ht⟩ := hr.placed hclosed hbr
      obtain ⟨w, hw⟩ := hr.fits _ hbr t ht
      refine verifyBranch_of_placed ht hw ((hboundary t).2 ?_)
      rcases hr.boundary l t ht with hstarts | rfl
      · exact hstarts
      · exact absurd (hsealed _ (hr.branches ▸ hbr) _ ht) (Nat.lt_irrefl _)
  unfold verifyCode
  rw [if_neg (by simpa [Array.isEmpty_iff] using Nat.ne_of_gt hpos)]
  have hfault : (sweep a.code).fault = none := by rw [hsweep]
  simp only [hfault]
  rw [Except.forM_eq_ok hoperands]
  exact Except.forM_eq_ok hbranches

/-! ## Methods -/

/-- What the verifier asks of a single method, of which `key` is the name and the descriptor. -/
structure Method.Passes (pool : ConstantPool) (key : String × String) (m : Method) : Prop where
  name : pool.text? m.name = some key.1
  descriptor : pool.text? m.descriptor = some key.2
  attrName : ∃ text, pool.text? m.attrName = some text
  flags : verifyFlags m.flags = .ok ()
  room : ∃ args, Descriptor.argumentWords? key.2 = some args ∧
    args + (if AccessFlags.has m.flags AccessFlags.static then 0 else 1) ≤ m.maxLocals.toNat
  result : (Descriptor.returnWords? key.2).isSome
  code : verifyCode pool key.1 m.code = .ok ()

theorem ConstantPool.expect_of_text? {pool : ConstantPool} {i : UInt16} {t : String}
    (h : pool.text? i = some t) : inMethod (pool.expect i "Utf8") = .ok () :=
  Except.mapError_eq_ok.2 (ConstantPool.expect_of_get? (ConstantPool.text?_eq_some_iff.1 h))

theorem verifyMethod_of_passes {pool : ConstantPool} {seen : List (String × String)} {m : Method}
    {key : String × String} (h : m.Passes pool key) (hnew : key ∉ seen) :
    verifyMethod pool seen m = .ok (key :: seen) := by
  obtain ⟨text, htext⟩ := h.attrName
  obtain ⟨args, hargs, hroom⟩ := h.room
  obtain ⟨result, hresult⟩ := Option.isSome_iff_exists.1 h.result
  unfold verifyMethod
  rw [ConstantPool.expect_of_text? h.name, ConstantPool.expect_of_text? h.descriptor,
    ConstantPool.expect_of_text? htext]
  simp only [h.name, h.descriptor, Option.getD_some, hargs, hresult, bind, Except.bind, h.flags]
  rw [if_neg (by simpa using hnew), if_neg (Nat.not_lt.2 hroom), h.code]
  rfl

/-- Methods pass together if each of them does and no two have one name and descriptor. -/
theorem verifyMethods_of_passes {pool : ConstantPool} {keys seen : List (String × String)}
    {methods : List Method} (h : List.Forall₂ (Method.Passes pool) keys methods)
    (hnodup : keys.Nodup) (hseen : ∀ k ∈ keys, k ∉ seen) :
    verifyMethods pool seen methods = .ok () := by
  induction h generalizing seen with
  | nil => rfl
  | @cons k m keys methods hm _ ih =>
    obtain ⟨hk, hkeys⟩ := List.nodup_cons.1 hnodup
    rw [verifyMethods, verifyMethod_of_passes hm (hseen k List.mem_cons_self)]
    refine ih hkeys fun k' hk' => ?_
    rw [List.mem_cons, not_or]
    refine ⟨?_, hseen k' (List.mem_cons_of_mem _ hk')⟩
    rintro rfl
    exact hk hk'

theorem FunDef.verifyFlags_accessFlags (f : FunDef) : verifyFlags f.accessFlags = .ok () := by
  unfold FunDef.accessFlags
  cases f.isStatic <;> cases f.visibility <;> decide

theorem FunDef.has_static (f : FunDef) :
    AccessFlags.has f.accessFlags AccessFlags.static = f.isStatic := by
  unfold FunDef.accessFlags
  cases f.isStatic <;> cases f.visibility <;> decide

/-- The words that the verifier counts in the descriptor of a function are those that its locals
start with. -/
theorem FunDef.argumentWords? {f : FunDef} {start : Locals} (hclean : ∀ p ∈ f.params, p.ty.Clean)
    (h : Locals.ofFunction f f.reservedSlots = .ok start) :
    ∃ args, Descriptor.argumentWords? f.descriptor = some args ∧
      args + (if f.isStatic then 0 else 1) = f.reservedSlots + Locals.paramsWidth f.params := by
  obtain ⟨-, hplaced, -⟩ := Locals.ofFunction_ok h
  unfold FunDef.descriptor Callable.ofFunction FunDef.reservedSlots
  cases hentry : f.isEntryPoint with
  | true =>
    simp only [FunDef.isEntryPoint, Bool.and_eq_true, List.isEmpty_iff] at hentry
    have hwords : Descriptor.argumentWords? Descriptor.entryPoint = some 1 := by decide
    refine ⟨1, hwords, ?_⟩
    simp [hentry, Locals.paramsWidth]
  | false =>
    refine ⟨_, Descriptor.argumentWords?_ofMethod f.returnType ?_, ?_⟩
    · intro ty hty
      obtain ⟨p, hp, rfl⟩ := List.mem_map.1 hty
      exact ⟨hclean p hp, hplaced.kind? p hp⟩
    · rw [List.foldl_map, Locals.foldl_width, Nat.zero_add]
      cases f.isStatic <;> simp [Nat.add_comm]

/-- The method of a function passes. -/
theorem CompiledFunction.passes {pool : ConstantPool} {table : CallTable} {f : FunDef} {m : Method}
    (h : CompiledFunction pool table f m) (hclean : ∀ p ∈ f.params, p.ty.Clean) :
    m.Passes pool (f.name, f.descriptor) := by
  obtain ⟨start, final, a, hstart, -, hgrows, -, hbody⟩ := h.body
  obtain ⟨hsound, -, hnext⟩ := Locals.ofFunction_ok hstart
  obtain ⟨args, hargs, hwords⟩ := FunDef.argumentWords? hclean hstart
  have hfinal := hgrows.sound _ _ _ hsound (Nat.le_of_eq (by rw [hnext]))
  exact
    { name := h.name
      descriptor := h.descriptor
      attrName := ⟨_, h.attrName⟩
      flags := by
        rw [h.flags]
        exact f.verifyFlags_accessFlags
      room := by
        refine ⟨args, hargs, ?_⟩
        rw [h.flags, f.has_static, hwords, hbody.maxLocals]
        exact Nat.le_trans hfinal.params.2 (Nat.le_max_right _ _)
      result := by
        unfold FunDef.descriptor Callable.ofFunction
        dsimp only
        split
        · decide
        · exact Descriptor.returnWords?_ofMethod_isSome _ _
      code := by
        rw [hbody.code]
        exact verifyCode_of_laid f.name (ends_selectBody _) hbody.laid hbody.closed }

/-- The added constructor passes. -/
theorem CompiledConstructor.passes {pool : ConstantPool} {superClass : String} {m : Method}
    (h : CompiledConstructor pool superClass m) :
    m.Passes pool (constructorName, constructorDescriptor) := by
  obtain ⟨a, hbody⟩ := h.body
  exact
    { name := h.name
      descriptor := h.descriptor
      attrName := ⟨_, h.attrName⟩
      flags := by
        rw [h.flags]
        decide
      room := by
        refine ⟨0, by decide, ?_⟩
        rw [h.flags, hbody.maxLocals]
        exact Nat.le_max_right _ _
      result := by decide
      code := by
        rw [hbody.code]
        exact verifyCode_of_laid constructorName rfl hbody.laid hbody.closed }

/-! ## Classes -/

/-- The methods of a class of a program pass. -/
theorem Compiled.verifyMethods {options : Options} {imports : List Callable} {p : Program}
    {c : ClassFile} {table : CallTable} (h : Compiled options imports p c table)
    (hclean : ∀ f ∈ p.functions, ∀ q ∈ f.params, q.ty.Clean) :
    verifyMethods c.pool [] c.methods = .ok () := by
  obtain ⟨constructors, functions, hmethods, hconstructors, hfunctions⟩ := h.methods
  have hpass : List.Forall₂ (Method.Passes c.pool)
      (p.functions.map fun f => (f.name, f.descriptor)) functions := by
    rw [List.forall₂_map_left_iff]
    exact ((List.forall₂_and_left _ _).2 ⟨hclean, hfunctions⟩).imp fun _ _ h => h.2.passes h.1
  have hnodup : (p.functions.map fun f => (f.name, f.descriptor)).Nodup :=
    List.pairwise_map.2 (h.distinct.imp fun hne heq => hne (congrArg Prod.fst heq))
  rw [hmethods]
  rcases hconstructors with rfl | ⟨m, rfl, hm, hnames⟩
  · exact verifyMethods_of_passes hpass hnodup (by simp)
  · refine verifyMethods_of_passes (.cons hm.passes hpass) (List.nodup_cons.2 ⟨?_, hnodup⟩) (by simp)
    intro hmem
    obtain ⟨f, hf, heq⟩ := List.mem_map.1 hmem
    exact hnames f hf (congrArg Prod.fst heq)

/-- The class of a program passes. -/
theorem Compiled.verify {options : Options} {imports : List Callable} {p : Program}
    {c : ClassFile} {table : CallTable} (h : Compiled options imports p c table)
    (hmajor : 45 ≤ options.major ∧ options.major ≤ 74)
    (hclean : ∀ f ∈ p.functions, ∀ q ∈ f.params, q.ty.Clean) : c.verify = .ok () := by
  obtain ⟨b, hb, hpool⟩ := h.pool
  have hverified : verifyPool c.pool = .ok () := hpool ▸ verifyPool_of_sound hb
  obtain ⟨_, hthis, -⟩ := ConstantPool.className?_eq_some_iff.1 h.thisClass
  obtain ⟨_, hsuper, -⟩ := ConstantPool.className?_eq_some_iff.1 h.superClass
  have hthis' : c.pool.expect c.thisClass "Class" = .ok () := ConstantPool.expect_of_get? hthis
  have hsuper' : c.pool.expect c.superClass "Class" = .ok () := ConstantPool.expect_of_get? hsuper
  unfold ClassFile.verify
  rw [if_neg (not_not.2 h.magic), if_neg (by rw [h.major]; simpa using hmajor), hverified, hthis',
    hsuper', h.verifyMethods hclean]
  rfl

/-- **Every class that the compiler gives passes the verifier**, so no class is refused for what
the verifier found. Imported methods come without an index in the pool, and the names of structures
and objects in parameters must not hold the letters that divide a descriptor. -/
theorem verify_of_compile {options : Options} {imports : List Callable} {p : Program}
    (hmajor : 45 ≤ options.major ∧ options.major ≤ 74)
    (himports : ∀ i ∈ imports, i.methodRef = none)
    (hclean : ∀ f ∈ p.functions, ∀ q ∈ f.params, q.ty.Clean) :
    (∀ c, (compileProgram options imports p).result = .ok c → c.verify = .ok ()) ∧
      ∀ e, (buildClass options imports p).result ≠ .error (.verify e) := by
  have hverify : ∀ c, (compileProgram options imports p).result = .ok c → c.verify = .ok () := by
    intro c hc
    obtain ⟨table, h⟩ := compiled_of_ok himports hc
    exact h.verify hmajor hclean
  refine ⟨hverify, fun e he => ?_⟩
  unfold buildClass at he
  dsimp only at he
  cases hc : (compileProgram options imports p).result with
  | error cause =>
    rw [hc] at he
    cases he
  | ok c =>
    rw [hc] at he
    change verified options c = .error (.verify e) at he
    unfold verified at he
    rw [hverify c hc] at he
    split at he <;> cases he

/-- The class of a program with a loop passes. -/
theorem verify_of_compile_latch :
    (∃ c, (compileProgram {} [] latch).result = .ok c ∧ c.verify = .ok ()) ∧
      ∀ e, (buildClass {} [] latch).result ≠ .error (.verify e) := by
  have h := @verify_of_compile {} [] latch (by decide) nofun
    (by
      intro f hf q hq
      obtain rfl := List.mem_singleton.1 hf
      simp only [latchFunction, List.mem_cons, List.not_mem_nil, or_false] at hq
      rcases hq with rfl | rfl <;> trivial)
  obtain ⟨c, hc⟩ := compileProgram_latch
  exact ⟨⟨c, hc, h.1 c hc⟩, h.2⟩

end ClassFoundry
