import ClassFoundry.Proofs.Structured.Declarations

/-!
# The class of a program

A class that comes out of the compiler has one method for each function of the program, in order,
and its code is the structured code of the function, laid out. Calls between functions go through
the call table, which knows every function before the first one is lowered.

## Main definitions

* `MethodBody`: a method whose code is a flow, laid out
* `CompiledFunction`, `CompiledConstructor`: the methods of a class
* `Compiled`: the class of a program

## Main results

* `compiled_of_ok`: every successful compilation gives such a class
-/

namespace ClassFoundry

/-! ## Bodies -/

theorem Runs.bounds {es : List Event} {a b : Assembler} (h : Runs es a b)
    (hdepth : a.maxDepth ≤ maxFrameWords) (hlocals : a.maxLocals ≤ maxFrameWords) :
    b.maxDepth ≤ maxFrameWords ∧ b.maxLocals ≤ maxFrameWords := by
  induction h with
  | nil a => exact ⟨hdepth, hlocals⟩
  | cons head tail ih =>
    cases head with
    | emit _ _ emits => exact ih (emits.maxDepth_le hdepth) (emits.maxLocals_le hlocals)
    | branch _ branches =>
      exact ih (branches.maxDepth ▸ hdepth) (branches.maxLocals ▸ hlocals)
    | fresh => exact ih hdepth hlocals
    | place places => exact ih (places.maxDepth ▸ hdepth) (places.maxLocals ▸ hlocals)

/-- **A method whose code is a flow**, laid out from a state with `initial` locals; `a` is the state
of the assembler in the end, and `locals` counts the declared variables. -/
structure MethodBody (pool : ConstantPool) (flow : Flow) (initial locals : Nat) (m : Method)
    (a : Assembler) : Prop where
  laid : flow.Laid pool none (.start initial) a
  closed : a.Closed
  code : m.code = a.code
  size : m.code.size ≤ maxCodeLength
  maxStack : m.maxStack.toNat = a.maxDepth
  maxLocals : m.maxLocals.toNat = max a.maxLocals locals

theorem MethodBody.mono {p q : ConstantPool} (h : p ≤ q) {flow : Flow} {initial locals : Nat}
    {m : Method} {a : Assembler} (hb : MethodBody p flow initial locals m a) :
    MethodBody q flow initial locals m a :=
  { hb with laid := Flow.Laid.mono h flow hb.laid }

theorem finishBody_ok {s s' : LowerState} {body : Finished} (h : finishBody s = .ok body s') :
    s = s' ∧ s.asm.Closed ∧ body.code = s.asm.code ∧ body.maxStack = s.asm.maxDepth ∧
      body.maxLocals = max s.asm.maxLocals s.locals.maxLocals ∧
      body.code.size ≤ maxCodeLength := by
  unfold finishBody at h
  obtain ⟨t, s₁, h₁, h⟩ := bind_ok.1 h
  obtain ⟨rfl, rfl⟩ := get_ok.1 h₁
  obtain ⟨finished, s₂, h₂, h⟩ := bind_ok.1 h
  obtain ⟨hfinish, rfl⟩ := Lower.check_ok.1 h₂
  obtain ⟨hclosed, hcode, hstack, hlocals, hsize⟩ :=
    Assembler.finish_ok (Except.mapError_eq_ok.1 hfinish)
  obtain ⟨rfl, rfl⟩ := pure_ok.1 h
  exact ⟨rfl, hclosed, hcode, hstack, by simp only [hlocals], hcode ▸ hsize⟩

theorem toNat_ofNat_of_le {n : Nat} (h : n ≤ maxFrameWords) : (UInt16.ofNat n).toNat = n := by
  unfold maxFrameWords at h
  rw [UInt16.toNat_ofNat', Nat.mod_eq_of_lt (by omega)]

/-- A body that was laid out and finished. -/
theorem methodBody_of_finishBody (flags name descriptor attrName : UInt16) {s s' : LowerState}
    {flow : Flow} {initial : Nat} {body : Finished} {pool : ConstantPool}
    (hlaid : flow.Laid pool none (.start initial) s.asm) (hinitial : initial ≤ maxFrameWords)
    (hlocals : s.locals.maxLocals ≤ maxFrameWords) (h : finishBody s = .ok body s') :
    MethodBody pool flow initial s.locals.maxLocals
      ⟨flags, name, descriptor, attrName, UInt16.ofNat body.maxStack,
        UInt16.ofNat body.maxLocals, body.code⟩ s.asm := by
  obtain ⟨-, hclosed, hcode, hstack, hmax, hsize⟩ := finishBody_ok h
  obtain ⟨es, hruns, -⟩ := (Flow.Laid.stretch flow hlaid).runs
  obtain ⟨hd, hl⟩ := hruns.bounds (Nat.zero_le _) hinitial
  exact
    { laid := hlaid
      closed := hclosed
      code := hcode
      size := hsize
      maxStack := by
        rw [hstack]
        exact toNat_ofNat_of_le hd
      maxLocals := by
        rw [hmax]
        exact toNat_ofNat_of_le (Nat.max_le.2 ⟨hl, hlocals⟩) }

/-! ## Methods -/

/-- The descriptor of a function. -/
def FunDef.descriptor (f : FunDef) : String := (Callable.ofFunction "" f).descriptor

/-- The names in a function body of which `l` holds the variables in the end. -/
def Locals.names (l : Locals) (table : CallTable) (f : FunDef) : Names := ⟨⟨table, f⟩, l.find?⟩

/-- **The method of a function**. -/
structure CompiledFunction (pool : ConstantPool) (table : CallTable) (f : FunDef) (m : Method) :
    Prop where
  name : pool.text? m.name = some f.name
  descriptor : pool.text? m.descriptor = some f.descriptor
  attrName : pool.text? m.attrName = some codeAttribute
  flags : m.flags = f.accessFlags
  lowered : ∃ (b : PoolBuilder) (start : Locals) (body : Finished) (s : LowerState),
    Locals.ofFunction f f.reservedSlots = .ok start ∧
    lowerFunction ⟨table, f⟩ ⟨b, start, .start start.maxLocals⟩ = .ok body s ∧ m.code = body.code
  body : ∃ (start final : Locals) (a : Assembler),
    Locals.ofFunction f f.reservedSlots = .ok start ∧ f.locals? = .ok final ∧
    start.Grows (Stmt.declarationsOf f.body) final ∧ (final.names table f).BodyChecked ∧
    MethodBody pool (selectBody (final.names table f)) start.maxLocals final.maxLocals m a

/-- The structured code of a constructor that only calls the one of the superclass. -/
def constructorFlow (superClass : String) : Flow :=
  .seq (.run (.seq (.ofOp (.load .reference 0))
    (.op (.invoke .special ⟨superClass, constructorName, constructorDescriptor⟩ [] none))))
    (.ret .nil none)

/-- **The constructor that is added to a class**. -/
structure CompiledConstructor (pool : ConstantPool) (superClass : String) (m : Method) : Prop where
  name : pool.text? m.name = some constructorName
  descriptor : pool.text? m.descriptor = some constructorDescriptor
  attrName : pool.text? m.attrName = some codeAttribute
  flags : m.flags = AccessFlags.pub
  body : ∃ a, MethodBody pool (constructorFlow superClass) 1 1 m a

theorem CompiledFunction.mono {p q : ConstantPool} (h : p ≤ q) {table : CallTable} {f : FunDef}
    {m : Method} (hm : CompiledFunction p table f m) : CompiledFunction q table f m where
  name := ConstantPool.text?_mono h hm.name
  descriptor := ConstantPool.text?_mono h hm.descriptor
  attrName := ConstantPool.text?_mono h hm.attrName
  flags := hm.flags
  lowered := hm.lowered
  body := by
    obtain ⟨start, final, a, h₁, h₂, h₃, h₄, h₅⟩ := hm.body
    exact ⟨start, final, a, h₁, h₂, h₃, h₄, h₅.mono h⟩

theorem CompiledConstructor.mono {p q : ConstantPool} (h : p ≤ q) {superClass : String}
    {m : Method} (hm : CompiledConstructor p superClass m) :
    CompiledConstructor q superClass m where
  name := ConstantPool.text?_mono h hm.name
  descriptor := ConstantPool.text?_mono h hm.descriptor
  attrName := ConstantPool.text?_mono h hm.attrName
  flags := hm.flags
  body := by
    obtain ⟨a, ha⟩ := hm.body
    exact ⟨a, ha.mono h⟩

/-- A function as the call table knows it. -/
def Callable.Registers (owner : String) (f : FunDef) (c : Callable) : Prop :=
  ∃ i, c = { Callable.ofFunction owner f with methodRef := some i }

/-- The methods of a call table that have an index are under that index in the pool. -/
def CallTable.Refers (t : CallTable) (pool : ConstantPool) : Prop :=
  ∀ c ∈ t.entries, ∀ i, c.methodRef = some i → pool.member? i = some c.member ∧
    ∃ cls sig, pool.get? i = some (.methodRef cls sig)

theorem CallTable.Refers.mono {t : CallTable} {p q : ConstantPool} (h : p ≤ q)
    (ht : t.Refers p) : t.Refers q := by
  intro c hc i hi
  obtain ⟨hm, cls, sig, hg⟩ := ht c hc i hi
  exact ⟨ConstantPool.member?_mono h hm, cls, sig, ConstantPool.get?_mono h hg⟩

/-- **The class of a program**: `table` is the call table that its functions are lowered under. -/
structure Compiled (options : Options) (imports : List Callable) (p : Program) (c : ClassFile)
    (table : CallTable) : Prop where
  magic : c.magic = magicNumber
  major : c.major = options.major
  pool : ∃ b : PoolBuilder, b.Sound ∧ b.pool = c.pool
  thisClass : c.pool.className? c.thisClass = some p.name
  superClass : c.pool.className? c.superClass = some options.superClass
  refers : table.Refers c.pool
  entries : ∃ own, table.entries.toList = builtins ++ imports ++ own ∧
    List.Forall₂ (Callable.Registers p.name) p.functions own
  distinct : p.functions.Pairwise fun f g => f.name ≠ g.name
  methods : ∃ constructors functions, c.methods = constructors ++ functions ∧
    (constructors = [] ∨ ∃ m, constructors = [m] ∧
      CompiledConstructor c.pool options.superClass m ∧
        ∀ f ∈ p.functions, f.name ≠ constructorName) ∧
    List.Forall₂ (CompiledFunction c.pool table) p.functions functions

/-! ## The two passes -/

section Forall₂

variable {α β : Type} {R : α → β → Prop} {l : List α} {l' : List β}

theorem forall₂_left (h : List.Forall₂ R l l') {a : α} (ha : a ∈ l) : ∃ b ∈ l', R a b := by
  induction h with
  | nil => cases ha
  | @cons a' b l l' hab _ ih =>
    rcases List.mem_cons.1 ha with rfl | ha
    · exact ⟨b, List.mem_cons_self, hab⟩
    · obtain ⟨b', hb', hab'⟩ := ih ha
      exact ⟨b', List.mem_cons_of_mem _ hb', hab'⟩

theorem forall₂_right (h : List.Forall₂ R l l') {b : β} (hb : b ∈ l') : ∃ a ∈ l, R a b :=
  forall₂_left (R := flip R) h.flip hb

end Forall₂

namespace ClassM

variable {α : Type} {s s' : ClassState}

theorem pool_ok {x : PoolM α} {a : α} :
    ClassM.pool x s = .ok a s' ↔ ∃ p, x s.pool = .ok a p ∧ s' = { s with pool := p } := by
  obtain ⟨pool, table, methods, warnings, trace⟩ := s
  unfold ClassM.pool
  dsimp only
  cases x pool <;> simp [eq_comm, and_assoc]

theorem function_ok {name : String} {locals : Locals} {x : Lower α} {a : α} :
    ClassM.function name locals x s = .ok a s' ↔
      ∃ t, x ⟨s.pool, locals, .start locals.maxLocals⟩ = .ok a t ∧
        s' = { s with pool := t.pool, trace := s.trace ++ t.asm.trace } := by
  obtain ⟨pool, table, methods, warnings, trace⟩ := s
  unfold ClassM.function
  dsimp only
  cases x ⟨pool, locals, .start locals.maxLocals⟩ <;> simp [eq_comm, and_assoc]

end ClassM

/-- The states of a compilation. -/
structure ClassReady (s : ClassState) : Prop where
  sound : s.pool.Sound
  refers : s.table.Refers s.pool.pool

section Passes

variable {s s' : ClassState}

theorem CallTable.defined?_eq_none {t : CallTable} {name : String}
    (h : (t.defined? name).isSome = false) : ∀ e ∈ t.entries, e.defined = true → e.name ≠ name := by
  intro e he hd hn
  rw [Option.isSome_eq_false_iff, Option.isNone_iff_eq_none] at h
  have := Array.findIdx?_eq_none_iff.1 h e he
  simp [hd, hn] at this

/-- The first pass over a function adds it to the table. -/
theorem registerFunction_ok {owner : String} {f : FunDef} (hs : ClassReady s)
    (h : registerFunction owner f s = .ok () s') :
    ClassReady s' ∧ s.pool.Grows s'.pool ∧ s'.methods = s.methods ∧
      (∀ e ∈ s.table.entries, e.defined = true → e.name ≠ f.name) ∧
      ∃ c, Callable.Registers owner f c ∧
        s'.table.entries.toList = s.table.entries.toList ++ [c] := by
  unfold registerFunction at h
  obtain ⟨i, s₁, h₁, h⟩ := bind_ok.1 h
  obtain ⟨p, hp, rfl⟩ := ClassM.pool_ok.1 h₁
  obtain ⟨hgrows, hm, href⟩ := PoolBuilder.internMethod_sound hs.sound hp
  obtain ⟨t, s₂, h₂, h⟩ := bind_ok.1 h
  obtain ⟨rfl, rfl⟩ := get_ok.1 h₂
  dsimp only at h
  cases hregister : s.table.register
      { Callable.ofFunction owner f with methodRef := some i } with
  | error e =>
    rw [hregister] at h
    exact absurd h throw_ok.1
  | ok table =>
    rw [hregister] at h
    cases h
    unfold CallTable.register at hregister
    split at hregister
    · cases hregister
    · rename_i hnew
      cases hregister
      have hnone : (s.table.defined? f.name).isSome = false := by
        simpa [Callable.ofFunction] using hnew
      refine ⟨⟨hgrows.sound, ?_⟩, hgrows, rfl, CallTable.defined?_eq_none hnone, _, ⟨i, rfl⟩, ?_⟩
      · intro c hc j hj
        rcases Array.mem_push.1 hc with hc | rfl
        · exact hs.refers.mono hgrows.le c hc j hj
        · cases hj
          exact ⟨hm, href⟩
      · simp [CallTable.add]

/-- **The first pass**: every function is in the table, and no two of them have one name. -/
theorem registerFunctions_ok {owner : String} {fs : List FunDef} (hs : ClassReady s)
    (h : fs.forM (registerFunction owner) s = .ok () s') :
    ClassReady s' ∧ s.pool.Grows s'.pool ∧ s'.methods = s.methods ∧
      (∀ f ∈ fs, ∀ e ∈ s.table.entries, e.defined = true → e.name ≠ f.name) ∧
      (fs.Pairwise fun f g => f.name ≠ g.name) ∧
      ∃ own, List.Forall₂ (Callable.Registers owner) fs own ∧
        s'.table.entries.toList = s.table.entries.toList ++ own := by
  induction fs generalizing s with
  | nil =>
    obtain ⟨-, rfl⟩ := pure_ok.1 h
    exact ⟨hs, .refl hs.sound, rfl, by simp, .nil, [], .nil, by simp⟩
  | cons f fs ih =>
    obtain ⟨_, s₁, h₁, h⟩ := bind_ok.1 h
    obtain ⟨hs₁, hg₁, hm₁, hnew, c, hc, ht₁⟩ := registerFunction_ok hs h₁
    obtain ⟨hs', hg', hm', hfresh, hdistinct, own, hown, ht'⟩ := ih hs₁ h
    have hmem (e : Callable) : e ∈ s₁.table.entries ↔ e ∈ s.table.entries ∨ e = c := by
      rw [← Array.mem_toList_iff, ht₁]
      simp
    obtain ⟨i, hi⟩ := hc
    refine ⟨hs', hg₁.trans hg', hm'.trans hm₁, ?_, ?_, c :: own, .cons ⟨i, hi⟩ hown, ?_⟩
    · intro g hg e he
      rcases List.mem_cons.1 hg with rfl | hg
      · exact hnew e he
      · exact hfresh g hg e ((hmem e).2 (.inl he))
    · refine List.pairwise_cons.2 ⟨fun g hg => ?_, hdistinct⟩
      have := hfresh g hg c ((hmem c).2 (.inr rfl))
      rw [hi] at this
      exact this rfl
    · rw [ht', ht₁, List.append_assoc, List.singleton_append]

theorem addMethod_ok {attrName flags : UInt16} {name descriptor : String} {body : Finished}
    (hs : ClassReady s) (h : addMethod attrName flags name descriptor body s = .ok () s') :
    ClassReady s' ∧ s.pool.Grows s'.pool ∧ s'.table = s.table ∧
      ∃ n d, s'.pool.pool.text? n = some name ∧ s'.pool.pool.text? d = some descriptor ∧
        s'.methods = s.methods.push ⟨flags, n, d, attrName, UInt16.ofNat body.maxStack,
          UInt16.ofNat body.maxLocals, body.code⟩ := by
  simp only [addMethod, bind_ok] at h
  obtain ⟨n, s₁, h₁, d, s₂, h₂, h⟩ := h
  obtain ⟨p, hp, rfl⟩ := ClassM.pool_ok.1 h₁
  obtain ⟨hg₁, hn⟩ := PoolBuilder.internText_sound hs.sound hp
  obtain ⟨q, hq, rfl⟩ := ClassM.pool_ok.1 h₂
  obtain ⟨hg₂, hd⟩ := PoolBuilder.internText_sound hg₁.sound hq
  obtain rfl := modify_ok.1 h
  have hg := hg₁.trans hg₂
  exact ⟨⟨hg.sound, hs.refers.mono hg.le⟩, hg, rfl, n, d, ConstantPool.text?_mono hg₂.le hn, hd,
    rfl⟩

/-- The second pass over a function adds its method. -/
theorem compileFunction_ok {attrName : UInt16} {f : FunDef} {owner : String} {c : Callable}
    (hs : ClassReady s) (hattr : s.pool.pool.text? attrName = some codeAttribute)
    (hc : Callable.Registers owner f c)
    (hfind : (s.table.defined? f.name).bind (s.table.entries[·]?) = some c)
    (h : compileFunction attrName f s = .ok () s') :
    ClassReady s' ∧ s.pool.Grows s'.pool ∧ s'.table = s.table ∧
      ∃ m, CompiledFunction s'.pool.pool s.table f m ∧ s'.methods = s.methods.push m := by
  unfold compileFunction at h
  obtain ⟨t, s₁, h₁, h⟩ := bind_ok.1 h
  obtain ⟨rfl, rfl⟩ := get_ok.1 h₁
  rw [hfind] at h
  dsimp only at h
  cases hstart : Locals.ofFunction f f.reservedSlots with
  | error e =>
    rw [hstart] at h
    exact absurd h throw_ok.1
  | ok start =>
    rw [hstart] at h
    obtain ⟨body, s₁, h₁, h₂⟩ := bind_ok.1 h
    obtain ⟨t, ht, rfl⟩ := ClassM.function_ok.1 h₁
    obtain ⟨_, t₁, hbody, hfinish⟩ := bind_ok.1 ht
    obtain ⟨rfl, -⟩ := finishBody_ok hfinish
    have hprepared : Prepared ⟨s.table, f⟩ ⟨s.pool, start, .start start.maxLocals⟩ :=
      ⟨hs.sound, hs.refers, fun _ _ h => h⟩
    have hproduces := lowerBody_produces hprepared hbody
    have hlocals : f.locals? = .ok t₁.locals := by
      rw [FunDef.locals?, hstart]
      exact lowerBody_locals hprepared hbody
    obtain ⟨hlaid, hchecked⟩ := hproduces.holds t₁.locals.find? fun _ _ h => h
    have hgrows : s.pool.Grows t₁.pool := hproduces.pool
    obtain ⟨hsound, -, hnext⟩ := Locals.ofFunction_ok hstart
    have hfinal := hproduces.locals.sound _ _ _ hsound (Nat.le_of_eq (by rw [hnext]))
    have hready : ClassReady { s with pool := t₁.pool, trace := s.trace ++ t₁.asm.trace } :=
      ⟨hgrows.sound, hs.refers.mono hgrows.le⟩
    obtain ⟨hs', hg', htable, n, d, hn, hd, hmethods⟩ := addMethod_ok hready h₂
    obtain ⟨i, rfl⟩ := hc
    refine ⟨hs', hgrows.trans hg', htable, _, ?_, hmethods⟩
    exact
      { name := hn
        descriptor := hd
        attrName := ConstantPool.text?_mono (ConstantPool.le_trans hgrows.le hg'.le) hattr
        flags := rfl
        lowered := ⟨s.pool, start, body, t₁, hstart, ht, rfl⟩
        body := ⟨start, t₁.locals, t₁.asm, hstart, hlocals, hproduces.locals, hchecked,
          (methodBody_of_finishBody _ _ _ _ hlaid hsound.maxLocals_le hfinal.maxLocals_le hfinish).mono
            hg'.le⟩ }

/-- A registered function is found by its name. -/
theorem defined?_of_registers {t : CallTable} {owner : String} {fs : List FunDef}
    {before own : List Callable} (ht : t.entries.toList = before ++ own)
    (hown : List.Forall₂ (Callable.Registers owner) fs own)
    (hbefore : ∀ f ∈ fs, ∀ e ∈ before, e.defined = true → e.name ≠ f.name)
    (hdistinct : fs.Pairwise fun f g => f.name ≠ g.name) {f : FunDef} (hf : f ∈ fs) :
    ∃ c, Callable.Registers owner f c ∧ (t.defined? f.name).bind (t.entries[·]?) = some c := by
  obtain ⟨c, hc, i, rfl⟩ := forall₂_left hown hf
  have hsome : (t.defined? f.name).isSome = true := by
    rw [Option.isSome_iff_ne_none]
    intro hnone
    have hmem := Array.mem_toList_iff.1 (ht ▸ List.mem_append_right before hc)
    have := Array.findIdx?_eq_none_iff.1 hnone _ hmem
    simp [Callable.ofFunction] at this
  obtain ⟨k, hk⟩ := Option.isSome_iff_exists.1 hsome
  obtain ⟨hlt, he, -⟩ := Array.findIdx?_eq_some_iff_getElem.1 hk
  simp only [Bool.and_eq_true, beq_iff_eq] at he
  refine ⟨t.entries[k], ?_, by simp [hk, hlt]⟩
  have hmem : t.entries[k] ∈ before ++ own := by
    rw [← ht]
    simp
  -- the first defined entry with the name is no import, and of the functions only this one
  rcases List.mem_append.1 hmem with hmem | hmem
  · exact absurd he.2 (hbefore f hf _ hmem he.1)
  · obtain ⟨g, hg, j, hj⟩ := forall₂_right hown hmem
    have hname : g.name = f.name := by
      rw [← he.2, hj]
      rfl
    have hgf : g = f := by
      have : Std.Symm fun f g : FunDef => f.name ≠ g.name := ⟨fun _ _ h => h.symm⟩
      by_contra hne
      exact hdistinct.forall hg hf hne hname
    exact ⟨j, hgf ▸ hj⟩

/-- **The second pass**: every function has its method. -/
theorem compileFunctions_ok (owner : String) {attrName : UInt16} {fs : List FunDef}
    (hs : ClassReady s) (hattr : s.pool.pool.text? attrName = some codeAttribute)
    (hfind : ∀ f ∈ fs, ∃ c, Callable.Registers owner f c ∧
      (s.table.defined? f.name).bind (s.table.entries[·]?) = some c)
    (h : fs.forM (compileFunction attrName) s = .ok () s') :
    ClassReady s' ∧ s.pool.Grows s'.pool ∧ s'.table = s.table ∧
      ∃ ms, List.Forall₂ (CompiledFunction s'.pool.pool s.table) fs ms ∧
        s'.methods.toList = s.methods.toList ++ ms := by
  induction fs generalizing s with
  | nil =>
    obtain ⟨-, rfl⟩ := pure_ok.1 h
    exact ⟨hs, .refl hs.sound, rfl, [], .nil, by simp⟩
  | cons f fs ih =>
    obtain ⟨_, s₁, h₁, h⟩ := bind_ok.1 h
    obtain ⟨c, hc, hdefined⟩ := hfind f List.mem_cons_self
    obtain ⟨hs₁, hg₁, ht₁, m, hm, hmethods⟩ := compileFunction_ok hs hattr hc hdefined h₁
    obtain ⟨hs', hg', ht', ms, hms, hmethods'⟩ := ih hs₁ (ConstantPool.text?_mono hg₁.le hattr)
      (by rw [ht₁]; exact fun g hg => hfind g (List.mem_cons_of_mem _ hg)) h
    rw [ht₁] at hms ht'
    refine ⟨hs', hg₁.trans hg', ht', m :: ms, .cons (hm.mono hg'.le) hms, ?_⟩
    rw [hmethods', hmethods, Array.toList_push, List.append_assoc, List.singleton_append]

theorem addConstructor_ok {attrName : UInt16} {superClass : String} (hs : ClassReady s)
    (hattr : s.pool.pool.text? attrName = some codeAttribute)
    (h : addConstructor attrName superClass s = .ok () s') :
    ClassReady s' ∧ s.pool.Grows s'.pool ∧ s'.table = s.table ∧
      ∃ m, CompiledConstructor s'.pool.pool superClass m ∧ s'.methods = s.methods.push m := by
  unfold addConstructor at h
  obtain ⟨i, s₁, h₁, h⟩ := bind_ok.1 h
  obtain ⟨p, hp, rfl⟩ := ClassM.pool_ok.1 h₁
  obtain ⟨hgrows, hm, href⟩ := PoolBuilder.internMethod_sound hs.sound hp
  obtain ⟨body, s₁, h₁, h₂⟩ := bind_ok.1 h
  obtain ⟨t, ht, rfl⟩ := ClassM.function_ok.1 h₁
  simp only [constructorBody, bind_ok] at ht
  obtain ⟨_, t₁, ht₁, _, t₂, ht₂, _, t₃, ht₃, hfinish⟩ := ht
  obtain ⟨rfl, -⟩ := finishBody_ok hfinish
  have hb₁ := load_builds hgrows.sound ht₁
  obtain ⟨cls, sig, hg⟩ := href
  have hb₂ := invoke_builds .special [] none hb₁.pool.sound
    (ConstantPool.member?_mono hb₁.pool.le hm) ⟨cls, sig, ConstantPool.get?_mono hb₁.pool.le hg⟩
    rfl rfl ht₂
  have hb := hb₁.seq hb₂
  obtain ⟨ht₃', hret⟩ := ret_ok ht₃
  have hlocals : t₃.locals = constructorLocals := by
    rw [ht₃']
    exact hb.locals
  have hpool : t₃.pool = t₂.pool := by rw [ht₃']
  have hgrows₃ : s.pool.Grows t₃.pool := hpool ▸ hgrows.trans hb.pool
  -- the receiver, the call of the constructor of the super class, and the return
  have hlaid : (constructorFlow superClass).Laid t₃.pool.pool none (.start 1) t₃.asm :=
    ⟨t₂.asm, hpool ▸ hb.laid, t₂.asm, rfl, hret⟩
  have hready : ClassReady { s with pool := t₃.pool, trace := s.trace ++ t₃.asm.trace } :=
    ⟨hgrows₃.sound, hs.refers.mono hgrows₃.le⟩
  obtain ⟨hs', hg', htable, n, d, hn, hd, hmethods⟩ := addMethod_ok hready h₂
  have hbody := (methodBody_of_finishBody AccessFlags.pub n d attrName hlaid (by decide)
    (by rw [hlocals]; decide) hfinish).mono hg'.le
  rw [hlocals] at hbody
  exact ⟨hs', hgrows₃.trans hg', htable, _,
    { name := hn
      descriptor := hd
      attrName := ConstantPool.text?_mono (ConstantPool.le_trans hgrows₃.le hg'.le) hattr
      flags := rfl
      body := ⟨t₃.asm, hbody⟩ }, hmethods⟩

theorem compileConstructor_ok {options : Options} {attrName : UInt16} {p : Program}
    (hs : ClassReady s) (hattr : s.pool.pool.text? attrName = some codeAttribute)
    (h : compileConstructor options attrName p s = .ok () s') :
    ClassReady s' ∧ s.pool.Grows s'.pool ∧ s'.table = s.table ∧
      (s'.methods = s.methods ∨ ∃ m, CompiledConstructor s'.pool.pool options.superClass m ∧
        s'.methods = s.methods.push m ∧ ∀ f ∈ p.functions, f.name ≠ constructorName) := by
  unfold compileConstructor at h
  rcases ite_ok.1 h with ⟨-, h⟩ | ⟨-, h⟩
  · rcases ite_ok.1 h with ⟨-, h⟩ | ⟨hnone, h⟩
    · obtain rfl := modify_ok.1 h
      exact ⟨⟨hs.sound, hs.refers⟩, .refl hs.sound, rfl, .inl rfl⟩
    · obtain ⟨hs', hg, ht, m, hm, hmethods⟩ := addConstructor_ok hs hattr h
      refine ⟨hs', hg, ht, .inr ⟨m, hm, hmethods, fun f hf hname => hnone ?_⟩⟩
      rw [Program.function?, List.find?_isSome]
      exact ⟨f, hf, by simpa using hname⟩
  · obtain ⟨-, rfl⟩ := pure_ok.1 h
    exact ⟨hs, .refl hs.sound, rfl, .inl rfl⟩

end Passes

theorem entries_importTable (imports : List Callable) :
    (importTable imports).entries.toList = builtins ++ imports := by
  have hfold (t : CallTable) :
      (imports.foldl CallTable.add t).entries.toList = t.entries.toList ++ imports := by
    induction imports generalizing t with
    | nil => simp
    | cons c imports ih => simp [ih, CallTable.add]
  exact hfold _

theorem methodRef_builtins : ∀ c ∈ builtins, c.methodRef = none := by decide

theorem compileProgram_eq_ok {options : Options} {imports : List Callable} {p : Program}
    {c : ClassFile} :
    (compileProgram options imports p).result = .ok c ↔ ∃ s, compileClass options p
      { pool := .withLimit options.poolLimit, table := importTable imports } = .ok c s := by
  unfold compileProgram
  dsimp only
  cases compileClass options p
      { pool := .withLimit options.poolLimit, table := importTable imports } <;> simp

/-- **Every successful compilation** gives the class of the program. -/
theorem compiled_of_ok {options : Options} {imports : List Callable} {p : Program} {c : ClassFile}
    (himports : ∀ i ∈ imports, i.methodRef = none)
    (h : (compileProgram options imports p).result = .ok c) :
    ∃ table, Compiled options imports p c table := by
  obtain ⟨s, hc⟩ := compileProgram_eq_ok.1 h
  simp only [compileClass, bind_ok] at hc
  obtain ⟨this, s₁, h₁, super, s₂, h₂, attr, s₃, h₃, _, s₄, h₄, _, s₅, h₅, _, s₆, h₆, s₇, s₈, h₇,
    h₈⟩ := hc
  -- the three names that the class begins with
  obtain ⟨p₁, hp₁, rfl⟩ := ClassM.pool_ok.1 h₁
  obtain ⟨hg₁, hthis⟩ := PoolBuilder.internClass_sound (PoolBuilder.sound_withLimit _) hp₁
  obtain ⟨p₂, hp₂, rfl⟩ := ClassM.pool_ok.1 h₂
  obtain ⟨hg₂, hsuper⟩ := PoolBuilder.internClass_sound hg₁.sound hp₂
  obtain ⟨p₃, hp₃, rfl⟩ := ClassM.pool_ok.1 h₃
  obtain ⟨hg₃, hattr⟩ := PoolBuilder.internText_sound hg₂.sound hp₃
  have hready : ClassReady { pool := p₃, table := importTable imports } := by
    refine ⟨hg₃.sound, fun e he i hi => ?_⟩
    rw [← Array.mem_toList_iff, entries_importTable] at he
    have hnone : e.methodRef = none :=
      (List.mem_append.1 he).elim (methodRef_builtins e) (himports e)
    rw [hnone] at hi
    cases hi
  obtain ⟨hs₄, hg₄, hm₄, hnew, hdistinct, own, hown, ht₄⟩ := registerFunctions_ok hready h₄
  obtain ⟨hs₅, hg₅, ht₅, hctor⟩ := compileConstructor_ok hs₄
    (ConstantPool.text?_mono hg₄.le hattr) h₅
  have hbefore : ∀ f ∈ p.functions, ∀ e ∈ (importTable imports).entries.toList,
      e.defined = true → e.name ≠ f.name :=
    fun f hf e he => hnew f hf e (Array.mem_toList_iff.1 he)
  obtain ⟨hs₆, hg₆, ht₆, ms, hms, hmethods⟩ := compileFunctions_ok p.name hs₅
    (ConstantPool.text?_mono (ConstantPool.le_trans hg₄.le hg₅.le) hattr)
    (by rw [ht₅]; exact fun f hf => defined?_of_registers ht₄ hown hbefore hdistinct hf) h₆
  obtain ⟨rfl, rfl⟩ := get_ok.1 h₇
  obtain ⟨rfl, rfl⟩ := pure_ok.1 h₈
  rw [ht₅] at hms ht₆
  have hle := ConstantPool.le_trans hg₄.le (ConstantPool.le_trans hg₅.le hg₆.le)
  have hle₂ := ConstantPool.le_trans hg₃.le hle
  refine ⟨s₄.table,
    { magic := rfl
      major := rfl
      pool := ⟨s₆.pool, hs₆.sound, rfl⟩
      thisClass := ConstantPool.className?_mono (ConstantPool.le_trans hg₂.le hle₂) hthis
      superClass := ConstantPool.className?_mono hle₂ hsuper
      refers := ht₆ ▸ hs₆.refers
      entries := ⟨own, by rw [ht₄, entries_importTable], hown⟩
      distinct := hdistinct
      methods := ?_ }⟩
  dsimp only
  rw [hmethods]
  rcases hctor with hnone | ⟨m, hm, hsome, hnames⟩
  · refine ⟨[], ms, ?_, .inl rfl, hms⟩
    rw [hnone, hm₄, List.nil_append]
  · refine ⟨[m], ms, ?_, .inr ⟨m, rfl, hm.mono hg₆.le, hnames⟩, hms⟩
    rw [hsome, hm₄]
    rfl

/-! ## What a class consists of -/

namespace Compiled

variable {options : Options} {imports : List Callable} {p : Program} {c : ClassFile}
  {table : CallTable}

/-- A method of the class is the added constructor or the method of a function. -/
theorem method_cases (h : Compiled options imports p c table) {m : Method} (hm : m ∈ c.methods) :
    CompiledConstructor c.pool options.superClass m ∨
      ∃ f ∈ p.functions, CompiledFunction c.pool table f m := by
  obtain ⟨constructors, functions, hmethods, hconstructors, hfunctions⟩ := h.methods
  rw [hmethods] at hm
  rcases List.mem_append.1 hm with hm | hm
  · rcases hconstructors with rfl | ⟨m', rfl, hm', -⟩
    · cases hm
    · rw [List.mem_singleton.1 hm]
      exact .inl hm'
  · exact .inr (forall₂_right hfunctions hm)

/-- Without imports a call goes to a built-in method or to a function of the program. -/
theorem callee_cases (h : Compiled options [] p c table) {callee : Callable}
    (hc : callee ∈ table.entries) :
    callee ∈ builtins ∨ ∃ f ∈ p.functions, Callable.Registers p.name f callee := by
  obtain ⟨own, hentries, hown⟩ := h.entries
  rw [← Array.mem_toList_iff, hentries, List.append_nil] at hc
  rcases List.mem_append.1 hc with hc | hc
  · exact .inl hc
  · exact .inr (forall₂_right hown hc)

/-- The parameters of every function have values. -/
theorem kind?_of_mem_params (h : Compiled options imports p c table) {f : FunDef}
    (hf : f ∈ p.functions) : ∀ q ∈ f.params, q.ty.kind?.isSome := by
  obtain ⟨_, functions, -, -, hfunctions⟩ := h.methods
  obtain ⟨m, -, hm⟩ := forall₂_left hfunctions hf
  obtain ⟨start, _, _, hstart, -⟩ := hm.body
  exact (Locals.ofFunction_ok hstart).2.1.kind?

end Compiled

end ClassFoundry
