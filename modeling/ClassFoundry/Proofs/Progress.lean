import ClassFoundry.Proofs.Compilation
import Mathlib

/-!
# When compilation succeeds

The two passes over a program fail only for want of room in the constant pool, for a text that is
too long, for a name that is defined twice, or in a function body. Where none of that happens there
is a class.

## Main definitions

* `PoolBuilder.HasRoom`, `Takes`: room in a pool, and work that needs a part of it
* `FunDef.Lowers`, `FunDef.Refused`: functions whose body can be lowered, and whose body cannot
* `Program.Single`: programs of one function

## Main results

* `compileClass_eq_secondPass`: when the first pass succeeds
* `compileProgram_succeeds`: a program of functions that can be lowered has a class
* `compileProgram_refused`: a program has no class if its first function cannot be lowered
-/

namespace ClassFoundry

/-- There is room for `n` more slots. -/
def PoolBuilder.HasRoom (b : PoolBuilder) (n : Nat) : Prop := b.pool.size + n ≤ b.limit

/-- Work on a pool that succeeds if there is room for `need` slots, and takes no more. -/
def Takes {α : Type} (need : Nat) (x : PoolM α) : Prop :=
  ∀ n b, b.HasRoom (need + n) → ∃ a b', x b = .ok a b' ∧ b'.HasRoom n

theorem Takes.bind {α β : Type} {x : PoolM α} {f : α → PoolM β} {m k : Nat} (hx : Takes m x)
    (hf : ∀ a, Takes k (f a)) : Takes (m + k) (x >>= f) := by
  intro n b hb
  obtain ⟨a, b₁, h₁, hb₁⟩ := hx (k + n) b (by rwa [← Nat.add_assoc])
  obtain ⟨a', b₂, h₂, hb₂⟩ := hf a n b₁ hb₁
  exact ⟨a', b₂, bind_ok.2 ⟨a, b₁, h₁, h₂⟩, hb₂⟩

/-- A text that fits its length field. -/
def ShortText (text : String) : Prop := ModifiedUtf8.encodedLength text ≤ maxTextLength

theorem shortText_constructor :
    ShortText constructorName ∧ ShortText constructorDescriptor ∧ ShortText codeAttribute := by
  unfold ShortText
  decide

namespace PoolBuilder

theorem intern_takes (c : Constant) : Takes c.slots (intern c) := by
  rintro n ⟨⟨constants⟩, index, limit⟩ hb
  simp only [HasRoom, ConstantPool.size] at hb
  unfold intern
  dsimp only
  split
  · rename_i i _
    exact ⟨i, _, rfl, by simp only [HasRoom, ConstantPool.size]; omega⟩
  · rw [if_neg (by omega)]
    refine ⟨_, _, rfl, ?_⟩
    simp only [HasRoom, ConstantPool.size, size_append]
    omega

theorem internText_takes {text : String} (h : ShortText text) : Takes 1 (internText text) := by
  intro n b hb
  obtain ⟨i, b', hi, hb'⟩ := intern_takes (.utf8 text) n b hb
  refine ⟨i, b', ?_, hb'⟩
  unfold internText
  rw [if_neg (Nat.not_lt.2 h)]
  exact hi

theorem internClass_takes {name : String} (h : ShortText name) : Takes 2 (internClass name) :=
  (internText_takes h).bind fun i => intern_takes (.class i)

theorem internNameAndType_takes {name descriptor : String} (hn : ShortText name)
    (hd : ShortText descriptor) : Takes 3 (internNameAndType name descriptor) :=
  (internText_takes hn).bind fun i => (internText_takes hd).bind fun j =>
    intern_takes (.nameAndType i j)

theorem internMethod_takes {m : Member} (ho : ShortText m.owner) (hn : ShortText m.name)
    (hd : ShortText m.descriptor) : Takes 6 (internMethod m) :=
  (internClass_takes ho).bind fun i => (internNameAndType_takes hn hd).bind fun j =>
    intern_takes (.methodRef i j)

theorem internField_takes {m : Member} (ho : ShortText m.owner) (hn : ShortText m.name)
    (hd : ShortText m.descriptor) : Takes 6 (internField m) :=
  (internClass_takes ho).bind fun i => (internNameAndType_takes hn hd).bind fun j =>
    intern_takes (.fieldRef i j)

end PoolBuilder

/-- The pool after work that succeeds. -/
def poolAfter? {α : Type} : EStateM.Result CompileError LowerState α → Option PoolBuilder
  | .ok _ s => some s.pool
  | .error _ _ => none

theorem exists_ok_of_poolAfter? {α : Type} {r : EStateM.Result CompileError LowerState α}
    {pool : PoolBuilder} (h : poolAfter? r = some pool) : ∃ a s, r = .ok a s ∧ s.pool = pool := by
  cases r with
  | ok a s => exact ⟨a, s, rfl, Option.some.inj h⟩
  | error e s => cases h

/-- **The call table of a program**: its functions are behind the built-in methods. -/
def CallTable.Of (p : Program) (t : CallTable) : Prop :=
  ∃ own, t.entries.toList = builtins ++ own ∧
    List.Forall₂ (Callable.Registers p.name) p.functions own

/-- **A function that can be lowered** in a program if there is room for `need` constants. -/
def FunDef.Lowers (p : Program) (need : Nat) (f : FunDef) : Prop :=
  ∃ locals, Locals.ofFunction f f.reservedSlots = .ok locals ∧
    ∀ table n pool, table.Of p → pool.HasRoom (need + n) →
      ∃ body s, lowerFunction ⟨table, f⟩ ⟨pool, locals, .start locals.maxLocals⟩ = .ok body s ∧
        s.pool.HasRoom n

/-- The name and the descriptor of a function fit. -/
def FunDef.ShortTexts (f : FunDef) : Prop := ShortText f.name ∧ ShortText f.descriptor

section Bind

variable {ε σ α β : Type} {x : EStateM ε σ α} {f : α → EStateM ε σ β} {s s' : σ}

theorem bind_of_ok {a : α} (h : x s = .ok a s') : (x >>= f) s = f a s' := by
  show EStateM.bind x f s = _
  rw [EStateM.bind, h]

theorem bind_of_error {e : ε} (h : x s = .error e s') : (x >>= f) s = .error e s' := by
  show EStateM.bind x f s = _
  rw [EStateM.bind, h]

end Bind

section Passes

variable {s : ClassState} {n : Nat}

theorem pool_succeeds {α : Type} {x : PoolM α} {need : Nat} (hx : Takes need x)
    (h : s.pool.HasRoom (need + n)) :
    ∃ a p, ClassM.pool x s = .ok a { s with pool := p } ∧ p.HasRoom n := by
  obtain ⟨a, p, hp, hroom⟩ := hx n s.pool h
  exact ⟨a, p, ClassM.pool_ok.2 ⟨p, hp, rfl⟩, hroom⟩

theorem registerFunction_succeeds {owner : String} {f : FunDef} (howner : ShortText owner)
    (hf : f.ShortTexts) (hroom : s.pool.HasRoom (6 + n))
    (hnew : ∀ e ∈ s.table.entries, e.defined = true → e.name ≠ f.name) :
    ∃ s', registerFunction owner f s = .ok () s' ∧ s'.pool.HasRoom n := by
  obtain ⟨i, p, hp, hn⟩ := pool_succeeds
    (PoolBuilder.internMethod_takes (m := (Callable.ofFunction owner f).member) howner hf.1 hf.2)
    hroom
  have hnone : s.table.defined? f.name = none := by
    refine Array.findIdx?_eq_none_iff.2 fun e he => ?_
    cases hd : e.defined with
    | false => rfl
    | true => simpa using hnew e he hd
  have hregister : s.table.register { Callable.ofFunction owner f with methodRef := some i } =
      .ok (s.table.add { Callable.ofFunction owner f with methodRef := some i }) := by
    refine if_neg ?_
    show ¬((true && (s.table.defined? f.name).isSome) = true)
    simp [hnone]
  refine ⟨⟨p, s.table.add { Callable.ofFunction owner f with methodRef := some i }, s.methods,
    s.warnings, s.trace⟩, ?_, hn⟩
  refine bind_ok.2 ⟨i, _, hp, bind_ok.2 ⟨_, _, get_ok.2 ⟨rfl, rfl⟩, ?_⟩⟩
  dsimp only
  rw [hregister]
  rfl

/-- **The first pass** succeeds on functions of different names. -/
theorem registerFunctions_succeed {owner : String} {fs : List FunDef} (hs : ClassReady s)
    (howner : ShortText owner) (hfs : ∀ f ∈ fs, f.ShortTexts)
    (hroom : s.pool.HasRoom (6 * fs.length + n))
    (hnew : ∀ f ∈ fs, ∀ e ∈ s.table.entries, e.defined = true → e.name ≠ f.name)
    (hdistinct : fs.Pairwise fun f g => f.name ≠ g.name) :
    ∃ s', fs.forM (registerFunction owner) s = .ok () s' ∧ s'.pool.HasRoom n := by
  induction fs generalizing s with
  | nil => exact ⟨s, rfl, by simpa using hroom⟩
  | cons f fs ih =>
    obtain ⟨hf, hfs⟩ := List.forall_mem_cons.1 hfs
    obtain ⟨hfirst, hrest⟩ := List.forall_mem_cons.1 hnew
    obtain ⟨hne, hdistinct⟩ := List.pairwise_cons.1 hdistinct
    have hroom' : s.pool.HasRoom (6 + (6 * fs.length + n)) := by
      simp only [List.length_cons] at hroom
      unfold PoolBuilder.HasRoom at *
      omega
    obtain ⟨s₁, h₁, hroom₁⟩ := registerFunction_succeeds howner hf hroom' hfirst
    obtain ⟨hs₁, -, -, -, c, ⟨i, rfl⟩, ht⟩ := registerFunction_ok hs h₁
    obtain ⟨s', h', hroom''⟩ := ih hs₁ hfs hroom₁ (fun g hg e he => by
      rw [← Array.mem_toList_iff, ht] at he
      rcases List.mem_append.1 he with he | he
      · exact hrest g hg e (Array.mem_toList_iff.1 he)
      · rw [List.mem_singleton.1 he]
        exact fun _ => hne g hg) hdistinct
    exact ⟨s', bind_ok.2 ⟨(), s₁, h₁, h'⟩, hroom''⟩

theorem addMethod_succeeds (attrName flags : UInt16) (body : Finished) {name descriptor : String}
    (hn : ShortText name) (hd : ShortText descriptor) (hroom : s.pool.HasRoom (2 + n)) :
    ∃ s', addMethod attrName flags name descriptor body s = .ok () s' ∧ s'.pool.HasRoom n := by
  have hroom' : s.pool.HasRoom (1 + (1 + n)) := by rwa [← Nat.add_assoc]
  obtain ⟨i, p, h₁, hp⟩ := pool_succeeds (PoolBuilder.internText_takes hn) hroom'
  obtain ⟨j, q, h₂, hq⟩ := pool_succeeds (s := { s with pool := p })
    (PoolBuilder.internText_takes hd) hp
  exact ⟨_, bind_ok.2 ⟨i, _, h₁, bind_ok.2 ⟨j, _, h₂, modify_ok.2 rfl⟩⟩, hq⟩

theorem compileFunction_succeeds (attrName : UInt16) {p : Program} {f : FunDef} {c : Callable}
    {need : Nat} (hf : f.ShortTexts) (hlowers : f.Lowers p need) (htable : s.table.Of p)
    (hc : Callable.Registers p.name f c)
    (hfind : (s.table.defined? f.name).bind (s.table.entries[·]?) = some c)
    (hroom : s.pool.HasRoom (need + 2 + n)) :
    ∃ s', compileFunction attrName f s = .ok () s' ∧ s'.pool.HasRoom n := by
  obtain ⟨locals, hlocals, hbody⟩ := hlowers
  obtain ⟨body, t, ht, hroom₁⟩ := hbody s.table (2 + n) s.pool htable (by rwa [← Nat.add_assoc])
  obtain ⟨i, rfl⟩ := hc
  obtain ⟨s', h', hs'⟩ := addMethod_succeeds attrName f.accessFlags body
    (s := { s with pool := t.pool, trace := s.trace ++ t.asm.trace })
    hf.1 hf.2 hroom₁
  refine ⟨s', bind_ok.2 ⟨s, s, get_ok.2 ⟨rfl, rfl⟩, ?_⟩, hs'⟩
  rw [hfind]
  dsimp only
  rw [hlocals]
  exact bind_ok.2 ⟨body, _, ClassM.function_ok.2 ⟨t, ht, rfl⟩, h'⟩

/-- **The second pass** succeeds on functions that can be lowered. -/
theorem compileFunctions_succeed {p : Program} {attrName : UInt16} {fs : List FunDef}
    {need : Nat} (hs : ClassReady s) (hattr : s.pool.pool.text? attrName = some codeAttribute)
    (htable : s.table.Of p) (hfs : ∀ f ∈ fs, f.ShortTexts ∧ f.Lowers p need)
    (hfind : ∀ f ∈ fs, ∃ c, Callable.Registers p.name f c ∧
      (s.table.defined? f.name).bind (s.table.entries[·]?) = some c)
    (hroom : s.pool.HasRoom ((need + 2) * fs.length + n)) :
    ∃ s', fs.forM (compileFunction attrName) s = .ok () s' ∧ s'.pool.HasRoom n := by
  induction fs generalizing s with
  | nil => exact ⟨s, rfl, by simpa using hroom⟩
  | cons f fs ih =>
    obtain ⟨⟨hf, hlowers⟩, hfs⟩ := List.forall_mem_cons.1 hfs
    obtain ⟨⟨c, hc, hdefined⟩, hrest⟩ := List.forall_mem_cons.1 hfind
    have hroom' : s.pool.HasRoom (need + 2 + ((need + 2) * fs.length + n)) := by
      rw [List.length_cons, Nat.mul_succ] at hroom
      unfold PoolBuilder.HasRoom at *
      omega
    obtain ⟨s₁, h₁, hroom₁⟩ := compileFunction_succeeds attrName hf hlowers htable hc hdefined
      hroom'
    obtain ⟨hs₁, hg₁, ht₁, -⟩ := compileFunction_ok hs hattr hc hdefined h₁
    obtain ⟨s', h', hroom''⟩ := ih hs₁ (ConstantPool.text?_mono hg₁.le hattr) (by rwa [ht₁]) hfs
      (by rwa [ht₁]) hroom₁
    exact ⟨s', bind_ok.2 ⟨(), s₁, h₁, h'⟩, hroom''⟩

theorem constructorBody_succeeds (pool : PoolBuilder) (i : UInt16) :
    ∃ body s, constructorBody i ⟨pool, constructorLocals, .start constructorLocals.maxLocals⟩ =
      .ok body s ∧ s.pool = pool :=
  exists_ok_of_poolAfter? (by cbv)

theorem compileConstructor_succeeds (attrName : UInt16) (p : Program) {options : Options}
    (hsuper : ShortText options.superClass) (hroom : s.pool.HasRoom (8 + n)) :
    ∃ s', compileConstructor options attrName p s = .ok () s' ∧ s'.pool.HasRoom n := by
  have hless : s.pool.HasRoom n := by
    unfold PoolBuilder.HasRoom at *
    omega
  unfold compileConstructor
  split
  · split
    · exact ⟨_, modify_ok.2 rfl, hless⟩
    · obtain ⟨i, q, h₁, hq⟩ := pool_succeeds (PoolBuilder.internMethod_takes
        (m := ⟨options.superClass, constructorName, constructorDescriptor⟩) hsuper
        shortText_constructor.1 shortText_constructor.2.1) (n := 2 + n) (by rwa [← Nat.add_assoc])
      obtain ⟨body, t, ht, hpool⟩ := constructorBody_succeeds q i
      obtain ⟨s', h', hs'⟩ := addMethod_succeeds attrName AccessFlags.pub body
        (s := { s with pool := t.pool, trace := s.trace ++ t.asm.trace })
        shortText_constructor.1 shortText_constructor.2.1 (hpool ▸ hq)
      exact ⟨s', bind_ok.2 ⟨i, _, h₁,
        bind_ok.2 ⟨body, _, ClassM.function_ok.2 ⟨t, ht, rfl⟩, h'⟩⟩, hs'⟩
  · exact ⟨s, rfl, hless⟩

end Passes

section Programs

variable {options : Options} {p : Program}

/-- The second pass, and the class that it ends with. -/
def secondPass (options : Options) (p : Program) (this super attr : UInt16) : ClassM ClassFile := do
  p.functions.forM (compileFunction attr)
  let s ← get
  return {
    major := options.major, flags := options.flags, thisClass := this, superClass := super
    pool := s.pool.pool, methods := s.methods.toList }

/-- The functions of a class have been registered, and the second pass can begin. -/
structure ClassState.Registered (s : ClassState) (p : Program) (attr : UInt16) : Prop where
  ready : ClassReady s
  attrName : s.pool.pool.text? attr = some codeAttribute
  table : s.table.Of p
  defined : ∀ f ∈ p.functions, ∃ c, Callable.Registers p.name f c ∧
    (s.table.defined? f.name).bind (s.table.entries[·]?) = some c

/-- **The first pass** leads to the second, for functions with different names and room for all that
comes before. Each function takes six slots; the class itself and its constructor take thirteen. -/
theorem compileClass_eq_secondPass {n : Nat} (hname : ShortText p.name)
    (hsuper : ShortText options.superClass) (hfs : ∀ f ∈ p.functions, f.ShortTexts)
    (hdistinct : p.functions.Pairwise fun f g => f.name ≠ g.name)
    (hroom : 13 + 6 * p.functions.length + n ≤ min options.poolLimit maxPoolIndex) :
    ∃ this super attr s, s.Registered p attr ∧ s.pool.HasRoom n ∧
      compileClass options p { pool := .withLimit options.poolLimit, table := importTable [] } =
        secondPass options p this super attr s := by
  have hstart : (PoolBuilder.withLimit options.poolLimit).HasRoom (2 + (2 + (1 +
      (6 * p.functions.length + (8 + n))))) := by
    show 0 + _ ≤ min options.poolLimit maxPoolIndex
    omega
  have hbuiltins : ∀ f ∈ p.functions, ∀ e ∈ (importTable []).entries, e.defined = true →
      e.name ≠ f.name := by
    have : ∀ e ∈ (importTable []).entries, e.defined = false := by decide
    intro f _ e he hd
    rw [this e he] at hd
    cases hd
  -- the three names that the class begins with
  obtain ⟨this, p₁, h₁, hp₁⟩ := pool_succeeds
    (s := { pool := .withLimit options.poolLimit, table := importTable [] })
    (PoolBuilder.internClass_takes hname) hstart
  obtain ⟨super, p₂, h₂, hp₂⟩ := pool_succeeds (s := { pool := p₁, table := importTable [] })
    (PoolBuilder.internClass_takes hsuper) hp₁
  obtain ⟨attr, p₃, h₃, hp₃⟩ := pool_succeeds (s := { pool := p₂, table := importTable [] })
    (PoolBuilder.internText_takes shortText_constructor.2.2) hp₂
  obtain ⟨q₁, hq₁, e₁⟩ := ClassM.pool_ok.1 h₁
  obtain ⟨q₂, hq₂, e₂⟩ := ClassM.pool_ok.1 h₂
  obtain ⟨q₃, hq₃, e₃⟩ := ClassM.pool_ok.1 h₃
  cases e₁
  cases e₂
  cases e₃
  have hg₁ := (PoolBuilder.internClass_sound (PoolBuilder.sound_withLimit _) hq₁).1
  have hg₂ := (PoolBuilder.internClass_sound hg₁.sound hq₂).1
  obtain ⟨hg₃, hattr⟩ := PoolBuilder.internText_sound hg₂.sound hq₃
  have hready : ClassReady { pool := p₃, table := importTable [] } :=
    ⟨hg₃.sound, fun e he i hi => by
      rw [← Array.mem_toList_iff, entries_importTable, List.append_nil] at he
      rw [methodRef_builtins e he] at hi
      cases hi⟩
  obtain ⟨s₄, h₄, hs₄⟩ := registerFunctions_succeed hready hname hfs hp₃ hbuiltins hdistinct
  obtain ⟨hready₄, hg₄, -, -, -, own, hown, ht₄⟩ := registerFunctions_ok hready h₄
  obtain ⟨s₅, h₅, hs₅⟩ := compileConstructor_succeeds attr p hsuper hs₄
  obtain ⟨hready₅, hg₅, ht₅, -⟩ := compileConstructor_ok hready₄
    (ConstantPool.text?_mono hg₄.le hattr) h₅
  refine ⟨this, super, attr, s₅, ?_, hs₅, ?_⟩
  · refine
      { ready := hready₅
        attrName := ConstantPool.text?_mono (ConstantPool.le_trans hg₄.le hg₅.le) hattr
        table := ?_
        defined := ?_ }
    · rw [ht₅]
      exact ⟨own, by rwa [entries_importTable, List.append_nil] at ht₄, hown⟩
    · rw [ht₅]
      exact fun f hf => defined?_of_registers ht₄ hown
        (fun f hf e he => hbuiltins f hf e (Array.mem_toList_iff.1 he)) hdistinct hf
  · exact (bind_of_ok h₁).trans ((bind_of_ok h₂).trans ((bind_of_ok h₃).trans
      ((bind_of_ok h₄).trans (bind_of_ok h₅))))

/-- **A program has a class** if its functions have different names and can be lowered, and the pool
has room. Each function takes six slots in the first pass and two in the second. -/
theorem compileProgram_succeeds {need : Nat} (hname : ShortText p.name)
    (hsuper : ShortText options.superClass)
    (hfs : ∀ f ∈ p.functions, f.ShortTexts ∧ f.Lowers p need)
    (hdistinct : p.functions.Pairwise fun f g => f.name ≠ g.name)
    (hroom : 13 + (need + 8) * p.functions.length ≤ min options.poolLimit maxPoolIndex) :
    ∃ c, (compileProgram options [] p).result = .ok c := by
  have hsplit : (need + 8) * p.functions.length =
      6 * p.functions.length + ((need + 2) * p.functions.length + 0) := by ring
  obtain ⟨this, super, attr, s, hs, hpool, hclass⟩ := compileClass_eq_secondPass hname hsuper
    (fun f hf => (hfs f hf).1) hdistinct (by rwa [hsplit, ← Nat.add_assoc] at hroom)
  obtain ⟨s', h', -⟩ := compileFunctions_succeed hs.ready hs.attrName hs.table hfs hs.defined hpool
  exact ⟨_, compileProgram_eq_ok.2 ⟨s', hclass.trans (bind_of_ok h')⟩⟩

/-- A function that cannot be lowered in a program, whatever the constant pool. -/
def FunDef.Refused (p : Program) (e : CompileError) (f : FunDef) : Prop :=
  ∃ locals, Locals.ofFunction f f.reservedSlots = .ok locals ∧
    ∀ table pool, table.Of p →
      ∃ s, lowerFunction ⟨table, f⟩ ⟨pool, locals, .start locals.maxLocals⟩ = .error e s

/-- **A program has no class** if its first function cannot be lowered. -/
theorem compileProgram_refused {f : FunDef} {rest : List FunDef} {e : CompileError}
    (hp : p.functions = f :: rest) (hname : ShortText p.name)
    (hsuper : ShortText options.superClass) (hfs : ∀ f ∈ p.functions, f.ShortTexts)
    (hrefused : f.Refused p e) (hdistinct : p.functions.Pairwise fun f g => f.name ≠ g.name)
    (hroom : 13 + 6 * p.functions.length ≤ min options.poolLimit maxPoolIndex) :
    (compileProgram options [] p).result = .error (e.inFunction f.name) := by
  obtain ⟨this, super, attr, s, hs, -, hclass⟩ :=
    compileClass_eq_secondPass (n := 0) hname hsuper hfs hdistinct hroom
  obtain ⟨c, -, hdefined⟩ := hs.defined f (hp ▸ List.mem_cons_self)
  obtain ⟨locals, hlocals, hlower⟩ := hrefused
  obtain ⟨t, ht⟩ := hlower s.table s.pool hs.table
  -- the first function is refused before any other is looked at
  obtain ⟨s', hfunction⟩ : ∃ s', ClassM.function f.name locals (lowerFunction ⟨s.table, f⟩) s =
      .error (e.inFunction f.name) s' := by
    refine ⟨{ s with pool := t.pool, trace := s.trace ++ t.asm.trace }, ?_⟩
    unfold ClassM.function
    dsimp only
    rw [ht]
  have hcompile : compileFunction attr f s = .error (e.inFunction f.name) s' := by
    refine (bind_of_ok (get_ok.2 ⟨rfl, rfl⟩)).trans ?_
    rw [hdefined]
    dsimp only
    rw [hlocals]
    exact bind_of_error hfunction
  have hsecond : secondPass options p this super attr s = .error (e.inFunction f.name) s' := by
    unfold secondPass
    rw [hp]
    exact bind_of_error (bind_of_error hcompile)
  unfold compileProgram
  dsimp only
  rw [hclass, hsecond]

/-- **A program of one function** whose texts fit, with room for the constants of the function. -/
structure Program.Single (options : Options) (p : Program) (f : FunDef) (slots : Nat) : Prop where
  functions : p.functions = [f]
  name : ShortText p.name
  superClass : ShortText options.superClass
  texts : f.ShortTexts
  room : 21 + slots ≤ min options.poolLimit maxPoolIndex

namespace Program.Single

variable {f : FunDef} {slots : Nat} (h : p.Single options f slots)

include h

/-- It has a class if its function can be lowered. -/
theorem compiles (hlowers : f.Lowers p slots) :
    ∃ c, (compileProgram options [] p).result = .ok c := by
  have hfs : ∀ g ∈ p.functions, g.ShortTexts ∧ g.Lowers p slots := by
    rw [h.functions]
    exact List.forall_mem_singleton.2 ⟨h.texts, hlowers⟩
  refine compileProgram_succeeds h.name h.superClass hfs
    (h.functions ▸ List.pairwise_singleton _ _) ?_
  have hroom := h.room
  rw [h.functions, List.length_singleton]
  omega

/-- It has none if its function is refused. -/
theorem refused {e : CompileError} (hrefused : f.Refused p e) :
    (compileProgram options [] p).result = .error (e.inFunction f.name) := by
  have hfs : ∀ g ∈ p.functions, g.ShortTexts := by
    rw [h.functions]
    exact List.forall_mem_singleton.2 h.texts
  refine compileProgram_refused h.functions h.name h.superClass hfs hrefused
    (h.functions ▸ List.pairwise_singleton _ _) ?_
  have hroom := h.room
  rw [h.functions, List.length_singleton]
  omega

end Program.Single

end Programs

/-- `latch(a, b)` sets `a` to `b` while `a` holds. -/
def latchFunction : FunDef where
  name := "latch"
  params := [⟨"a", .bool⟩, ⟨"b", .bool⟩]
  returnType := .bool
  body := [
    .loop (.ident "a" .bool) [.assign "a" (.ident "b" .bool)],
    .ret (some (.ident "a" .bool))]

/-- A program of one function, whose body needs no constants. -/
def latch : Program := ⟨"Latch", [latchFunction]⟩

/-- The parameters of `latch`. -/
def latchLocals : Locals :=
  ⟨"latch", [⟨"b", .bool, .integer, 1, 1⟩, ⟨"a", .bool, .integer, 0, 1⟩], 2, 2, 2, 2⟩

theorem latchFunction_lowers : latchFunction.Lowers latch 0 := by
  refine ⟨latchLocals, rfl, fun table n pool _ hpool => ?_⟩
  have hafter : poolAfter? (lowerFunction ⟨table, latchFunction⟩
      ⟨pool, latchLocals, .start latchLocals.maxLocals⟩) = some pool := by cbv
  obtain ⟨body, s, hs, rfl⟩ := exists_ok_of_poolAfter? hafter
  exact ⟨body, s, hs, by rwa [Nat.zero_add] at hpool⟩

/-- There is a class of `latch`. -/
theorem compileProgram_latch : ∃ c, (compileProgram {} [] latch).result = .ok c := by
  have htexts : ShortText "Latch" ∧ ShortText Descriptor.objectClass ∧
      latchFunction.ShortTexts := by
    unfold FunDef.ShortTexts ShortText
    decide
  have hlowers : ∀ f ∈ latch.functions, f.ShortTexts ∧ f.Lowers latch 0 := by
    intro f hf
    obtain rfl := List.mem_singleton.1 hf
    exact ⟨htexts.2.2, latchFunction_lowers⟩
  exact compileProgram_succeeds htexts.1 htexts.2.1 hlowers (List.pairwise_singleton _ _)
    (by decide)

end ClassFoundry
