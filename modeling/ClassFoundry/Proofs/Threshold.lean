import ClassFoundry.Proofs.Progress

/-!
# The smallest constant pool

The limit of the constant pool decides only whether there is a class, never which one. A compilation
that succeeds under one limit gives the same class under every limit that its pool fits, and under
a smaller one it ends at the first constant that finds no room. Both are said of every piece of work
on a pool at once, by two runs side by side: one that succeeds, and the same under another limit.

## Main definitions

* `Capped`: states with a constant pool whose limit can be replaced
* `Overflows`: a run that ends for want of room under a limit
* `Uniform`: work that the limit affects only by being too small

## Main results

* `Uniform.bind_of_gives`: uniform work, one after the other, is uniform
* `lower_uniform`, `lowerFunction_uniform`, `compileClass_uniform`: so is all of the compiler
* `compile_of_limit`: what a program compiles to under every limit
-/

namespace ClassFoundry

/-! ## Work under two limits -/

/-- **States with a constant pool** whose limit can be replaced, and the error for want of room. -/
class Capped (ε : outParam Type) (σ : Type) where
  /-- The number of indices in use. -/
  size : σ → Nat
  /-- The highest index that may be given out. -/
  limit : σ → Nat
  /-- The state with another limit. -/
  capped : Nat → σ → σ
  /-- The error of a pool with `current` indices in use when `adding` more exceed `max`. -/
  full (current adding max : Nat) : ε

instance : Capped PoolError PoolBuilder where
  size b := b.pool.size
  limit b := b.limit
  capped n b := { b with limit := n }
  full := .overflow

instance : Capped CompileError LowerState where
  size s := s.pool.pool.size
  limit s := s.pool.limit
  capped n s := { s with pool := { s.pool with limit := n } }
  full current adding max := .pool (.overflow current adding max)

instance : Capped CompileError ClassState where
  size s := s.pool.pool.size
  limit s := s.pool.limit
  capped n s := { s with pool := { s.pool with limit := n } }
  full current adding max := .pool (.overflow current adding max)

open Capped

section Uniform

variable {ε σ α β : Type} [Capped ε σ]

/-- A run that ends at a constant for which there is no room under the limit `n`. -/
def Overflows (n : Nat) : EStateM.Result ε σ α → Prop
  | .error e _ =>
    ∃ current adding, e = full σ current adding n ∧ current ≤ n ∧ n < current + adding
  | .ok _ _ => False

/-- What a successful run tells of the same work under other limits. -/
structure Transfers (x : EStateM ε σ α) (s : σ) (a : α) (s' : σ) : Prop where
  grows : size s ≤ size s'
  limit_eq : limit s' = limit s
  bounded : size s ≤ limit s → size s' ≤ limit s
  enough : ∀ n, size s' ≤ n → x (capped n s) = .ok a (capped n s')
  short : ∀ n, size s ≤ n → n < size s' → Overflows n (x (capped n s))

/-- **Work that the limit affects only by being too small**. -/
def Uniform (x : EStateM ε σ α) : Prop := ∀ s a s', x s = .ok a s' → Transfers x s a s'

namespace Uniform

/-- Work that leaves the pool alone and does not ask for its limit. -/
theorem of_apart {x : EStateM ε σ α}
    (h : ∀ s a s', x s = .ok a s' → size s' = size s ∧ limit s' = limit s ∧
      ∀ n, x (capped n s) = .ok a (capped n s')) : Uniform x := by
  intro s a s' hs
  obtain ⟨hsize, hlimit, hcapped⟩ := h s a s' hs
  exact
    { grows := Nat.le_of_eq hsize.symm
      limit_eq := hlimit
      bounded := fun hle => hsize ▸ hle
      enough := fun n _ => hcapped n
      short := fun n hle hlt => absurd hlt (by omega) }

theorem pure (a : α) : Uniform (Pure.pure a : EStateM ε σ α) := by
  refine of_apart fun s b s' h => ?_
  obtain ⟨rfl, rfl⟩ := pure_ok.1 h
  exact ⟨rfl, rfl, fun n => rfl⟩

theorem throw (e : ε) : Uniform (throw e : EStateM ε σ α) := fun _ _ _ h => absurd h throw_ok.1

/-- **Uniform work, one after the other**, where the second part is uniform for all that the first
may give. -/
theorem bind_of_gives {x : EStateM ε σ α} {f : α → EStateM ε σ β} (hx : Uniform x)
    (hf : ∀ s a s', x s = .ok a s' → Uniform (f a)) : Uniform (x >>= f) := by
  intro s b s' h
  obtain ⟨a, s₁, h₁, h₂⟩ := bind_ok.1 h
  have t₁ := hx s a s₁ h₁
  have t₂ := hf s a s₁ h₁ s₁ b s' h₂
  refine ⟨Nat.le_trans t₁.grows t₂.grows, t₂.limit_eq.trans t₁.limit_eq, ?_, ?_, ?_⟩
  · intro hle
    have hle₁ := t₁.bounded hle
    rw [← t₁.limit_eq] at hle₁ ⊢
    exact t₂.bounded hle₁
  · intro n hn
    have hn₁ := Nat.le_trans t₂.grows hn
    exact bind_ok.2 ⟨a, capped n s₁, t₁.enough n hn₁, t₂.enough n hn⟩
  · intro n hle hlt
    show Overflows n (EStateM.bind x f (capped n s))
    unfold EStateM.bind
    -- the room ends in the first part or in the second
    by_cases hn₁ : size s₁ ≤ n
    · rw [t₁.enough n hn₁]
      exact t₂.short n hn₁ hlt
    · have hshort := t₁.short n hle (Nat.lt_of_not_le hn₁)
      cases hrun : x (capped n s) with
      | ok _ _ =>
        rw [hrun] at hshort
        exact hshort.elim
      | error e t =>
        rw [hrun] at hshort
        exact hshort

theorem bind {x : EStateM ε σ α} {f : α → EStateM ε σ β} (hx : Uniform x)
    (hf : ∀ a, Uniform (f a)) : Uniform (x >>= f) :=
  hx.bind_of_gives fun _ a _ _ => hf a

/-- Looking at a part of the state that the limit does not show in. -/
theorem get_bind {f : σ → EStateM ε σ α} (hf : ∀ s, Uniform (f s))
    (hsame : ∀ n s, f (capped n s) = f s) : Uniform (get >>= f) := by
  intro s a s' h
  have t := hf s s a s' h
  refine ⟨t.grows, t.limit_eq, t.bounded, ?_, ?_⟩
  · intro n hn
    show f (capped n s) (capped n s) = _
    rw [hsame]
    exact t.enough n hn
  · intro n hle hlt
    show Overflows n (f (capped n s) (capped n s))
    rw [hsame]
    exact t.short n hle hlt

theorem ite {p : Prop} [Decidable p] {x y : EStateM ε σ α} (hx : Uniform x) (hy : Uniform y) :
    Uniform (if p then x else y) := by
  split
  · exact hx
  · exact hy

/-- A check in front of uniform work. -/
theorem guard {p : Prop} [Decidable p] {x : EStateM ε σ PUnit} {f : PUnit → EStateM ε σ β}
    (hx : Uniform x) (hf : ∀ u, Uniform (f u)) : Uniform (if p then x >>= f else f ⟨⟩) :=
  .ite (hx.bind hf) (hf ⟨⟩)

theorem forM {xs : List α} {f : α → EStateM ε σ PUnit} (hf : ∀ x, Uniform (f x)) :
    Uniform (xs.forM f) := by
  induction xs with
  | nil => exact pure _
  | cons x xs ih => exact (hf x).bind fun _ => ih

end Uniform

/-- **Work `y` on a state that is work `x` on a part of it**: `enter` takes the part out, `leave` puts
what became of it back, and `blame` turns the errors of the part into those of the whole. -/
structure Embeds {ε₁ σ₁ : Type} [Capped ε₁ σ₁] (x : EStateM ε₁ σ₁ α) (y : EStateM ε σ α)
    (enter : σ → σ₁) (leave : σ → σ₁ → σ) (blame : ε₁ → ε) : Prop where
  run : ∀ t, y t = match x (enter t) with
    | .ok a s => .ok a (leave t s)
    | .error e s => .error (blame e) (leave t s)
  size_enter : ∀ t, size (enter t) = size t
  limit_enter : ∀ t, limit (enter t) = limit t
  capped_enter : ∀ n t, enter (capped n t) = capped n (enter t)
  size_leave : ∀ t s, size (leave t s) = size s
  limit_leave : ∀ t s, limit (leave t s) = limit s
  capped_leave : ∀ n t s, leave (capped n t) (capped n s) = capped n (leave t s)
  blame_full : ∀ current adding max, blame (full σ₁ current adding max) = full σ current adding max

theorem Uniform.embed {ε₁ σ₁ : Type} [Capped ε₁ σ₁] {x : EStateM ε₁ σ₁ α} {y : EStateM ε σ α}
    (hx : Uniform x) (enter : σ → σ₁) (leave : σ → σ₁ → σ) (blame : ε₁ → ε)
    (h : Embeds x y enter leave blame) : Uniform y := by
  intro t a t' hy
  rw [h.run] at hy
  cases hrun : x (enter t) with
  | error e s =>
    rw [hrun] at hy
    cases hy
  | ok b s =>
    rw [hrun] at hy
    cases hy
    have transfers := hx (enter t) a s hrun
    have hgrows := transfers.grows
    have hlimit := transfers.limit_eq
    have hbounded := transfers.bounded
    rw [h.size_enter] at hgrows hbounded
    rw [h.limit_enter] at hlimit hbounded
    -- the two runs are cut off at the same sizes: `enter` and `leave` change neither size nor limit
    refine ⟨by rwa [h.size_leave], by rwa [h.limit_leave], by rwa [h.size_leave], ?_, ?_⟩
    · intro n hn
      rw [h.size_leave] at hn
      rw [h.run, h.capped_enter, transfers.enough n hn]
      exact congrArg _ (h.capped_leave n t s)
    · intro n hle hlt
      rw [h.size_leave] at hlt
      have hshort := transfers.short n (by rwa [h.size_enter]) hlt
      rw [h.run, h.capped_enter]
      cases hrun : x (capped n (enter t)) with
      | ok _ _ =>
        rw [hrun] at hshort
        exact hshort.elim
      | error e s =>
        rw [hrun] at hshort
        obtain ⟨current, adding, rfl, hroom⟩ := hshort
        exact ⟨current, adding, h.blame_full _ _ _, hroom⟩

end Uniform

/-! ## Interning -/

namespace PoolBuilder

/-- **One constant** is found, finds room, or finds none. -/
theorem intern_uniform (c : Constant) : Uniform (intern c) := by
  rintro ⟨⟨constants⟩, index, limit⟩ i s' h
  unfold intern at h
  dsimp only at h
  cases hfound : index[c]? with
  | some j =>
    -- a constant that is there is found under every limit
    rw [hfound] at h
    cases h
    have hcapped (n : Nat) : intern c ⟨⟨constants⟩, index, n⟩ = .ok i ⟨⟨constants⟩, index, n⟩ := by
      unfold intern
      dsimp only
      rw [hfound]
    exact ⟨Nat.le_refl _, rfl, id, fun n _ => hcapped n, fun n hle hlt => absurd hlt (by omega)⟩
  | none =>
    rw [hfound] at h
    dsimp only at h
    split at h
    · cases h
    · rename_i hroom
      cases h
      have hsize : (append constants c).size = constants.size + c.slots := size_append constants c
      refine ⟨?_, rfl, ?_, ?_, ?_⟩
      · show constants.size ≤ (append constants c).size
        omega
      · intro _
        show (append constants c).size ≤ limit
        omega
      · intro n hn
        have hn : (append constants c).size ≤ n := hn
        show intern c ⟨⟨constants⟩, index, n⟩ = _
        unfold intern
        dsimp only
        rw [hfound]
        dsimp only
        rw [if_neg (by omega)]
        rfl
      · intro n hle hlt
        have hlt : n < (append constants c).size := hlt
        show Overflows n (intern c ⟨⟨constants⟩, index, n⟩)
        unfold intern
        dsimp only
        rw [hfound]
        dsimp only
        rw [if_pos (by omega)]
        exact ⟨constants.size, c.slots, rfl, hle, by omega⟩

theorem internText_uniform (text : String) : Uniform (internText text) :=
  .guard (.throw _) fun _ => intern_uniform _

theorem internClass_uniform (name : String) : Uniform (internClass name) :=
  .bind (internText_uniform name) fun _ => intern_uniform _

theorem internString_uniform (text : String) : Uniform (internString text) :=
  .bind (internText_uniform text) fun _ => intern_uniform _

theorem internNameAndType_uniform (name descriptor : String) :
    Uniform (internNameAndType name descriptor) :=
  .bind (internText_uniform name) fun _ => .bind (internText_uniform descriptor) fun _ =>
    intern_uniform _

theorem internField_uniform (m : Member) : Uniform (internField m) :=
  .bind (internClass_uniform _) fun _ => .bind (internNameAndType_uniform _ _) fun _ =>
    intern_uniform _

theorem internMethod_uniform (m : Member) : Uniform (internMethod m) :=
  .bind (internClass_uniform _) fun _ => .bind (internNameAndType_uniform _ _) fun _ =>
    intern_uniform _

end PoolBuilder

/-! ## Lowering -/

namespace Lower

variable {α : Type}

/-- Work on the pool, as part of a lowering. -/
theorem pool_uniform {x : PoolM α} (hx : Uniform x) : Uniform (Lower.pool x) := by
  refine hx.embed LowerState.pool (fun t p => { t with pool := p }) .pool
    ⟨fun t => ?_, fun _ => rfl, fun _ => rfl, fun _ _ => rfl, fun _ _ => rfl, fun _ _ => rfl,
      fun _ _ _ => rfl, fun _ _ _ => rfl⟩
  unfold Lower.pool
  cases hrun : x t.pool <;> simp only [hrun]

/-- Code is emitted under every limit alike. -/
theorem code_uniform (x : Asm α) : Uniform (Lower.code x) := by
  refine .of_apart fun s a s' h => ?_
  obtain ⟨b, hb, rfl⟩ := code_ok.1 h
  exact ⟨rfl, rfl, fun n => code_ok.2 ⟨b, hb, rfl⟩⟩

theorem check_uniform (x : Except CompileError α) : Uniform (Lower.check x) := by
  unfold Lower.check
  split
  · exact .pure _
  · exact .throw _

theorem refuse_uniform (v : Violation) : Uniform (Lower.refuse v : Lower α) := .throw _

theorem resolve_uniform (name : String) : Uniform (Lower.resolve name) := by
  refine .of_apart fun s slot s' h => ?_
  obtain ⟨hfind, rfl⟩ := resolve_ok.1 h
  exact ⟨rfl, rfl, fun n => resolve_ok.2 ⟨hfind, rfl⟩⟩

theorem declare_uniform (name : String) (ty : DataType) : Uniform (Lower.declare name ty) := by
  refine .of_apart fun s slot s' h => ?_
  obtain ⟨l, hl, rfl⟩ := declare_ok.1 h
  exact ⟨rfl, rfl, fun n => declare_ok.2 ⟨l, hl, rfl⟩⟩

theorem valueKind_uniform (ty : DataType) : Uniform (Lower.valueKind ty) := check_uniform _

theorem plain_uniform (op : Opcode) : Uniform (Lower.plain op) := code_uniform _

theorem invokeStatic_uniform (m : Member) (argWords returnWords : Nat) :
    Uniform (Lower.invokeStatic m argWords returnWords) :=
  .bind (pool_uniform (PoolBuilder.internMethod_uniform m)) fun _ => code_uniform _

end Lower

open Lower

theorem pushInt_uniform (value : Int32) : Uniform (pushInt value) := by
  refine .bind (code_uniform _) fun small => .ite (.pure _) ?_
  exact .bind (pool_uniform (PoolBuilder.intern_uniform _)) fun _ => code_uniform _

theorem pushLong_uniform (value : Int64) : Uniform (pushLong value) := by
  refine .ite (plain_uniform _) (.ite (plain_uniform _) ?_)
  exact .bind (pool_uniform (PoolBuilder.intern_uniform _)) fun _ => code_uniform _

theorem widen_uniform (source : DataType) (target : Kind) : Uniform (widen source target) := by
  refine .bind (valueKind_uniform _) fun kind => ?_
  split
  · refine .bind (plain_uniform _) fun _ => .ite ?_ (.pure _)
    exact .bind (pool_uniform (PoolBuilder.intern_uniform _)) fun _ =>
      .bind (code_uniform _) fun _ => plain_uniform _
  · exact plain_uniform _
  · exact .pure _

theorem narrow_uniform (ty : DataType) : Uniform (narrow ty) := by
  unfold narrow
  split
  · exact plain_uniform _
  · exact .bind (pushInt_uniform _) fun _ => plain_uniform _
  · exact .pure _

theorem convert_uniform (source target : DataType) : Uniform (convert source target) := by
  refine .ite (.pure _) (.bind (valueKind_uniform _) fun kind => .ite (.pure _) ?_)
  exact .bind (widen_uniform _ _) fun _ => narrow_uniform _

theorem storeLocal_uniform (ty : DataType) (slot : Nat) : Uniform (storeLocal ty slot) :=
  .bind (valueKind_uniform _) fun _ => code_uniform _

theorem pushDefault_uniform (ty : DataType) : Uniform (pushDefault ty) := by
  refine .bind (valueKind_uniform _) fun kind => ?_
  cases kind with
  | int => exact plain_uniform _
  | long => exact plain_uniform _
  | reference =>
    dsimp only
    split
    · exact .bind (pool_uniform (PoolBuilder.internClass_uniform _)) fun _ =>
        .bind (pool_uniform (PoolBuilder.internMethod_uniform _)) fun _ =>
        .bind (code_uniform _) fun _ => .bind (plain_uniform _) fun _ => code_uniform _
    · exact plain_uniform _

/-- A lowering both of whose uses are uniform. -/
structure Lowering.IsUniform (l : Lowering) : Prop where
  value : Uniform l.value
  branch : ∀ jumpIf target, Uniform (l.branch jumpIf target)

theorem ofBranch_uniform {branch : Bool → Label → Lower Unit}
    (h : ∀ jumpIf target, Uniform (branch jumpIf target)) :
    (Lowering.ofBranch branch).IsUniform where
  value :=
    .bind (code_uniform _) fun _ => .bind (code_uniform _) fun _ => .bind (h _ _) fun _ =>
    .bind (plain_uniform _) fun _ => .bind (code_uniform _) fun _ =>
    .bind (code_uniform _) fun _ => .bind (plain_uniform _) fun _ => code_uniform _
  branch := h

theorem ofValue_uniform (e : Expr) {value : Lower Unit} (h : Uniform value) :
    (Lowering.ofValue e value).IsUniform where
  value := h
  branch jumpIf target := by
    refine .bind (valueKind_uniform _) fun kind => ?_
    cases kind with
    | int => exact .bind h fun _ => code_uniform _
    | long =>
      exact .bind h fun _ => .bind (plain_uniform _) fun _ => .bind (plain_uniform _) fun _ =>
        code_uniform _
    | reference => exact .bind (refuse_uniform _) fun _ => code_uniform _

theorem valueAs_uniform (e : Expr) {value : Lower Unit} (h : Uniform value) (ty : DataType) :
    Uniform (valueAs e value ty) :=
  .bind (valueKind_uniform _) fun _ => .bind (valueKind_uniform _) fun _ =>
  .guard (refuse_uniform _) fun _ => .bind h fun _ => convert_uniform _ _

theorem numberAs_uniform (e : Expr) {value : Lower Unit} (h : Uniform value) (kind : Kind) :
    Uniform (numberAs e value kind) :=
  .bind h fun _ => widen_uniform _ _

theorem compareNumbers_uniform (op : Comparison) (lhs rhs : Expr) {left right : Lower Unit}
    (hl : Uniform left) (hr : Uniform right) (long jumpIf : Bool) (target : Label) :
    Uniform (compareNumbers op lhs rhs left right long jumpIf target) := by
  refine .bind (numberAs_uniform _ hl _) fun _ => .bind (numberAs_uniform _ hr _) fun _ => ?_
  split
  · exact code_uniform _
  · exact .bind (invokeStatic_uniform _ _ _) fun _ => code_uniform _
  · exact .bind (plain_uniform _) fun _ => code_uniform _
  · exact .bind (invokeStatic_uniform _ _ _) fun _ => code_uniform _

theorem compareBranch_uniform (op : Comparison) (whole lhs rhs : Expr) {left right : Lower Unit}
    (hl : Uniform left) (hr : Uniform right) (jumpIf : Bool) (target : Label) :
    Uniform (compareBranch op whole lhs rhs left right jumpIf target) := by
  refine .bind (valueKind_uniform _) fun leftKind => .bind (valueKind_uniform _) fun rightKind => ?_
  split
  · exact .guard (refuse_uniform _) fun _ => .bind hl fun _ => .bind hr fun _ => code_uniform _
  · exact refuse_uniform _
  · exact refuse_uniform _
  · exact compareNumbers_uniform _ _ _ hl hr _ _ _

theorem logicBranch_uniform (op : Connective) {left right : Bool → Label → Lower Unit}
    (hl : ∀ b l, Uniform (left b l)) (hr : ∀ b l, Uniform (right b l)) (jumpIf : Bool)
    (target : Label) : Uniform (logicBranch op left right jumpIf target) := by
  refine .ite (.bind (hl _ _) fun _ => hr _ _) (.bind (code_uniform _) fun skip => ?_)
  exact .bind (hl _ _) fun _ => .bind (hr _ _) fun _ => code_uniform _

theorem numberKind_uniform (ty : DataType) (whole : Expr) : Uniform (numberKind ty whole) := by
  refine .bind (valueKind_uniform _) fun kind => ?_
  split
  · exact refuse_uniform _
  · exact .pure _

theorem applyArith_uniform (op : Arith) (ty : DataType) (long : Bool) :
    Uniform (applyArith op ty long) := by
  unfold applyArith
  split
  · exact .ite (.ite (invokeStatic_uniform _ _ _) (invokeStatic_uniform _ _ _)) (plain_uniform _)
  · exact plain_uniform _

theorem arithValue_uniform (op : Arith) (whole lhs rhs : Expr) (ty : DataType)
    {left right : Lower Unit} (hl : Uniform left) (hr : Uniform right) :
    Uniform (arithValue op whole lhs rhs ty left right) :=
  .bind (numberKind_uniform _ _) fun _ => .bind (numberKind_uniform _ _) fun _ =>
  .bind (numberKind_uniform _ _) fun _ => .bind (numberAs_uniform _ hl _) fun _ =>
  .bind (numberAs_uniform _ hr _) fun _ => .bind (applyArith_uniform _ _ _) fun _ =>
  narrow_uniform _

theorem unaryValue_uniform (op : UnaryArith) (whole operand : Expr) (ty : DataType)
    {value : Lower Unit} (h : Uniform value) :
    Uniform (unaryValue op whole operand ty value) := by
  refine .bind (numberKind_uniform _ _) fun kind => .bind (numberAs_uniform _ h _) fun _ => ?_
  split
  · exact .bind (plain_uniform _) fun _ => narrow_uniform _
  · exact .bind (plain_uniform _) fun _ => narrow_uniform _
  · exact .bind (pushLong_uniform _) fun _ => .bind (plain_uniform _) fun _ => narrow_uniform _
  · exact .bind (plain_uniform _) fun _ => .bind (plain_uniform _) fun _ => narrow_uniform _

theorem identValue_uniform (name : String) (ty : DataType) : Uniform (identValue name ty) :=
  .bind (resolve_uniform _) fun _ => .bind (valueKind_uniform _) fun _ =>
  .guard (refuse_uniform _) fun _ => code_uniform _

theorem literalValue_uniform (value : Int64) (ty : DataType) : Uniform (literalValue value ty) := by
  refine .bind (valueKind_uniform _) fun kind => ?_
  cases kind with
  | int => exact .ite (pushInt_uniform _) (refuse_uniform _)
  | long => exact pushLong_uniform _
  | reference => exact refuse_uniform _

theorem charValue_uniform (c : Char) : Uniform (charValue c) :=
  .ite (pushInt_uniform _) (refuse_uniform _)

theorem stringValue_uniform (text : String) : Uniform (stringValue text) :=
  .bind (pool_uniform (PoolBuilder.internString_uniform text)) fun _ => code_uniform _

/-! ### Calls -/

section Calls

variable {scope : Scope} {args : List Argument}

theorem pushArguments_uniform {args : List (Argument × DataType)}
    (h : ∀ a ∈ args, Uniform a.1.value) : Uniform (pushArguments args) := by
  induction args with
  | nil => exact .pure _
  | cons a args ih =>
    obtain ⟨ha, hargs⟩ := List.forall_mem_cons.1 h
    exact .bind (valueAs_uniform _ ha _) fun _ => ih hargs

theorem pushReceiver_uniform {callee : Callable} {args : List (Argument × DataType)}
    (h : ∀ a ∈ args, Uniform a.1.value) : Uniform (pushReceiver scope callee args) := by
  unfold pushReceiver
  split
  · exact .pure _
  · exact .guard (refuse_uniform _) fun _ => .bind (code_uniform _) fun _ => .pure _
  · split
    · exact refuse_uniform _
    · obtain ⟨ha, -⟩ := List.forall_mem_cons.1 h
      exact .bind (valueAs_uniform _ ha _) fun _ => .pure _
  · exact .bind (pool_uniform (PoolBuilder.internField_uniform _)) fun _ =>
      .bind (code_uniform _) fun _ => .pure _

/-- The arguments that are still to be pushed after the receiver are among the given ones. -/
theorem pushReceiver_rest {callee : Callable} {args : List (Argument × DataType)}
    {s s' : LowerState} {r : Opcode × List (Argument × DataType)}
    (h : pushReceiver scope callee args s = .ok r s') : r.2 ⊆ args := by
  unfold pushReceiver at h
  cases hreceiver : callee.receiver with
  | none =>
    rw [hreceiver] at h
    obtain ⟨rfl, -⟩ := pure_ok.1 h
    exact List.Subset.refl _
  | this =>
    rw [hreceiver] at h
    dsimp only at h
    rcases ite_ok.1 h with ⟨-, h⟩ | ⟨-, h⟩
    · obtain ⟨_, _, h, -⟩ := bind_ok.1 h
      exact absurd h refuse_ok.1
    · obtain ⟨_, _, -, h⟩ := bind_ok.1 h
      obtain ⟨rfl, -⟩ := pure_ok.1 h
      exact List.Subset.refl _
  | firstArg =>
    rw [hreceiver] at h
    cases args with
    | nil => exact absurd h refuse_ok.1
    | cons a rest =>
      obtain ⟨_, _, -, h⟩ := bind_ok.1 h
      obtain ⟨rfl, -⟩ := pure_ok.1 h
      exact List.subset_cons_self _ _
  | staticField field =>
    rw [hreceiver] at h
    obtain ⟨_, _, -, h⟩ := bind_ok.1 h
    obtain ⟨_, _, -, h⟩ := bind_ok.1 h
    obtain ⟨rfl, -⟩ := pure_ok.1 h
    exact List.Subset.refl _

theorem callFunction_uniform (name : String) (h : ∀ a ∈ args, Uniform a.value) :
    Uniform (callFunction scope name args) := by
  refine .bind (check_uniform _) fun found => ?_
  obtain ⟨_, callee⟩ := found
  have hzip : ∀ a ∈ args.zip callee.params, Uniform a.1.value :=
    fun a ha => h a.1 (List.of_mem_zip ha).1
  refine .bind_of_gives (pushReceiver_uniform hzip) fun s r s' hr => ?_
  have hrest : ∀ a ∈ r.2, Uniform a.1.value := fun a ha => hzip a (pushReceiver_rest hr ha)
  refine .guard (plain_uniform _) fun _ => .bind (pushArguments_uniform hrest) fun _ => ?_
  split
  · exact .bind (.pure _) fun _ => .bind (code_uniform _) fun _ => .pure _
  · exact .bind (pool_uniform (PoolBuilder.internMethod_uniform _)) fun _ =>
      .bind (code_uniform _) fun _ => .pure _

theorem pushPlainArguments_uniform (h : ∀ a ∈ args, Uniform a.value) (words : Nat) :
    Uniform (pushPlainArguments args words) := by
  induction args generalizing words with
  | nil => exact .pure _
  | cons a args ih =>
    obtain ⟨ha, hargs⟩ := List.forall_mem_cons.1 h
    exact .bind (valueKind_uniform _) fun _ => .bind ha fun _ => ih hargs _

theorem callObject_uniform (object name : String) (h : ∀ a ∈ args, Uniform a.value)
    (ty : DataType) : Uniform (callObject object name args ty) := by
  refine .bind (resolve_uniform _) fun slot => ?_
  split
  · exact refuse_uniform _
  · exact .bind (code_uniform _) fun _ => .bind (pushPlainArguments_uniform h _) fun _ =>
      .bind (pool_uniform (PoolBuilder.internMethod_uniform _)) fun _ =>
      .bind (code_uniform _) fun _ => .pure _

theorem callAny_uniform (object : Option String) (name : String)
    (h : ∀ a ∈ args, Uniform a.value) (ty : DataType) :
    Uniform (callAny scope object name args ty) := by
  cases object with
  | some object => exact callObject_uniform object name h ty
  | none => exact callFunction_uniform name h

theorem callValue_uniform (whole : Expr) (object : Option String) (name : String)
    (h : ∀ a ∈ args, Uniform a.value) (ty : DataType) :
    Uniform (callValue scope whole object name args ty) := by
  refine .bind (callAny_uniform object name h ty) fun returned => ?_
  split
  · exact refuse_uniform _
  · exact .ite (refuse_uniform _) (.pure _)

end Calls

/-! ### Expressions and statements -/

mutual

/-- **An expression** is lowered alike under all limits. -/
theorem lower_uniform (scope : Scope) : ∀ e : Expr, (lower scope e).IsUniform
  | .ident name ty => ofValue_uniform _ (identValue_uniform name ty)
  | .int value ty => ofValue_uniform _ (literalValue_uniform value ty)
  | .char c => ofValue_uniform _ (charValue_uniform c)
  | .str text => ofValue_uniform _ (stringValue_uniform text)
  | .arith op lhs rhs ty =>
    ofValue_uniform _ (arithValue_uniform op _ lhs rhs ty (lower_uniform scope lhs).value
      (lower_uniform scope rhs).value)
  | .compare op lhs rhs _ =>
    ofBranch_uniform (compareBranch_uniform op _ lhs rhs (lower_uniform scope lhs).value
      (lower_uniform scope rhs).value)
  | .logic op lhs rhs _ =>
    ofBranch_uniform (logicBranch_uniform op (lower_uniform scope lhs).branch
      (lower_uniform scope rhs).branch)
  | .unary op operand ty =>
    ofValue_uniform _ (unaryValue_uniform op _ operand ty (lower_uniform scope operand).value)
  | .not operand _ =>
    ofBranch_uniform fun jumpIf target => (lower_uniform scope operand).branch (!jumpIf) target
  | .call object name args ty =>
    ofValue_uniform _ (callValue_uniform _ object name (lowerArgs_uniform scope args) ty)

theorem lowerArgs_uniform (scope : Scope) :
    ∀ args : List Expr, ∀ a ∈ lowerArgs scope args, Uniform a.value
  | [] => fun _ h => absurd h List.not_mem_nil
  | e :: rest =>
    List.forall_mem_cons.2 ⟨(lower_uniform scope e).value, lowerArgs_uniform scope rest⟩

end

section Statements

variable (scope : Scope)

theorem lowerDeclare_uniform (name : String) (ty : DataType) (init : Option Expr) :
    Uniform (lowerDeclare scope name ty init) := by
  have hstore : Uniform (do
      let slot ← declare name ty
      storeLocal ty slot) :=
    .bind (declare_uniform _ _) fun _ => storeLocal_uniform _ _
  cases init with
  | some e => exact .bind (valueAs_uniform e (lower_uniform scope e).value ty) fun _ => hstore
  | none => exact .bind (pushDefault_uniform ty) fun _ => hstore

theorem lowerAssign_uniform (name : String) (value : Expr) :
    Uniform (lowerAssign scope name value) :=
  .bind (resolve_uniform _) fun _ =>
  .bind (valueAs_uniform value (lower_uniform scope value).value _) fun _ => storeLocal_uniform _ _

theorem lowerReturn_uniform (value : Option Expr) : Uniform (lowerReturn scope value) := by
  unfold lowerReturn
  split
  · exact .bind (valueAs_uniform _ (lower_uniform scope _).value _) fun _ => code_uniform _
  · exact code_uniform _
  · exact refuse_uniform _
  · exact refuse_uniform _

theorem lowerJump_uniform (loop : Option LoopLabels) (keyword : String)
    (target : LoopLabels → Label) : Uniform (lowerJump loop keyword target) := by
  cases loop with
  | some labels => exact code_uniform _
  | none => exact refuse_uniform _

theorem lowerCall_uniform (object : Option String) (name : String) (args : List Expr)
    (ty : DataType) : Uniform (lowerCall scope object name args ty) := by
  refine .bind (callAny_uniform object name (lowerArgs_uniform scope args) ty) fun returned => ?_
  split
  · exact plain_uniform _
  · exact .pure _

theorem jumpUnless_uniform (unreachable : Bool) (target : Label) :
    Uniform (jumpUnless unreachable target) :=
  .ite (.pure _) (code_uniform _)

mutual

/-- **A statement** is lowered alike under all limits. -/
theorem lowerStmt_uniform (loop : Option LoopLabels) :
    ∀ s : Stmt, Uniform (lowerStmt scope loop s)
  | .declare name ty init => lowerDeclare_uniform scope name ty init
  | .assign name value => lowerAssign_uniform scope name value
  | .ret value => lowerReturn_uniform scope value
  | .ifThen cond body =>
    .bind (code_uniform _) fun _ => .bind ((lower_uniform scope cond).branch _ _) fun _ =>
    .bind (lowerBlock_uniform loop body) fun _ => code_uniform _
  | .ifElse cond body orElse =>
    .bind (code_uniform _) fun _ => .bind ((lower_uniform scope cond).branch _ _) fun _ =>
    .bind (lowerBlock_uniform loop body) fun _ => .bind (code_uniform _) fun _ =>
    .bind (jumpUnless_uniform _ _) fun _ => .bind (code_uniform _) fun _ =>
    .bind (lowerBlock_uniform loop orElse) fun _ => .bind (jumpUnless_uniform _ _) fun _ =>
    code_uniform _
  | .loop cond body =>
    .bind (code_uniform _) fun test => .bind (code_uniform _) fun _ =>
    .bind (code_uniform _) fun exit => .bind (code_uniform _) fun _ =>
    .bind (code_uniform _) fun _ => .bind (lowerBlock_uniform (some ⟨exit, test⟩) body) fun _ =>
    .bind (code_uniform _) fun _ => .bind ((lower_uniform scope cond).branch _ _) fun _ =>
    code_uniform _
  | .break => lowerJump_uniform loop _ _
  | .continue => lowerJump_uniform loop _ _
  | .call object name args ty => lowerCall_uniform scope object name args ty

theorem lowerBlock_uniform (loop : Option LoopLabels) :
    ∀ body : List Stmt, Uniform (lowerBlock scope loop body)
  | [] => .pure _
  | s :: rest =>
    .bind (lowerStmt_uniform loop s) fun _ => .ite (.pure _) (lowerBlock_uniform loop rest)

end

theorem lowerBody_uniform : Uniform (lowerBody scope) := by
  refine .bind (lowerBlock_uniform scope none _) fun _ => .ite ?_ (.pure _)
  exact .ite (code_uniform _) (.throw _)

theorem finishBody_uniform : Uniform finishBody := by
  refine .get_bind (fun s => ?_) fun _ _ => rfl
  exact .bind (check_uniform _) fun _ => .pure _

/-- **A function** is lowered alike under all limits. -/
theorem lowerFunction_uniform : Uniform (lowerFunction scope) :=
  .bind (lowerBody_uniform scope) fun _ => finishBody_uniform

end Statements

/-! ## The class -/

namespace ClassM

variable {α : Type}

/-- Work on the pool, as part of a compilation. -/
theorem pool_uniform {x : PoolM α} (hx : Uniform x) : Uniform (ClassM.pool x) := by
  refine hx.embed ClassState.pool (fun t p => { t with pool := p }) .pool
    ⟨fun t => ?_, fun _ => rfl, fun _ => rfl, fun _ _ => rfl, fun _ _ => rfl, fun _ _ => rfl,
      fun _ _ _ => rfl, fun _ _ _ => rfl⟩
  unfold ClassM.pool
  cases hrun : x t.pool <;> simp only [hrun]

/-- The lowering of a function, as part of a compilation. The name of the function is not attached
to errors of the pool. -/
theorem function_uniform (name : String) (locals : Locals) {x : Lower α} (hx : Uniform x) :
    Uniform (ClassM.function name locals x) := by
  refine hx.embed (fun t => ⟨t.pool, locals, .start locals.maxLocals⟩)
    (fun t s => { t with pool := s.pool, trace := t.trace ++ s.asm.trace })
    (CompileError.inFunction name) ⟨fun t => ?_, fun _ => rfl, fun _ => rfl,
      fun _ _ => rfl, fun _ _ => rfl, fun _ _ => rfl, fun _ _ _ => rfl, fun _ _ _ => rfl⟩
  unfold ClassM.function
  cases hrun : x ⟨t.pool, locals, .start locals.maxLocals⟩ <;> simp only [hrun]

/-- A change of other parts of the state. -/
theorem modify_uniform {f : ClassState → ClassState} (hpool : ∀ s, (f s).pool = s.pool)
    (hcapped : ∀ n s, f (capped n s) = capped n (f s)) :
    Uniform (modify f : ClassM Unit) := by
  refine .of_apart fun s _ s' h => ?_
  obtain rfl := modify_ok.1 h
  refine ⟨?_, ?_, fun n => modify_ok.2 (hcapped n s)⟩
  · show (f s).pool.pool.size = s.pool.pool.size
    rw [hpool]
  · show (f s).pool.limit = s.pool.limit
    rw [hpool]

end ClassM

theorem register_uniform (callable : Callable) : Uniform (do
    let s ← get
    match s.table.register callable with
    | .ok table => set { s with table }
    | .error e => throw e : ClassM Unit) := by
  refine .of_apart fun s _ s' h => ?_
  obtain ⟨_, _, hget, h⟩ := bind_ok.1 h
  obtain ⟨rfl, rfl⟩ := get_ok.1 hget
  cases hregister : s.table.register callable with
  | error e =>
    rw [hregister] at h
    exact absurd h throw_ok.1
  | ok table =>
    rw [hregister] at h
    cases h
    refine ⟨rfl, rfl, fun n => bind_ok.2 ⟨_, _, get_ok.2 ⟨rfl, rfl⟩, ?_⟩⟩
    -- the table is the same under another limit
    show (match s.table.register callable with
      | .ok table => set { capped n s with table }
      | .error e => throw e : ClassM Unit) (capped n s) = _
    rw [hregister]
    rfl

theorem registerFunction_uniform (owner : String) (f : FunDef) :
    Uniform (registerFunction owner f) :=
  .bind (ClassM.pool_uniform (PoolBuilder.internMethod_uniform _)) fun _ => register_uniform _

theorem addMethod_uniform (attrName flags : UInt16) (name descriptor : String) (body : Finished) :
    Uniform (addMethod attrName flags name descriptor body) :=
  .bind (ClassM.pool_uniform (PoolBuilder.internText_uniform _)) fun _ =>
  .bind (ClassM.pool_uniform (PoolBuilder.internText_uniform _)) fun _ =>
  ClassM.modify_uniform (fun _ => rfl) fun _ _ => rfl

theorem constructorBody_uniform (superInit : UInt16) : Uniform (constructorBody superInit) :=
  .bind (code_uniform _) fun _ => .bind (code_uniform _) fun _ => .bind (code_uniform _) fun _ =>
  finishBody_uniform

theorem addConstructor_uniform (attrName : UInt16) (superClass : String) :
    Uniform (addConstructor attrName superClass) :=
  .bind (ClassM.pool_uniform (PoolBuilder.internMethod_uniform _)) fun _ =>
  .bind (ClassM.function_uniform _ _ (constructorBody_uniform _)) fun _ =>
  addMethod_uniform _ _ _ _ _

theorem compileConstructor_uniform (options : Options) (attrName : UInt16) (p : Program) :
    Uniform (compileConstructor options attrName p) :=
  .ite (.ite (ClassM.modify_uniform (fun _ => rfl) fun _ _ => rfl) (addConstructor_uniform _ _))
    (.pure _)

theorem compileFunction_uniform (attrName : UInt16) (f : FunDef) :
    Uniform (compileFunction attrName f) := by
  refine .get_bind (fun s => ?_) fun _ _ => rfl
  dsimp only
  split
  · exact .throw _
  · split
    · exact .throw _
    · exact .bind (ClassM.function_uniform _ _ (lowerFunction_uniform _)) fun _ =>
        addMethod_uniform _ _ _ _ _

/-- **A program** is compiled alike under all limits. -/
theorem compileClass_uniform (options : Options) (p : Program) :
    Uniform (compileClass options p) := by
  refine .bind (ClassM.pool_uniform (PoolBuilder.internClass_uniform _)) fun thisClass =>
    .bind (ClassM.pool_uniform (PoolBuilder.internClass_uniform _)) fun superClass =>
    .bind (ClassM.pool_uniform (PoolBuilder.internText_uniform _)) fun attrName => ?_
  refine .bind (.forM (registerFunction_uniform _)) fun _ =>
    .bind (compileConstructor_uniform _ _ _) fun _ =>
    .bind (.forM (compileFunction_uniform _)) fun _ => ?_
  exact .get_bind (fun _ => .pure _) fun _ _ => rfl

/-! ## The threshold -/

theorem compileProgram_eq_error {options : Options} {imports : List Callable} {p : Program}
    {e : CompileError} {s : ClassState}
    (h : compileClass options p
      { pool := .withLimit options.poolLimit, table := importTable imports } = .error e s) :
    (compileProgram options imports p).result = .error e := by
  unfold compileProgram
  dsimp only
  rw [h]

/-- **What a program compiles to under every limit**, if it compiles under one: the same class if
its pool fits, and otherwise an overflow at the limit. -/
theorem compile_of_limit {options : Options} {imports : List Callable} {p : Program} {c : ClassFile}
    (h : (compileProgram options imports p).result = .ok c) (limit : Nat) :
    (c.pool.size ≤ limit →
      (compileProgram { options with poolLimit := limit } imports p).result = .ok c) ∧
    (limit < c.pool.size → ∃ current adding,
      (compileProgram { options with poolLimit := limit } imports p).result =
        .error (.pool (.overflow current adding limit)) ∧
      current ≤ limit ∧ limit < current + adding) := by
  obtain ⟨s, hs⟩ := compileProgram_eq_ok.1 h
  have transfers := compileClass_uniform options p _ c s hs
  -- the pool of the class is the one in the end, and no limit exceeds the indices there are
  have hpool : c.pool = s.pool.pool := by
    simp only [compileClass, bind_ok, get_ok, pure_ok] at hs
    obtain ⟨_, _, -, _, _, -, _, _, -, _, _, -, _, _, -, _, _, -, _, _, ⟨rfl, rfl⟩, rfl, rfl⟩ := hs
    rfl
  have hmax : s.pool.pool.size ≤ min options.poolLimit maxPoolIndex :=
    transfers.bounded (Nat.zero_le _)
  rw [hpool]
  refine ⟨fun hle => ?_, fun hlt => ?_⟩
  · have henough := transfers.enough (min limit maxPoolIndex) (by show s.pool.pool.size ≤ _; omega)
    exact compileProgram_eq_ok.2 ⟨_, henough⟩
  · have hlimit : min limit maxPoolIndex = limit := by omega
    have hshort : Overflows limit (compileClass { options with poolLimit := limit } p
        { pool := .withLimit limit, table := importTable imports }) := by
      have hshort := transfers.short (min limit maxPoolIndex) (Nat.zero_le _)
        (by show _ < s.pool.pool.size; omega)
      nth_rewrite 1 [hlimit] at hshort
      exact hshort
    cases hrun : compileClass { options with poolLimit := limit } p
        { pool := .withLimit limit, table := importTable imports } with
    | ok _ _ =>
      rw [hrun] at hshort
      exact hshort.elim
    | error e t =>
      rw [hrun] at hshort
      obtain ⟨current, adding, rfl, hroom⟩ := hshort
      exact ⟨current, adding, compileProgram_eq_error hrun, hroom⟩

/-- A program with a loop under the limit that it needs, and under the next smaller one. -/
theorem compile_of_limit_latch : ∃ c, (compileProgram {} [] latch).result = .ok c ∧
    (compileProgram { poolLimit := c.pool.size } [] latch).result = .ok c ∧
    ∃ current adding, (compileProgram { poolLimit := c.pool.size - 1 } [] latch).result =
      .error (.pool (.overflow current adding (c.pool.size - 1))) := by
  obtain ⟨c, hc⟩ := compileProgram_latch
  have hpos : 0 < c.pool.size := by
    obtain ⟨table, hcompiled⟩ := compiled_of_ok (by simp) hc
    obtain ⟨_, hget, -⟩ := ConstantPool.className?_eq_some_iff.1 hcompiled.thisClass
    obtain ⟨-, -, hslot⟩ := ConstantPool.get?_eq_some_iff.1 hget
    exact Nat.zero_lt_of_lt (Array.getElem?_eq_some_iff.1 hslot).1
  obtain ⟨current, adding, hshort, -⟩ := (compile_of_limit hc (c.pool.size - 1)).2 (by omega)
  exact ⟨c, hc, (compile_of_limit hc c.pool.size).1 (Nat.le_refl _), current, adding, hshort⟩

end ClassFoundry
