import ClassFoundry.Proofs.ConstantPool

/-!
# Sequences of intern calls

Whatever is interned in whatever order, under whatever limit, and however often it fails: a pool
has every constant once, an index keeps its meaning, and a call that succeeded once gives its index
again, even when the pool is full.

## Main definitions

* `InternCall`: something to intern, and `InternCall.perform` how it is done
* `InternCall.Named`: what the index of a call stands for
* `PoolBuilder.afterAll`: the pool after calls, of which some may fail
* `PoolBuilder.Lawful`: what holds of such a pool

## Main results

* `InternCall.perform_interns`: one call
* `InternCall.perform_of_named`: a call for what is there already
* `lawful_afterAll`: every sequence of calls
-/

namespace ClassFoundry

/-- **Something to intern**. -/
inductive InternCall where
  | text (value : String)
  | class (name : String)
  | string (value : String)
  | nameAndType (name descriptor : String)
  | field (m : Member)
  | method (m : Member)
  | integer (value : Int32)
  | long (value : Int64)

namespace InternCall

/-- How a call is done. -/
def perform : InternCall → PoolM UInt16
  | .text value => PoolBuilder.internText value
  | .class name => PoolBuilder.internClass name
  | .string value => PoolBuilder.internString value
  | .nameAndType name descriptor => PoolBuilder.internNameAndType name descriptor
  | .field m => PoolBuilder.internField m
  | .method m => PoolBuilder.internMethod m
  | .integer value => PoolBuilder.internInteger value
  | .long value => PoolBuilder.internLong value

/-- **What the index of a call stands for**: a constant of the sort that was asked for, which leads
to the texts of the call. -/
def Named (pool : ConstantPool) (i : UInt16) : InternCall → Prop
  | .text value => pool.text? i = some value
  | .class name => pool.className? i = some name
  | .string value => ∃ n, pool.get? i = some (.string n) ∧ pool.text? n = some value
  | .nameAndType name descriptor => ∃ n d, pool.get? i = some (.nameAndType n d) ∧
      pool.text? n = some name ∧ pool.text? d = some descriptor
  | .field m => pool.member? i = some m ∧ ∃ cls sig, pool.get? i = some (.fieldRef cls sig)
  | .method m => pool.member? i = some m ∧ ∃ cls sig, pool.get? i = some (.methodRef cls sig)
  | .integer value => pool.get? i = some (.integer value)
  | .long value => pool.get? i = some (.long value)

variable {p q : ConstantPool} {i : UInt16} {b : PoolBuilder}

theorem Named.mono (hle : p ≤ q) {call : InternCall} (h : call.Named p i) : call.Named q i := by
  have hget {j : UInt16} {c : Constant} : p.get? j = some c → q.get? j = some c :=
    ConstantPool.get?_mono hle
  have htext {j : UInt16} {t : String} : p.text? j = some t → q.text? j = some t :=
    ConstantPool.text?_mono hle
  cases call with
  | text value => exact htext h
  | «class» name => exact ConstantPool.className?_mono hle h
  | string value =>
    obtain ⟨n, hi, hn⟩ := h
    exact ⟨n, hget hi, htext hn⟩
  | nameAndType name descriptor =>
    obtain ⟨n, d, hi, hn, hd⟩ := h
    exact ⟨n, d, hget hi, htext hn, htext hd⟩
  | field m =>
    obtain ⟨hm, cls, sig, hi⟩ := h
    exact ⟨ConstantPool.member?_mono hle hm, cls, sig, hget hi⟩
  | method m =>
    obtain ⟨hm, cls, sig, hi⟩ := h
    exact ⟨ConstantPool.member?_mono hle hm, cls, sig, hget hi⟩
  | integer value => exact hget h
  | long value => exact hget h

/-- **One call**: its index names what was asked for. -/
theorem perform_interns (call : InternCall) :
    PoolBuilder.Interns (fun _ => True) call.perform (call.Named · ·) := by
  have hleft : ∀ p : ConstantPool, True → True := fun _ h => h
  cases call with
  | text value => exact PoolBuilder.internText_interns value
  | «class» name => exact PoolBuilder.internClass_interns name
  | string value => exact PoolBuilder.internString_interns value
  | nameAndType name descriptor => exact PoolBuilder.internNameAndType_interns name descriptor
  | field m =>
    exact (PoolBuilder.internField_interns m).weaken hleft fun _ _ ⟨cls, sig, hi, hm⟩ =>
      ⟨ConstantPool.member?_of_fieldRef hi hm, cls, sig, hi⟩
  | method m =>
    exact (PoolBuilder.internMethod_interns m).weaken hleft fun _ _ ⟨cls, sig, hi, hm⟩ =>
      ⟨ConstantPool.member?_of_methodRef hi hm, cls, sig, hi⟩
  | integer value =>
    exact (PoolBuilder.intern_interns (.integer value)).weaken (fun _ _ => trivial) fun _ _ h => h
  | long value =>
    exact (PoolBuilder.intern_interns (.long value)).weaken (fun _ _ => trivial) fun _ _ h => h

/-! ## Calls for what is there already -/

section Again

/-- A constant that is in the pool is found, and nothing changes. -/
theorem intern_again {c : Constant} (hb : b.Sound) (h : b.pool.get? i = some c) :
    PoolBuilder.intern c b = .ok i b := by
  have hi := (hb.indexed c i).2 h
  rcases PoolBuilder.intern_cases c b with ⟨j, hj, hok⟩ | ⟨e, hnone, -⟩ | ⟨hnone, -⟩
  · rw [hi] at hj
    cases hj
    exact hok
  · rw [hi] at hnone
    cases hnone
  · rw [hi] at hnone
    cases hnone

theorem internText_again {text : String} (hb : b.Sound) (h : b.pool.text? i = some text) :
    PoolBuilder.internText text b = .ok i b := by
  have hget := ConstantPool.text?_eq_some_iff.1 h
  have hlen : ModifiedUtf8.encodedLength text ≤ maxTextLength := hb.refers hget
  unfold PoolBuilder.internText
  rw [if_neg (Nat.not_lt.2 hlen)]
  exact intern_again hb hget

theorem internClass_again {name : String} (hb : b.Sound) (h : b.pool.className? i = some name) :
    PoolBuilder.internClass name b = .ok i b := by
  obtain ⟨n, hi, hn⟩ := ConstantPool.className?_eq_some_iff.1 h
  exact bind_ok.2 ⟨n, b, internText_again hb hn, intern_again hb hi⟩

theorem internNameAndType_again {name descriptor : String} {n d : UInt16} (hb : b.Sound)
    (hi : b.pool.get? i = some (.nameAndType n d)) (hn : b.pool.text? n = some name)
    (hd : b.pool.text? d = some descriptor) :
    PoolBuilder.internNameAndType name descriptor b = .ok i b :=
  bind_ok.2 ⟨n, b, internText_again hb hn,
    bind_ok.2 ⟨d, b, internText_again hb hd, intern_again hb hi⟩⟩

/-- The parts of a member that is in the pool are found. -/
theorem internParts_again {m : Member} {cls sig : UInt16} (hb : b.Sound)
    (h : b.pool.memberOf? cls sig = some m) :
    PoolBuilder.internClass m.owner b = .ok cls b ∧
      PoolBuilder.internNameAndType m.name m.descriptor b = .ok sig b := by
  obtain ⟨ho, n, d, hs, hn, hd⟩ := ConstantPool.memberOf?_eq_some_iff.1 h
  exact ⟨internClass_again hb ho, internNameAndType_again hb hs hn hd⟩

/-- **A call for what is there already** gives its index and changes nothing, whether or not there
is room left. -/
theorem perform_of_named {call : InternCall} (hb : b.Sound) (h : call.Named b.pool i) :
    call.perform b = .ok i b := by
  cases call with
  | text value => exact internText_again hb h
  | «class» name => exact internClass_again hb h
  | string value =>
    obtain ⟨n, hi, hn⟩ := h
    exact bind_ok.2 ⟨n, b, internText_again hb hn, intern_again hb hi⟩
  | nameAndType name descriptor =>
    obtain ⟨n, d, hi, hn, hd⟩ := h
    exact internNameAndType_again hb hi hn hd
  | field m =>
    obtain ⟨hm, cls, sig, hi⟩ := h
    rw [ConstantPool.member?, hi] at hm
    obtain ⟨hc, hs⟩ := internParts_again hb hm
    exact bind_ok.2 ⟨cls, b, hc, bind_ok.2 ⟨sig, b, hs, intern_again hb hi⟩⟩
  | method m =>
    obtain ⟨hm, cls, sig, hi⟩ := h
    rw [ConstantPool.member?, hi] at hm
    obtain ⟨hc, hs⟩ := internParts_again hb hm
    exact bind_ok.2 ⟨cls, b, hc, bind_ok.2 ⟨sig, b, hs, intern_again hb hi⟩⟩
  | integer value => exact intern_again hb h
  | long value => exact intern_again hb h

end Again

end InternCall

/-! ## Sequences -/

namespace PoolBuilder

/-- The pool after a call, whether it succeeds or fails. -/
def after (b : PoolBuilder) (call : InternCall) : PoolBuilder :=
  match call.perform b with
  | .ok _ b' | .error _ b' => b'

/-- The pool after calls, one after the other. -/
def afterAll (b : PoolBuilder) (calls : List InternCall) : PoolBuilder := calls.foldl after b

/-- A call only appends, also where it fails. -/
theorem after_grows {b : PoolBuilder} (hb : b.Sound) (call : InternCall) :
    b.Grows (b.after call) := by
  have h := call.perform_interns b hb trivial
  unfold after
  cases hx : call.perform b with
  | ok i b' =>
    rw [hx] at h
    exact h.1
  | error e b' =>
    rw [hx] at h
    exact h

/-- And so do calls one after the other. -/
theorem afterAll_grows {b : PoolBuilder} (hb : b.Sound) (calls : List InternCall) :
    b.Grows (b.afterAll calls) := by
  induction calls generalizing b with
  | nil => exact .refl hb
  | cons call calls ih =>
    have hfirst := after_grows hb call
    exact hfirst.trans (ih hfirst.sound)

/-- **What holds of a pool after calls** that began with an empty pool and a limit. -/
structure Lawful (limit : Nat) (b : PoolBuilder) : Prop where
  /-- No two slots hold the same constant. -/
  distinct : ∀ (j k : Nat) (c : Constant), b.pool.constants[j]? = some c →
    b.pool.constants[k]? = some c → c ≠ .unusable → j = k
  /-- The look-up is the inverse of the table. -/
  inverse : ∀ c i, b.index[c]? = some i ↔ b.pool.get? i = some c
  bounded : b.pool.size ≤ min limit maxPoolIndex
  paired : b.pool.Paired
  /-- A constant refers to constants before it, of the right sorts. -/
  earlier : ∀ i c, b.pool.get? i = some c → c.Refers (b.pool.before (i.toNat - 1))
  /-- Further calls only append, so an index keeps its constant. -/
  appends : ∀ more, b.pool ≤ (b.afterAll more).pool ∧
    ∀ i c, b.pool.get? i = some c → (b.afterAll more).pool.get? i = some c
  /-- The index of a call that succeeds names what was asked for. -/
  names : ∀ (call : InternCall) i b', call.perform b = .ok i b' → call.Named b'.pool i
  /-- A call that succeeded gives the same index later, and changes nothing then. -/
  repeats : ∀ (call : InternCall) i b' more, call.perform b = .ok i b' →
    call.perform (b'.afterAll more) = .ok i (b'.afterAll more)

theorem Sound.distinct {b : PoolBuilder} (hb : b.Sound) {j k : Nat} {c : Constant}
    (hj : b.pool.constants[j]? = some c) (hk : b.pool.constants[k]? = some c)
    (hc : c ≠ .unusable) : j = k := by
  obtain ⟨hj', hgetj⟩ := hb.get?_of_getElem? hj hc
  obtain ⟨hk', hgetk⟩ := hb.get?_of_getElem? hk hc
  have := congrArg UInt16.toNat (hb.unique hgetj hgetk)
  omega

end PoolBuilder

/-- **Every sequence of intern calls**, successful or not, leaves a lawful pool. -/
theorem lawful_afterAll (limit : Nat) (calls : List InternCall) :
    ((PoolBuilder.withLimit limit).afterAll calls).Lawful limit := by
  have hstart := PoolBuilder.sound_withLimit limit
  obtain ⟨-, hlimit, hb⟩ := PoolBuilder.afterAll_grows hstart calls
  exact
    { distinct := fun _ _ _ => hb.distinct
      inverse := hb.indexed
      bounded := Nat.le_trans hb.size_le (Nat.le_of_eq hlimit)
      paired := hb.paired
      earlier := hb.earlier
      appends := fun more =>
        have hle := (PoolBuilder.afterAll_grows hb more).le
        ⟨hle, fun _ _ => ConstantPool.get?_mono hle⟩
      names := fun call _ _ h => (call.perform_interns.ok hb trivial h).2
      repeats := by
        intro call i b' more h
        obtain ⟨hg, hnamed⟩ := call.perform_interns.ok hb trivial h
        have hmore := PoolBuilder.afterAll_grows hg.sound more
        exact InternCall.perform_of_named hmore.sound (hnamed.mono hmore.le) }

end ClassFoundry
