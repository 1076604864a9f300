import ClassFoundry.Proofs.Structured.Logic
import ClassFoundry.Proofs.Structured.Typing

/-!
# Typed code is safe

Where values have to be of exactly the kinds that operations ask for, typed code finds what it needs
on the stack and among the locals, and leaves values of the kinds that its type says. What lies
further down on the stack stays as it is.

## Main definitions

* `HaveKinds`, `Env.Holds`: values and locals of given kinds
* `KindCall`: a call of which nothing but kinds is known
* `kindTyping`: the typing in which kinds have to be equal

## Main results

* `Fragment.Typed.wp`, `Condition.Typed.wp`, `Flow.Typed.wp`: typed code has its precondition
-/

namespace ClassFoundry

/-- Values of the given kinds. -/
def HaveKinds (ks : List Kind) (vs : List Value) : Prop :=
  List.Forall₂ (fun k v => Value.hasKind k v = true) ks vs

/-- Variables have values of their kinds. -/
def Env.Holds (Γ : Env) (L : Array Value) : Prop :=
  ∀ slot kind, Γ slot kind → ∃ v, L[slot]? = some v ∧ v.hasKind kind = true

namespace Value

variable {v : Value}

theorem eq_int_of_hasKind (h : v.hasKind .int = true) : ∃ n, v = .int n := by
  cases v <;> simp_all [hasKind]

theorem eq_long_of_hasKind (h : v.hasKind .long = true) : ∃ n, v = .long n := by
  cases v <;> simp_all [hasKind]

end Value

namespace HaveKinds

variable {k l : Kind} {ks ks' : List Kind} {vs : List Value}

theorem one (h : HaveKinds [k] vs) : ∃ v, vs = [v] ∧ v.hasKind k = true := by
  obtain ⟨v, rest, hv, hrest, rfl⟩ := List.forall₂_cons_left_iff.1 h
  obtain rfl := List.forall₂_nil_left_iff.1 hrest
  exact ⟨v, rfl, hv⟩

theorem two (h : HaveKinds [k, l] vs) :
    ∃ v w, vs = [v, w] ∧ v.hasKind k = true ∧ w.hasKind l = true := by
  obtain ⟨v, rest, hv, hrest, rfl⟩ := List.forall₂_cons_left_iff.1 h
  obtain ⟨w, rfl, hw⟩ := one hrest
  exact ⟨v, w, rfl, hv, hw⟩

theorem none (h : HaveKinds [] vs) : vs = [] := List.forall₂_nil_left_iff.1 h

theorem append {vs' : List Value} (h : HaveKinds ks vs) (h' : HaveKinds ks' vs') :
    HaveKinds (ks ++ ks') (vs ++ vs') :=
  List.rel_append h h'

/-- Values of two lists of kinds, one after the other. -/
theorem split (h : HaveKinds (ks ++ ks') vs) :
    ∃ ws ws', vs = ws ++ ws' ∧ HaveKinds ks ws ∧ HaveKinds ks' ws' := by
  refine ⟨vs.take ks.length, vs.drop ks.length, (List.take_append_drop _ vs).symm, ?_, ?_⟩
  · simpa [HaveKinds] using List.forall₂_take ks.length h
  · simpa [HaveKinds] using List.forall₂_drop ks.length h

end HaveKinds

/-! ## Operations -/

section Operations

variable {c : ClassFile} {W : Rules} {L : Array Value} {Q : Post} {out : String}
  {taken rest : List Value}

/-- An operation that finds values of the kinds that it takes leaves values of the kinds that it
gives, unless it divides by zero. -/
theorem FrameOp.wp_of_kinds {op : FrameOp} {takes gives : List Kind}
    (hop : op.kinds? = some (takes, gives)) (hdivision : W.fault out .divisionByZero)
    (hload : ∀ kind slot, op = .load kind slot →
      ∃ v, L[slot]? = some v ∧ v.hasKind kind = true)
    (htaken : HaveKinds takes taken) (hQ : ∀ vs, HaveKinds gives vs → Q out (vs ++ rest)) :
    op.wp W L Q out (taken ++ rest) := by
  have give (v : Value) (k : Kind) (hv : v.hasKind k = true) : HaveKinds [k] [v] := .cons hv .nil
  cases op with
  | pushNull =>
    cases hop
    obtain rfl := htaken.none
    rintro pool next ⟨⟩ rfl rfl
    exact hQ [.null] (give _ _ rfl)
  | pushInt v =>
    cases hop
    obtain rfl := htaken.none
    rintro pool next ⟨⟩ rfl rfl
    exact hQ [.int v] (give _ _ rfl)
  | pushLong v =>
    cases hop
    obtain rfl := htaken.none
    rintro pool next ⟨⟩ rfl rfl
    exact hQ [.long v] (give _ _ rfl)
  | load kind slot =>
    cases hop
    obtain rfl := htaken.none
    obtain ⟨v, hv, hkind⟩ := hload kind slot rfl
    rintro pool next f rfl rfl
    simp only [Frame.apply, Frame.load, hv, hkind, if_true]
    exact hQ [v] (give _ _ hkind)
  | dup =>
    cases hop
    obtain ⟨v, rfl, hv⟩ := htaken.one
    rintro pool next ⟨⟩ rfl rfl
    exact hQ [v, v] (.cons hv (give _ _ hv))
  | intOp op =>
    cases hop
    obtain ⟨_, _, rfl, hb, ha⟩ := htaken.two
    obtain ⟨b, rfl⟩ := Value.eq_int_of_hasKind hb
    obtain ⟨a, rfl⟩ := Value.eq_int_of_hasKind ha
    exact wp_intOp (fun _ => hdivision) fun v _ => hQ [.int v] (give _ _ rfl)
  | longOp op =>
    cases hop
    obtain ⟨_, _, rfl, hb, ha⟩ := htaken.two
    obtain ⟨b, rfl⟩ := Value.eq_long_of_hasKind hb
    obtain ⟨a, rfl⟩ := Value.eq_long_of_hasKind ha
    exact wp_longOp (fun _ => hdivision) fun v _ => hQ [.long v] (give _ _ rfl)
  | intShift op =>
    cases hop
    obtain ⟨_, _, rfl, hb, ha⟩ := htaken.two
    obtain ⟨b, rfl⟩ := Value.eq_int_of_hasKind hb
    obtain ⟨a, rfl⟩ := Value.eq_int_of_hasKind ha
    rintro pool next ⟨⟩ rfl rfl
    exact hQ [.int (op.onInt a b)] (give _ _ rfl)
  | longShift op =>
    cases hop
    obtain ⟨_, _, rfl, hb, ha⟩ := htaken.two
    obtain ⟨b, rfl⟩ := Value.eq_int_of_hasKind hb
    obtain ⟨a, rfl⟩ := Value.eq_long_of_hasKind ha
    rintro pool next ⟨⟩ rfl rfl
    exact hQ [.long (op.onLong a b)] (give _ _ rfl)
  | longCompare =>
    cases hop
    obtain ⟨_, _, rfl, hb, ha⟩ := htaken.two
    obtain ⟨b, rfl⟩ := Value.eq_long_of_hasKind hb
    obtain ⟨a, rfl⟩ := Value.eq_long_of_hasKind ha
    rintro pool next ⟨⟩ rfl rfl
    exact hQ [.int _] (give _ _ rfl)
  | intNeg | intCast _ =>
    cases hop
    obtain ⟨_, rfl, hv⟩ := htaken.one
    obtain ⟨v, rfl⟩ := Value.eq_int_of_hasKind hv
    rintro pool next ⟨⟩ rfl rfl
    exact hQ [.int _] (give _ _ rfl)
  | intToLong =>
    cases hop
    obtain ⟨_, rfl, hv⟩ := htaken.one
    obtain ⟨v, rfl⟩ := Value.eq_int_of_hasKind hv
    rintro pool next ⟨⟩ rfl rfl
    exact hQ [.long _] (give _ _ rfl)
  | longNeg =>
    cases hop
    obtain ⟨_, rfl, hv⟩ := htaken.one
    obtain ⟨v, rfl⟩ := Value.eq_long_of_hasKind hv
    rintro pool next ⟨⟩ rfl rfl
    exact hQ [.long _] (give _ _ rfl)
  | longToInt =>
    cases hop
    obtain ⟨_, rfl, hv⟩ := htaken.one
    obtain ⟨v, rfl⟩ := Value.eq_long_of_hasKind hv
    rintro pool next ⟨⟩ rfl rfl
    exact hQ [.int _] (give _ _ rfl)
  | nop | pushConstant _ | store _ _ | pop | pop2 | branchZero _ _ | branchInts _ _
  | branchRefs _ _ | jump _ | getStatic _ => cases hop

theorem Kind.wp_dropOp {kind : Kind} {v : Value} (hv : v.hasKind kind = true) (h : Q out rest) :
    kind.dropOp.wp W L Q out (v :: rest) := by
  rintro pool next ⟨⟩ rfl rfl
  cases kind with
  | int | reference => exact h
  | long =>
    obtain ⟨n, rfl⟩ := Value.eq_long_of_hasKind hv
    exact h

theorem Test.wp_of_kinds {t : Test} {Q : Bool → Post} (htaken : HaveKinds t.takes taken)
    (hQ : ∀ b, Q b out rest) : t.wp W Q out (taken ++ rest) := by
  cases t with
  | zero test =>
    obtain ⟨_, rfl, hv⟩ := htaken.one
    obtain ⟨v, rfl⟩ := Value.eq_int_of_hasKind hv
    rintro ⟨⟩ rfl
    exact hQ _
  | ints test =>
    obtain ⟨_, _, rfl, hb, ha⟩ := htaken.two
    obtain ⟨b, rfl⟩ := Value.eq_int_of_hasKind hb
    obtain ⟨a, rfl⟩ := Value.eq_int_of_hasKind ha
    rintro ⟨⟩ rfl
    exact hQ _
  | refs same =>
    obtain ⟨b, a, rfl, hb, ha⟩ := htaken.two
    rintro f hstack
    have hfirst : f.popKind .reference = .ok (b, { f with stack := a :: rest }) := by
      simp [Frame.popKind, hstack, hb]
    have hsecond : Frame.popKind { f with stack := a :: rest } .reference =
        .ok (a, { f with stack := rest }) := by
      simp [Frame.popKind, ha]
    simp only [outcome, hfirst]
    show W.Yields out (Frame.popKind { f with stack := a :: rest } .reference >>= _) _
    rw [hsecond]
    exact hQ _

end Operations

/-! ## Calls -/

/-- **A call of which nothing but kinds is known**: with operands of the given kinds, it ends in an
allowed way or with a result of the given kind. -/
def KindCall (c : ClassFile) (W : Rules) (mode : CallMode) (callee : Member) (args : List Kind)
    (result : Option Kind) : Prop :=
  ∀ (L : Array Value) (Q : Post) (out : String) (taken rest : List Value),
    HaveKinds (Operation.invoke mode callee args result).takes taken →
    (∀ out r, HaveKinds result.toList (Option.toList r) → Q out (r.toList ++ rest)) →
    (Operation.invoke mode callee args result).wp c W L Q out (taken ++ rest)

/-- What the code that the compiler adds by itself asks of the rules. -/
structure Rules.Lawful (c : ClassFile) (W : Rules) : Prop where
  division : ∀ out, W.fault out .divisionByZero
  unsignedInts : ∀ name,
    KindCall c W .static (unsignedInt name "(II)I") [.int, .int] (some .int)
  compareLongs :
    KindCall c W .static (unsignedLong "compareUnsigned" "(JJ)I") [.long, .long] (some .int)
  unsignedLongs : ∀ op name, Arith.unsignedMethod? op = some name →
    KindCall c W .static (unsignedLong name "(JJ)J") [.long, .long] (some .long)
  constructs : ∀ cls, KindCall c W .special ⟨cls, "<init>", "()V"⟩ [] none

/-- **The typing in which kinds have to be equal**. -/
def kindTyping {c : ClassFile} {W : Rules} (hW : W.Lawful c) (slots : Nat → Kind → Prop) :
    Typing where
  fits := Eq
  calls := KindCall c W
  fields member := member.owner = systemClass ∧ member.name = "out"
  slots := slots
  fits_refl _ := rfl
  unsignedInts := hW.unsignedInts
  compareLongs := hW.compareLongs
  unsignedLongs := hW.unsignedLongs
  constructs := hW.constructs

/-! ## Code -/

section Code

variable {c : ClassFile} {W : Rules} {hW : W.Lawful c} {slots : Nat → Kind → Prop} {Γ : Env}
  {L : Array Value} {out : String} {st rest : List Value} {s s' : List Kind}

theorem Operation.Typed.wp {o : Operation} {Q : Post} (h : o.Typed (kindTyping hW slots) Γ s s')
    (hΓ : Γ.Holds L) (hst : HaveKinds s st)
    (hQ : ∀ out st', HaveKinds s' st' → Q out (st' ++ rest)) : o.wp c W L Q out (st ++ rest) := by
  obtain ⟨hallowed, taken, under, rfl, hfits, rfl⟩ := h
  obtain rfl : taken = o.takes := List.forall₂_eq_eq_eq ▸ hfits
  obtain ⟨ws, under', rfl, hws, hunder⟩ := hst.split
  rw [List.append_assoc]
  -- what the operation leaves, above what it does not touch
  have hleave (out : String) (vs : List Value) (hvs : HaveKinds o.gives vs) :
      Q out (vs ++ (under' ++ rest)) := by
    rw [← List.append_assoc]
    exact hQ out _ (hvs.append hunder)
  cases o with
  | frame op =>
    intro hsome
    obtain ⟨⟨takes, gives⟩, hop⟩ := Option.isSome_iff_exists.1 hsome
    simp only [Operation.takes, Operation.gives, hop, Option.getD_some] at hws hleave
    refine FrameOp.wp_of_kinds hop (hW.division out) ?_ hws fun vs hvs => hleave out vs hvs
    rintro kind slot rfl
    exact hΓ slot kind hallowed
  | drop kind =>
    obtain ⟨v, rfl, hv⟩ := hws.one
    exact Kind.wp_dropOp hv (hleave out [] .nil)
  | text value =>
    obtain rfl := hws.none
    exact fun ref => hleave out [.str ref value] (.cons rfl .nil)
  | field member =>
    obtain rfl := hws.none
    have hout : member.owner = systemClass ∧ member.name = "out" := hallowed
    simp only [Operation.wp]
    rw [if_pos hout]
    exact hleave out [.object .standardOutput printStreamClass] (.cons rfl .nil)
  | invoke mode callee args result =>
    exact hallowed L Q out ws (under' ++ rest) hws fun out r hr => hleave out r.toList hr
  | create className =>
    obtain rfl := hws.none
    exact fun ref => hleave out [.object ref className] (.cons rfl .nil)

mutual

/-- **A typed fragment** has its precondition, whatever lies below its operands. -/
theorem Fragment.Typed.wp (code : Fragment) {s s' : List Kind} {Q : Post} {out : String}
    {st rest : List Value} (h : code.Typed (kindTyping hW slots) Γ s s') (hΓ : Γ.Holds L)
    (hst : HaveKinds s st) (hQ : ∀ out st', HaveKinds s' st' → Q out (st' ++ rest)) :
    code.wp c W L Q out (st ++ rest) := by
  cases code with
  | nil =>
    obtain rfl : s' = s := h
    exact hQ out st hst
  | op o => exact Operation.Typed.wp h hΓ hst hQ
  | seq first second =>
    obtain ⟨t, h₁, h₂⟩ := h
    exact Fragment.Typed.wp first h₁ hΓ hst fun out st' hst' =>
      Fragment.Typed.wp second h₂ hΓ hst' hQ
  | truth cond =>
    obtain ⟨hcond, rfl⟩ := h
    exact Condition.Typed.wp cond hcond hΓ hst fun b out st' hst' =>
      hQ out (_ :: st') (.cons rfl hst')

/-- **A typed condition** has its precondition, whatever its outcome. -/
theorem Condition.Typed.wp (cond : Condition) {s : List Kind} {Q : Bool → Post} {out : String}
    {st rest : List Value} (h : cond.Typed (kindTyping hW slots) Γ s) (hΓ : Γ.Holds L)
    (hst : HaveKinds s st) (hQ : ∀ b out st', HaveKinds s st' → Q b out (st' ++ rest)) :
    cond.wp c W L Q out (st ++ rest) := by
  cases cond with
  | test operands t =>
    obtain ⟨taken, hoperands, hfits⟩ := h
    obtain rfl : taken = t.takes := List.forall₂_eq_eq_eq ▸ hfits
    refine Fragment.Typed.wp operands hoperands hΓ hst fun out st' hst' => ?_
    obtain ⟨ws, under, rfl, hws, hunder⟩ := hst'.split
    rw [List.append_assoc]
    exact Test.wp_of_kinds hws fun b => hQ b out under hunder
  | logic op left right =>
    refine Condition.Typed.wp left h.1 hΓ hst fun b out st' hst' => ?_
    split
    · exact hQ b out st' hst'
    · exact Condition.Typed.wp right h.2 hΓ hst' hQ
  | not cond => exact Condition.Typed.wp cond h hΓ hst fun b => hQ (!b)

end

/-- A typed fragment on the empty stack. -/
theorem Fragment.Typed.wp_nil {code : Fragment} {Q : Post}
    (h : code.Typed (kindTyping hW slots) Γ [] s) (hΓ : Γ.Holds L)
    (hQ : ∀ out st, HaveKinds s st → Q out st) : code.wp c W L Q out [] :=
  Fragment.Typed.wp code h hΓ .nil fun out st hst => (List.append_nil st).symm ▸ hQ out st hst

/-- A typed condition on the empty stack. -/
theorem Condition.Typed.wp_nil {cond : Condition} {Q : Bool → Post}
    (h : cond.Typed (kindTyping hW slots) Γ []) (hΓ : Γ.Holds L) (hQ : ∀ b out, Q b out []) :
    cond.wp c W L Q out [] :=
  Condition.Typed.wp cond h hΓ .nil fun b out st hst => by
    rw [hst.none]
    exact hQ b out

end Code

/-! ## Locals -/

/-- The locals when a value has been stored; the upper half of a long is overwritten too. -/
def storedLocals (L : Array Value) (kind : Kind) (slot : Nat) (v : Value) : Array Value :=
  if kind = .long then (L.setIfInBounds slot v).setIfInBounds (slot + 1) .top
  else L.setIfInBounds slot v

theorem Frame.store_eq {f : Frame} {v : Value} {rest : List Value} {kind : Kind} {slot : Nat}
    (hstack : f.stack = v :: rest) (hkind : v.hasKind kind = true) :
    f.store kind slot = if slot + kind.words ≤ f.locals.size then
      .ok { f with stack := rest, locals := storedLocals f.locals kind slot v }
      else .error (.badLocal f.method f.pc slot) := by
  have hpop : f.popKind kind = .ok (v, { f with stack := rest }) := by
    simp [popKind, hstack, hkind]
  unfold store storedLocals
  rw [hpop]
  rfl

@[simp] theorem size_storedLocals (L : Array Value) (kind : Kind) (slot : Nat) (v : Value) :
    (storedLocals L kind slot v).size = L.size := by
  unfold storedLocals
  split <;> simp

/-- Other locals keep their values. -/
theorem storedLocals_of_apart {L : Array Value} {kind : Kind} {slot n : Nat} {v : Value}
    (h : n < slot ∨ slot + kind.words ≤ n) : (storedLocals L kind slot v)[n]? = L[n]? := by
  unfold storedLocals
  split <;> rename_i hkind
  · subst hkind
    have h : n < slot ∨ slot + 2 ≤ n := h
    rw [Array.getElem?_setIfInBounds_ne (by omega), Array.getElem?_setIfInBounds_ne (by omega)]
  · have : 0 < kind.words := by cases kind <;> decide
    rw [Array.getElem?_setIfInBounds_ne (by omega)]

theorem storedLocals_self {L : Array Value} {kind : Kind} {slot : Nat} (v : Value)
    (h : slot + kind.words ≤ L.size) : (storedLocals L kind slot v)[slot]? = some v := by
  have : 0 < kind.words := by cases kind <;> decide
  unfold storedLocals
  split
  · rw [Array.getElem?_setIfInBounds_ne (by omega), Array.getElem?_setIfInBounds_self_of_lt (by omega)]
  · rw [Array.getElem?_setIfInBounds_self_of_lt (by omega)]

/-- Slots of variables do not overlap. -/
def SlotsApart (slots : Nat → Kind → Prop) : Prop :=
  ∀ n k n' k', slots n k → slots n' k' →
    (n = n' ∧ k = k') ∨ n + k.words ≤ n' ∨ n' + k'.words ≤ n

/-- Locals in which every variable that had a value of its kind still has one. -/
structure Extends (slots : Nat → Kind → Prop) (L L' : Array Value) : Prop where
  size : L'.size = L.size
  kinds : ∀ n k, slots n k → (∃ v, L[n]? = some v ∧ Value.hasKind k v = true) →
    ∃ v, L'[n]? = some v ∧ v.hasKind k = true

section Extends

variable {slots : Nat → Kind → Prop} {L L' L'' : Array Value} {Γ : Env}

theorem Extends.refl (slots : Nat → Kind → Prop) (L : Array Value) : Extends slots L L :=
  ⟨rfl, fun _ _ _ h => h⟩

theorem Extends.trans (h : Extends slots L L') (h' : Extends slots L' L'') : Extends slots L L'' :=
  ⟨h'.size.trans h.size, fun n k hn hv => h'.kinds n k hn (h.kinds n k hn hv)⟩

theorem Env.Holds.extends (hΓ : Γ.Holds L) (hsub : ∀ n k, Γ n k → slots n k)
    (h : Extends slots L L') : Γ.Holds L' :=
  fun n k hn => h.kinds n k (hsub n k hn) (hΓ n k hn)

/-- A value of its kind is stored in a variable. -/
theorem extends_storedLocals (hapart : SlotsApart slots) {kind : Kind} {slot : Nat} {v : Value}
    (hslot : slots slot kind) (hfits : slot + kind.words ≤ L.size) (hv : v.hasKind kind = true) :
    Extends slots L (storedLocals L kind slot v) := by
  refine ⟨size_storedLocals _ _ _ _, fun n k hn hold => ?_⟩
  rcases hapart n k slot kind hn hslot with ⟨rfl, rfl⟩ | h
  · exact ⟨v, storedLocals_self v hfits, hv⟩
  · have : 0 < k.words := by cases k <;> decide
    rw [storedLocals_of_apart (by omega)]
    exact hold

end Extends

/-! ## Flows -/

section Flows

variable {c : ClassFile} {W : Rules} {hW : W.Lawful c} {slots : Nat → Kind → Prop}
  {result : Option Kind}

/-- Every variable that a flow gives a value is a variable. -/
theorem Flow.Typed.subset {flow : Flow} {Γ Γ' : Env}
    (h : flow.Typed (kindTyping hW slots) result Γ Γ') (hsub : ∀ n k, Γ n k → slots n k) :
    ∀ n k, Γ' n k → slots n k := by
  induction flow generalizing Γ Γ' with
  | nil => exact fun n k hn => hsub n k (h n k hn)
  | seq first second ih₁ ih₂ =>
    obtain ⟨-, Δ, h₁, h₂⟩ := h
    exact ih₂ h₂ (ih₁ h₁ hsub)
  | run code => exact fun n k hn => hsub n k (h.2 n k hn)
  | store value kind slot =>
    intro n k hn
    rcases h.2.2 n k hn with hn | ⟨rfl, rfl⟩
    · exact hsub n k hn
    · exact h.2.1
  | ret value kind => exact fun n k hn => hsub n k (h.2.2 n k hn)
  | ifThen cond body => exact fun n k hn => hsub n k (h.2.2 n k hn)
  | ifElse cond body orElse => exact fun n k hn => hsub n k (h.2.2.2 n k hn)
  | loop cond body => exact fun n k hn => hsub n k (h.2.2 n k hn)
  | «break» => exact fun n k hn => hsub n k (h n k hn)
  | «continue» => exact fun n k hn => hsub n k (h n k hn)

/-- **A typed flow** has its precondition: variables that have values keep values of their kinds,
wherever control goes. -/
theorem Flow.Typed.wp {flow : Flow} {Γ Γ' : Env} {E : Exits} {L : Array Value} {bound : Nat}
    {out : String} (h : flow.Typed (kindTyping hW slots) result Γ Γ') (hapart : SlotsApart slots)
    (htimeout : W.timeout) (hlocals : ∀ L, W.locals L) (hstores : ∀ L L', W.stores L L')
    (hresult : ∀ out r, HaveKinds result.toList (Option.toList r) → W.result out r)
    (hsub : ∀ n k, Γ n k → slots n k) (hΓ : Γ.Holds L)
    (hfits : ∀ n k, slots n k → n + k.words ≤ L.size)
    (hnext : ∀ out L', Extends slots L L' → Γ'.Holds L' → E.next out L')
    (hexit : ∀ out L', Extends slots L L' → E.exit out L')
    (htest : ∀ out L', Extends slots L L' → E.test out L') : flow.wp c W bound E out L := by
  have hself := Extends.refl slots L
  induction flow generalizing Γ Γ' E L out with
  | nil => exact hnext out L hself fun n k hn => hΓ n k (h n k hn)
  | seq first second ih₁ ih₂ =>
    obtain ⟨-, Δ, h₁, h₂⟩ := h
    refine ih₁ h₁ hsub hΓ hfits (fun out L' hL' hΔ => ?_) hexit htest hself
    refine ih₂ h₂ (h₁.subset hsub) hΔ (fun n k hn => hL'.size ▸ hfits n k hn) ?_ ?_ ?_ (.refl _ _)
    · exact fun out L'' hL'' => hnext out L'' (hL'.trans hL'')
    · exact fun out L'' hL'' => hexit out L'' (hL'.trans hL'')
    · exact fun out L'' hL'' => htest out L'' (hL'.trans hL'')
  | run code =>
    refine Fragment.Typed.wp_nil h.1 hΓ fun out st hst => ?_
    obtain rfl := hst.none
    exact ⟨rfl, hnext out L hself fun n k hn => hΓ n k (h.2 n k hn)⟩
  | store value kind slot =>
    obtain ⟨⟨taken, hvalue, hkinds⟩, hslot, hadd⟩ := h
    obtain rfl : taken = [kind] := List.forall₂_eq_eq_eq ▸ hkinds
    refine Fragment.Typed.wp_nil hvalue hΓ fun out st hst => ?_
    obtain ⟨v, rfl, hv⟩ := hst.one
    rintro f rfl hstack
    have hroom := hfits slot kind hslot
    have hext := extends_storedLocals hapart hslot hroom hv
    rw [Frame.store_eq hstack hv, if_pos hroom]
    refine ⟨rfl, hstores _ _, hlocals _, hnext out _ hext fun n k hn => ?_⟩
    rcases hadd n k hn with hn | ⟨rfl, rfl⟩
    · exact hext.kinds n k (hsub n k hn) (hΓ n k hn)
    · exact ⟨v, storedLocals_self v hroom, hv⟩
  | ret value kind =>
    obtain ⟨rfl, ⟨taken, hvalue, hkinds⟩, -⟩ := h
    obtain rfl : taken = kind.toList := List.forall₂_eq_eq_eq ▸ hkinds
    cases kind with
    | none => exact Fragment.Typed.wp_nil hvalue hΓ fun out st _ => hresult out none .nil
    | some kind =>
      refine Fragment.Typed.wp_nil hvalue hΓ fun out st hst => ?_
      obtain ⟨v, rfl, hv⟩ := hst.one
      intro f hstack
      have hpop : f.popKind kind = .ok (v, { f with stack := [] }) := by
        simp [Frame.popKind, hstack, hv]
      rw [hpop]
      exact hresult out (some v) (.cons hv .nil)
  | ifThen cond body ih =>
    obtain ⟨hcond, ⟨Δ, hbody⟩, hsame⟩ := h
    have hskip (out : String) (L' : Array Value) (hL' : Extends slots L L') : E.next out L' :=
      hnext out L' hL' fun n k hn => (hΓ.extends hsub hL') n k (hsame n k hn)
    refine Condition.Typed.wp_nil hcond hΓ fun b out => ⟨rfl, ?_⟩
    cases b with
    | true => exact ih hbody hsub hΓ hfits (fun out L' hL' _ => hskip out L' hL') hexit htest hself
    | false => exact hskip out L hself
  | ifElse cond body orElse ih₁ ih₂ =>
    obtain ⟨hcond, ⟨Δ, hbody⟩, ⟨Δ', helse⟩, hsame⟩ := h
    have hskip (out : String) (L' : Array Value) (hL' : Extends slots L L') : E.next out L' :=
      hnext out L' hL' fun n k hn => (hΓ.extends hsub hL') n k (hsame n k hn)
    refine Condition.Typed.wp_nil hcond hΓ fun b out => ⟨rfl, ?_⟩
    cases b with
    | true =>
      exact ih₁ hbody hsub hΓ hfits (fun out L' hL' _ => hskip out L' hL') hexit htest hself
    | false =>
      exact ih₂ helse hsub hΓ hfits (fun out L' hL' _ => hskip out L' hL') hexit htest hself
  | loop cond body ih =>
    obtain ⟨hcond, ⟨Δ, hbody⟩, hsame⟩ := h
    have hskip (out : String) (L' : Array Value) (hL' : Extends slots L L') : E.next out L' :=
      hnext out L' hL' fun n k hn => (hΓ.extends hsub hL') n k (hsame n k hn)
    -- the variables that have values before the loop have some whenever the test is reached
    refine Rules.rounds_of_invariant (I := fun _ => Extends slots L) htimeout
      (fun again hagain out L' hL' _ => ?_) bound out L hself
    have hΓ' := hΓ.extends hsub hL'
    refine Condition.Typed.wp_nil hcond hΓ' fun b out => ⟨rfl, ?_⟩
    cases b with
    | true =>
      exact ih hbody hsub hΓ' (fun n k hn => hL'.size ▸ hfits n k hn)
        (fun out L'' hL'' _ => hagain out L'' (hL'.trans hL''))
        (fun out L'' hL'' => hskip out L'' (hL'.trans hL''))
        (fun out L'' hL'' => hagain out L'' (hL'.trans hL'')) (.refl _ _)
    | false => exact hskip out L' hL'
  | «break» => exact hexit out L hself
  | «continue» => exact htest out L hself

end Flows

end ClassFoundry
