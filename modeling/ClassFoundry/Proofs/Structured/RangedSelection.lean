import ClassFoundry.Proofs.Structured.Ranges

/-!
# Statements keep variables in range

A statement assigns to a variable only values of its type, and a function returns only values of its
result type. All that is asked of the variables, of calls and of results is put into rules, so that
nothing is said here about where variables lie or what the methods of a class do.

## Main definitions

* `Names.Keeps`: rules under which statements keep variables in range
* `Stmt.liveNodes`, `Stmt.liveNodesOf`: the expressions that are lowered

## Main results

* `selectStmt_keeps`, `selectBlock_keeps`: statements keep variables in range
* `selectBody_keeps`: so do function bodies
-/

namespace ClassFoundry

section Leaves

variable (c : ClassFile) (W : Rules) (L : Array Value)

/-- A fragment leaves a value with a property. -/
def Fragment.Leaves (code : Fragment) (P : Value → Prop) : Prop :=
  ∀ (Q : Post) (out : String), (∀ out v, P v → Q out [v]) → code.wp c W L Q out []

variable {c W L}

theorem Fragment.Computes.leaves {code : Fragment} {m : Spec Value} {P : Value → Prop}
    (h : code.Computes c W L [] m single) (hm : m.Gives P) : code.Leaves c W L P :=
  fun Q out hQ => h (fun _ v => P v) Q out [] (hm _ out fun _ _ hv => hv) hQ

end Leaves

/-- **Rules under which statements keep variables in range**: methods return values of their types,
variables are in range and stay so with values that fit, and results that fit may be returned. -/
structure Names.Keeps (c : ClassFile) (W : Rules) (σ : Names) : Prop where
  keep : W.Keep c σ
  timeout : W.timeout
  ranged : ∀ L, W.locals L → σ.Ranged L
  stores : ∀ {L name s kind v}, W.locals L → σ.look name = some s → s.ty.kind? = some kind →
    v.Fits s.ty → s.slot + kind.words ≤ L.size →
    W.stores L (storedLocals L kind s.slot v) ∧ W.locals (storedLocals L kind s.slot v)
  creates : ∀ name ref, (W.sends c ⟨name, "<init>", "()V"⟩ (.object ref name) []).Gives (· = none)
  result : ∀ out r, σ.scope.function.returnType.Returns r → W.result out r

/-- Where control goes from a statement, nothing more is asked than that variables are in range. -/
structure Exits.Free (W : Rules) (E : Exits) : Prop where
  next : ∀ out L, W.locals L → E.next out L
  exit : ∀ out L, W.locals L → E.exit out L
  test : ∀ out L, W.locals L → E.test out L

mutual

/-- **The expressions of a statement that are lowered**. -/
def Stmt.liveNodes : Stmt → List Expr
  | .ifThen cond body => cond.nodes ++ Stmt.liveNodesOf body
  | .ifElse cond body orElse => cond.nodes ++ (Stmt.liveNodesOf body ++ Stmt.liveNodesOf orElse)
  | .loop cond body => cond.nodes ++ Stmt.liveNodesOf body
  | s => s.nodes

/-- The expressions of a block, up to the first statement that control cannot leave. -/
def Stmt.liveNodesOf : List Stmt → List Expr
  | [] => []
  | s :: rest => s.liveNodes ++ if s.terminates then [] else Stmt.liveNodesOf rest

end

section Statements

variable {c : ClassFile} {W : Rules} {σ : Names} {L : Array Value} {E : Exits} {out : String} {n : Nat}

/-- An expression as a value of a type. -/
theorem selectAs_leaves (h : σ.Keeps c W) (hL : W.locals L) {e : Expr} (hchecked : e.Checked σ)
    (hnodes : ∀ n ∈ e.nodes, n.Annotated σ) {ty : DataType} (hpasses : e.ty.Passes ty) :
    (selectAs σ e ty).Leaves c W L (Value.Fits ty) :=
  (selectAs_computes e ty).leaves
    ((meaning_gives h.keep (h.ranged L hL) e hchecked hnodes).value.bind fun _ hv =>
      Rules.converted_gives h.keep.fault hpasses hv)

/-- A new object. -/
theorem create_leaves (h : σ.Keeps c W) (name : String) :
    (Fragment.seq (.op (.create name)) (.seq (.ofOp .dup)
      (.op (.invoke .special ⟨name, "<init>", "()V"⟩ [] none)))).Leaves c W L
      fun v => v.isReference = true := by
  intro Q out hQ ref
  rintro - pool next ⟨⟩ rfl rfl
  -- the constructor takes one of the two references and leaves nothing
  refine invokeReceiver_computes (by decide) _ [] none (.object ref name) []
    (fun _ r => r = none) Q out [.object ref name] (h.creates name ref _ out fun _ _ hr => hr) ?_
  rintro out _ rfl
  exact hQ out _ rfl

/-- The value that a variable without initial value starts with. -/
theorem defaultValue_leaves (h : σ.Keeps c W) {ty : DataType} {kind : Kind}
    (hkind : ty.kind? = some kind) : (defaultValue ty).Leaves c W L (Value.Fits ty) := by
  unfold defaultValue
  rw [hkind]
  cases kind with
  | int =>
    refine (pushInt_computes 0 []).leaves (.pure ⟨fun k hk => ?_, ?_⟩)
    · cases hkind.symm.trans hk
      rfl
    · rintro _ ⟨⟩ b hb
      cases ty with
      | int width unsigned => cases width <;> cases unsigned <;> cases hb <;> decide
      | char =>
        cases hb
        decide
      | _ => cases hb
  | long =>
    refine (pushLong_computes 0 []).leaves (.pure ⟨fun k hk => ?_, nofun⟩)
    cases hkind.symm.trans hk
    rfl
  | reference =>
    have hfits {v : Value} (hv : v.isReference = true) : v.Fits ty := by
      refine .of_bounds? (DataType.bounds?_of_reference hkind) fun k hk => ?_
      cases hkind.symm.trans hk
      exact hv
    dsimp only
    split
    · exact fun Q out hQ => create_leaves h _ Q out fun out v hv => hQ out v (hfits hv)
    · intro Q out hQ
      rintro - pool next ⟨⟩ rfl rfl
      exact hQ out .null (hfits rfl)

/-- The first value of a variable. -/
theorem initialValue_leaves (h : σ.Keeps c W) (hL : W.locals L) {ty : DataType} {kind : Kind}
    (hkind : ty.kind? = some kind) {init : Option Expr}
    (hinit : ∀ e ∈ init, e.Checked σ ∧ e.ty.Passes ty)
    (hnodes : ∀ n ∈ Expr.nodesOf? init, n.Annotated σ) :
    (initialValue σ ty init).Leaves c W L (Value.Fits ty) := by
  cases init with
  | some e =>
    obtain ⟨hchecked, hpasses⟩ := hinit e rfl
    exact selectAs_leaves h hL hchecked hnodes hpasses
  | none => exact defaultValue_leaves h hkind

/-- **A store keeps variables in range** if the value fits. -/
theorem store_keeps (h : σ.Keeps c W) (hL : W.locals L) (hE : E.Free W) {name : String} {s : Slot}
    (hs : σ.look name = some s) {kind : Kind} (hkind : s.ty.kind? = some kind) {code : Fragment}
    (hcode : code.Leaves c W L (Value.Fits s.ty)) :
    (Flow.store code kind s.slot).wp c W n E out L := by
  refine hcode _ out fun out v hv f hlocals hstack => ?_
  subst hlocals
  rw [Frame.store_eq hstack (hv.kind kind hkind)]
  split <;> rename_i hroom
  · obtain ⟨hstores, hstored⟩ := h.stores hL hs hkind hv hroom
    exact ⟨rfl, hstores, hstored, hE.next out _ hstored⟩
  · exact h.keep.fault out _

/-- A condition can be tested. -/
theorem cond_keeps (h : σ.Keeps c W) (hL : W.locals L) {e : Expr} (hchecked : e.Checked σ)
    (hnodes : ∀ n ∈ e.nodes, n.Annotated σ) {Q : Bool → Post} (hQ : ∀ out b, Q b out []) :
    (select σ e).cond.wp c W L Q out [] :=
  (select_computes σ e).2 (fun _ _ => True) Q out []
    ((meaning_gives h.keep (h.ranged L hL) e hchecked hnodes).test _ out fun _ _ _ => trivial)
    fun out b _ => hQ out b

/-- A call that stands as a statement changes no variables. -/
theorem call_keeps (h : σ.Keeps c W) (hL : W.locals L) (hE : E.Free W) {object : Option String}
    {name : String} {args : List Expr} {ty : DataType}
    (hchecked : Stmt.Checked σ (.call object name args ty))
    (hnodes : ∀ n ∈ (Expr.call object name args ty).nodes, n.Annotated σ) :
    (selectStmt σ (.call object name args ty)).wp c W n E out L := by
  obtain ⟨hcalls, hall⟩ := hchecked
  obtain ⟨⟨rfl, -⟩, hargs⟩ := List.forall_mem_cons.1 hnodes
  obtain ⟨callee, hcall⟩ := hcalls
  have hgiven := givens_give h.keep (h.ranged L hL) args hall hargs
  have hcalled := h.keep.calls hcall L (givens c W L σ args) (map_ty_givens ..) hgiven
  rw [selectStmt, hcall.returned]
  refine call_computes σ (selectArgs_computes σ args) none name ty
    (fun _ r => callee.returnType.Returns r) _ out [] ?_ ?_
  · simp only [callMeaning, map_ty_givens, hcall.callee?]
    exact hcalled _ out fun _ _ hr => hr
  · intro out r hr
    cases hk : callee.returnType.kind? with
    | none =>
      rw [hr.none hk]
      exact ⟨rfl, hE.next out L hL⟩
    | some k =>
      obtain ⟨v, rfl, hv⟩ := hr.value k hk
      show (Kind.dropOp k).wp _ _ (fun out st => st = [] ∧ E.next out L) out [v]
      exact Kind.wp_dropOp (hv.kind k hk) ⟨rfl, hE.next out L hL⟩

/-- A result fits the type of the function. -/
theorem return_keeps (h : σ.Keeps c W) (hL : W.locals L) {value : Option Expr}
    (hchecked : Stmt.Checked σ (.ret value))
    (hnodes : ∀ n ∈ Expr.nodesOf? value, n.Annotated σ) :
    (selectStmt σ (.ret value)).wp c W n E out L := by
  cases value with
  | none =>
    refine h.result out none ⟨fun k hk => ?_, fun _ => rfl⟩
    cases (show σ.scope.function.returnType.kind? = none from hchecked).symm.trans hk
  | some e =>
    obtain ⟨hexpr, hpasses⟩ := hchecked
    have ⟨_, kind, _, hkind, _⟩ := hpasses
    rw [selectStmt, hkind]
    refine selectAs_leaves h hL hexpr hnodes hpasses _ out fun out v hv f hstack => ?_
    have hpop : f.popKind kind = .ok (v, { f with stack := [] }) := by
      simp [Frame.popKind, hstack, hv.kind kind hkind]
    rw [hpop]
    refine h.result out (some v) ⟨fun _ _ => ⟨v, rfl, hv⟩, fun hnone => ?_⟩
    cases hnone.symm.trans hkind

mutual

/-- **Statements keep variables in range**. -/
theorem selectStmt_keeps (h : σ.Keeps c W) (s : Stmt) (hchecked : s.Checked σ)
    (hnodes : ∀ n ∈ s.liveNodes, n.Annotated σ) {E : Exits} (hE : E.Free W) {L : Array Value}
    (hL : W.locals L) {out : String} : (selectStmt σ s).wp c W n E out L := by
  cases s with
  | declare name ty init =>
    obtain ⟨⟨slot, kind, hs, rfl, hkind⟩, hinit⟩ := hchecked
    simp only [selectStmt, hs, hkind]
    exact store_keeps h hL hE hs hkind (initialValue_leaves h hL hkind hinit hnodes)
  | assign name value =>
    obtain ⟨slot, hs, hexpr, hpasses⟩ := hchecked
    have ⟨_, kind, _, hkind, _⟩ := hpasses
    simp only [selectStmt, hs, hkind]
    exact store_keeps h hL hE hs hkind (selectAs_leaves h hL hexpr hnodes hpasses)
  | ret value => exact return_keeps h hL hchecked hnodes
  | ifThen cond body =>
    obtain ⟨hcond, -, hbody⟩ := hchecked
    obtain ⟨hc, hb⟩ := List.forall_mem_append.1 hnodes
    refine cond_keeps h hL hcond hc fun out b => ⟨rfl, ?_⟩
    cases b with
    | true => exact selectBlock_keeps h body hbody hb hE hL
    | false => exact hE.next out L hL
  | ifElse cond body orElse =>
    obtain ⟨hcond, -, hbody, helse⟩ := hchecked
    obtain ⟨hc, hrest⟩ := List.forall_mem_append.1 hnodes
    obtain ⟨hb, he⟩ := List.forall_mem_append.1 hrest
    refine cond_keeps h hL hcond hc fun out b => ⟨rfl, ?_⟩
    cases b with
    | true => exact selectBlock_keeps h body hbody hb hE hL
    | false => exact selectBlock_keeps h orElse helse he hE hL
  | loop cond body =>
    obtain ⟨hcond, -, hbody⟩ := hchecked
    obtain ⟨hc, hb⟩ := List.forall_mem_append.1 hnodes
    -- every round starts with variables in range, and so does what follows the last one
    refine Rules.rounds_of_invariant (I := fun _ L => W.locals L) h.timeout ?_ n out L hL
    intro again hagain out L hL _
    refine cond_keeps h hL hcond hc fun out b => ⟨rfl, ?_⟩
    cases b with
    | true => exact selectBlock_keeps h body hbody hb ⟨hagain, hE.next, hagain⟩ hL
    | false => exact hE.next out L hL
  | «break» => exact hE.exit out L hL
  | «continue» => exact hE.test out L hL
  | call object name args ty => exact call_keeps h hL hE hchecked hnodes

/-- **Blocks keep variables in range**. -/
theorem selectBlock_keeps (h : σ.Keeps c W) (block : List Stmt)
    (hchecked : Stmt.AllChecked σ block) (hnodes : ∀ n ∈ Stmt.liveNodesOf block, n.Annotated σ)
    {E : Exits} (hE : E.Free W) {L : Array Value} (hL : W.locals L) {out : String} :
    (selectBlock σ block).wp c W n E out L := by
  cases block with
  | nil => exact hE.next out L hL
  | cons s rest =>
    obtain ⟨hs, hr⟩ := List.forall_mem_append.1 hnodes
    unfold selectBlock
    split <;> rename_i hends
    · exact selectStmt_keeps h s hchecked.1 hs hE hL
    · have hrest := hchecked.2 (eq_false_of_ne_true hends)
      rw [if_neg hends] at hr
      have hbetween : Exits.Free W { E with next := (selectBlock σ rest).wp c W n E } :=
        ⟨fun _ _ hL => selectBlock_keeps h rest hrest hr hE hL, hE.exit, hE.test⟩
      exact selectStmt_keeps h s hchecked.1 hs hbetween hL

end

/-- **Function bodies keep variables in range**. -/
theorem selectBody_keeps (h : σ.Keeps c W) (hchecked : σ.BodyChecked)
    (hnodes : ∀ n ∈ Stmt.liveNodesOf σ.scope.function.body, n.Annotated σ) (hL : W.locals L) :
    (selectBody σ).wp c W n .free out L := by
  obtain ⟨hbody, hvoid⟩ := hchecked
  unfold selectBody
  split <;> rename_i hends
  · exact selectBlock_keeps h _ hbody hnodes ⟨fun _ _ _ => trivial, fun _ _ _ => trivial,
      fun _ _ _ => trivial⟩ hL
  · have hnone : σ.scope.function.returnType = .void := hvoid (eq_false_of_ne_true hends)
    refine selectBlock_keeps h _ hbody hnodes ⟨fun out _ _ => ?_, fun _ _ _ => trivial,
      fun _ _ _ => trivial⟩ hL
    refine h.result out none ⟨fun k hk => ?_, fun _ => rfl⟩
    rw [hnone] at hk
    cases hk

end Statements

end ClassFoundry
