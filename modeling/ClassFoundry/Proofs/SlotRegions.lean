import ClassFoundry.Proofs.Locals
import Mathlib

/-!
# Regions of slots

Numbers and references count up from two places, and the place of the first reference is fixed
before anything is declared. Nothing stops the numbers there: they stay below because the scan of the
body has counted them all. So the regions are kept by every sequence of declarations that takes no
more from the body than the scan has seen, in whatever order they are made and however many others
fail in between.

## Main definitions

* `widthOf`: the slots that declarations of a storage take
* `attemptAll`, `accepted`: declarations one after the other, and those of them that succeed
* `Locals.Tally`: the invariant that ties the counters to the declarations
* `Locals.Arranged`: where the variables of a function are

## Main results

* `Layout.width_scan`: what the scan of a body finds
* `Locals.Tally.declare`, `Locals.Tally.attemptAll`: the counters after one declaration and after all
* `attemptAll_keeps`: what one declaration keeps, all attempts keep
* `attemptAll_grows`: declarations keep the variables that are there
* `arranged_of_attemptAll`: **the slots of local variables never overlap**
-/

namespace ClassFoundry

/-! ## Widths -/

/-- The slots that the declarations of a storage take. -/
def widthOf (storage : Storage) (decls : List (String × DataType)) : Nat :=
  ((decls.filter (·.2.storage? = some storage)).map (·.2.width)).sum

theorem widthOf_append (storage : Storage) (decls decls' : List (String × DataType)) :
    widthOf storage (decls ++ decls') = widthOf storage decls + widthOf storage decls' := by
  simp [widthOf]

theorem widthOf_singleton (storage : Storage) (name : String) (ty : DataType) :
    widthOf storage [(name, ty)] = if ty.storage? = some storage then ty.width else 0 := by
  by_cases h : ty.storage? = some storage <;> simp [widthOf, h]

theorem integerWidthOf_eq_widthOf (decls : List (String × DataType)) :
    integerWidthOf decls = widthOf .integer decls := by
  induction decls with
  | nil => rfl
  | cons d decls ih =>
    rw [integerWidthOf, ih, ← List.singleton_append, widthOf_append, widthOf_singleton,
      DataType.integerWidth]

/-- Fewer declarations take fewer slots, in whatever order they are made. -/
theorem widthOf_le_of_subperm (storage : Storage) {decls decls' : List (String × DataType)}
    (h : decls.Subperm decls') : widthOf storage decls ≤ widthOf storage decls' := by
  obtain ⟨l, hperm, hsub⟩ := h
  have hsame : widthOf storage l = widthOf storage decls :=
    ((hperm.filter _).map _).sum_eq
  rw [← hsame]
  exact ((hsub.filter _).map _).sum_le_sum fun _ _ => Nat.zero_le _

theorem DataType.width_of_reference {ty : DataType} (h : ty.storage? = some .reference) :
    ty.width = 1 := by
  obtain ⟨kind, hkind, hstorage⟩ := Option.map_eq_some_iff.1 h
  cases kind <;> cases hstorage
  simp [width, hkind, Kind.words]

namespace Layout

/-- The slots for the variables of a storage. -/
def width (l : Layout) : Storage → Nat
  | .integer => l.integerWidth
  | .reference => l.referenceWidth

/-- The first slot for the variables of a storage. -/
def first (l : Layout) : Storage → Nat
  | .integer => l.paramsEnd
  | .reference => l.firstReference

theorem width_add (l : Layout) (storage : Storage) (name : String) (ty : DataType) :
    (l.add ty).width storage = l.width storage + widthOf storage [(name, ty)] := by
  rw [widthOf_singleton]
  unfold add
  split
  · rename_i h
    cases storage <;> simp [width, h]
  · rename_i h
    cases storage <;> simp [width, h, DataType.width_of_reference h]
  · rename_i h
    simp [h]

mutual

theorem width_addStmt (l : Layout) (storage : Storage) (s : Stmt) :
    (l.addStmt s).width storage = l.width storage + widthOf storage s.declarations := by
  cases s with
  | declare name ty init => exact width_add l storage name ty
  | ifThen cond body => exact width_addBlock l storage body
  | ifElse cond body orElse =>
    rw [addStmt, width_addBlock, width_addBlock, Stmt.declarations, widthOf_append, Nat.add_assoc]
  | loop cond body => exact width_addBlock l storage body
  | _ => rfl

theorem width_addBlock (l : Layout) (storage : Storage) (block : List Stmt) :
    (l.addBlock block).width storage =
      l.width storage + widthOf storage (Stmt.declarationsOf block) := by
  cases block with
  | nil => rfl
  | cons s rest =>
    rw [addBlock, width_addBlock, width_addStmt, Stmt.declarationsOf, widthOf_append,
      Nat.add_assoc]

end

/-- **What the scan of a body finds**: the widths of all declarations at any depth. -/
theorem width_scan (body : List Stmt) (paramsEnd : Nat) (storage : Storage) :
    (scan body paramsEnd).width storage = widthOf storage (Stmt.declarationsOf body) := by
  rw [scan, width_addBlock]
  cases storage <;> exact Nat.zero_add _

theorem firstReference_eq (l : Layout) :
    l.firstReference = l.first .integer + l.width .integer :=
  rfl

theorem maxLocals_eq (l : Layout) : l.maxLocals = l.first .reference + l.width .reference :=
  rfl

end Layout

/-! ## Sequences of declarations -/

/-- The state after an attempt to declare a variable, as it is then, whether or not it succeeds. -/
def attempt (s : LowerState) (d : String × DataType) : LowerState :=
  match Lower.declare d.1 d.2 s with
  | .ok _ s' => s'
  | .error _ s' => s'

/-- The state after attempts to declare variables one after the other. -/
def attemptAll (s : LowerState) (calls : List (String × DataType)) : LowerState :=
  calls.foldl attempt s

/-- The attempts that succeed. -/
def accepted : LowerState → List (String × DataType) → List (String × DataType)
  | _, [] => []
  | s, d :: calls =>
    match Lower.declare d.1 d.2 s with
    | .ok _ s' => d :: accepted s' calls
    | .error _ s' => accepted s' calls

/-- A declaration that fails changes nothing. -/
theorem Lower.declare_error {name : String} {ty : DataType} {e : CompileError} {s s' : LowerState}
    (h : Lower.declare name ty s = .error e s') : s' = s := by
  unfold Lower.declare at h
  dsimp only at h
  split at h <;> cases h
  rfl

theorem attemptAll_append (s : LowerState) (calls calls' : List (String × DataType)) :
    attemptAll s (calls ++ calls') = attemptAll (attemptAll s calls) calls' :=
  List.foldl_append

/-- **What every declaration keeps is kept by all attempts**: only those that are accepted count. -/
theorem attemptAll_keeps {P : List (String × DataType) → Locals → Prop}
    (hstep : ∀ {decls l name ty slot l'}, P decls l → l.declare name ty = .ok (slot, l') →
      P (decls ++ [(name, ty)]) l')
    {s : LowerState} {decls : List (String × DataType)} (hs : P decls s.locals)
    (calls : List (String × DataType)) :
    P (decls ++ accepted s calls) (attemptAll s calls).locals := by
  induction calls generalizing s decls with
  | nil =>
    rw [accepted, List.append_nil]
    exact hs
  | cons d calls ih =>
    have hfirst : attemptAll s (d :: calls) = attemptAll (attempt s d) calls := rfl
    rw [hfirst, accepted, attempt]
    cases hd : Lower.declare d.1 d.2 s with
    | ok slot s' =>
      obtain ⟨l, hl, rfl⟩ := Lower.declare_ok.1 hd
      simpa using ih (hstep hs hl)
    | error e s' =>
      obtain rfl := Lower.declare_error hd
      exact ih hs

/-- Attempts keep the variables that are there, and add those that are accepted. -/
theorem attemptAll_grows (s : LowerState) (calls : List (String × DataType)) :
    s.locals.Grows (accepted s calls) (attemptAll s calls).locals := by
  refine attemptAll_keeps (P := s.locals.Grows) ?_ (.refl _) calls
  intro decls l name ty slot l' hgrows h
  exact hgrows.trans (Locals.declare_grows h)

namespace Locals

/-- The next slot for a variable of a storage. -/
def next (l : Locals) : Storage → Nat
  | .integer => l.nextInteger
  | .reference => l.nextReference

/-- **The invariant of the counters**: each is as far from its start as the declarations have moved
it, and the declared variables lie in between. -/
structure Tally (layout : Layout) (decls : List (String × DataType)) (l : Locals) : Prop where
  next : ∀ storage, l.next storage = layout.first storage + widthOf storage decls
  declared : ∀ d ∈ decls, ∃ storage slot, d.2.storage? = some storage ∧
    l.find? d.1 = some ⟨d.1, d.2, storage, slot, d.2.width⟩ ∧
    layout.first storage ≤ slot ∧ slot + d.2.width ≤ l.next storage
  largest : l.maxLocals = layout.paramsEnd ∨
    ∃ name s, l.find? name = some s ∧ s.slot + s.width = l.maxLocals

variable {l l' : Locals} {layout : Layout} {decls : List (String × DataType)}

/-- A declaration takes the next slot of its storage, and moves no other counter. -/
theorem declare_next {name : String} {ty : DataType} {slot : Nat}
    (h : l.declare name ty = .ok (slot, l')) : ∃ storage, ty.storage? = some storage ∧
      slot = l.next storage ∧
      l'.find? name = some ⟨name, ty, storage, slot, ty.width⟩ ∧
      (∀ other, l'.next other = l.next other + widthOf other [(name, ty)]) ∧
      l'.maxLocals = max l.maxLocals (slot + ty.width) := by
  obtain ⟨-, -, ⟨hs, rfl, rfl⟩ | ⟨hs, rfl, rfl⟩⟩ := declare_cases h
  · refine ⟨.integer, hs, rfl, (find?_cons l _ _).trans (if_pos rfl), ?_, rfl⟩
    intro other
    cases other <;> simp [next, widthOf_singleton, hs]
  · refine ⟨.reference, hs, rfl, (find?_cons l _ _).trans (if_pos rfl), ?_, rfl⟩
    intro other
    cases other <;> simp [next, widthOf_singleton, hs]

/-- **The counters after one declaration**. -/
theorem Tally.declare (hl : l.Tally layout decls) {name : String} {ty : DataType} {slot : Nat}
    (h : l.declare name ty = .ok (slot, l')) : l'.Tally layout (decls ++ [(name, ty)]) := by
  obtain ⟨storage, hstorage, rfl, hfind, hnext, hmax⟩ := declare_next h
  have hkeep := (declare_find? h).2
  refine ⟨?_, ?_, ?_⟩
  · intro other
    rw [hnext, hl.next, widthOf_append, Nat.add_assoc]
  · intro d hd
    rcases List.mem_append.1 hd with hd | hd
    · obtain ⟨storage', slot', hs', hf', hfirst, hend⟩ := hl.declared d hd
      refine ⟨storage', slot', hs', hkeep _ _ hf', hfirst, ?_⟩
      rw [hnext]
      exact Nat.le_trans hend (Nat.le_add_right _ _)
    · obtain rfl := List.mem_singleton.1 hd
      refine ⟨storage, _, hstorage, hfind, ?_, ?_⟩
      · rw [hl.next]
        exact Nat.le_add_right _ _
      · rw [hnext, widthOf_singleton, if_pos hstorage]
  · rw [hmax]
    -- the largest slot is an old one, or it belongs to the new variable
    rcases Nat.le_total (l.next storage + ty.width) l.maxLocals with hle | hle
    · rw [Nat.max_eq_left hle]
      exact hl.largest.imp_right fun ⟨name', s, hf, hend⟩ => ⟨name', s, hkeep _ _ hf, hend⟩
    · rw [Nat.max_eq_right hle]
      exact .inr ⟨name, _, hfind, rfl⟩

/-- **The counters after any attempts**. -/
theorem Tally.attemptAll {s : LowerState} (hs : s.locals.Tally layout decls)
    (calls : List (String × DataType)) :
    (attemptAll s calls).locals.Tally layout (decls ++ accepted s calls) :=
  attemptAll_keeps (P := Tally layout) (fun ht h => ht.declare h) hs calls

/-! ## The start -/

/-- Parameters leave the counters of the body alone, and fit the room that was made for them. -/
theorem declareParams_counters {params : List Param} (h : declareParams l params = .ok l')
    (hroom : l.nextParam + paramsWidth params ≤ l.maxLocals) :
    (∀ storage, l'.next storage = l.next storage) ∧ l'.maxLocals = l.maxLocals := by
  induction params generalizing l with
  | nil =>
    cases h
    exact ⟨fun _ => rfl, rfl⟩
  | cons p ps ih =>
    obtain ⟨⟨slot, l₁⟩, hp, h⟩ := Except.bind_eq_ok.1 h
    obtain ⟨-, rfl, -, storage, -, rfl⟩ := declareParam_cases hp
    rw [paramsWidth] at hroom
    have hmax : max l.maxLocals (l.nextParam + p.ty.width) = l.maxLocals := by omega
    obtain ⟨hnext, hsame⟩ := ih h (by dsimp only; omega)
    refine ⟨fun storage => (hnext storage).trans ?_, hsame.trans hmax⟩
    cases storage <;> rfl

/-- The counters of a function before anything of its body is declared. -/
theorem ofFunction_tally {f : FunDef} {reserved : Nat} (h : ofFunction f reserved = .ok l) :
    l.Tally (Layout.scan f.body (reserved + paramsWidth f.params)) [] := by
  unfold ofFunction at h
  simp only [foldl_width, Nat.zero_add] at h
  split at h
  · cases h
  · obtain ⟨hnext, hmax⟩ := declareParams_counters h (by simp [start])
    refine ⟨fun storage => (hnext storage).trans ?_, by simp, .inl hmax⟩
    cases storage <;> rfl

/-! ## All variables -/

/-- **Where the variables of a function are**, when some of its body have been declared. -/
structure Arranged (layout : Layout) (reserved : Nat) (ps : List Param)
    (decls : List (String × DataType)) (l : Locals) : Prop where
  /-- The parameters stand one after the other, behind what is reserved. -/
  params : l.Placed reserved ps
  /-- Declared variables are found, and lie in the region of their storage. -/
  declared : ∀ d ∈ decls, ∃ s, l.find? d.1 = some s ∧ s.ty = d.2 ∧ s.width = d.2.width ∧
    d.2.storage? = some s.storage ∧
    (s.storage = .integer →
      layout.paramsEnd ≤ s.slot ∧ s.slot + s.width ≤ layout.firstReference) ∧
    (s.storage = .reference → layout.firstReference ≤ s.slot)
  /-- There are no other variables. -/
  known : ∀ name s, l.find? name = some s →
    (name, s.ty) ∈ ps.map (fun p => (p.name, p.ty)) ∨ (name, s.ty) ∈ decls
  /-- No two variables share a slot. -/
  disjoint : ∀ name name' s s', l.find? name = some s → l.find? name' = some s' → name ≠ name' →
    Disjoint (Set.Ico s.slot (s.slot + s.width)) (Set.Ico s'.slot (s'.slot + s'.width))
  /-- The layout has room for all of them. -/
  within : ∀ name s, l.find? name = some s → s.slot + s.width ≤ layout.maxLocals
  /-- The slots in use end with the last variable, or with the parameters. -/
  greatest : IsGreatest
    ({layout.paramsEnd} ∪ {n | ∃ name s, l.find? name = some s ∧ s.slot + s.width = n}) l.maxLocals

theorem Slot.disjoint_of_apart {s s' : Slot} (h : s.Apart s') (hs : s.width = s.ty.width)
    (hs' : s'.width = s'.ty.width) :
    Disjoint (Set.Ico s.slot (s.slot + s.width)) (Set.Ico s'.slot (s'.slot + s'.width)) := by
  rw [Set.disjoint_left]
  intro n hn hn'
  rw [Set.mem_Ico] at hn hn'
  unfold Slot.Apart at h
  omega

/-- The invariants say where everything is, if the declarations have taken no more than the layout
has room for. -/
theorem Tally.arranged {reserved : Nat} {params : List Param} (ht : l.Tally layout decls)
    (hs : l.Sound reserved layout.paramsEnd layout.firstReference) (hp : l.Placed reserved params)
    (hknown : ∀ name s, l.find? name = some s →
      (name, s.ty) ∈ params.map (fun p => (p.name, p.ty)) ∨ (name, s.ty) ∈ decls)
    (hroom : ∀ storage, widthOf storage decls ≤ layout.width storage) :
    l.Arranged layout reserved params decls := by
  have hinteger : l.nextInteger ≤ layout.firstReference := by
    rw [layout.firstReference_eq]
    exact Nat.le_trans (Nat.le_of_eq (ht.next .integer)) (Nat.add_le_add_left (hroom _) _)
  have hreference : l.nextReference ≤ layout.maxLocals := by
    rw [layout.maxLocals_eq]
    exact Nat.le_trans (Nat.le_of_eq (ht.next .reference)) (Nat.add_le_add_left (hroom _) _)
  have hmax : layout.firstReference ≤ layout.maxLocals := Nat.le_add_right _ _
  have hparams : layout.paramsEnd ≤ layout.firstReference := Nat.le_add_right _ _
  -- a variable is a parameter or declared in the body, and both are known with their widths
  have hwidth : ∀ name s, l.find? name = some s → s.width = s.ty.width := by
    intro name s hf
    rcases hknown name s hf with hmem | hmem
    · obtain ⟨p, hpmem, heq⟩ := List.mem_map.1 hmem
      obtain ⟨hname, -⟩ := Prod.mk.inj heq
      obtain ⟨storage, slot, hf'⟩ := hp.find? hpmem
      rw [hname] at hf'
      obtain rfl := Option.some.inj (hf.symm.trans hf')
      rfl
    · obtain ⟨storage, slot, -, hf', -⟩ := ht.declared _ hmem
      exact congrArg Slot.width (Option.some.inj (hf.symm.trans hf'))
  have hend : ∀ name s, l.find? name = some s → s.slot + s.width ≤ l.maxLocals := by
    intro name s hf
    rw [hwidth name s hf]
    exact hs.within s (mem_of_find? hf).1
  refine
    { params := hp
      declared := ?_
      known := hknown
      disjoint := ?_
      within := ?_
      greatest := ⟨?_, ?_⟩ }
  · intro d hd
    obtain ⟨storage, slot, hstorage, hf, hfirst, hlast⟩ := ht.declared d hd
    refine ⟨_, hf, rfl, rfl, hstorage, ?_, ?_⟩
    · rintro rfl
      exact ⟨hfirst, Nat.le_trans hlast hinteger⟩
    · rintro rfl
      exact hfirst
  · intro name name' s s' hf hf' hne
    exact Slot.disjoint_of_apart (hs.apart_of_find? hf hf' hne) (hwidth _ _ hf) (hwidth _ _ hf')
  · intro name s hf
    rw [hwidth name s hf]
    have := hs.region s (mem_of_find? hf).1
    omega
  · rcases ht.largest with heq | hlast
    · exact .inl heq
    · exact .inr hlast
  · rintro n (rfl | ⟨name, s, hf, rfl⟩)
    · exact hs.params.2
    · exact hend name s hf

end Locals

/-- **The slots of local variables never overlap**. After any attempts to declare variables, where
those that succeed are declarations of the body, the parameters, the numbers and the references have
regions of their own and share no slot; no variable has moved since it was first found; and an
attempt that fails changes nothing. -/
theorem arranged_of_attemptAll {f : FunDef} {reserved : Nat} {s : LowerState}
    {calls : List (String × DataType)} (h : Locals.ofFunction f reserved = .ok s.locals)
    (hbody : (accepted s calls).Subperm (Stmt.declarationsOf f.body)) :
    (attemptAll s calls).locals.Arranged
        (Layout.scan f.body (reserved + Locals.paramsWidth f.params)) reserved f.params
        (accepted s calls) ∧
      (∀ before after, calls = before ++ after → ∀ name slot,
        (attemptAll s before).locals.resolve name = .ok slot →
          (attemptAll s calls).locals.resolve name = .ok slot) ∧
      ∀ name ty e s', Lower.declare name ty (attemptAll s calls) = .error e s' →
        s' = attemptAll s calls := by
  obtain ⟨hsound, hplaced, hnext⟩ := Locals.ofFunction_ok h
  have hgrows := attemptAll_grows s calls
  have hroom (storage : Storage) := widthOf_le_of_subperm storage hbody
  refine ⟨?_, ?_, ?_⟩
  · have htally := (Locals.ofFunction_tally h).attemptAll calls
    rw [List.nil_append] at htally
    refine htally.arranged ?_ (hplaced.mono hgrows.find) ?_ ?_
    · rw [Layout.paramsEnd_scan, Layout.firstReference_scan]
      refine hgrows.sound _ _ _ hsound ?_
      rw [hnext, integerWidthOf_eq_widthOf, integerWidthOf_eq_widthOf]
      exact Nat.add_le_add_left (hroom .integer) _
    · intro name slot hf
      exact (hgrows.declared name slot hf).imp_left (Locals.ofFunction_declared h)
    · intro storage
      rw [Layout.width_scan]
      exact hroom storage
  · rintro before after rfl name slot hslot
    rw [attemptAll_append]
    have hresolve (l : Locals) : l.resolve name = .ok slot ↔ l.find? name = some slot := by
      unfold Locals.resolve
      cases l.find? name <;> simp
    rw [hresolve] at hslot ⊢
    exact (attemptAll_grows _ after).find name slot hslot
  · intro name ty e s' hfail
    exact Lower.declare_error hfail

/-- A function with variables at two depths, numbers and references in turn. -/
def nestedLocals : FunDef where
  name := "f"
  params := [⟨"a", .i32⟩, ⟨"b", .i64⟩]
  returnType := .void
  body :=
    [.declare "s" .string none, .declare "x" .i32 none,
      .loop (.ident "c" .bool) [.declare "y" .i64 none, .break],
      .declare "o" (.object "Foo") none]

/-- Its state before the body. -/
def nestedState : LowerState where
  pool := {}
  locals :=
    { function := "f"
      slots := [⟨"b", .i64, .integer, 1, 2⟩, ⟨"a", .i32, .integer, 0, 1⟩]
      nextParam := 3
      nextInteger := 3
      nextReference := 6
      maxLocals := 3 }
  asm := .start 3

/-- Inner before outer variables, and three declarations that are refused. -/
def nestedCalls : List (String × DataType) :=
  [("y", .i64), ("x", .i32), ("x", .i64), ("o", .object "Foo"), ("v", .void), ("a", .string),
    ("s", .string)]

theorem arranged_of_attemptAll_nested : Locals.ofFunction nestedLocals 0 = .ok nestedState.locals ∧
    accepted nestedState nestedCalls =
      [("y", .i64), ("x", .i32), ("o", .object "Foo"), ("s", .string)] ∧
    (attemptAll nestedState nestedCalls).locals.Arranged ⟨3, 3, 2⟩ 0 nestedLocals.params
      [("y", .i64), ("x", .i32), ("o", .object "Foo"), ("s", .string)] ∧
    (attemptAll nestedState nestedCalls).locals.maxLocals = 8 := by
  have hstart : Locals.ofFunction nestedLocals 0 = .ok nestedState.locals := rfl
  have haccepted : accepted nestedState nestedCalls =
      [("y", .i64), ("x", .i32), ("o", .object "Foo"), ("s", .string)] := by cbv
  have hbody : (accepted nestedState nestedCalls).Subperm
      (Stmt.declarationsOf nestedLocals.body) := by
    rw [haccepted]
    decide
  have harranged := (arranged_of_attemptAll hstart hbody).1
  rw [haccepted] at harranged
  exact ⟨hstart, haccepted, harranged, by cbv⟩

end ClassFoundry
