import ClassFoundry.Locals
import ClassFoundry.Proofs.Scoping
import ClassFoundry.Proofs.Success
import Mathlib.Data.List.Pairwise

/-!
# The slots of local variables

No two variables of a function share a slot. Parameters, numbers and references have regions of
their own, and the region of the numbers is large enough because the body has been scanned for
declarations beforehand.

## Main definitions

* `integerWidthOf`: the slots taken by the numbers among declared variables
* `Locals.Sound`: the invariant of the slots
* `Locals.Grows`: what a lowering does to the locals

## Main results

* `Locals.declare_grows`: a declaration keeps the invariant
* `Locals.ofFunction_ok`: the invariant holds of the parameters
* `Locals.Sound.apart_of_find?`: different variables have different slots
-/

namespace ClassFoundry

/-- The slots taken by a number of a type. -/
def DataType.integerWidth (ty : DataType) : Nat :=
  if ty.storage? = some .integer then ty.width else 0

/-- The slots taken by the numbers among declared variables. -/
def integerWidthOf : List (String × DataType) → Nat
  | [] => 0
  | d :: rest => d.2.integerWidth + integerWidthOf rest

@[simp] theorem integerWidthOf_append (decls decls' : List (String × DataType)) :
    integerWidthOf (decls ++ decls') = integerWidthOf decls + integerWidthOf decls' := by
  induction decls with
  | nil => simp [integerWidthOf]
  | cons d decls ih => simp [integerWidthOf, ih, Nat.add_assoc]

theorem integerWidthOf_sublist {decls decls' : List (String × DataType)}
    (h : decls.Sublist decls') : integerWidthOf decls ≤ integerWidthOf decls' := by
  induction h with
  | slnil => exact Nat.le_refl _
  | cons d _ ih => exact Nat.le_trans ih (Nat.le_add_left _ _)
  | cons_cons d _ ih => exact Nat.add_le_add_left ih _

namespace Layout

theorem integerWidth_add (l : Layout) (ty : DataType) :
    (l.add ty).integerWidth = l.integerWidth + ty.integerWidth := by
  unfold add DataType.integerWidth
  split <;> simp_all

mutual

theorem integerWidth_addStmt (l : Layout) (s : Stmt) :
    (l.addStmt s).integerWidth = l.integerWidth + integerWidthOf s.declarations := by
  cases s with
  | declare name ty init => exact integerWidth_add l ty
  | ifThen cond body => exact integerWidth_addBlock l body
  | ifElse cond body orElse =>
    rw [addStmt, integerWidth_addBlock, integerWidth_addBlock, Stmt.declarations,
      integerWidthOf_append, Nat.add_assoc]
  | loop cond body => exact integerWidth_addBlock l body
  | _ => rfl

theorem integerWidth_addBlock (l : Layout) (block : List Stmt) :
    (l.addBlock block).integerWidth =
      l.integerWidth + integerWidthOf (Stmt.declarationsOf block) := by
  cases block with
  | nil => rfl
  | cons s rest =>
    rw [addBlock, integerWidth_addBlock, integerWidth_addStmt, Stmt.declarationsOf,
      integerWidthOf_append, Nat.add_assoc]

end

theorem firstReference_scan (body : List Stmt) (paramsEnd : Nat) :
    (scan body paramsEnd).firstReference =
      paramsEnd + integerWidthOf (Stmt.declarationsOf body) := by
  rw [firstReference, paramsEnd_scan, scan, integerWidth_addBlock, Nat.zero_add]

end Layout

/-- Two variables share no slot. -/
def Slot.Apart (a b : Slot) : Prop :=
  a.slot + a.ty.width ≤ b.slot ∨ b.slot + b.ty.width ≤ a.slot

namespace Locals

/-- **The invariant of the slots**: every variable lies in a region, at or after the reserved slots,
and no two of them overlap. -/
structure Sound (reserved paramsEnd firstReference : Nat) (l : Locals) : Prop where
  reserved_le : ∀ s ∈ l.slots, reserved ≤ s.slot
  region : ∀ s ∈ l.slots, s.slot + s.ty.width ≤ paramsEnd ∨
    (paramsEnd ≤ s.slot ∧ s.slot + s.ty.width ≤ l.nextInteger) ∨
    (firstReference ≤ s.slot ∧ s.slot + s.ty.width ≤ l.nextReference)
  apart : l.slots.Pairwise Slot.Apart
  kind : ∀ s ∈ l.slots, s.ty.kind?.isSome
  within : ∀ s ∈ l.slots, s.slot + s.ty.width ≤ l.maxLocals
  maxLocals_le : l.maxLocals ≤ maxFrameWords
  params : reserved ≤ paramsEnd ∧ paramsEnd ≤ l.maxLocals
  integers : paramsEnd ≤ l.nextInteger ∧ l.nextInteger ≤ firstReference
  references : firstReference ≤ l.nextReference

/-- What a lowering does to the locals that declares some variables. -/
structure Grows (decls : List (String × DataType)) (l l' : Locals) : Prop where
  find : ∀ name slot, l.find? name = some slot → l'.find? name = some slot
  declared : ∀ name slot, l'.find? name = some slot →
    l.find? name = some slot ∨ (name, slot.ty) ∈ decls
  next : l'.nextInteger ≤ l.nextInteger + integerWidthOf decls
  fresh : ∀ n, n ≤ l.nextInteger → n ≤ l.nextReference →
    n ≤ l'.nextInteger ∧ n ≤ l'.nextReference ∧
      ∀ name slot, l'.find? name = some slot → l.find? name = some slot ∨ n ≤ slot.slot
  sound : ∀ reserved paramsEnd firstReference, l.Sound reserved paramsEnd firstReference →
    l.nextInteger + integerWidthOf decls ≤ firstReference →
    l'.Sound reserved paramsEnd firstReference

variable {l l₁ l' : Locals} {decls decls' : List (String × DataType)}

theorem Grows.refl (l : Locals) : Grows [] l l :=
  ⟨fun _ _ h => h, fun _ _ h => .inl h, Nat.le_refl _, fun _ hi hr => ⟨hi, hr, fun _ _ h => .inl h⟩,
    fun _ _ _ h _ => h⟩

theorem Grows.trans (h : Grows decls l l₁) (h' : Grows decls' l₁ l') :
    Grows (decls ++ decls') l l' where
  find name slot hf := h'.find name slot (h.find name slot hf)
  declared name slot hf := by
    rcases h'.declared name slot hf with hf | hd
    · exact (h.declared name slot hf).imp_right (List.mem_append_left _)
    · exact .inr (List.mem_append_right _ hd)
  next := by
    have := h.next
    have := h'.next
    rw [integerWidthOf_append]
    omega
  fresh n hi hr := by
    obtain ⟨hi₁, hr₁, hfresh⟩ := h.fresh n hi hr
    obtain ⟨hi', hr', hfresh'⟩ := h'.fresh n hi₁ hr₁
    refine ⟨hi', hr', fun name slot hf => ?_⟩
    rcases hfresh' name slot hf with hf | hle
    · exact hfresh name slot hf
    · exact .inr hle
  sound r p f hs hroom := by
    have hnext := h.next
    rw [integerWidthOf_append] at hroom
    exact h'.sound r p f (h.sound r p f hs (by omega)) (by omega)

theorem Grows.mono (h : Grows decls l l') (hd : decls.Sublist decls') : Grows decls' l l' where
  find := h.find
  declared name slot hf := (h.declared name slot hf).imp_right fun hmem => hd.subset hmem
  next := Nat.le_trans h.next (Nat.add_le_add_left (integerWidthOf_sublist hd) _)
  fresh := h.fresh
  sound r p f hs hroom := by
    have := integerWidthOf_sublist hd
    exact h.sound r p f hs (by omega)

theorem find?_cons (l : Locals) (s : Slot) (name : String) :
    ({ l with slots := s :: l.slots } : Locals).find? name =
      if s.name = name then some s else l.find? name := by
  unfold find?
  rw [List.find?_cons]
  by_cases h : s.name = name
  · simp [h]
  · simp [h, beq_eq_false_iff_ne.2 h]

theorem mem_of_find? {name : String} {slot : Slot} (h : l.find? name = some slot) :
    slot ∈ l.slots ∧ slot.name = name :=
  ⟨List.mem_of_find?_eq_some h, by simpa using List.find?_some h⟩

theorem checkNew_ok {name : String} {ty : DataType} {storage : Storage}
    (h : l.checkNew name ty = .ok storage) :
    l.find? name = none ∧ ty.storage? = some storage := by
  unfold checkNew at h
  split at h
  · cases h
  · rename_i hnew
    split at h
    · rename_i found hfound
      cases h
      exact ⟨by simpa using hnew, hfound⟩
    · cases h

theorem insert_ok {name : String} {ty : DataType} {storage : Storage} {slot : Nat}
    (h : l.insert name ty storage slot = .ok l') :
    slot + ty.width ≤ maxFrameWords ∧ l' = { l with
      slots := ⟨name, ty, storage, slot, ty.width⟩ :: l.slots
      maxLocals := max l.maxLocals (slot + ty.width) } := by
  unfold insert at h
  split at h
  · rename_i hfits
    cases h
    exact ⟨hfits, rfl⟩
  · cases h

/-- A variable of the body goes to the next slot for its storage. -/
theorem declare_cases {name : String} {ty : DataType} {slot : Nat}
    (h : l.declare name ty = .ok (slot, l')) :
    l.find? name = none ∧ slot + ty.width ≤ maxFrameWords ∧
      ((ty.storage? = some .integer ∧ slot = l.nextInteger ∧ l' = { l with
          slots := ⟨name, ty, .integer, slot, ty.width⟩ :: l.slots
          maxLocals := max l.maxLocals (slot + ty.width)
          nextInteger := slot + ty.width }) ∨
        (ty.storage? = some .reference ∧ slot = l.nextReference ∧ l' = { l with
          slots := ⟨name, ty, .reference, slot, ty.width⟩ :: l.slots
          maxLocals := max l.maxLocals (slot + ty.width)
          nextReference := slot + ty.width })) := by
  unfold declare at h
  obtain ⟨storage, hnew, h⟩ := Except.bind_eq_ok.1 h
  obtain ⟨hnone, hstorage⟩ := checkNew_ok hnew
  cases storage with
  | integer =>
    obtain ⟨l₁, hinsert, h⟩ := Except.bind_eq_ok.1 h
    obtain ⟨hfits, rfl⟩ := insert_ok hinsert
    cases h
    exact ⟨hnone, hfits, .inl ⟨hstorage, rfl, rfl⟩⟩
  | reference =>
    obtain ⟨l₁, hinsert, h⟩ := Except.bind_eq_ok.1 h
    obtain ⟨hfits, rfl⟩ := insert_ok hinsert
    cases h
    exact ⟨hnone, hfits, .inr ⟨hstorage, rfl, rfl⟩⟩

theorem kind?_isSome_of_storage? {ty : DataType} {storage : Storage}
    (h : ty.storage? = some storage) : ty.kind?.isSome := by
  unfold DataType.storage? at h
  cases hk : ty.kind? <;> simp_all

theorem declare_find? {name : String} {ty : DataType} {slot : Nat}
    (h : l.declare name ty = .ok (slot, l')) :
    (∃ storage, l'.find? name = some ⟨name, ty, storage, slot, ty.width⟩) ∧
      ∀ name' s, l.find? name' = some s → l'.find? name' = some s := by
  obtain ⟨hnone, -, ⟨-, -, rfl⟩ | ⟨-, -, rfl⟩⟩ := declare_cases h
  all_goals
    refine ⟨⟨_, (find?_cons l _ _).trans (if_pos rfl)⟩, fun name' s hs => ?_⟩
    refine (find?_cons l _ _).trans ((if_neg ?_).trans hs)
    rintro rfl
    rw [hnone] at hs
    cases hs

/-- After a slot was added, a variable is that of the slot or an old one. -/
theorem find?_cons_cases {s slot : Slot} {name : String}
    (h : ({ l with slots := s :: l.slots } : Locals).find? name = some slot) :
    l.find? name = some slot ∨ (s.name = name ∧ s = slot) := by
  rw [find?_cons] at h
  split at h
  · rename_i hname
    cases h
    exact .inr ⟨hname, rfl⟩
  · exact .inl h

/-- **A variable that is apart from all others** keeps the invariant if it lies in one of the regions,
which may grow. -/
theorem Sound.cons {reserved paramsEnd firstReference param integer reference : Nat} {s : Slot}
    (hl : l.Sound reserved paramsEnd firstReference) (hkind : s.ty.kind?.isSome)
    (hfits : s.slot + s.ty.width ≤ maxFrameWords)
    (hnew : reserved ≤ s.slot ∧ ∀ s' ∈ l.slots, Slot.Apart s s')
    (hregion : s.slot + s.ty.width ≤ paramsEnd ∨
      (paramsEnd ≤ s.slot ∧ s.slot + s.ty.width ≤ integer) ∨
      (firstReference ≤ s.slot ∧ s.slot + s.ty.width ≤ reference))
    (hinteger : l.nextInteger ≤ integer ∧ integer ≤ firstReference)
    (hreference : l.nextReference ≤ reference) :
    Sound reserved paramsEnd firstReference { l with
      slots := s :: l.slots
      maxLocals := max l.maxLocals (s.slot + s.ty.width)
      nextParam := param
      nextInteger := integer
      nextReference := reference } where
  reserved_le := List.forall_mem_cons.2 ⟨hnew.1, hl.reserved_le⟩
  region := List.forall_mem_cons.2 ⟨hregion, fun s' hmem => by
    have := hl.region s' hmem
    dsimp only
    omega⟩
  apart := List.pairwise_cons.2 ⟨hnew.2, hl.apart⟩
  kind := List.forall_mem_cons.2 ⟨hkind, hl.kind⟩
  within := List.forall_mem_cons.2 ⟨Nat.le_max_right _ _, fun s' hmem =>
    Nat.le_trans (hl.within s' hmem) (Nat.le_max_left _ _)⟩
  maxLocals_le := Nat.max_le.2 ⟨hl.maxLocals_le, hfits⟩
  params := ⟨hl.params.1, Nat.le_trans hl.params.2 (Nat.le_max_left _ _)⟩
  integers := ⟨Nat.le_trans hl.integers.1 hinteger.1, hinteger.2⟩
  references := Nat.le_trans hl.references hreference

/-- What starts where a region ends so far is apart from all variables, if the numbers do not run
into the references. -/
theorem Sound.next_apart {reserved paramsEnd firstReference : Nat} {s : Slot}
    (hl : l.Sound reserved paramsEnd firstReference)
    (hs : (s.slot = l.nextInteger ∧ s.slot + s.ty.width ≤ firstReference) ∨
      s.slot = l.nextReference) :
    reserved ≤ s.slot ∧ ∀ s' ∈ l.slots, Slot.Apart s s' := by
  have hparams := hl.params
  have hintegers := hl.integers
  have hreferences := hl.references
  refine ⟨by omega, fun s' hmem => ?_⟩
  have := hl.region s' hmem
  unfold Slot.Apart
  omega

/-- **A declaration keeps the invariant** if there is room for it. -/
theorem declare_grows {name : String} {ty : DataType} {slot : Nat}
    (h : l.declare name ty = .ok (slot, l')) : Grows [(name, ty)] l l' := by
  refine ⟨(declare_find? h).2, fun name' s hs => ?_, ?_, fun n hi hr => ?_, ?_⟩
  · obtain ⟨-, -, ⟨-, -, rfl⟩ | ⟨-, -, rfl⟩⟩ := declare_cases h <;>
      rcases find?_cons_cases hs with hs | ⟨rfl, rfl⟩
    · exact .inl hs
    · exact .inr List.mem_cons_self
    · exact .inl hs
    · exact .inr List.mem_cons_self
  · obtain ⟨-, -, ⟨hs, rfl, rfl⟩ | ⟨hs, rfl, rfl⟩⟩ := declare_cases h <;>
      simp [integerWidthOf, DataType.integerWidth, hs]
  · obtain ⟨-, -, ⟨-, rfl, rfl⟩ | ⟨-, rfl, rfl⟩⟩ := declare_cases h
    · refine ⟨Nat.le_trans hi (Nat.le_add_right _ _), hr, fun name' s hs => ?_⟩
      rcases find?_cons_cases hs with hs | ⟨-, rfl⟩
      · exact .inl hs
      · exact .inr hi
    · refine ⟨hi, Nat.le_trans hr (Nat.le_add_right _ _), fun name' s hs => ?_⟩
      rcases find?_cons_cases hs with hs | ⟨-, rfl⟩
      · exact .inl hs
      · exact .inr hr
  · intro reserved paramsEnd firstReference hl hroom
    obtain ⟨-, hfits, ⟨hs, rfl, rfl⟩ | ⟨hs, rfl, rfl⟩⟩ := declare_cases h
    · have hwidth : integerWidthOf [(name, ty)] = ty.width := by
        simp [integerWidthOf, DataType.integerWidth, hs]
      rw [hwidth] at hroom
      exact hl.cons (kind?_isSome_of_storage? hs) hfits (hl.next_apart (.inl ⟨rfl, hroom⟩))
        (.inr (.inl ⟨hl.integers.1, Nat.le_refl _⟩)) ⟨Nat.le_add_right _ _, hroom⟩ (Nat.le_refl _)
    · exact hl.cons (kind?_isSome_of_storage? hs) hfits (hl.next_apart (.inr rfl))
        (.inr (.inr ⟨hl.references, Nat.le_refl _⟩)) ⟨Nat.le_refl _, hl.integers.2⟩
        (Nat.le_add_right _ _)

/-- Different variables have different slots. -/
theorem Sound.apart_of_find? {reserved paramsEnd firstReference : Nat}
    (hl : l.Sound reserved paramsEnd firstReference) {name name' : String} {s s' : Slot}
    (hs : l.find? name = some s) (hs' : l.find? name' = some s') (hne : name ≠ name') :
    s.Apart s' := by
  obtain ⟨hmem, hname⟩ := mem_of_find? hs
  obtain ⟨hmem', hname'⟩ := mem_of_find? hs'
  have : Std.Symm Slot.Apart := ⟨fun _ _ h => h.symm⟩
  refine hl.apart.forall hmem hmem' ?_
  rintro rfl
  exact hne (hname.symm.trans hname')

/-- Parameters stand one after the other from a slot on. -/
def Placed (l : Locals) : Nat → List Param → Prop
  | _, [] => True
  | n, p :: ps => (∃ storage, l.find? p.name = some ⟨p.name, p.ty, storage, n, p.ty.width⟩) ∧
      p.ty.kind?.isSome ∧ Placed l (n + p.ty.width) ps

theorem Placed.mono (h : ∀ name slot, l.find? name = some slot → l'.find? name = some slot)
    {n : Nat} {params : List Param} (hp : l.Placed n params) : l'.Placed n params := by
  induction params generalizing n with
  | nil => trivial
  | cons p ps ih =>
    obtain ⟨⟨storage, hf⟩, hk, hps⟩ := hp
    exact ⟨⟨storage, h _ _ hf⟩, hk, ih hps⟩

theorem Placed.kind? {n : Nat} {params : List Param} (h : l.Placed n params) :
    ∀ p ∈ params, p.ty.kind?.isSome := by
  induction params generalizing n with
  | nil => nofun
  | cons p ps ih => exact List.forall_mem_cons.2 ⟨h.2.1, ih h.2.2⟩

/-- A parameter is found with its type and its width. -/
theorem Placed.find? {n : Nat} {params : List Param} (h : l.Placed n params) {p : Param}
    (hp : p ∈ params) : ∃ storage slot,
      l.find? p.name = some ⟨p.name, p.ty, storage, slot, p.ty.width⟩ := by
  induction params generalizing n with
  | nil => cases hp
  | cons q ps ih =>
    obtain ⟨⟨storage, hq⟩, -, hps⟩ := h
    rcases List.mem_cons.1 hp with rfl | hp
    · exact ⟨storage, n, hq⟩
    · exact ih hps hp

theorem declareParam_cases {name : String} {ty : DataType} {slot : Nat}
    (h : l.declareParam name ty = .ok (slot, l')) :
    l.find? name = none ∧ slot = l.nextParam ∧ slot + ty.width ≤ maxFrameWords ∧
      ∃ storage, ty.storage? = some storage ∧ l' = { l with
        slots := ⟨name, ty, storage, slot, ty.width⟩ :: l.slots
        maxLocals := max l.maxLocals (slot + ty.width)
        nextParam := slot + ty.width } := by
  unfold declareParam at h
  obtain ⟨storage, hnew, h⟩ := Except.bind_eq_ok.1 h
  obtain ⟨hnone, hstorage⟩ := checkNew_ok hnew
  obtain ⟨l₁, hinsert, h⟩ := Except.bind_eq_ok.1 h
  obtain ⟨hfits, rfl⟩ := insert_ok hinsert
  cases h
  exact ⟨hnone, rfl, hfits, storage, hstorage, rfl⟩

/-- The slots taken by parameters. -/
def paramsWidth : List Param → Nat
  | [] => 0
  | p :: ps => p.ty.width + paramsWidth ps

theorem foldl_width (params : List Param) (n : Nat) :
    params.foldl (fun n p => n + p.ty.width) n = n + paramsWidth params := by
  induction params generalizing n with
  | nil => rfl
  | cons p ps ih => simp [ih, paramsWidth, Nat.add_assoc]

/-- The parameters are declared one after the other, and the invariant holds if the region of the
parameters is large enough. -/
theorem declareParams_ok {params : List Param} {reserved paramsEnd firstReference : Nat}
    (h : declareParams l params = .ok l') (hl : l.Sound reserved paramsEnd firstReference)
    (hbefore : ∀ s ∈ l.slots, s.slot + s.ty.width ≤ l.nextParam) (hfirst : reserved ≤ l.nextParam)
    (hroom : l.nextParam + paramsWidth params ≤ paramsEnd) :
    l'.Sound reserved paramsEnd firstReference ∧ l'.Placed l.nextParam params ∧
      (∀ name slot, l.find? name = some slot → l'.find? name = some slot) ∧
      l'.nextInteger = l.nextInteger ∧ l.maxLocals ≤ l'.maxLocals := by
  induction params generalizing l with
  | nil =>
    cases h
    exact ⟨hl, trivial, fun _ _ h => h, rfl, Nat.le_refl _⟩
  | cons p ps ih =>
    obtain ⟨⟨slot, l₁⟩, hp, h⟩ := Except.bind_eq_ok.1 h
    obtain ⟨hnone, rfl, hfits, storage, hstorage, rfl⟩ := declareParam_cases hp
    have hwidth : paramsWidth (p :: ps) = p.ty.width + paramsWidth ps := by simp [paramsWidth]
    rw [hwidth] at hroom
    have hsound : Sound reserved paramsEnd firstReference { l with
        slots := ⟨p.name, p.ty, storage, l.nextParam, p.ty.width⟩ :: l.slots
        maxLocals := max l.maxLocals (l.nextParam + p.ty.width)
        nextParam := l.nextParam + p.ty.width } :=
      hl.cons (kind?_isSome_of_storage? hstorage) hfits
        ⟨hfirst, fun s hs => .inr (hbefore s hs)⟩ (.inl (by dsimp only; omega))
        ⟨Nat.le_refl _, hl.integers.2⟩ (Nat.le_refl _)
    obtain ⟨hs', hplaced, hfind, hnext, hmax⟩ := ih h hsound
      (List.forall_mem_cons.2 ⟨Nat.le_refl _, fun s hs =>
        Nat.le_trans (hbefore s hs) (Nat.le_add_right _ _)⟩)
      (Nat.le_trans hfirst (Nat.le_add_right _ _)) (by dsimp only; omega)
    have hself := hfind p.name _ ((find?_cons l _ _).trans (if_pos rfl))
    refine ⟨hs', ⟨⟨storage, hself⟩, kind?_isSome_of_storage? hstorage, hplaced⟩, ?_, hnext,
      Nat.le_trans (Nat.le_max_left _ _) hmax⟩
    intro name slot hslot
    refine hfind name slot ((find?_cons l _ _).trans ((if_neg ?_).trans hslot))
    rintro rfl
    rw [hnone] at hslot
    cases hslot

/-- Only parameters are added. -/
theorem declareParams_declared {params : List Param} (h : declareParams l params = .ok l')
    {name : String} {slot : Slot} (hf : l'.find? name = some slot) :
    l.find? name = some slot ∨ (name, slot.ty) ∈ params.map fun q => (q.name, q.ty) := by
  induction params generalizing l with
  | nil =>
    cases h
    exact .inl hf
  | cons p ps ih =>
    obtain ⟨⟨n, l₁⟩, hp, h⟩ := Except.bind_eq_ok.1 h
    obtain ⟨-, -, -, storage, -, rfl⟩ := declareParam_cases hp
    rcases ih h with hf | hmem
    · rcases find?_cons_cases hf with hf | ⟨rfl, rfl⟩
      · exact .inl hf
      · exact .inr List.mem_cons_self
    · exact .inr (List.mem_cons_of_mem _ hmem)

theorem ofFunction_declared {f : FunDef} {reserved : Nat} (h : ofFunction f reserved = .ok l)
    {name : String} {slot : Slot} (hf : l.find? name = some slot) :
    (name, slot.ty) ∈ f.params.map fun q => (q.name, q.ty) := by
  unfold ofFunction at h
  dsimp only at h
  split at h
  · cases h
  · rcases declareParams_declared h hf with hf | hmem
    · cases hf
    · exact hmem

/-- **The locals of a function** before its body is lowered. -/
theorem ofFunction_ok {f : FunDef} {reserved : Nat} (h : ofFunction f reserved = .ok l) :
    l.Sound reserved (reserved + paramsWidth f.params)
        (reserved + paramsWidth f.params + integerWidthOf (Stmt.declarationsOf f.body)) ∧
      l.Placed reserved f.params ∧ l.nextInteger = reserved + paramsWidth f.params := by
  unfold ofFunction at h
  simp only [foldl_width, Layout.firstReference_scan, Nat.zero_add] at h
  split at h
  · cases h
  · rename_i hfits
    have hstart : Sound reserved (reserved + paramsWidth f.params)
        (reserved + paramsWidth f.params + integerWidthOf (Stmt.declarationsOf f.body))
        (start f.name reserved (Layout.scan f.body (reserved + paramsWidth f.params))) :=
      { reserved_le := by simp [start]
        region := by simp [start]
        apart := by simp [start]
        kind := by simp [start]
        within := by simp [start]
        maxLocals_le := by
          simp only [start, Layout.paramsEnd_scan]
          omega
        params := by simp [start]
        integers := by simp [start]
        references := by simp [start, Layout.firstReference_scan] }
    obtain ⟨hsound, hplaced, -, hnext, -⟩ := declareParams_ok h hstart (by simp [start])
      (Nat.le_refl _) (Nat.le_refl _)
    exact ⟨hsound, hplaced, hnext.trans (by simp [start])⟩

end Locals

end ClassFoundry
