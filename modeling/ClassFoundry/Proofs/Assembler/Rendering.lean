import ClassFoundry.Proofs.Assembler.Events

/-!
# The bytes of a method body

A run of the assembler is a list of events. The bytes that it has produced are at any time those
of its events one after the other, where the operand of a branch is the distance to its label if
the label has a place, and zero otherwise. The branches that wait are those of the second sort.

## Main definitions

* `Event`, `Event.Happens`, `Runs`: events and runs of the assembler
* `render`: the bytes of a list of events
* `Rendered`: the invariant that ties the state to the events

## Main results

* `Runs.rendered`: the invariant holds after every run
-/

namespace ClassFoundry

/-- What an operation does to a method body. -/
inductive Event where
  | emit (i : Instruction) (pops pushes : Nat)
  | branch (op : Opcode) (target : Label)
  | fresh
  | place (label : Label)

/-- One event leads from a state to another. -/
inductive Event.Happens : Event → Assembler → Assembler → Prop where
  | emit {a a' : Assembler} {i : Instruction} {pops pushes : Nat} (encodable : i.encodable = true)
      (branchless : i.opcode.isBranch = false) (emits : Emits a i pops pushes a') :
      Happens (.emit i pops pushes) a a'
  | branch {a a' : Assembler} {op : Opcode} {l : Label} (isBranch : op.isBranch = true)
      (branches : Branches a op l a') : Happens (.branch op l) a a'
  | fresh (a : Assembler) : Happens .fresh a { a with labels := a.labels.fresh.2 }
  | place {a a' : Assembler} {l : Label} (places : Places a l a') : Happens (.place l) a a'

/-- A list of events leads from a state to another. -/
inductive Runs : List Event → Assembler → Assembler → Prop where
  | nil (a : Assembler) : Runs [] a a
  | cons {a b c : Assembler} {e : Event} {es : List Event} (head : e.Happens a b)
      (tail : Runs es b c) : Runs (e :: es) a c

theorem Runs.append {es fs : List Event} {a b c : Assembler} (h : Runs es a b) (h' : Runs fs b c) :
    Runs (es ++ fs) a c := by
  induction h with
  | nil a => exact h'
  | cons head tail ih => exact .cons head (ih h')

theorem Runs.single {e : Event} {a b : Assembler} (h : e.Happens a b) : Runs [e] a b :=
  .cons h (.nil b)

/-- The number of bytes of an event. -/
def Event.length : Event → Nat
  | .emit i _ _ => i.length
  | .branch _ _ => 3
  | .fresh | .place _ => 0

/-- The operand of a branch at an offset, as far as it is known. -/
def operandOf (place : Label → Option Nat) (offset : Nat) (l : Label) : UInt16 :=
  match place l with
  | some target =>
    match Asm.relative offset target with
    | .ok w => w
    | .error _ => 0
  | none => 0

/-- The bytes of an event at an offset. -/
def Event.bytes (place : Label → Option Nat) (offset : Nat) : Event → Bytes
  | .emit i _ _ => i.encode
  | .branch op l => op :: be16 (operandOf place offset l)
  | .fresh | .place _ => []

/-- The bytes of events from an offset on. -/
def render (place : Label → Option Nat) : Nat → List Event → Bytes
  | _, [] => []
  | offset, e :: es => e.bytes place offset ++ render place (offset + e.length) es

/-- The offsets at which instructions start. -/
def starts : Nat → List Event → List Nat
  | _, [] => []
  | offset, e :: es =>
    match e with
    | .emit _ _ _ | .branch _ _ => offset :: starts (offset + e.length) es
    | .fresh | .place _ => starts offset es

/-- The events with their offsets. -/
def located : Nat → List Event → List (Nat × Event)
  | _, [] => []
  | offset, e :: es => (offset, e) :: located (offset + e.length) es

/-- The branches with their labels. -/
def branchesFrom : Nat → List Event → List (Nat × Label)
  | _, [] => []
  | offset, e :: es =>
    match e with
    | .branch _ l => (offset, l) :: branchesFrom (offset + e.length) es
    | _ => branchesFrom (offset + e.length) es

/-- The branches whose labels have no place. -/
def openBranches (place : Label → Option Nat) (offset : Nat) (es : List Event) :
    List PendingBranch :=
  ((branchesFrom offset es).filter fun b => (place b.2).isNone).map
    fun b => ⟨b.1, b.1 + 1, b.2⟩

/-- The number of bytes of events. -/
def bytesOf : List Event → Nat
  | [] => 0
  | e :: es => e.length + bytesOf es

theorem Event.length_bytes (place : Label → Option Nat) (offset : Nat) (e : Event) :
    (e.bytes place offset).length = e.length := by
  cases e with
  | emit i pops pushes => exact i.length_encode
  | branch op l => rfl
  | fresh => rfl
  | place l => rfl

theorem length_render (place : Label → Option Nat) (offset : Nat) (es : List Event) :
    (render place offset es).length = bytesOf es := by
  induction es generalizing offset with
  | nil => rfl
  | cons e es ih => simp [render, bytesOf, Event.length_bytes, ih]

theorem bytesOf_append (es fs : List Event) : bytesOf (es ++ fs) = bytesOf es + bytesOf fs := by
  induction es with
  | nil => simp [bytesOf]
  | cons e es ih => simp [bytesOf, ih, Nat.add_assoc]

theorem render_append (place : Label → Option Nat) (offset : Nat) (es fs : List Event) :
    render place offset (es ++ fs) =
      render place offset es ++ render place (offset + bytesOf es) fs := by
  induction es generalizing offset with
  | nil => rfl
  | cons e es ih => simp [render, ih, bytesOf, Nat.add_assoc]

theorem starts_append (offset : Nat) (es fs : List Event) :
    starts offset (es ++ fs) = starts offset es ++ starts (offset + bytesOf es) fs := by
  induction es generalizing offset with
  | nil => rfl
  | cons e es ih => cases e <;> simp [starts, ih, bytesOf, Event.length, Nat.add_assoc]

theorem located_append (offset : Nat) (es fs : List Event) :
    located offset (es ++ fs) = located offset es ++ located (offset + bytesOf es) fs := by
  induction es generalizing offset with
  | nil => rfl
  | cons e es ih => simp [located, ih, bytesOf, Nat.add_assoc]

/-- An event at an offset is one of the events, and lies inside their bytes. -/
theorem mem_of_mem_located {es : List Event} {offset o : Nat} {e : Event}
    (h : (o, e) ∈ located offset es) :
    e ∈ es ∧ offset ≤ o ∧ o + e.length ≤ offset + bytesOf es := by
  induction es generalizing offset with
  | nil => cases h
  | cons x es ih =>
    rw [bytesOf]
    rcases List.mem_cons.1 h with heq | h
    · cases heq
      exact ⟨List.mem_cons_self, by omega⟩
    · obtain ⟨hmem, hle⟩ := ih h
      exact ⟨List.mem_cons_of_mem _ hmem, by omega⟩

theorem mem_branchesFrom_of_located {es : List Event} {offset o : Nat} {op : Opcode} {l : Label}
    (h : (o, Event.branch op l) ∈ located offset es) : (o, l) ∈ branchesFrom offset es := by
  induction es generalizing offset with
  | nil => cases h
  | cons x es ih =>
    rcases List.mem_cons.1 h with heq | h
    · cases heq
      exact List.mem_cons_self
    · cases x with
      | branch op' l' => exact List.mem_cons_of_mem _ (ih h)
      | emit i pops pushes => exact ih h
      | fresh => exact ih h
      | place l' => exact ih h

theorem branchesFrom_append (offset : Nat) (es fs : List Event) :
    branchesFrom offset (es ++ fs) =
      branchesFrom offset es ++ branchesFrom (offset + bytesOf es) fs := by
  induction es generalizing offset with
  | nil => rfl
  | cons e es ih => cases e <;> simp [branchesFrom, ih, bytesOf, Nat.add_assoc]

/-- **The invariant of a run**: the code consists of the bytes of the events, and the branches that
wait are those whose label has no place. -/
structure Rendered (es : List Event) (a : Assembler) : Prop where
  code : a.code.toList = render a.labels.offset? 0 es
  pending : a.labels.pending.toList = openBranches a.labels.offset? 0 es
  branches : a.branches.toList = branchesFrom 0 es
  starts : a.trace.toList.map (·.offset) = starts 0 es
  fits : ∀ b ∈ branchesFrom 0 es, ∀ t, a.labels.offset? b.2 = some t →
    ∃ w, Asm.relative b.1 t = .ok w
  boundary : ∀ l t, a.labels.offset? l = some t → t ∈ ClassFoundry.starts 0 es ∨ t = a.code.size

namespace Rendered

variable {es : List Event} {a a' : Assembler}

theorem size (h : Rendered es a) : a.code.size = bytesOf es := by
  rw [← Array.length_toList, h.code, length_render]

theorem start (n : Nat) : Rendered [] (.start n) where
  code := rfl
  pending := rfl
  branches := rfl
  starts := rfl
  fits := nofun
  boundary := by simp [LabelTable.offset?, Assembler.start]

theorem emit {i : Instruction} {pops pushes : Nat} (h : Rendered es a)
    (he : Emits a i pops pushes a') : Rendered (es ++ [.emit i pops pushes]) a' := by
  obtain ⟨op, htrace⟩ := he.trace
  have hlabels : a'.labels.offset? = a.labels.offset? := by rw [he.labels]
  have hsize := h.size
  exact {
    code := by
      rw [he.code, h.code, hlabels, render_append]
      simp [render, Event.bytes]
    pending := by
      rw [he.labels, h.pending, openBranches, openBranches, branchesFrom_append]
      simp [branchesFrom]
    branches := by
      rw [he.branches, h.branches, branchesFrom_append]
      simp [branchesFrom]
    starts := by
      rw [htrace, starts_append]
      simp [h.starts, ClassFoundry.starts, hsize]
    fits := by
      rw [branchesFrom_append, hlabels]
      simpa [branchesFrom] using h.fits
    boundary := by
      intro l t hl
      rw [hlabels] at hl
      rw [starts_append]
      refine .inl (List.mem_append.2 ?_)
      rcases h.boundary l t hl with ht | ht
      · exact .inl ht
      · exact .inr (by simp [ClassFoundry.starts, ht, hsize]) }

theorem branch {op : Opcode} {l : Label} (h : Rendered es a) (hb : Branches a op l a') :
    Rendered (es ++ [.branch op l]) a' := by
  have hlabels : a'.labels.offset? = a.labels.offset? := funext hb.offset
  have hsize := h.size
  have hlast : branchesFrom 0 (es ++ [.branch op l]) =
      branchesFrom 0 es ++ [(a.code.size, l)] := by
    rw [branchesFrom_append]
    simp [branchesFrom, hsize]
  exact {
    code := by
      rw [hlabels, render_append, ← h.code, Nat.zero_add, ← hsize]
      rcases hb.operand with ⟨t, w, hl, hw, hcode, -⟩ | ⟨hl, hcode, -⟩
      · simp [hcode, render, Event.bytes, operandOf, hl, hw]
      · simp [hcode, render, Event.bytes, operandOf, hl]
    pending := by
      rw [hlabels, openBranches, hlast]
      rcases hb.operand with ⟨t, w, hl, -, -, hp⟩ | ⟨hl, -, hp⟩
      · simp [hp, h.pending, openBranches, hl]
      · simp [hp, h.pending, openBranches, hl]
    branches := by
      rw [hb.branches, hlast]
      simp [h.branches]
    starts := by
      rw [hb.trace, starts_append]
      simp [h.starts, ClassFoundry.starts, hsize]
    fits := by
      rw [hlast, hlabels]
      intro b hmem t ht
      rcases List.mem_append.1 hmem with hold | hnew
      · exact h.fits b hold t ht
      · obtain rfl := List.mem_singleton.1 hnew
        rcases hb.operand with ⟨t', w, hl, hw, -⟩ | ⟨hl, -⟩
        · rw [hl] at ht
          exact ⟨w, Option.some.inj ht ▸ hw⟩
        · simp [hl] at ht
    boundary := by
      intro l' t hl
      rw [hlabels] at hl
      rw [starts_append]
      refine .inl (List.mem_append.2 ?_)
      rcases h.boundary l' t hl with ht | ht
      · exact .inl ht
      · exact .inr (by simp [ClassFoundry.starts, ht, hsize]) }

theorem fresh (h : Rendered es a) :
    Rendered (es ++ [.fresh]) { a with labels := a.labels.fresh.2 } := by
  have hlabels : a.labels.fresh.2.offset? = a.labels.offset? := funext a.labels.fresh_offset?
  exact {
    code := by
      rw [hlabels, render_append, h.code]
      simp [render, Event.bytes]
    pending := by
      rw [hlabels, openBranches, branchesFrom_append]
      simpa [branchesFrom, openBranches, LabelTable.fresh] using h.pending
    branches := by
      rw [branchesFrom_append]
      simpa [branchesFrom] using h.branches
    starts := by
      rw [starts_append]
      simpa [ClassFoundry.starts] using h.starts
    fits := by
      rw [branchesFrom_append, hlabels]
      simpa [branchesFrom] using h.fits
    boundary := by
      rw [starts_append, hlabels]
      simpa [ClassFoundry.starts] using h.boundary }

end Rendered

/-! ### Placing a label

The operands of the branches that wait for the label are filled in one after the other. Walking
along the events, everything before the current one already has its final bytes. -/

theorem toList_patch (code : CodeArray) (operand : Nat) (value : UInt16) :
    (Asm.patch code operand value).toList =
      (code.toList.set operand (hiByte value)).set (operand + 1) (loByte value) := by
  simp [Asm.patch]

theorem toList_patch_append {code : CodeArray} {front rest : Bytes} {op x y : UInt8}
    (h : code.toList = front ++ op :: x :: y :: rest) (value : UInt16) :
    (Asm.patch code (front.length + 1) value).toList =
      (front ++ op :: be16 value) ++ rest := by
  have hsub : front.length + 1 + 1 - front.length = 2 := by omega
  have hlt : ¬ front.length + 1 + 1 < front.length := by omega
  rw [toList_patch, h]
  simp [List.set_append, be16, hsub, hlt]

/-- The places of labels after one more label was placed. -/
def placing (place : Label → Option Nat) (l : Label) (target : Nat) : Label → Option Nat :=
  fun l' => if l' = l then some target else place l'

theorem patches_render {place : Label → Option Nat} {l : Label} {target : Nat} (hl : place l = none)
    (es : List Event) {front : Bytes} {code code' : CodeArray}
    (hcode : code.toList = front ++ render place front.length es)
    (h : patches target ((openBranches place front.length es).filter (·.label = l)) code = .ok code') :
    code'.toList = front ++ render (placing place l target) front.length es ∧
      ∀ b ∈ branchesFrom front.length es, b.2 = l → ∃ w, Asm.relative b.1 target = .ok w := by
  induction es generalizing front code with
  | nil =>
    cases h
    exact ⟨hcode, nofun⟩
  | cons e es ih =>
    cases e with
    | emit i pops pushes =>
      have hnext : front.length + (Event.emit i pops pushes).length = (front ++ i.encode).length := by
        simp [Event.length, i.length_encode]
      simp only [render, Event.bytes, openBranches, branchesFrom, hnext] at hcode h ⊢
      rw [← List.append_assoc] at hcode ⊢
      exact ih hcode h
    | fresh => exact ih hcode h
    | place l' => exact ih hcode h
    | branch op l' =>
      have hnext (w : UInt16) :
          front.length + (Event.branch op l').length = (front ++ op :: be16 w).length := by
        simp [Event.length]
      by_cases hl' : l' = l
      · subst hl'
        simp only [openBranches, branchesFrom, hl, Option.isNone_none, List.filter_cons_of_pos,
          List.map_cons, decide_true, patches] at h
        simp only [render, Event.bytes, operandOf, hl, be16, List.cons_append, List.nil_append]
          at hcode
        cases hw : Asm.relative front.length target with
        | error e =>
          rw [hw] at h
          simp at h
        | ok w =>
          rw [hw] at h
          have hpatched := toList_patch_append hcode w
          rw [hnext w] at hpatched h
          obtain ⟨hdone, hfits⟩ := ih hpatched h
          refine ⟨?_, ?_⟩
          · rw [hdone, render, hnext w]
            simp [Event.bytes, operandOf, placing, hw]
          · intro b hb hlabel
            rw [branchesFrom, hnext w] at hb
            rcases List.mem_cons.1 hb with rfl | hb
            · exact ⟨w, hw⟩
            · exact hfits b hb hlabel
      · -- the branch goes elsewhere: it keeps its bytes, whether or not it waits
        have hbytes : (Event.branch op l').bytes (placing place l target) front.length =
            (Event.branch op l').bytes place front.length := by
          simp [Event.bytes, operandOf, placing, hl']
        have hfilter : (openBranches place front.length (.branch op l' :: es)).filter (·.label = l) =
            (openBranches place (front.length + 3) es).filter (·.label = l) := by
          simp only [openBranches, branchesFrom, Event.length, List.filter_cons]
          split <;> simp [hl']
        rw [hfilter] at h
        rw [render] at hcode ⊢
        rw [hbytes, ← List.append_assoc]
        rw [← List.append_assoc] at hcode
        simp only [branchesFrom]
        have hlen : front.length + (Event.branch op l').length =
            (front ++ (Event.branch op l').bytes place front.length).length := by
          rw [List.length_append, Event.length_bytes]
        rw [hlen] at hcode ⊢
        obtain ⟨hdone, hfits⟩ := ih hcode (by rw [← hlen]; exact h)
        refine ⟨hdone, ?_⟩
        intro b hb hlabel
        rcases List.mem_cons.1 hb with rfl | hb
        · exact absurd hlabel hl'
        · exact hfits b hb hlabel

namespace Rendered

variable {es : List Event} {a a' : Assembler}

theorem place {l : Label} (h : Rendered es a) (hp : Places a l a') :
    Rendered (es ++ [.place l]) a' := by
  have hlabels : a'.labels.offset? = placing a.labels.offset? l a.code.size := funext hp.offset
  have hwaiting : (a.labels.pending.filter (·.label = l)).toList =
      (openBranches a.labels.offset? 0 es).filter (·.label = l) := by
    rw [Array.toList_filter, h.pending]
  have hpatched := hp.code
  rw [hwaiting] at hpatched
  -- patching the branches that waited is rendering with the label in its place
  obtain ⟨hdone, hfits⟩ := @patches_render _ _ _ hp.unplaced es [] _ _ h.code hpatched
  have hsize : a'.code.size = a.code.size := by
    rw [← Array.length_toList, hdone, h.size]
    simp [length_render]
  exact {
    code := by
      rw [hlabels, render_append, hdone]
      simp [render, Event.bytes]
    pending := by
      rw [hp.pending, Array.toList_filter, h.pending, hlabels, openBranches, openBranches,
        branchesFrom_append, List.filter_map, List.filter_filter]
      congr 1
      simp only [branchesFrom, List.append_nil]
      refine List.filter_congr fun b _ => ?_
      by_cases hb : b.2 = l <;> simp [placing, hb]
    branches := by
      rw [hp.branches, branchesFrom_append, h.branches]
      simp [branchesFrom]
    starts := by
      rw [hp.trace, starts_append, h.starts]
      simp [ClassFoundry.starts]
    fits := by
      rw [branchesFrom_append, hlabels]
      simp only [branchesFrom, List.append_nil]
      intro b hb t ht
      by_cases hl : b.2 = l
      · simp only [placing, hl, if_true, Option.some.injEq] at ht
        exact ht ▸ hfits b hb hl
      · simp only [placing, hl, if_false] at ht
        exact h.fits b hb t ht
    boundary := by
      intro l' t ht
      rw [starts_append, hsize]
      simp only [ClassFoundry.starts, List.append_nil]
      rw [hlabels] at ht
      by_cases hl : l' = l
      · simp only [placing, hl, if_true, Option.some.injEq] at ht
        exact .inr ht.symm
      · simp only [placing, hl, if_false] at ht
        exact h.boundary l' t ht }

/-- **One event** keeps the invariant. -/
theorem happens {e : Event} (h : Rendered es a) (he : e.Happens a a') : Rendered (es ++ [e]) a' := by
  cases he with
  | emit _ _ emits => exact h.emit emits
  | branch _ branches => exact h.branch branches
  | fresh => exact h.fresh
  | place places => exact h.place places

/-- **A whole run** keeps the invariant. -/
theorem runs {fs : List Event} (h : Rendered es a) (hr : Runs fs a a') : Rendered (es ++ fs) a' := by
  induction hr generalizing es with
  | nil a => simpa using h
  | cons head tail ih =>
    rw [← List.singleton_append, ← List.append_assoc]
    exact ih (h.happens head)

end Rendered

theorem Runs.rendered {es : List Event} {a : Assembler} {n : Nat} (h : Runs es (.start n) a) :
    Rendered es a :=
  (Rendered.start n).runs h

end ClassFoundry
