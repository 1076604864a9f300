import ClassFoundry.Proofs.Structured.Code

/-!
# The end of a method body

A flow that control cannot leave at the end is closed by a return or a jump. Labels may be placed
after it, but nothing branches to them, so every branch of a finished body leads to an
instruction.

## Main definitions

* `Reached`: the states of a run of the assembler
* `Assembler.Sealed`: no branch leads to the end of the code

## Main results

* `Flow.Laid.sealed`: the code of a flow that control cannot leave is sealed
-/

namespace ClassFoundry

/-- The states that a run of the assembler can get to. -/
def Reached (a : Assembler) : Prop := ∃ es n, Runs es (.start n) a

theorem lt_of_mem_starts {es : List Event} {offset t : Nat} (ht : t ∈ starts offset es) :
    t < offset + bytesOf es := by
  induction es generalizing offset with
  | nil => cases ht
  | cons e es ih =>
    have hbytes : bytesOf (e :: es) = e.length + bytesOf es := by simp [bytesOf]
    rw [hbytes, ← Nat.add_assoc]
    cases e with
    | emit i pops pushes =>
      have hpos : 0 < (Event.emit i pops pushes).length := by cases i <;> exact Nat.succ_pos _
      rcases List.mem_cons.1 ht with rfl | ht
      · omega
      · exact ih ht
    | branch op l =>
      rcases List.mem_cons.1 ht with rfl | ht
      · simp [Event.length]
        omega
      · exact ih ht
    | fresh => exact ih ht
    | place l => exact ih ht

namespace Reached

variable {a b : Assembler} {es : List Event}

theorem runs (h : Reached a) (hr : Runs es a b) : Reached b := by
  obtain ⟨fs, n, hfs⟩ := h
  exact ⟨fs ++ es, n, hfs.append hr⟩

theorem stretch {pool : ConstantPool} {targets : List Label} (h : Reached a)
    (hs : Stretch pool targets a b) : Reached b := by
  obtain ⟨es, hes, -⟩ := hs.runs
  exact h.runs hes

theorem size (h : Reached a) (hr : Runs es a b) : b.code.size = a.code.size + bytesOf es := by
  obtain ⟨fs, n, hfs⟩ := h
  rw [(hfs.append hr).rendered.size, hfs.rendered.size, bytesOf_append]

theorem offset_le (h : Reached a) {l : Label} {t : Nat} (ht : a.labels.offset? l = some t) :
    t ≤ a.code.size := by
  obtain ⟨fs, n, hfs⟩ := h
  rcases hfs.rendered.boundary l t ht with hmem | rfl
  · have := lt_of_mem_starts hmem
    rw [hfs.rendered.size]
    omega
  · exact Nat.le_refl _

theorem known (h : Reached a) : ∀ br ∈ a.branches.toList, br.2.id < a.labels.states.size := by
  obtain ⟨fs, n, hfs⟩ := h
  -- the induction is on the run, from any state in which all branches are known
  have hrun : ∀ {es : List Event} {a b : Assembler}, Runs es a b →
      (∀ br ∈ a.branches.toList, br.2.id < a.labels.states.size) →
      ∀ br ∈ b.branches.toList, br.2.id < b.labels.states.size := by
    intro es a b hr
    induction hr with
    | nil a => exact id
    | cons head tail ih =>
      intro h
      apply ih
      cases head with
      | emit _ _ emits =>
        rw [emits.branches, emits.labels]
        exact h
      | branch _ branches =>
        rw [branches.branches, branches.size, Array.toList_push]
        intro br hbr
        rcases List.mem_append.1 hbr with hbr | hbr
        · exact h br hbr
        · rw [List.mem_singleton.1 hbr]
          exact branches.known
      | fresh =>
        intro br hbr
        have := h br hbr
        simp [LabelTable.fresh]
        omega
      | place places =>
        rw [places.branches, places.size]
        exact h
  exact hrun hfs (by simp [Assembler.start])

end Reached

/-- No branch leads to the end of the code. -/
def Assembler.Sealed (a : Assembler) : Prop :=
  ∀ br ∈ a.branches.toList, ∀ t, a.labels.offset? br.2 = some t → t < a.code.size

section Sealed

variable {a b : Assembler}

/-- The code is sealed after an event that has bytes. -/
theorem Reached.sealed {e : Event} (h : Reached a) (he : e.Happens a b) (hpos : 0 < e.length) :
    b.Sealed ∧ 0 < b.code.size := by
  have hsize := h.size (.single he)
  have hbytes : bytesOf [e] = e.length := by simp [bytesOf]
  rw [hbytes] at hsize
  refine ⟨fun br hbr t ht => ?_, by omega⟩
  have hoffset : a.labels.offset? br.2 = some t := by
    cases he with
    | emit _ _ emits => rwa [emits.labels] at ht
    | branch _ branches => rwa [branches.offset] at ht
    | fresh => exact absurd hpos (by simp [Event.length])
    | place _ => exact absurd hpos (by simp [Event.length])
  have := h.offset_le hoffset
  omega

/-- A label that nothing branches to does not change that. -/
theorem Assembler.Sealed.place {l : Label} (h : a.Sealed) (ha : Reached a)
    (he : (Event.place l).Happens a b) (hl : ∀ br ∈ a.branches.toList, br.2 ≠ l) :
    b.Sealed ∧ b.code.size = a.code.size := by
  have hsize := ha.size (.single he)
  have hbytes : bytesOf [Event.place l] = 0 := by simp [bytesOf, Event.length]
  rw [hbytes, Nat.add_zero] at hsize
  cases he with
  | place places =>
    refine ⟨fun br hbr t ht => ?_, hsize⟩
    rw [places.branches] at hbr
    rw [places.offset, if_neg (hl br hbr)] at ht
    rw [hsize]
    exact h br hbr t ht

end Sealed

/-- **The code of a flow that control cannot leave** is not empty, and no branch leads to its
end. -/
theorem Flow.Laid.sealed {pool : ConstantPool} (c : Flow) (hends : c.ends = true)
    {inner : Option LoopLabels} {a a' : Assembler} (ha : Reached a)
    (hinner : ∀ l ∈ LoopLabels.list inner, l.id < a.labels.states.size)
    (h : c.Laid pool inner a a') : a'.Sealed ∧ 0 < a'.code.size := by
  induction c generalizing inner a a' with
  | seq first second _ ih =>
    obtain ⟨b, h₁, h₂⟩ := h
    have hs := Flow.Laid.stretch first h₁
    exact ih hends (ha.stretch hs) (fun l hl => Nat.lt_of_lt_of_le (hinner l hl) hs.size) h₂
  | ret value kind =>
    obtain ⟨b, h₁, h₂⟩ := h
    exact (ha.stretch (Fragment.Laid.stretch value h₁)).sealed h₂ (Nat.succ_pos _)
  | ifElse cond body orElse ih₁ ih₂ =>
    obtain ⟨b, c, d, e, f, g, h₁, h₂, h₃, h₄, h₅, h₆, h₇⟩ := h
    simp only [Flow.ends, Bool.and_eq_true] at hends
    unfold JumpsUnless at h₃ h₆
    rw [if_pos hends.1] at h₃
    rw [if_pos hends.2] at h₆
    subst h₃ h₆
    have hc := ((Stretch.refl pool (LoopLabels.list inner) a).fresh.trans
      (Condition.Laid.stretch cond h₁) (by simp)).append (Flow.Laid.stretch body h₂)
    have he := hc.fresh.place h₄ (by simp)
    have hf := Flow.Laid.stretch orElse h₅
    have hce := (Stretch.refl pool [] c).fresh
    have hsize : e.labels.states.size = c.labels.states.size + 1 := by
      cases h₄ with
      | place places => rw [places.size, Assembler.size_withLabel]
    have hknown (l : Label) (hl : l ∈ LoopLabels.list inner) : l.id < c.labels.states.size :=
      Nat.lt_of_lt_of_le (hinner l hl) hc.size
    obtain ⟨hsealed, hpos⟩ := ih₂ hends.2 (ha.stretch he)
      (fun l hl => Nat.lt_of_lt_of_le (hinner l hl) he.size) h₅
    obtain ⟨hsealed', hsize'⟩ := hsealed.place ((ha.stretch he).stretch hf) h₇ (by
      -- the label after both arms is not a target: no arm jumps to it
      intro br hbr heq
      obtain ⟨new, hnew, htargets⟩ := hf.branches
      rw [hnew] at hbr
      have hid : br.2.id = c.labels.states.size := by rw [heq, Assembler.id_nextLabel]
      rcases List.mem_append.1 hbr with hbr | hbr
      · have hbranches : e.branches = c.branches := by
          cases h₄ with
          | place places => exact places.branches
        rw [hbranches] at hbr
        have := (ha.stretch hc).known br hbr
        omega
      · rcases htargets br hbr with ht | ht
        · have := hknown _ ht
          omega
        · omega)
    exact ⟨hsealed', by omega⟩
  | «break» =>
    obtain ⟨labels, -, h⟩ := h
    exact ha.sealed h (Nat.succ_pos _)
  | «continue» =>
    obtain ⟨labels, -, h⟩ := h
    exact ha.sealed h (Nat.succ_pos _)
  | nil => cases hends
  | run code => cases hends
  | store value kind slot => cases hends
  | ifThen cond body => cases hends
  | loop cond body => cases hends

end ClassFoundry
