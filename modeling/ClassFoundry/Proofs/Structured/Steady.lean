import ClassFoundry.Proofs.Assembler.Depth
import ClassFoundry.Proofs.Structured.Ends
import ClassFoundry.Proofs.Structured.Operations
import ClassFoundry.Proofs.Structured.Typing

/-!
# Typed code is steady

Structured code that respects a typing, laid out, is a steady run of the assembler: the words of the
stack that the typing speaks of are those that the assembler counts, and all who meet at a label
agree on them.

## Main definitions

* `Typing.Counts`: a typing that keeps to the numbers of words
* `Closes`: a run ends with an instruction that control does not pass

## Main results

* `Fragment.Laid.steady`, `Condition.Laid.steady`, `Flow.Laid.steady`: typed code is steady
-/

namespace ClassFoundry

/-- A typing that keeps to the numbers of words: values fit only if they have equally many, and
those of calls and fields are what the descriptors say. -/
structure Typing.Counts (T : Typing) : Prop where
  fits : ∀ k k', T.fits k k' → k.words = k'.words
  calls : ∀ mode callee args result, T.calls mode callee args result →
    Descriptor.argumentWords? callee.descriptor = some (Kind.wordsOf args) ∧
      Descriptor.returnWords? callee.descriptor = some (returnWords result)
  fields : ∀ member, T.fields member → Descriptor.parameterWords member.descriptor = 1

section Words

variable {T : Typing} {Γ : Env} {pool : ConstantPool}

theorem Typing.Counts.wordsOf (hT : T.Counts) {ks ks' : List Kind}
    (h : List.Forall₂ T.fits ks ks') : Kind.wordsOf ks = Kind.wordsOf ks' := by
  induction h with
  | nil => rfl
  | cons hk _ ih => rw [Kind.wordsOf, Kind.wordsOf, hT.fits _ _ hk, ih]

theorem FrameOp.words?_of_kinds? {op : FrameOp} {takes gives : List Kind}
    (h : op.kinds? = some (takes, gives)) :
    op.words? pool = some (Kind.wordsOf takes, Kind.wordsOf gives) := by
  cases op <;> cases h <;> rfl

theorem Operation.words?_of_means (hT : T.Counts) {o : Operation} {i : Instruction}
    (hm : o.Means pool i) (ha : o.Allowed T Γ) :
    i.words? pool = some (Kind.wordsOf o.takes, Kind.wordsOf o.gives) := by
  cases o with
  | frame op =>
    obtain ⟨hk, hi⟩ := hm
    obtain ⟨⟨takes, gives⟩, hk⟩ := Option.isSome_iff_exists.1 hk
    simp only [Operation.takes, Operation.gives, hk, Option.getD_some]
    rcases hi with hi | ⟨index, hi, ⟨v, rfl, hg⟩ | ⟨v, rfl, hg⟩⟩
    · simp only [Instruction.words?, hi, Option.bind_some]
      exact FrameOp.words?_of_kinds? hk
    · cases hk
      simp [Instruction.words?, hi, Action.words?, FrameOp.words?, hg, Kind.wordsOf, Kind.words]
    · cases hk
      simp [Instruction.words?, hi, Action.words?, FrameOp.words?, hg, Kind.wordsOf, Kind.words]
  | drop kind =>
    cases hm
    cases kind <;> rfl
  | text value =>
    obtain ⟨index, n, hi, hg, -⟩ := hm
    simp [Instruction.words?, hi, Action.words?, FrameOp.words?, hg, Operation.takes,
      Operation.gives, Kind.wordsOf, Kind.words]
  | field member =>
    obtain ⟨index, hi, hmem⟩ := hm
    simp [Instruction.words?, hi, Action.words?, FrameOp.words?, hmem, Operation.takes,
      Operation.gives, Kind.wordsOf, Kind.words, hT.fields member ha]
  | invoke mode callee args result =>
    obtain ⟨index, hi, hmem⟩ := hm
    obtain ⟨hargs, hresult⟩ := hT.calls mode callee args result ha
    cases mode <;>
      simp [Instruction.words?, hi, Action.words?, hmem, hargs, hresult, Operation.takes,
        Operation.gives, Kind.wordsOf_append, Kind.wordsOf_reverse, Kind.wordsOf, Kind.words,
        returnWords]
  | create className =>
    obtain ⟨index, hi, -⟩ := hm
    simp [Instruction.words?, hi, Action.words?, Operation.takes, Operation.gives, Kind.wordsOf,
      Kind.words]

theorem Test.branchPops_opcode (t : Test) (jumpIf : Bool) :
    (t.opcode jumpIf).branchPops = Kind.wordsOf t.takes ∧
      (t.opcode jumpIf).isTerminal = false := by
  cases t with
  | zero test => cases test <;> cases jumpIf <;> decide
  | ints test => cases test <;> cases jumpIf <;> decide
  | refs same => cases same <;> cases jumpIf <;> decide

end Words

/-! ## Fragments and conditions -/

/-- A steady run after which control goes on with the given depth. -/
def LeadsTo (pool : ConstantPool) (a b : Assembler) (depth : Nat) : Prop :=
  (∃ es, SteadyRuns pool es a b) ∧ b.alive = true ∧ b.depth = depth

namespace LeadsTo

variable {pool : ConstantPool} {a b c : Assembler} {d d' : Nat} {l : Label}

theorem refl (halive : a.alive = true) (hd : a.depth = d) : LeadsTo pool a a d :=
  ⟨⟨[], .nil a⟩, halive, hd⟩

theorem trans (h : LeadsTo pool a b d) (h' : LeadsTo pool b c d') : LeadsTo pool a c d' := by
  obtain ⟨⟨es, hes⟩, -⟩ := h
  obtain ⟨⟨fs, hfs⟩, hrest⟩ := h'
  exact ⟨⟨es ++ fs, hes.append hfs⟩, hrest⟩

theorem fresh (h : LeadsTo pool a b d) : LeadsTo pool a b.withLabel d := by
  obtain ⟨⟨es, hes⟩, halive, hd⟩ := h
  have hsteady : Event.fresh.Steady pool b := trivial
  exact ⟨⟨es ++ [.fresh], hes.append (.single (.fresh b) hsteady)⟩, halive, hd⟩

theorem emit {i : Instruction} {pops pushes : Nat} (h : LeadsTo pool a b d)
    (he : (Event.emit i pops pushes).Happens b c) (hw : i.words? pool = some (pops, pushes))
    (ht : i.opcode.isTerminal = false) : LeadsTo pool a c (d - pops + pushes) := by
  obtain ⟨⟨es, hes⟩, halive, hd⟩ := h
  have hsteady : (Event.emit i pops pushes).Steady pool b := ⟨halive, hw, by simp [ht]⟩
  refine ⟨⟨_, hes.append (.single he hsteady)⟩, ?_⟩
  cases he with
  | emit _ _ emits =>
    rw [emits.alive, emits.depth, halive, ht, hd]
    exact ⟨rfl, rfl⟩

/-- A branch that control may pass. -/
theorem branch {op : Opcode} (h : LeadsTo pool a b (op.branchPops + d))
    (he : (Event.branch op l).Happens b c) (ht : op.isTerminal = false)
    (hl : ∀ n, b.labels.depthAt? l = some n → n = d) :
    LeadsTo pool a c d ∧ c.labels.depthAt? l = some d := by
  obtain ⟨⟨es, hes⟩, halive, hd⟩ := h
  have hsteady : (Event.branch op l).Steady pool b :=
    ⟨halive, fun n hn => by rw [hl n hn, hd]; omega⟩
  have hrun := hes.append (.single he hsteady)
  cases he with
  | branch _ branches =>
    have hdepth : c.depth = d := by rw [branches.depth, hd, Nat.add_sub_cancel_left]
    refine ⟨⟨⟨_, hrun⟩, ?_, hdepth⟩, ?_⟩
    · rw [branches.alive, halive, ht]
      rfl
    · rw [branches.entry, if_pos rfl, hdepth]
      cases hn : b.labels.depthAt? l with
      | none => rfl
      | some n => simp [hl n hn]

/-- A label at which all agree. -/
theorem place (h : LeadsTo pool a b d) (he : (Event.place l).Happens b c)
    (hl : ∀ n, b.labels.depthAt? l = some n → n = d) : LeadsTo pool a c d := by
  obtain ⟨⟨es, hes⟩, halive, hd⟩ := h
  have hsteady : (Event.place l).Steady pool b := fun _ n hn => (hl n hn).trans hd.symm
  refine ⟨⟨_, hes.append (.single he hsteady)⟩, ?_⟩
  cases he with
  | place places => exact ⟨places.alive, by rw [places.depth, if_pos halive, hd]⟩

end LeadsTo

/-- A jump to a label: its depth is recorded there, and control goes on only at the next label. -/
theorem SteadyRuns.goto (pool : ConstantPool) {a b : Assembler} {l : Label}
    (halive : a.alive = true) (he : (Event.branch .goto l).Happens a b)
    (hl : ∀ n, a.labels.depthAt? l = some n → n = a.depth) :
    (∃ es, SteadyRuns pool es a b) ∧ b.alive = false ∧ b.depth = a.depth ∧
      b.labels.depthAt? l = some a.depth := by
  have hsteady : (Event.branch .goto l).Steady pool a := ⟨halive, hl⟩
  refine ⟨⟨_, .single he hsteady⟩, ?_⟩
  cases he with
  | branch _ branches =>
    refine ⟨?_, branches.depth, ?_⟩
    · rw [branches.alive, halive]
      rfl
    · rw [branches.entry, if_pos rfl, branches.depth]
      cases hn : a.labels.depthAt? l with
      | none => rfl
      | some n => simpa using hl n hn

/-- A label that is reached only by branches. -/
theorem LeadsTo.place_dead {pool : ConstantPool} {a b c : Assembler} {l : Label} {d : Nat}
    {es : List Event} (h : SteadyRuns pool es a b) (halive : b.alive = false)
    (he : (Event.place l).Happens b c) (hd : (b.labels.depthAt? l).getD b.depth = d) :
    LeadsTo pool a c d := by
  have hsteady : (Event.place l).Steady pool b := fun h => by simp [halive] at h
  refine ⟨⟨_, h.append (.single he hsteady)⟩, ?_⟩
  cases he with
  | place places => exact ⟨places.alive, by rw [places.depth, if_neg (by simp [halive]), hd]⟩

section Steady

variable {T : Typing} {Γ : Env} {pool : ConstantPool} {a a' : Assembler}

theorem Operation.Laid.steady (hT : T.Counts) {o : Operation} {s s' : List Kind}
    (ho : o.Typed T Γ s s') (h : o.Laid pool a a') (halive : a.alive = true)
    (hd : a.depth = Kind.wordsOf s) : LeadsTo pool a a' (Kind.wordsOf s') := by
  obtain ⟨ha, taken, rest, rfl, hfits, rfl⟩ := ho
  obtain ⟨i, hm, -, ht, he⟩ := h
  have hrun := (LeadsTo.refl halive hd).emit he (Operation.words?_of_means hT hm ha) ht
  rw [Kind.wordsOf_append, hT.wordsOf hfits] at hrun
  rw [Kind.wordsOf_append]
  have heq : Kind.wordsOf o.takes + Kind.wordsOf rest - Kind.wordsOf o.takes +
      Kind.wordsOf o.gives = Kind.wordsOf o.gives + Kind.wordsOf rest := by omega
  rwa [heq] at hrun

/-- The depth at a label does not change in code that does not branch to it. -/
theorem Stretch.agrees {targets : List Label} {l : Label} {d : Nat} (hs : Stretch pool targets a a')
    (hl : l.id < a.labels.states.size) (ht : l ∉ targets)
    (h : ∀ n, a.labels.depthAt? l = some n → n = d) :
    ∀ n, a'.labels.depthAt? l = some n → n = d := by
  rwa [hs.entry l hl ht]

/-- Nothing is known of the depth at a label that is just made. -/
theorem depthAt?_nextLabel (a : Assembler) : a.labels.depthAt? a.nextLabel = none := by
  simp [LabelTable.depthAt?, Assembler.nextLabel]

theorem depthAt?_withLabel (a : Assembler) (l : Label) :
    a.withLabel.labels.depthAt? l = a.labels.depthAt? l :=
  LabelTable.fresh_depthAt? _ l

mutual

/-- **A typed fragment** is steady. -/
theorem Fragment.Laid.steady (hT : T.Counts) (c : Fragment) {a a' : Assembler}
    {s s' : List Kind} (hc : c.Typed T Γ s s') (h : c.Laid pool a a') (halive : a.alive = true)
    (hd : a.depth = Kind.wordsOf s) : LeadsTo pool a a' (Kind.wordsOf s') := by
  cases c with
  | nil =>
    cases hc
    cases h
    exact .refl halive hd
  | op o => exact Operation.Laid.steady hT hc h halive hd
  | seq first second =>
    obtain ⟨t, hc₁, hc₂⟩ := hc
    obtain ⟨b, h₁, h₂⟩ := h
    have hfirst := Fragment.Laid.steady hT first hc₁ h₁ halive hd
    exact hfirst.trans (Fragment.Laid.steady hT second hc₂ h₂ hfirst.2.1 hfirst.2.2)
  | truth cond =>
    obtain ⟨hcond, rfl⟩ := hc
    obtain ⟨b₁, b₂, b₃, b₄, b₅, h₁, h₂, h₃, h₄, h₅, h₆⟩ := h
    have hpush (v : Int32) : (Operation.frame (.pushInt v)).Typed T Γ s (.int :: s) :=
      Operation.typed_exact (.frame (.pushInt v)) trivial s
    have hstart : LeadsTo pool a a.withLabel.withLabel (Kind.wordsOf s) :=
      (LeadsTo.refl halive hd).fresh.fresh
    have hknown : a.nextLabel.id < a.withLabel.withLabel.labels.states.size := by
      simp only [Assembler.size_withLabel, Assembler.id_nextLabel]
      omega
    -- the condition branches to the first label with the stack as it was
    obtain ⟨hb₁, hotherwise⟩ := Condition.Laid.steady hT cond hcond h₁ hstart.2.1 hstart.2.2
      (by simp [depthAt?_withLabel, depthAt?_nextLabel]) hknown
    have hb₂ := (hstart.trans hb₁).trans
      (Operation.Laid.steady hT (hpush 1) h₂ hb₁.2.1 hb₁.2.2)
    -- and the jump to the second label takes the 1 along
    have hs₁ := Condition.Laid.stretch cond h₁
    have hs₂ := (Stretch.refl pool [] b₁).op h₂
    have hdone : ∀ n, b₂.labels.depthAt? a.withLabel.nextLabel = some n → n = b₂.depth := by
      refine hs₂.agrees (Nat.lt_of_lt_of_le (by simp) hs₁.size) (by simp)
        (hs₁.agrees (by simp) (by simp [Assembler.nextLabel]) ?_)
      simp [depthAt?_withLabel, depthAt?_nextLabel]
    obtain ⟨⟨fs, hfs⟩, hdead, hdepth, hl⟩ := SteadyRuns.goto pool hb₂.2.1 h₃ hdone
    obtain ⟨⟨es, hes⟩, -, hb₂depth⟩ := hb₂
    have hs₃ : Stretch pool [a.withLabel.nextLabel] b₂ b₃ :=
      (Stretch.refl pool _ b₂).branch h₃ (by simp)
    have hkept : b₃.labels.depthAt? a.nextLabel = some (Kind.wordsOf s) := by
      have hsize₁ : a.nextLabel.id < b₁.labels.states.size := Nat.lt_of_lt_of_le hknown hs₁.size
      rw [hs₃.entry _ (Nat.lt_of_lt_of_le hsize₁ hs₂.size) (by simp [Assembler.nextLabel]),
        hs₂.entry _ hsize₁ (by simp), hotherwise]
    have hb₄ : LeadsTo pool a b₄ (Kind.wordsOf s) :=
      LeadsTo.place_dead (hes.append hfs) hdead h₄ (by rw [hkept, Option.getD_some])
    have hb₅ := hb₄.trans (Operation.Laid.steady hT (hpush 0) h₅ hb₄.2.1 hb₄.2.2)
    refine hb₅.place h₆ ?_
    -- at the second label there is one value more, on both ways
    have hne : a.withLabel.nextLabel ≠ a.nextLabel := by simp [Assembler.nextLabel]
    have hid : a.withLabel.nextLabel.id < b₃.labels.states.size := by
      have h := hs₁.size
      have h' := hs₂.size
      have h'' := hs₃.size
      simp at h ⊢
      omega
    have hs₅ : b₅.labels.depthAt? a.withLabel.nextLabel =
        b₄.labels.depthAt? a.withLabel.nextLabel := by
      refine ((Stretch.refl pool [] b₄).op h₅).entry _ ?_ (by simp)
      cases h₄ with
      | place places => rwa [places.size]
    rw [hs₅]
    cases h₄ with
    | place places =>
      rw [places.entry, if_neg hne, hl, hb₂depth]
      simp

/-- **A typed condition** is steady, and its target is reached with the stack as it was. -/
theorem Condition.Laid.steady (hT : T.Counts) (c : Condition) {a a' : Assembler} {jumpIf : Bool}
    {target : Label} {s : List Kind} (hc : c.Typed T Γ s) (h : c.Laid pool jumpIf target a a')
    (halive : a.alive = true) (hd : a.depth = Kind.wordsOf s)
    (ht : ∀ n, a.labels.depthAt? target = some n → n = Kind.wordsOf s)
    (hk : target.id < a.labels.states.size) :
    LeadsTo pool a a' (Kind.wordsOf s) ∧
      a'.labels.depthAt? target = some (Kind.wordsOf s) := by
  cases c with
  | test operands t =>
    obtain ⟨taken, htyped, hfits⟩ := hc
    obtain ⟨b, h₁, h₂⟩ := h
    have hops := Fragment.Laid.steady hT operands htyped h₁ halive hd
    have hs := Fragment.Laid.stretch operands h₁
    obtain ⟨hpops, hterminal⟩ := t.branchPops_opcode jumpIf
    rw [Kind.wordsOf_append, hT.wordsOf hfits, ← hpops] at hops
    exact hops.branch h₂ hterminal (hs.agrees hk (by simp) ht)
  | logic op left right =>
    obtain ⟨hleft, hright⟩ := hc
    unfold Condition.Laid at h
    split at h
    · obtain ⟨b, h₁, h₂⟩ := h
      have hs := Condition.Laid.stretch left h₁
      obtain ⟨hb, htb⟩ := Condition.Laid.steady hT left hleft h₁ halive hd ht hk
      obtain ⟨ha', hta'⟩ := Condition.Laid.steady hT right hright h₂ hb.2.1 hb.2.2
        (by simp [htb]) (Nat.lt_of_lt_of_le hk hs.size)
      exact ⟨hb.trans ha', hta'⟩
    · obtain ⟨b, c, h₁, h₂, h₃⟩ := h
      have hstart : LeadsTo pool a a.withLabel (Kind.wordsOf s) := (LeadsTo.refl halive hd).fresh
      have hne : target ≠ a.nextLabel := by
        rintro rfl
        simp at hk
      have hs₁ := Condition.Laid.stretch left h₁
      have hs₂ := Condition.Laid.stretch right h₂
      have hknown : target.id < a.withLabel.labels.states.size := by
        rw [Assembler.size_withLabel]
        omega
      have hkb : target.id < b.labels.states.size := Nat.lt_of_lt_of_le hknown hs₁.size
      obtain ⟨hb, hskip⟩ := Condition.Laid.steady hT left hleft h₁ hstart.2.1 hstart.2.2
        (by simp [depthAt?_withLabel, depthAt?_nextLabel]) (by simp)
      obtain ⟨hc, htc⟩ := Condition.Laid.steady hT right hright h₂ hb.2.1 hb.2.2
        (hs₁.agrees hknown (by simpa using hne) (by simpa [depthAt?_withLabel] using ht)) hkb
      -- the skipped right side meets the one that was not skipped
      have hskip' : c.labels.depthAt? a.nextLabel = some (Kind.wordsOf s) := by
        rw [hs₂.entry _ (Nat.lt_of_lt_of_le (by simp) hs₁.size) (by simpa using hne.symm), hskip]
      refine ⟨((hstart.trans hb).trans hc).place h₃ (by simp [hskip']), ?_⟩
      cases h₃ with
      | place places => rw [places.entry, if_neg hne, htc]
  | not cond => exact Condition.Laid.steady hT cond hc h halive hd ht hk

end

/-! ## Flows -/

/-- Whether control does not pass an event. -/
def Event.isTerminal : Event → Bool
  | .emit i _ _ => i.opcode.isTerminal
  | .branch op _ => op.isTerminal
  | .fresh | .place _ => false

/-- The last of the events with bytes is one that control does not pass. -/
def Closes (es : List Event) : Prop :=
  ∃ front e rest, es = front ++ e :: rest ∧ e.isTerminal = true ∧ bytesOf rest = 0

theorem Closes.append {fs : List Event} (es : List Event) (h : Closes fs) : Closes (es ++ fs) := by
  obtain ⟨front, e, rest, rfl, he, hr⟩ := h
  exact ⟨es ++ front, e, rest, by simp, he, hr⟩

theorem Closes.extend {es fs : List Event} (h : Closes es) (hfs : bytesOf fs = 0) :
    Closes (es ++ fs) := by
  obtain ⟨front, e, rest, rfl, he, hr⟩ := h
  exact ⟨front, e, rest ++ fs, by simp, he, by rw [bytesOf_append, hr, hfs]⟩

/-- Between statements the stack is empty, and the labels of the loop around expect it to be. -/
structure Between (inner : Option LoopLabels) (a : Assembler) : Prop where
  depth : a.depth = 0
  known : ∀ l ∈ LoopLabels.list inner, l.id < a.labels.states.size
  agrees : ∀ l ∈ LoopLabels.list inner, ∀ n, a.labels.depthAt? l = some n → n = 0

namespace Between

variable {inner : Option LoopLabels} {b : Assembler} {l : Label}

theorem stretch {targets : List Label} (h : Between inner a) (hs : Stretch pool targets a b)
    (ht : ∀ l ∈ targets, a.labels.states.size ≤ l.id) (hd : b.depth = 0) : Between inner b where
  depth := hd
  known l hl := Nat.lt_of_lt_of_le (h.known l hl) hs.size
  agrees l hl := hs.agrees (h.known l hl)
    (fun hmem => Nat.not_le_of_lt (h.known l hl) (ht l hmem)) (h.agrees l hl)

theorem withLabel (h : Between inner a) : Between inner a.withLabel :=
  h.stretch (Stretch.refl {} [] a).fresh (by simp) h.depth

/-- A label is placed between statements. -/
theorem place (pool : ConstantPool) (h : Between inner a) (he : (Event.place l).Happens a b)
    (hl : ∀ n, a.labels.depthAt? l = some n → n = 0) :
    SteadyRuns pool [.place l] a b ∧ b.alive = true ∧ Between inner b ∧
      b.labels.depthAt? l = some b.depth := by
  have hsteady : (Event.place l).Steady pool a := fun _ n hn => (hl n hn).trans h.depth.symm
  refine ⟨.single he hsteady, ?_⟩
  have hlabel := depth_place he hsteady
  cases he with
  | place places =>
    have hzero : (a.labels.depthAt? l).getD 0 = 0 := by
      cases hn : a.labels.depthAt? l with
      | none => rfl
      | some n => exact hl n hn
    refine ⟨places.alive, ⟨?_, fun l' hl' => places.size ▸ h.known l' hl',
      fun l' hl' n hn => ?_⟩, hlabel⟩
    · rw [places.depth, h.depth, hzero, ite_self]
    · rw [places.entry] at hn
      split at hn
      · rcases Option.or_eq_some_iff.1 hn with hn | ⟨-, hn⟩
        · exact hl n hn
        · cases hn
          exact h.depth
      · exact h.agrees l' hl' n hn

/-- A jump between statements. -/
theorem jump (pool : ConstantPool) (h : Between inner a) (halive : a.alive = true)
    (he : (Event.branch .goto l).Happens a b) (hl : ∀ n, a.labels.depthAt? l = some n → n = 0) :
    SteadyRuns pool [.branch .goto l] a b ∧ Between inner b ∧ b.labels.depthAt? l = some 0 := by
  have hsteady : (Event.branch .goto l).Steady pool a :=
    ⟨halive, fun n hn => (hl n hn).trans h.depth.symm⟩
  refine ⟨.single he hsteady, ?_⟩
  cases he with
  | branch _ branches =>
    have hdepth : b.depth = 0 := branches.depth.trans h.depth
    have hlabel : b.labels.depthAt? l = some 0 := by
      rw [branches.entry, if_pos rfl, hdepth]
      cases hn : a.labels.depthAt? l with
      | none => rfl
      | some n => simp [hl n hn]
    refine ⟨⟨hdepth, fun l' hl' => branches.size ▸ h.known l' hl', fun l' hl' n hn => ?_⟩, hlabel⟩
    by_cases heq : l' = l
    · rw [heq, hlabel] at hn
      cases hn
      rfl
    · rw [branches.entry, if_neg heq] at hn
      exact h.agrees l' hl' n hn

/-- A jump that is left out where control does not get to it. -/
theorem jumpUnless (pool : ConstantPool) {ends : Bool} (h : Between inner a)
    (halive : ends = false → a.alive = true)
    (hj : JumpsUnless ends l a b) (hl : ∀ n, a.labels.depthAt? l = some n → n = 0) :
    ∃ es, SteadyRuns pool es a b ∧ Between inner b ∧
      (∀ n, b.labels.depthAt? l = some n → n = 0) ∧ (ends = true → es = []) := by
  unfold JumpsUnless at hj
  cases ends with
  | true =>
    obtain rfl : b = a := hj
    exact ⟨[], .nil b, h, hl, fun _ => rfl⟩
  | false =>
    obtain ⟨hrun, hb, hlabel⟩ := h.jump pool (halive rfl) hj hl
    exact ⟨_, hrun, hb, by simp [hlabel], nofun⟩

/-- A condition between statements. -/
theorem cond {c : Condition} {jumpIf : Bool} (hT : T.Counts) (hb : Between inner a)
    (hc : c.Typed T Γ []) (h : c.Laid pool jumpIf l a b) (halive : a.alive = true)
    (hk : l.id < a.labels.states.size) (hl : ∀ n, a.labels.depthAt? l = some n → n = 0)
    (hother : l ∉ LoopLabels.list inner) :
    (∃ es, SteadyRuns pool es a b) ∧ b.alive = true ∧ Between inner b ∧
      b.labels.depthAt? l = some 0 := by
  obtain ⟨⟨hrun, halive', hdepth⟩, hlabel⟩ :=
    Condition.Laid.steady hT c hc h halive hb.depth hl hk
  have hs := Condition.Laid.stretch c h
  refine ⟨hrun, halive', ⟨hdepth, fun l' hl' => Nat.lt_of_lt_of_le (hb.known l' hl') hs.size,
    fun l' hl' => hs.agrees (hb.known l' hl') ?_ (hb.agrees l' hl')⟩, hlabel⟩
  rintro hmem
  rw [List.mem_singleton.1 hmem] at hl'
  exact hother hl'

/-- What is taken off the stack again between statements. -/
theorem value {value : Fragment} {kind : Option Kind} (hT : T.Counts) (hb : Between inner a)
    (hv : value.Gives T Γ kind) (h : value.Laid pool a b) (halive : a.alive = true) :
    LeadsTo pool a b (returnWords kind) ∧ ∀ {c : Assembler}, Stretch pool [] b c → c.depth = 0 →
      Between inner c := by
  obtain ⟨taken, htyped, hfits⟩ := hv
  have hrun := Fragment.Laid.steady hT value htyped h halive hb.depth
  rw [hT.wordsOf hfits] at hrun
  exact ⟨hrun, fun hs hd =>
    hb.stretch ((Fragment.Laid.stretch value h).append hs) (by simp) hd⟩

end Between

theorem words?_return (pool : ConstantPool) (kind : Option Kind) :
    (Instruction.plain (returnOpcode kind)).words? pool = some (returnWords kind, 0) ∧
      (returnOpcode kind).isTerminal = true := by
  cases kind with
  | none => exact ⟨rfl, rfl⟩
  | some k => cases k <;> exact ⟨rfl, rfl⟩

theorem JumpsUnless.size {ends : Bool} {l : Label} {b : Assembler} (h : JumpsUnless ends l a b) :
    a.labels.states.size ≤ b.labels.states.size := by
  unfold JumpsUnless at h
  cases ends with
  | true =>
    obtain rfl : b = a := h
    exact Nat.le_refl _
  | false =>
    cases h with
    | branch _ branches => exact Nat.le_of_eq branches.size.symm

/-- A loop label is not one that is made inside the loop around. -/
theorem Between.fresh_notMem {inner : Option LoopLabels} (h : Between inner a) {l : Label}
    (hl : a.labels.states.size ≤ l.id) : l ∉ LoopLabels.list inner :=
  fun hmem => Nat.not_le_of_lt (h.known l hmem) hl

theorem depthAt?_place {b : Assembler} {l l' : Label} (he : (Event.place l).Happens a b)
    (hne : l' ≠ l) : b.labels.depthAt? l' = a.labels.depthAt? l' ∧
      b.labels.states.size = a.labels.states.size := by
  cases he with
  | place places => exact ⟨by rw [places.entry, if_neg hne], places.size⟩

/-- The labels of a loop are made, and control jumps over the start to the test: the body begins with
an empty stack, and so does whoever gets to one of the labels. -/
theorem Between.loopEntry (pool : ConstantPool) {inner : Option LoopLabels} {b c : Assembler}
    (hb : Between inner a)
    (halive : a.alive = true)
    (h₁ : (Event.branch .goto a.nextLabel).Happens a.withLabel.withLabel.withLabel b)
    (h₂ : (Event.place a.withLabel.nextLabel).Happens b c) :
    (∃ es, SteadyRuns pool es a c) ∧ c.alive = true ∧
      Between (some ⟨a.withLabel.withLabel.nextLabel, a.nextLabel⟩) c ∧
      a.withLabel.nextLabel.id < c.labels.states.size ∧
      c.labels.depthAt? a.withLabel.nextLabel = some 0 ∧
      a.withLabel.nextLabel ∉
        LoopLabels.list (some ⟨a.withLabel.withLabel.nextLabel, a.nextLabel⟩) := by
  have hfresh (a : Assembler) : SteadyRuns pool [.fresh] a a.withLabel :=
    .single (.fresh a) trivial
  -- the three labels are different
  have htest : a.nextLabel ≠ a.withLabel.nextLabel := by simp [Assembler.nextLabel]
  have hexit : a.withLabel.withLabel.nextLabel ≠ a.withLabel.nextLabel := by
    simp [Assembler.nextLabel]
  have hexit' : a.withLabel.withLabel.nextLabel ≠ a.nextLabel := by
    simp only [Assembler.nextLabel, Assembler.size_withLabel, ne_eq, Label.mk.injEq]
    omega
  obtain ⟨hjump, hb₁, htest₁⟩ := hb.withLabel.withLabel.withLabel.jump pool halive h₁
    (by simp [depthAt?_withLabel, depthAt?_nextLabel])
  have hs₁ : Stretch pool [a.nextLabel] a.withLabel.withLabel.withLabel b :=
    (Stretch.refl pool _ _).branch h₁ (by simp)
  have hsize₁ : a.labels.states.size + 3 ≤ b.labels.states.size := by
    have := hs₁.size
    simp only [Assembler.size_withLabel] at this
    omega
  have hstart₁ : b.labels.depthAt? a.withLabel.nextLabel = none := by
    rw [hs₁.entry _ (by simp) (by simpa using htest.symm)]
    simp [depthAt?_withLabel, depthAt?_nextLabel]
  have hexit₁ : b.labels.depthAt? a.withLabel.withLabel.nextLabel = none := by
    rw [hs₁.entry _ (by simp) (by simpa using hexit')]
    simp [depthAt?_withLabel, depthAt?_nextLabel]
  obtain ⟨hplace, halive₂, hb₂, hstart₂⟩ := hb₁.place pool h₂ (by simp [hstart₁])
  rw [hb₂.depth] at hstart₂
  obtain ⟨hexit₂, hsize₂⟩ := depthAt?_place h₂ hexit
  obtain ⟨htest₂, -⟩ := depthAt?_place h₂ htest
  refine ⟨⟨_, (hfresh a).append ((hfresh _).append ((hfresh _).append (hjump.append hplace)))⟩,
    halive₂, ⟨hb₂.depth, ?_, ?_⟩, ?_, hstart₂, ?_⟩
  · intro l hl
    simp only [LoopLabels.list, List.mem_cons, List.not_mem_nil, or_false] at hl
    rcases hl with rfl | rfl <;>
      simp only [Assembler.id_nextLabel, Assembler.size_withLabel, hsize₂] <;> omega
  · intro l hl
    simp only [LoopLabels.list, List.mem_cons, List.not_mem_nil, or_false] at hl
    rcases hl with rfl | rfl
    · simp [hexit₂, hexit₁]
    · simp [htest₂, htest₁]
  · simp only [Assembler.id_nextLabel, Assembler.size_withLabel, hsize₂]
    omega
  · simp [LoopLabels.list, hexit.symm, htest.symm]

/-- **A typed flow** is steady. The stack is empty between its statements, control gets to its end
unless it is one that control cannot leave, and in that case the last instruction is one that
control does not pass. -/
theorem Flow.Laid.steady (hT : T.Counts) (c : Flow) {result : Option Kind} {Γ Γ' : Env}
    {inner : Option LoopLabels} {a a' : Assembler} (hc : c.Typed T result Γ Γ')
    (h : c.Laid pool inner a a') (halive : a.alive = true) (hb : Between inner a) :
    ∃ es, SteadyRuns pool es a a' ∧ Between inner a' ∧ (c.ends = false → a'.alive = true) ∧
      (c.ends = true → Closes es) := by
  induction c generalizing Γ Γ' inner a a' with
  | nil =>
    obtain rfl : a' = a := h
    exact ⟨[], .nil a', hb, fun _ => halive, fun he => by cases he⟩
  | seq first second ih₁ ih₂ =>
    obtain ⟨hends, Δ, hc₁, hc₂⟩ := hc
    obtain ⟨b, h₁, h₂⟩ := h
    obtain ⟨es, hes, hb', halive', -⟩ := ih₁ hc₁ h₁ halive hb
    obtain ⟨fs, hfs, hbetween, hgoes, hcloses⟩ := ih₂ hc₂ h₂ (halive' hends) hb'
    exact ⟨es ++ fs, hes.append hfs, hbetween, hgoes, fun he => (hcloses he).append es⟩
  | run code =>
    obtain ⟨⟨es, hes⟩, halive', hdepth⟩ := Fragment.Laid.steady hT code hc.1 h halive hb.depth
    exact ⟨es, hes, hb.stretch (Fragment.Laid.stretch code h) (by simp) hdepth,
      fun _ => halive', fun he => by cases he⟩
  | store value kind slot =>
    obtain ⟨hv, -, -⟩ := hc
    obtain ⟨b, i, h₁, hm, hverified, h₂⟩ := h
    obtain ⟨hvalue, hafter⟩ := hb.value hT hv h₁ halive
    have hwords : i.words? pool = some (kind.words, 0) := by
      simp [Instruction.words?, hm.action, Action.words?, FrameOp.words?]
    obtain ⟨⟨es, hes⟩, halive', hdepth⟩ := hvalue.emit h₂ hwords hm.straight
    refine ⟨es, hes, hafter ((Stretch.refl pool [] b).emit hverified h₂) ?_, fun _ => halive',
      fun he => by cases he⟩
    simpa [returnWords, Kind.wordsOf] using hdepth
  | ret value kind =>
    obtain ⟨-, hv, -⟩ := hc
    obtain ⟨b, h₁, h₂⟩ := h
    obtain ⟨⟨⟨es, hes⟩, halive', hdepth⟩, hafter⟩ := hb.value hT hv h₁ halive
    obtain ⟨hwords, hterminal⟩ := words?_return pool kind
    have hsteady : (Event.emit (.plain (returnOpcode kind)) (returnWords kind) 0).Steady pool b :=
      ⟨halive', hwords, fun _ => ⟨hdepth, rfl⟩⟩
    refine ⟨_, hes.append (.single h₂ hsteady),
      hafter ((Stretch.refl pool [] b).emit rfl h₂) ?_, (fun he => by cases he), fun _ => ?_⟩
    · cases h₂ with
      | emit _ _ emits => rw [emits.depth, hdepth, Nat.sub_self]
    · exact ⟨es, _, [], rfl, hterminal, rfl⟩
  | ifThen cond body ih =>
    obtain ⟨hcond, ⟨Δ, hbody⟩, -⟩ := hc
    obtain ⟨b, c, h₁, h₂, h₃⟩ := h
    obtain ⟨⟨es, hes⟩, halive₁, hb₁, hl₁⟩ := hb.withLabel.cond hT hcond h₁ halive (by simp)
      (by simp [depthAt?_withLabel, depthAt?_nextLabel]) (hb.fresh_notMem (by simp))
    obtain ⟨fs, hfs, hb₂, -, -⟩ := ih hbody h₂ halive₁ hb₁
    -- the branch around the body meets the end of the body
    have hs₁ := Condition.Laid.stretch cond h₁
    have hl₂ : c.labels.depthAt? a.nextLabel = some 0 := by
      rw [(Flow.Laid.stretch body h₂).entry _ (Nat.lt_of_lt_of_le (by simp) hs₁.size)
        (hb.fresh_notMem (by simp)), hl₁]
    obtain ⟨hplace, halive₃, hb₃, -⟩ := hb₂.place pool h₃ (by simp [hl₂])
    have hfresh : SteadyRuns pool [.fresh] a a.withLabel := .single (.fresh a) trivial
    exact ⟨_, hfresh.append (hes.append (hfs.append hplace)), hb₃, fun _ => halive₃, fun he => by cases he⟩
  | ifElse cond body orElse ih₁ ih₂ =>
    obtain ⟨hcond, ⟨Δ, hbody⟩, ⟨Δ', helse⟩, -⟩ := hc
    obtain ⟨b, c, d, e, f, g, h₁, h₂, h₃, h₄, h₅, h₆, h₇⟩ := h
    obtain ⟨⟨es, hes⟩, halive₁, hb₁, hl₁⟩ := hb.withLabel.cond hT hcond h₁ halive (by simp)
      (by simp [depthAt?_withLabel, depthAt?_nextLabel]) (hb.fresh_notMem (by simp))
    obtain ⟨fs, hfs, hb₂, halive₂, -⟩ := ih₁ hbody h₂ halive₁ hb₁
    have hs₁ := Condition.Laid.stretch cond h₁
    have hs₂ := Flow.Laid.stretch body h₂
    have hid : a.nextLabel.id < b.labels.states.size := Nat.lt_of_lt_of_le (by simp) hs₁.size
    have hl₂ : c.labels.depthAt? a.nextLabel = some 0 := by
      rw [hs₂.entry _ hid (hb.fresh_notMem (by simp)), hl₁]
    -- the first arm jumps over the second one
    obtain ⟨js, hjs, hb₃, hl₃, -⟩ := hb₂.withLabel.jumpUnless pool halive₂ h₃
      (by simp [depthAt?_withLabel, depthAt?_nextLabel])
    have hs₃ := JumpsUnless.stretch (Stretch.refl pool [] c).fresh h₃ (Nat.le_refl _)
    have hlt : a.nextLabel.id < c.labels.states.size := Nat.lt_of_lt_of_le hid hs₂.size
    have hl₃' : d.labels.depthAt? a.nextLabel = some 0 := by
      rw [hs₃.entry _ hlt (by simp), hl₂]
    obtain ⟨hplace, halive₄, hb₄, -⟩ := hb₃.place pool h₄ (by simp [hl₃'])
    obtain ⟨gs, hgs, hb₅, halive₅, hcloses⟩ := ih₂ helse h₅ halive₄ hb₄
    -- where they meet the stack is empty, whichever of them gets there
    have hne : c.nextLabel ≠ a.nextLabel := by
      intro heq
      rw [← heq] at hlt
      exact Nat.lt_irrefl _ hlt
    obtain ⟨hentry, hsize⟩ := depthAt?_place h₄ hne
    have hid' : c.nextLabel.id < e.labels.states.size := by
      rw [hsize]
      refine Nat.lt_of_lt_of_le ?_ (JumpsUnless.size h₃)
      simp
    have hl₅ : ∀ n, f.labels.depthAt? c.nextLabel = some n → n = 0 :=
      (Flow.Laid.stretch orElse h₅).agrees hid' (hb₂.fresh_notMem (Nat.le_refl _))
        (by rwa [hentry])
    obtain ⟨ks, hks, hb₆, hl₆, hnone⟩ := hb₅.jumpUnless pool halive₅ h₆ hl₅
    obtain ⟨hplace', halive₇, hb₇, -⟩ := hb₆.place pool h₇ hl₆
    have hfresh (a : Assembler) : SteadyRuns pool [.fresh] a a.withLabel :=
      .single (.fresh a) trivial
    have hfront := (hfresh a).append (hes.append (hfs.append
      ((hfresh c).append (hjs.append hplace))))
    refine ⟨_, hfront.append (hgs.append (hks.append hplace')), hb₇, fun _ => halive₇,
      fun hends => .append _ ?_⟩
    have hends := (Bool.and_eq_true_iff.1 hends).2
    rw [hnone hends]
    exact (hcloses hends).extend rfl
  | loop cond body ih =>
    obtain ⟨hcond, ⟨Δ, hbody⟩, -⟩ := hc
    obtain ⟨b, c, d, e, f, h₁, h₂, h₃, h₄, h₅, h₆⟩ := id h
    obtain ⟨⟨es, hes⟩, halive₂, hb₂, hid, hstart₂, hother⟩ := hb.loopEntry pool halive h₁ h₂
    obtain ⟨fs, hfs, hb₃, -, -⟩ := ih hbody h₃ halive₂ hb₂
    obtain ⟨hplace₄, halive₄, hb₄, -⟩ := hb₃.place pool h₄
      (hb₃.agrees _ (by simp [LoopLabels.list]))
    -- the test jumps back to the start with the stack that the start was placed with
    have hs₃ := Flow.Laid.stretch body h₃
    have hne : a.withLabel.nextLabel ≠ a.nextLabel := by simp [Assembler.nextLabel]
    obtain ⟨hstart₄, hsize₄⟩ := depthAt?_place h₄ hne
    have hstart₄ : e.labels.depthAt? a.withLabel.nextLabel = some 0 := by
      rw [hstart₄, hs₃.entry _ hid hother, hstart₂]
    obtain ⟨⟨gs, hgs⟩, halive₅, hb₅, -⟩ := hb₄.cond hT hcond h₅ halive₄
      (hsize₄ ▸ Nat.lt_of_lt_of_le hid hs₃.size) (by simp [hstart₄]) hother
    obtain ⟨hplace₆, halive₆, hb₆, -⟩ := hb₅.place pool h₆
      (hb₅.agrees _ (by simp [LoopLabels.list]))
    -- all these branches stay inside: the labels of the loop around are not touched
    have hinside := @Flow.Laid.stretch pool (.loop cond body) none a a' h
    exact ⟨_, hes.append (hfs.append (hplace₄.append (hgs.append hplace₆))),
      hb.stretch hinside (by simp [LoopLabels.list]) hb₆.depth, fun _ => halive₆,
      fun he => by cases he⟩
  | «break» =>
    obtain ⟨labels, rfl, h⟩ := h
    obtain ⟨hrun, hb', -⟩ := hb.jump pool halive h (hb.agrees _ (by simp [LoopLabels.list]))
    exact ⟨_, hrun, hb', (fun he => by cases he), fun _ => ⟨[], _, [], rfl, rfl, rfl⟩⟩
  | «continue» =>
    obtain ⟨labels, rfl, h⟩ := h
    obtain ⟨hrun, hb', -⟩ := hb.jump pool halive h (hb.agrees _ (by simp [LoopLabels.list]))
    exact ⟨_, hrun, hb', (fun he => by cases he), fun _ => ⟨[], _, [], rfl, rfl, rfl⟩⟩

end Steady

end ClassFoundry
