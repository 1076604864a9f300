import ClassFoundry.Proofs.Assembler.FarBranches

/-!
# Sequences of calls on a label table

Whatever labels are made and placed, and whenever branches come to wait for them: no branch is lost
and none is handed out twice. A branch is handed out with the first placement of its label that comes
after it and succeeds. So one that is added when its label has a place already waits for ever.

The account is kept by the numbers of the steps, since the same branch may be added more than once.

## Main definitions

* `LabelCall`, `LabelStep`: a call, and a call with the table on which it is performed
* `LabelHistory.dueAt?`: the step with which a branch is handed out
* `LabelTable.steps`, `LabelTable.afterAll`: the steps of a sequence of calls, and the table at its end
* `LabelTable.Accounted`, `LabelTable.Balanced`: what a history says of the table at its end

## Main results

* `LabelStep.effect`: what one step does to a table
* `LabelTable.Accounted.step`, `LabelTable.accounted_afterAll`: the account after one more step, and
  after every sequence of calls
* `LabelTable.balanced_of_calls`: **no branch is lost or duplicated**
-/

namespace ClassFoundry

/-- **A call** on a label table. -/
inductive LabelCall where
  | fresh
  | addPending (b : PendingBranch)
  | noteDepth (l : Label) (depth : Nat)
  | place (l : Label) (offset : Nat)
deriving DecidableEq

/-- How a call is done, with the branches that it hands out. -/
def LabelCall.perform : LabelCall → EStateM LabelError LabelTable (List PendingBranch)
  | .fresh => fun t => .ok [] t.fresh.2
  | .addPending b => fun t => .ok [] (t.addPending b)
  | .noteDepth l depth => fun t =>
    match t.noteDepth l depth with
    | .ok t' => .ok [] t'
    | .error e => .error e t
  | .place l offset => fun t =>
    match t.place l offset with
    | .ok (bs, t') => .ok bs t'
    | .error e => .error e t

/-- A call with the table on which it is performed. -/
structure LabelStep where
  before : LabelTable
  call : LabelCall

namespace LabelStep

variable (s : LabelStep)

/-- The table after the call, whether it succeeds or fails. -/
def after : LabelTable := stateAfter s.call.perform s.before

/-- The branches that the call hands out. -/
def handed : List PendingBranch :=
  match s.call.perform s.before with
  | .ok bs _ => bs
  | .error _ _ => []

/-- Whether the call succeeds. -/
def succeeds : Bool :=
  match s.call.perform s.before with
  | .ok _ _ => true
  | .error _ _ => false

/-- Whether the call makes a label. -/
def makes : Bool := s.call = .fresh

/-- The branch that the call adds. -/
def added? : Option PendingBranch :=
  match s.call with
  | .addPending b => some b
  | _ => none

/-- The offset at which the call places a label. -/
def fixed? (l : Label) : Option Nat :=
  match s.call with
  | .place l' offset => if l' = l ∧ s.succeeds then some offset else none
  | _ => none

/-- The depth that the call records for a label. -/
def noted? (l : Label) : Option Nat :=
  match s.call with
  | .noteDepth l' depth => if l' = l ∧ s.succeeds then some depth else none
  | _ => none

/-! ## One step -/

/-- **What a step does**: it hands out the branches that wait for the label it places, and the others
go on waiting. What is known of a label stays. -/
structure Effect : Prop where
  handed : s.handed = s.before.pending.toList.filter fun b => (s.fixed? b.label).isSome
  pending : s.after.pending.toList =
    s.before.pending.toList.filter (fun b => (s.fixed? b.label).isNone) ++ s.added?.toList
  size : s.after.states.size = s.before.states.size + if s.makes then 1 else 0
  offset : ∀ l, s.after.offset? l = (s.before.offset? l).or (s.fixed? l)
  depth : ∀ l, s.after.depthAt? l = (s.before.depthAt? l).or (s.noted? l)

variable {s}

/-- A call that fails does nothing. -/
theorem effect_of_fails {e : LabelError} (hfail : s.call.perform s.before = .error e s.before)
    (hmakes : s.makes = false) (hadded : s.added? = none) : s.Effect := by
  have hafter : s.after = s.before := by simp [after, stateAfter, hfail]
  have hsucceeds : s.succeeds = false := by simp [succeeds, hfail]
  have hfixed (l : Label) : s.fixed? l = none := by
    unfold fixed?
    split <;> simp [hsucceeds]
  have hnoted (l : Label) : s.noted? l = none := by
    unfold noted?
    split <;> simp [hsucceeds]
  constructor <;> simp [hafter, hfixed, hnoted, hmakes, hadded, handed, hfail]

variable {t t' : LabelTable} {l : Label}

theorem fresh_effect (t : LabelTable) : (LabelStep.mk t .fresh).Effect where
  handed := by simp [handed, fixed?, LabelCall.perform]
  pending := by simp [after, stateAfter, fixed?, added?, LabelCall.perform, LabelTable.fresh]
  size := by simp [after, stateAfter, makes, LabelCall.perform, LabelTable.fresh]
  offset l := by simp [after, stateAfter, fixed?, LabelCall.perform, LabelTable.fresh_offset?]
  depth l := by simp [after, stateAfter, noted?, LabelCall.perform, LabelTable.fresh_depthAt?]

theorem addPending_effect (t : LabelTable) (b : PendingBranch) :
    (LabelStep.mk t (.addPending b)).Effect where
  handed := by simp [handed, fixed?, LabelCall.perform]
  pending := by simp [after, stateAfter, fixed?, added?, LabelCall.perform, LabelTable.addPending]
  size := by simp [after, stateAfter, makes, LabelCall.perform, LabelTable.addPending]
  offset l := by
    simp [after, stateAfter, fixed?, LabelCall.perform, LabelTable.addPending, LabelTable.offset?_eq]
  depth l := by
    simp [after, stateAfter, noted?, LabelCall.perform, LabelTable.addPending, LabelTable.depthAt?]

theorem noteDepth_effect {depth : Nat} (h : t.noteDepth l depth = .ok t') :
    (LabelStep.mk t (.noteDepth l depth)).Effect := by
  have hperform : (LabelCall.noteDepth l depth).perform t = .ok [] t' := by
    simp [LabelCall.perform, h]
  obtain ⟨-, hsize, hpending, hoffset, hdepth⟩ := LabelTable.noteDepth_ok h
  constructor
  · simp [handed, fixed?, hperform]
  · simp [after, stateAfter, fixed?, added?, hperform, hpending]
  · simp [after, stateAfter, makes, hperform, hsize]
  · intro l'
    simp [after, stateAfter, fixed?, hperform, hoffset]
  · intro l'
    -- both sides keep a depth that is there already
    simp only [after, stateAfter, noted?, succeeds, hperform, hdepth, and_true, eq_comm (a := l')]
    split
    · rename_i heq
      rw [heq]
    · simp

theorem place_effect {offset : Nat} {bs : List PendingBranch}
    (h : t.place l offset = .ok (bs, t')) : (LabelStep.mk t (.place l offset)).Effect := by
  have hperform : (LabelCall.place l offset).perform t = .ok bs t' := by
    simp [LabelCall.perform, h]
  have hfixed (l' : Label) :
      (LabelStep.mk t (.place l offset)).fixed? l' = if l' = l then some offset else none := by
    simp [fixed?, succeeds, hperform, eq_comm]
  have hsome (l' : Label) :
      ((LabelStep.mk t (.place l offset)).fixed? l').isSome = decide (l' = l) := by
    rw [hfixed]
    split <;> simp [*]
  obtain ⟨-, hopen, hsize, hbs, hpending, hoffset, hdepth⟩ := LabelTable.place_ok h
  constructor
  · simp [handed, hperform, hbs, hsome]
  · simp [after, stateAfter, hperform, hpending, added?, ← Option.not_isSome, hsome]
  · simp [after, stateAfter, makes, hperform, hsize]
  · intro l'
    -- a label that is placed had no place before, so the new one does not come second
    simp only [after, stateAfter, hperform, hoffset, hfixed]
    split
    · rename_i heq
      simp [heq, hopen]
    · simp
  · intro l'
    simp [after, stateAfter, noted?, hperform, hdepth]

/-- **Every step** does what it should, also if its call fails. -/
theorem effect (s : LabelStep) : s.Effect := by
  obtain ⟨t, call⟩ := s
  cases call with
  | fresh => exact fresh_effect t
  | addPending b => exact addPending_effect t b
  | noteDepth l depth =>
    cases h : t.noteDepth l depth with
    | ok t' => exact noteDepth_effect h
    | error e =>
      have hfail : (LabelCall.noteDepth l depth).perform t = .error e t := by
        simp [LabelCall.perform, h]
      exact effect_of_fails hfail rfl rfl
  | place l offset =>
    cases h : t.place l offset with
    | ok r => exact place_effect h
    | error e =>
      have hfail : (LabelCall.place l offset).perform t = .error e t := by
        simp [LabelCall.perform, h]
      exact effect_of_fails hfail rfl rfl

/-- A step only divides the branches that wait. -/
theorem handed_append_perm (s : LabelStep) :
    (s.handed ++ s.before.pending.toList.filter fun b => (s.fixed? b.label).isNone).Perm
      s.before.pending.toList := by
  have hsplit := List.filter_append_perm (fun b => (s.fixed? b.label).isSome) s.before.pending.toList
  simpa only [s.effect.handed, Option.not_isSome] using hsplit

end LabelStep

/-! ## The account of a history -/

/-- Steps, one after the other. -/
abbrev LabelHistory := List LabelStep

namespace LabelHistory

variable (h : LabelHistory) (s : LabelStep)

/-- The branch that the `i`-th step adds. -/
def addedAt? (i : Nat) : Option PendingBranch := h[i]?.bind LabelStep.added?

/-- The branches that steps add. -/
def branchesAt (is : List Nat) : List PendingBranch := is.filterMap (addedAt? h)

/-- **The step with which a branch is handed out**, for the branch that the `i`-th step adds: the first
step after it that places its label. -/
def dueAt? (i : Nat) : Option Nat :=
  (addedAt? h i).bind fun b =>
    (h.zipIdx.find? fun p => i < p.2 && (p.1.fixed? b.label).isSome).map Prod.snd

/-- The steps whose branches are handed out with the `j`-th, in order. -/
def dueWith (j : Nat) : List Nat := (List.range h.length).filter (dueAt? h · = some j)

/-- The steps whose branches are not handed out, in order. -/
def waiting : List Nat :=
  (List.range h.length).filter fun i => (addedAt? h i).isSome && (dueAt? h i).isNone

/-- Whether one more step places the label of the branch that the `i`-th step adds. -/
def takes (i : Nat) : Bool := (addedAt? h i).any fun b => (s.fixed? b.label).isSome

variable {h} {i j : Nat}

theorem addedAt?_concat (hi : i < h.length) : addedAt? (h ++ [s]) i = addedAt? h i := by
  simp [addedAt?, List.getElem?_append_left hi]

theorem addedAt?_concat_length : addedAt? (h ++ [s]) h.length = s.added? := by
  simp [addedAt?]

theorem dueAt?_lt (hdue : dueAt? h i = some j) : i < j ∧ j < h.length := by
  obtain ⟨b, -, hfind⟩ := Option.bind_eq_some_iff.1 hdue
  obtain ⟨p, hp, rfl⟩ := Option.map_eq_some_iff.1 hfind
  have hlt := List.snd_lt_of_mem_zipIdx (List.mem_of_find?_eq_some hp)
  have hafter := List.find?_some hp
  simp only [Bool.and_eq_true, decide_eq_true_eq] at hafter
  exact ⟨hafter.1, by simpa using hlt⟩

/-- A branch that is due stays due, and one that is not may become due with the step that follows. -/
theorem dueAt?_concat (hi : i < h.length) :
    dueAt? (h ++ [s]) i = (dueAt? h i).or (if takes h s i then some h.length else none) := by
  unfold dueAt? takes
  rw [addedAt?_concat s hi]
  cases addedAt? h i with
  | none => simp
  | some b =>
    -- the search goes through the steps that were there before it comes to the new one
    simp only [Option.bind_some, Option.any_some, List.zipIdx_append, List.find?_append,
      Option.map_or]
    congr 1
    simp [List.find?_singleton, hi]

theorem dueAt?_concat_length : dueAt? (h ++ [s]) h.length = none := by
  cases hdue : dueAt? (h ++ [s]) h.length with
  | none => rfl
  | some j =>
    obtain ⟨hafter, hlt⟩ := dueAt?_lt hdue
    rw [List.length_append, List.length_singleton] at hlt
    omega

theorem filter_range_concat (p : Nat → Bool) : (List.range (h ++ [s]).length).filter p =
    (List.range h.length).filter p ++ [h.length].filter p := by
  rw [List.length_append, List.length_singleton, List.range_succ, List.filter_append]

/-- What goes on waiting are the branches whose label the step does not place, and its own. -/
theorem waiting_concat : waiting (h ++ [s]) =
    (waiting h).filter (!takes h s ·) ++ if s.added?.isSome then [h.length] else [] := by
  rw [waiting, filter_range_concat, waiting, List.filter_filter]
  congr 1
  · refine List.filter_congr fun i hi => ?_
    rw [List.mem_range] at hi
    rw [addedAt?_concat s hi, dueAt?_concat s hi]
    cases dueAt? h i <;> cases takes h s i <;> simp
  · rw [List.filter_singleton, addedAt?_concat_length, dueAt?_concat_length]
    simp

/-- The branch of the last step is not due. -/
theorem dueWith_concat_eq : dueWith (h ++ [s]) j =
    (List.range h.length).filter (dueAt? (h ++ [s]) · = some j) := by
  rw [dueWith, filter_range_concat, List.filter_singleton, dueAt?_concat_length]
  simp

/-- What earlier steps have handed out is not touched. -/
theorem dueWith_concat (hj : j < h.length) : dueWith (h ++ [s]) j = dueWith h j := by
  rw [dueWith_concat_eq]
  refine List.filter_congr fun i hi => ?_
  rw [dueAt?_concat s (List.mem_range.1 hi)]
  have hne : h.length ≠ j := hj.ne'
  cases dueAt? h i <;> cases takes h s i <;> simp [hne]

/-- The step hands out, of the branches that wait, those whose label it places. -/
theorem dueWith_concat_length : dueWith (h ++ [s]) h.length = (waiting h).filter (takes h s) := by
  rw [dueWith_concat_eq, waiting, List.filter_filter]
  refine List.filter_congr fun i hi => ?_
  rw [dueAt?_concat s (List.mem_range.1 hi)]
  cases hdue : dueAt? h i with
  | some j =>
    -- then the branch was handed out by an earlier step
    have hne : j ≠ h.length := (dueAt?_lt hdue).2.ne
    simp [hne]
  | none =>
    cases htakes : takes h s i with
    | false => simp
    | true =>
      have hadded : (addedAt? h i).isSome := Option.isSome_of_any htakes
      simp [hadded]

theorem branchesAt_concat {is : List Nat} (his : ∀ i ∈ is, i < h.length) :
    branchesAt (h ++ [s]) is = branchesAt h is :=
  List.filterMap_congr fun i hi => addedAt?_concat s (his i hi)

theorem branchesAt_filter {p : Nat → Bool} {q : PendingBranch → Bool}
    (hpq : ∀ i b, addedAt? h i = some b → p i = q b) (is : List Nat) :
    branchesAt h (is.filter p) = (branchesAt h is).filter q := by
  unfold branchesAt
  rw [List.filterMap_filter, List.filter_filterMap]
  refine List.filterMap_congr fun i _ => ?_
  cases hi : addedAt? h i with
  | none => simp
  | some b => simp [hpq i b hi, Option.filter]

theorem branchesAt_taken (is : List Nat) : branchesAt h (is.filter (takes h s)) =
    (branchesAt h is).filter fun b => (s.fixed? b.label).isSome := by
  refine branchesAt_filter (fun i b hi => ?_) is
  simp [takes, hi]

theorem branchesAt_left (is : List Nat) : branchesAt h (is.filter (!takes h s ·)) =
    (branchesAt h is).filter fun b => (s.fixed? b.label).isNone := by
  refine branchesAt_filter (fun i b hi => ?_) is
  simp [takes, hi]

theorem lt_of_mem_waiting (hi : i ∈ waiting h) : i < h.length :=
  List.mem_range.1 (List.mem_filter.1 hi).1

theorem lt_of_mem_dueWith (hi : i ∈ dueWith h j) : i < h.length :=
  List.mem_range.1 (List.mem_filter.1 hi).1

theorem branchesAt_waiting_concat : branchesAt (h ++ [s]) (waiting (h ++ [s])) =
    (branchesAt h (waiting h)).filter (fun b => (s.fixed? b.label).isNone) ++ s.added?.toList := by
  have hlast : branchesAt (h ++ [s]) (if s.added?.isSome then [h.length] else []) =
      s.added?.toList := by
    cases hadded : s.added? with
    | none => rfl
    | some b => simp [branchesAt, addedAt?_concat_length, hadded]
  rw [waiting_concat, ← branchesAt_left, ← hlast,
    ← branchesAt_concat s fun i hi => lt_of_mem_waiting (List.mem_filter.1 hi).1]
  exact List.filterMap_append

theorem length_branchesAt_waiting : (branchesAt h (waiting h)).length = (waiting h).length := by
  refine List.filterMap_length_eq_length.2 fun i hi => ?_
  have hwaits := (List.mem_filter.1 hi).2
  simp only [Bool.and_eq_true] at hwaits
  exact hwaits.1

end LabelHistory

namespace LabelTable

/-! ## Labels and branches that wait -/

section Queries

variable {t : LabelTable} {l : Label}

theorem entryDepth?_eq_ok_iff {d : Option Nat} :
    t.entryDepth? l = .ok d ↔ l.id < t.states.size ∧ t.depthAt? l = d := by
  unfold entryDepth? depthAt?
  by_cases hl : l.id < t.states.size
  · simp [hl]
  · simp [hl]

theorem place_eq_alreadyPlaced_iff {l' : Label} {offset : Nat} :
    t.place l offset = .error (.alreadyPlaced l') ↔ l' = l ∧ (t.offset? l).isSome := by
  rw [offset?_eq]
  unfold place
  cases t.states[l.id]? with
  | none => simp
  | some state =>
    cases hoffset : state.offset with
    | none => simp [hoffset]
    | some o => simp [hoffset, eq_comm]

theorem firstUnresolved?_eq_some_iff : t.firstUnresolved? = some l ↔
    (∃ b ∈ t.pending, b.label = l) ∧ ∀ b ∈ t.pending, l.id ≤ b.label.id := by
  constructor
  · intro h
    have hwaits : t.pending ≠ #[] := fun hempty => by
      rw [firstUnresolved?_eq_none_iff.2 hempty] at h
      cases h
    obtain ⟨b, hb⟩ := Array.exists_mem_of_ne_empty _ hwaits
    obtain ⟨l', hl', hleast⟩ := t.firstUnresolved?_least hb
    rw [h] at hl'
    cases hl'
    exact hleast
  · rintro ⟨⟨b, hb, rfl⟩, hle⟩
    obtain ⟨l', hl', ⟨b', hb', rfl⟩, hle'⟩ := t.firstUnresolved?_least hb
    have hid : b'.label.id = b.label.id := Nat.le_antisymm (hle' b hb) (hle b' hb')
    rw [hl', show b'.label = b.label from congrArg Label.mk hid]

end Queries

/-! ## Whole sequences -/

/-- The table after a call, whether it succeeds or fails. -/
def after (t : LabelTable) (call : LabelCall) : LabelTable := (LabelStep.mk t call).after

/-- The table after calls, one after the other. -/
def afterAll (t : LabelTable) (calls : List LabelCall) : LabelTable := calls.foldl after t

/-- The steps of calls, one after the other. -/
def steps (t : LabelTable) : List LabelCall → LabelHistory
  | [] => []
  | call :: calls => ⟨t, call⟩ :: steps (t.after call) calls

theorem steps_concat (t : LabelTable) (calls : List LabelCall) (call : LabelCall) :
    t.steps (calls ++ [call]) = t.steps calls ++ [⟨t.afterAll calls, call⟩] := by
  induction calls generalizing t with
  | nil => rfl
  | cons c calls ih => exact congrArg (_ :: ·) (ih _)

theorem afterAll_concat (t : LabelTable) (calls : List LabelCall) (call : LabelCall) :
    t.afterAll (calls ++ [call]) = (t.afterAll calls).after call := by
  simp [afterAll]

/-- What every call keeps is kept by calls one after the other. -/
theorem afterAll_keeps {P : LabelTable → Prop} (step : ∀ t call, P t → P (t.after call))
    {t : LabelTable} (h : P t) (calls : List LabelCall) : P (t.afterAll calls) := by
  induction calls generalizing t with
  | nil => exact h
  | cons call calls ih => exact ih (step t call h)

/-- **The account of a table**: what its history `h` says of it. -/
structure Accounted (h : LabelHistory) (t : LabelTable) : Prop where
  /-- A step hands out the branches that are due with it, in the order in which they were added. -/
  handed : ∀ j s, h[j]? = some s → s.handed = h.branchesAt (h.dueWith j)
  /-- The others wait, in the order in which they were added. -/
  waiting : t.pending.toList = h.branchesAt h.waiting
  /-- Every branch that was added was handed out or waits, and not more than once. -/
  conserved : (h.flatMap LabelStep.handed ++ t.pending.toList).Perm (h.filterMap LabelStep.added?)
  size : t.states.size = h.countP LabelStep.makes
  /-- A label is where it was first placed, and has the depth that was first recorded. -/
  offset : ∀ l, t.offset? l = h.findSome? (·.fixed? l)
  depth : ∀ l, t.depthAt? l = h.findSome? (·.noted? l)

theorem Accounted.start : Accounted [] {} where
  handed := by simp
  waiting := rfl
  conserved := .refl _
  size := rfl
  offset l := by simp [offset?_eq]
  depth l := by simp [depthAt?]

/-- One more step. -/
theorem Accounted.step {h : LabelHistory} {s : LabelStep} (hs : Accounted h s.before) :
    Accounted (h ++ [s]) s.after where
  handed := by
    intro j s' hj
    -- the new step takes from what was waiting, and what was handed out before stays handed out
    rcases Nat.lt_trichotomy j h.length with hlt | rfl | hgt
    · rw [List.getElem?_append_left hlt] at hj
      rw [hs.handed j s' hj, LabelHistory.dueWith_concat s hlt,
        LabelHistory.branchesAt_concat s fun i => LabelHistory.lt_of_mem_dueWith]
    · obtain rfl : s = s' := by simpa using hj
      rw [s.effect.handed, hs.waiting, LabelHistory.dueWith_concat_length,
        ← LabelHistory.branchesAt_taken, LabelHistory.branchesAt_concat s fun i hi =>
          LabelHistory.lt_of_mem_waiting (List.mem_filter.1 hi).1]
    · simp [List.getElem?_eq_none, Nat.succ_le_of_lt hgt] at hj
  waiting := by rw [s.effect.pending, hs.waiting, LabelHistory.branchesAt_waiting_concat]
  conserved := by
    calc (h ++ [s]).flatMap LabelStep.handed ++ s.after.pending.toList
      _ = h.flatMap LabelStep.handed ++ (s.handed ++
            s.before.pending.toList.filter fun b => (s.fixed? b.label).isNone) ++
          s.added?.toList := by simp [s.effect.pending]
      List.Perm _ (h.flatMap LabelStep.handed ++ s.before.pending.toList ++ s.added?.toList) :=
        (s.handed_append_perm.append_left _).append_right _
      List.Perm _ (h.filterMap LabelStep.added? ++ s.added?.toList) := hs.conserved.append_right _
      _ = (h ++ [s]).filterMap LabelStep.added? := by
        cases hadded : s.added? <;> simp [hadded]
  size := by rw [s.effect.size, hs.size, List.countP_append, List.countP_singleton]
  offset l := by
    rw [s.effect.offset, hs.offset, List.findSome?_append, List.findSome?_singleton]
  depth l := by
    rw [s.effect.depth, hs.depth, List.findSome?_append, List.findSome?_singleton]

/-- **Every sequence of calls** on an empty table is accounted for. -/
theorem accounted_afterAll (calls : List LabelCall) :
    Accounted (steps {} calls) (afterAll {} calls) := by
  -- from the end, since the last call finds the table that all the others leave
  induction calls using List.reverseRecOn with
  | nil => exact .start
  | append_singleton calls call ih =>
    rw [steps_concat, afterAll_concat]
    exact Accounted.step (s := ⟨_, call⟩) ih

theorem after_place_of_error {t : LabelTable} {l : Label} {offset : Nat} {e : LabelError}
    (h : t.place l offset = .error e) : t.after (.place l offset) = t := by
  simp [after, LabelStep.after, stateAfter, LabelCall.perform, h]

theorem after_offset? {t : LabelTable} {l : Label} {o : Nat} (call : LabelCall)
    (h : t.offset? l = some o) : (t.after call).offset? l = some o := by
  rw [after, (LabelStep.mk t call).effect.offset, h, Option.some_or]

theorem after_entryDepth? {t : LabelTable} {l : Label} {d : Nat} (call : LabelCall)
    (h : t.entryDepth? l = .ok (some d)) : (t.after call).entryDepth? l = .ok (some d) := by
  rw [entryDepth?_eq_ok_iff] at h ⊢
  obtain ⟨hknown, hdepth⟩ := h
  have heffect := (LabelStep.mk t call).effect
  refine ⟨?_, ?_⟩
  · rw [after, heffect.size]
    exact Nat.lt_add_right _ hknown
  · rw [after, heffect.depth, hdepth, Option.some_or]

/-- A label that has its place is refused, and the assembler stays as it was. -/
theorem place_of_alreadyPlaced {a : Assembler} {l : Label} {o : Nat}
    (h : a.labels.offset? l = some o) : Asm.place l a = .error (.labelAlreadyPlaced l) a := by
  have hplace : a.labels.place l a.code.size = .error (.alreadyPlaced l) :=
    place_eq_alreadyPlaced_iff.2 ⟨rfl, by simp [h]⟩
  -- the table is asked before any branch is completed
  have htake : Asm.takePending l a = .error (.labelAlreadyPlaced l) a := by
    simp [Asm.takePending, hplace, AsmError.ofLabelError]
  exact bind_error.2 (.inr ⟨_, a, Asm.pc_ok.2 ⟨rfl, rfl⟩, bind_error.2 (.inl htake)⟩)

/-- **What holds of a history** `h` of calls on an empty table, and of the table `t` at its end. -/
structure Balanced (h : LabelHistory) (t : LabelTable) : Prop extends Accounted h t where
  count : t.pending.size = h.waiting.length
  /-- The first label that is not resolved is the smallest one that a branch waits for. -/
  first : ∀ l, t.firstUnresolved? = some l ↔ (∃ b ∈ h.branchesAt h.waiting, b.label = l) ∧
    ∀ b ∈ h.branchesAt h.waiting, l.id ≤ b.label.id
  /-- Labels are numbered in the order in which they are made. -/
  made : t.fresh.1 = ⟨h.countP LabelStep.makes⟩
  entry : ∀ l, l.id < h.countP LabelStep.makes →
    t.entryDepth? l = .ok (h.findSome? (·.noted? l))
  /-- A depth can be recorded for every label that was made. -/
  notes : ∀ l depth, (∃ t', t.noteDepth l depth = .ok t') ↔ l.id < h.countP LabelStep.makes
  /-- A label can be placed if it was made and has not been placed yet. -/
  accepts : ∀ l offset, (∃ bs t', t.place l offset = .ok (bs, t')) ↔
    l.id < h.countP LabelStep.makes ∧ ∀ s ∈ h, s.fixed? l = none
  /-- A label that has been placed is refused. -/
  refuses : ∀ l l' offset, t.place l offset = .error (.alreadyPlaced l') ↔
    l' = l ∧ ∃ s ∈ h, (s.fixed? l).isSome
  /-- Then nothing changes, neither in the table nor in an assembler that has it. -/
  unchanged : ∀ l l' offset, t.place l offset = .error (.alreadyPlaced l') →
    t.after (.place l offset) = t ∧
      ∀ a : Assembler, a.labels = t → Asm.place l a = .error (.labelAlreadyPlaced l) a
  /-- Further calls leave the place of a label and its depth as they are. -/
  offset_stays : ∀ more l o, t.offset? l = some o → (t.afterAll more).offset? l = some o
  depth_stays : ∀ more l d, t.entryDepth? l = .ok (some d) →
    (t.afterAll more).entryDepth? l = .ok (some d)

/-- **A label table neither loses nor duplicates branches**, whatever calls are made on it and however
many of them fail. -/
theorem balanced_of_calls (calls : List LabelCall) :
    Balanced (steps {} calls) (afterAll {} calls) := by
  have hacc := accounted_afterAll calls
  exact
    { hacc with
      count := by
        rw [← Array.length_toList, hacc.waiting, LabelHistory.length_branchesAt_waiting]
      first := by
        intro l
        simp only [firstUnresolved?_eq_some_iff, ← hacc.waiting, Array.mem_toList_iff]
      made := by rw [fresh, hacc.size]
      entry := fun l hl => entryDepth?_eq_ok_iff.2 ⟨hacc.size ▸ hl, hacc.depth l⟩
      notes := fun l depth => by rw [exists_noteDepth_iff, hacc.size]
      accepts := by
        intro l offset
        rw [exists_place_iff, hacc.size, hacc.offset, List.findSome?_eq_none_iff]
      refuses := by
        intro l l' offset
        rw [place_eq_alreadyPlaced_iff, hacc.offset, List.findSome?_isSome_iff]
      unchanged := by
        intro l l' offset h
        refine ⟨after_place_of_error h, fun a ha => ?_⟩
        obtain ⟨-, hplaced⟩ := place_eq_alreadyPlaced_iff.1 h
        obtain ⟨o, ho⟩ := Option.isSome_iff_exists.1 hplaced
        exact place_of_alreadyPlaced (ha ▸ ho)
      offset_stays := fun more l o h =>
        afterAll_keeps (P := (·.offset? l = some o)) (fun _ => after_offset?) h more
      depth_stays := fun more l d h =>
        afterAll_keeps (P := (·.entryDepth? l = .ok (some d))) (fun _ => after_entryDepth?) h more }

example :
    let h := steps {} [.fresh, .addPending ⟨0, 1, ⟨0⟩⟩, .place ⟨0⟩ 3, .addPending ⟨3, 4, ⟨0⟩⟩,
      .place ⟨0⟩ 6]
    h.dueWith 2 = [1] ∧ h.dueWith 4 = [] ∧ h.waiting = [3] := by decide

end LabelTable

end ClassFoundry
