import ClassFoundry.Proofs.Boundaries
import ClassFoundry.Proofs.Verification

/-!
# The grammar of descriptors

What descriptors are is said by a grammar, and how they are read by two scanners. The scanner of the
parameters stops at the first closing parenthesis and takes apart all that is in front of it; it accepts
exactly what the grammar derives. The scanner of the result looks at one letter behind the last closing
parenthesis. Together they leave the text between the two open, and all but one letter behind.

## Main definitions

* `FieldForm`, `ParameterForm`, `MethodForm`: **the grammar**
* `Completes`: what a scanner still has to read of a field descriptor

## Main results

* `FieldForm.splitFrom_append`, `splitFrom_cases`: one field descriptor is read
* `parameters?_eq_some_iff`, `scanners_iff`: the scanners against the grammar
* `parameters_exact`: **the parameters of a descriptor** are unique and read exactly if there are some
* `descriptor_of_verify`: **the descriptors of all methods** of a class that passes the verifier
-/

namespace ClassFoundry.Descriptor

/-! ## The grammar -/

/-- **Field descriptors**: a letter for a primitive type, a class name between its delimiters, or a
bracket before a field descriptor. -/
inductive FieldForm : List Char → Prop
  | primitive {c : Char} (letter : c ∈ ['B', 'C', 'D', 'F', 'I', 'J', 'S', 'Z']) : FieldForm [c]
  | reference {name : List Char} (clean : ∀ c ∈ name, c ≠ ';' ∧ c ≠ ')') :
    FieldForm ('L' :: (name ++ [';']))
  | array {item : List Char} (form : FieldForm item) : FieldForm ('[' :: item)

/-- **The parameters of a descriptor**: field descriptors in parentheses, with any text behind. -/
def ParameterForm (d : String) (ps : List String) : Prop :=
  (∀ p ∈ ps, FieldForm p.toList) ∧ ∃ rest, d = "(" ++ String.join ps ++ ")" ++ rest

/-- The descriptor of a result: that of a field, or the letter of no result. -/
def ResultForm (t : String) : Prop := t = "V" ∨ FieldForm t.toList

/-- **Method descriptors**: parameters in parentheses before a result. -/
def MethodForm (d : String) : Prop :=
  ∃ ps result, (∀ p ∈ ps, FieldForm p.toList) ∧ ResultForm result ∧
    d = "(" ++ String.join ps ++ ")" ++ result

theorem isPrimitive_iff {c : Char} :
    isPrimitive c = true ↔ c ∈ ['B', 'C', 'D', 'F', 'I', 'J', 'S', 'Z'] := by
  simp [isPrimitive, or_assoc]

theorem FieldForm.ne_nil {t : List Char} (h : FieldForm t) : t ≠ [] := by
  cases h <;> exact List.cons_ne_nil _ _

/-- No field descriptor contains the parenthesis that ends the parameters. -/
theorem FieldForm.parenthesis_notMem {t : List Char} (h : FieldForm t) : ')' ∉ t := by
  induction h with
  | primitive letter =>
    rw [List.mem_singleton]
    rintro rfl
    simp at letter
  | reference clean =>
    intro hmem
    simp only [List.mem_cons, List.mem_append, List.not_mem_nil, or_false] at hmem
    rcases hmem with hmem | hmem | hmem
    · cases hmem
    · exact (clean _ hmem).2 rfl
    · cases hmem
  | array _ ih =>
    rw [List.mem_cons, not_or]
    exact ⟨by decide, ih⟩

/-! ## Reading field descriptors -/

/-- What completes the field descriptor of which a reader has read some: after brackets it is a whole
one, and inside of a class name the rest of the name. -/
def Completes : Place → List Char → Prop
  | .className, t => ∃ name, t = name ++ [';'] ∧ ∀ c ∈ name, c ≠ ';' ∧ c ≠ ')'
  | _, t => FieldForm t

section Reading

variable {place : Place} {field cs item : List Char} {acc r : Array String}

theorem Completes.of_form (h : FieldForm field) (hplace : place ≠ .className) :
    Completes place field := by
  cases place with
  | start => exact h
  | brackets => exact h
  | className => exact absurd rfl hplace

/-- A letter outside of class names. -/
theorem splitFrom_cons (hplace : place ≠ .className) (c : Char) (cs item : List Char)
    (acc : Array String) : splitFrom place (c :: cs) item acc =
      if c = '[' then splitFrom .brackets cs (c :: item) acc
      else if isPrimitive c then
        splitFrom .start cs [] (acc.push (String.ofList (c :: item).reverse))
      else if c = 'L' then splitFrom .className cs (c :: item) acc
      else none := by
  cases place with
  | start => rfl
  | brackets => rfl
  | className => exact absurd rfl hplace

/-- A whole field descriptor is read, whatever was read of it before. -/
theorem FieldForm.splitFrom_append (h : FieldForm field) (hplace : place ≠ .className)
    (rest item : List Char) (acc : Array String) : splitFrom place (field ++ rest) item acc =
      splitFrom .start rest [] (acc.push (String.ofList (item.reverse ++ field))) := by
  induction h generalizing place item with
  | @primitive c letter =>
    have hbracket : c ≠ '[' := by
      rintro rfl
      simp at letter
    rw [List.singleton_append, splitFrom_cons hplace, if_neg hbracket,
      if_pos (isPrimitive_iff.2 letter), List.reverse_cons]
  | @reference name clean =>
    rw [List.cons_append, splitFrom_cons hplace, if_neg (by decide), if_neg (by decide),
      if_pos rfl, List.append_assoc, List.singleton_append,
      splitFrom_className _ _ _ _ fun c hc => (clean c hc).1]
    simp
  | array _ ih =>
    rw [List.cons_append, splitFrom_cons hplace, if_pos rfl, ih (by simp)]
    simp

/-- **A reader that succeeds** has nothing to read, or reads what completes a field descriptor and goes
on with the next. -/
theorem splitFrom_cases (hcs : ')' ∉ cs) (h : splitFrom place cs item acc = some r) :
    (place = .start ∧ cs = [] ∧ r = acc) ∨ ∃ field rest, cs = field ++ rest ∧
      Completes place field ∧
      splitFrom .start rest [] (acc.push (String.ofList (item.reverse ++ field))) = some r := by
  induction cs generalizing place item with
  | nil =>
    cases place with
    | start => exact .inl ⟨rfl, rfl, (Option.some.inj h).symm⟩
    | brackets => cases h
    | className => cases h
  | cons c cs ih =>
    right
    rw [List.mem_cons, not_or] at hcs
    -- what is read from the next place on is put behind the letter
    have hnext {next : Place} (hne : next ≠ .start)
        (hread : splitFrom next cs (c :: item) acc = some r)
        (hform : ∀ t, Completes next t → Completes place (c :: t)) :
        ∃ field rest, c :: cs = field ++ rest ∧ Completes place field ∧
          splitFrom .start rest [] (acc.push (String.ofList (item.reverse ++ field))) = some r := by
      rcases ih hcs.2 hread with ⟨heq, -, -⟩ | ⟨field, rest, rfl, hfield, hrest⟩
      · exact absurd heq hne
      · exact ⟨c :: field, rest, rfl, hform field hfield, by simpa using hrest⟩
    by_cases hplace : place = .className
    · subst hplace
      rw [splitFrom] at h
      split at h
      · rename_i hend
        subst hend
        exact ⟨[';'], cs, rfl, ⟨[], rfl, by simp⟩, by simpa using h⟩
      · rename_i hend
        refine hnext (by simp) h ?_
        rintro t ⟨name, rfl, clean⟩
        exact ⟨c :: name, rfl, by simpa [hend, Ne.symm hcs.1] using clean⟩
    · rw [splitFrom_cons hplace] at h
      split at h
      · rename_i hbracket
        subst hbracket
        exact hnext (by simp) h fun t ht => .of_form (.array ht) hplace
      split at h
      · rename_i hletter
        exact ⟨[c], cs, rfl, .of_form (.primitive (isPrimitive_iff.1 hletter)) hplace,
          by simpa using h⟩
      split at h
      · rename_i hclass
        subst hclass
        refine hnext (by simp) h ?_
        rintro t ⟨name, rfl, clean⟩
        exact .of_form (.reference clean) hplace
      · cases h

/-- **A text is split into field descriptors** exactly if it is made of them. -/
theorem splitFrom_eq_some_iff (hcs : ')' ∉ cs) :
    splitFrom .start cs [] acc = some r ↔ ∃ ps : List String, (∀ p ∈ ps, FieldForm p.toList) ∧
      cs = ps.flatMap String.toList ∧ r = acc ++ ps.toArray := by
  constructor
  · -- each field descriptor leaves a shorter text
    intro h
    induction hn : cs.length using Nat.strong_induction_on generalizing cs acc with
    | _ n ih =>
      rcases splitFrom_cases hcs h with ⟨-, rfl, rfl⟩ | ⟨field, rest, rfl, hfield, hrest⟩
      · exact ⟨[], by simp, rfl, by simp⟩
      · have hshorter : rest.length < n := by
          have hpos := List.length_pos_iff.2 (FieldForm.ne_nil hfield)
          rw [← hn, List.length_append]
          omega
        have hclean : ')' ∉ rest := fun hmem => hcs (List.mem_append_right _ hmem)
        obtain ⟨ps, hps, rfl, rfl⟩ := ih _ hshorter hclean hrest rfl
        refine ⟨String.ofList field :: ps, ?_, by simp, by simp⟩
        rw [List.forall_mem_cons, String.toList_ofList]
        exact ⟨hfield, hps⟩
  · rintro ⟨ps, hps, rfl, rfl⟩
    clear hcs
    induction ps generalizing acc with
    | nil => simp [splitFrom]
    | cons p ps ih =>
      obtain ⟨hp, hps⟩ := List.forall_mem_cons.1 hps
      rw [List.flatMap_cons, hp.splitFrom_append (by simp), ih hps]
      simp

end Reading

/-! ## The parameters -/

theorem takeWhile_parenthesis {front : List Char} (h : ')' ∉ front) (back : List Char) :
    (front ++ ')' :: back).takeWhile (· != ')') = front := by
  rw [List.takeWhile_append_of_pos fun c hc => by simpa using fun heq : c = ')' => h (heq ▸ hc)]
  simp

theorem parenthesis_notMem_flatMap {ps : List String} (h : ∀ p ∈ ps, FieldForm p.toList) :
    ')' ∉ ps.flatMap String.toList := by
  intro hmem
  obtain ⟨p, hp, hmem⟩ := List.mem_flatMap.1 hmem
  exact (h p hp).parenthesis_notMem hmem

/-- The letters of parameters in parentheses and of what is behind them. -/
theorem toList_parameters (ps : List String) (rest : String) :
    ("(" ++ String.join ps ++ ")" ++ rest).toList =
      '(' :: (ps.flatMap String.toList ++ ')' :: rest.toList) := by
  simp [String.toList_join]

/-- **The scanner of the parameters** accepts what the grammar derives. -/
theorem parameters?_eq_some_iff {d : String} {ps : List String} :
    parameters? d = some ps ↔ ParameterForm d ps := by
  constructor
  · intro h
    unfold parameters? at h
    split at h
    · rename_i letters hletters
      split at h
      · rename_i hclosed
        obtain ⟨front, back, rfl, hfront⟩ :=
          List.eq_append_cons_of_mem (List.contains_iff_mem.1 hclosed)
        obtain ⟨r, hr, rfl⟩ := Option.map_eq_some_iff.1 h
        rw [takeWhile_parenthesis hfront] at hr
        obtain ⟨ps, hps, rfl, rfl⟩ := (splitFrom_eq_some_iff hfront).1 hr
        refine ⟨by simpa using hps, String.ofList back, ?_⟩
        apply String.toList_injective
        rw [hletters, toList_parameters]
        simp
      · cases h
    · cases h
  · rintro ⟨hps, rest, rfl⟩
    have hfront := parenthesis_notMem_flatMap hps
    unfold parameters?
    rw [toList_parameters]
    simp only [takeWhile_parenthesis hfront]
    rw [if_pos (by simp), (splitFrom_eq_some_iff hfront).2 ⟨ps, hps, rfl, rfl⟩]
    simp

/-- **The parameters of a descriptor** are those that the grammar derives: the scanner gives them, there
are no others, and it gives none exactly if the grammar derives none. -/
theorem parameters_exact (d : String) :
    (∀ ps, parameters? d = some ps ↔ ParameterForm d ps) ∧
      (∀ ps qs, ParameterForm d ps → ParameterForm d qs → ps = qs) ∧
      (parameters? d = none ↔ ∀ ps, ¬ ParameterForm d ps) := by
  refine ⟨fun ps => parameters?_eq_some_iff, fun ps qs hps hqs => ?_, ?_⟩
  · rw [← parameters?_eq_some_iff] at hps hqs
    exact Option.some.inj (hps.symm.trans hqs)
  · rw [Option.eq_none_iff_forall_ne_some]
    exact forall_congr' fun ps => not_congr parameters?_eq_some_iff

/-- Arrays, long integers and a class whose name is not of letters. -/
theorem parameters_exact_mixed :
    ParameterForm "([[IJLé[;)[" ["[[I", "J", "Lé[;"] ∧
      ∀ qs, ParameterForm "([[IJLé[;)[" qs → qs = ["[[I", "J", "Lé[;"] := by
  obtain ⟨hread, hunique, -⟩ := parameters_exact "([[IJLé[;)["
  have hform := (hread ["[[I", "J", "Lé[;"]).1 (by decide)
  exact ⟨hform, fun qs hqs => hunique qs _ hqs hform⟩

/-! ## Whole descriptors -/

section Descriptors

variable {ps qs : List String} {result other : String}

/-- A descriptor has one text behind its parameters. -/
theorem result_unique (hps : ∀ p ∈ ps, FieldForm p.toList) (hqs : ∀ q ∈ qs, FieldForm q.toList)
    (h : "(" ++ String.join ps ++ ")" ++ result = "(" ++ String.join qs ++ ")" ++ other) :
    result = other := by
  have hletters := congrArg String.toList h
  rw [toList_parameters, toList_parameters, List.cons.injEq] at hletters
  have hfront := congrArg (List.takeWhile (· != ')')) hletters.2
  rw [takeWhile_parenthesis (parenthesis_notMem_flatMap hps),
    takeWhile_parenthesis (parenthesis_notMem_flatMap hqs)] at hfront
  rw [hfront] at hletters
  apply String.toList_injective
  exact (List.cons.inj (List.append_cancel_left hletters.2)).2

/-- With proper parameters, a descriptor is as good as its result. -/
theorem methodForm_iff (hps : ∀ p ∈ ps, FieldForm p.toList) :
    MethodForm ("(" ++ String.join ps ++ ")" ++ result) ↔ ResultForm result := by
  constructor
  · rintro ⟨qs, other, hqs, hother, h⟩
    rwa [result_unique hps hqs h]
  · exact fun hresult => ⟨ps, result, hps, hresult, rfl⟩

/-- **What both scanners accept**: proper parameters, and behind them any text with an end that is no
closing parenthesis. -/
theorem scanners_iff {d : String} :
    (argumentWords? d).isSome ∧ (returnWords? d).isSome ↔
      ∃ ps result, (∀ p ∈ ps, FieldForm p.toList) ∧ d = "(" ++ String.join ps ++ ")" ++ result ∧
        ∃ last ∈ result.toList.getLast?, last ≠ ')' := by
  -- the last letter is that of the text behind the parameters, or the parenthesis before it
  have hlast (ps : List String) (result : String) :
      (∃ last ∈ ("(" ++ String.join ps ++ ")" ++ result).toList.getLast?, last ≠ ')') ↔
        ∃ last ∈ result.toList.getLast?, last ≠ ')' := by
    rw [toList_parameters, ← List.singleton_append, ← List.append_assoc, List.getLast?_append,
      List.getLast?_cons]
    cases result.toList.getLast? with
    | none => simp
    | some last => simp
  rw [argumentWords?, Option.isSome_map, returnWords?_isSome_iff]
  constructor
  · rintro ⟨hargs, -, hresult⟩
    obtain ⟨ps, hread⟩ := Option.isSome_iff_exists.1 hargs
    obtain ⟨hps, result, rfl⟩ := parameters?_eq_some_iff.1 hread
    exact ⟨ps, result, hps, rfl, (hlast ps result).1 hresult⟩
  · rintro ⟨ps, result, hps, rfl, hresult⟩
    rw [parameters?_eq_some_iff.2 ⟨hps, result, rfl⟩]
    exact ⟨rfl, by simp, (hlast ps result).2 hresult⟩

end Descriptors

/-- **The descriptors of all methods** of a class that passes the verifier: the parameters are as the
grammar says, and what is behind them does not end with a closing parenthesis. The whole is a method
descriptor exactly if what is behind the parameters is the descriptor of a result. -/
theorem descriptor_of_verify {c : ClassFile} (h : c.verify = .ok ()) {m : Method}
    (hm : m ∈ c.methods) :
    ∃ d ps result, c.pool.text? m.descriptor = some d ∧ (∀ p ∈ ps, FieldForm p.toList) ∧
      d = "(" ++ String.join ps ++ ")" ++ result ∧
      (∃ last ∈ result.toList.getLast?, last ≠ ')') ∧ (MethodForm d ↔ ResultForm result) := by
  obtain ⟨-, hmethods⟩ := passes_of_verify h
  obtain ⟨⟨name, d⟩, hpasses⟩ := hmethods m hm
  obtain ⟨args, hargs, -⟩ := hpasses.room
  obtain ⟨ps, result, hps, rfl, hresult⟩ :=
    scanners_iff.1 ⟨Option.isSome_of_eq_some hargs, hpasses.result⟩
  exact ⟨_, ps, result, hpasses.descriptor, hps, rfl, hresult, methodForm_iff hps⟩

/-- A class with a method that has no proper result. -/
def oddResult : ClassFile where
  pool := ⟨#[.utf8 "Odd", .class 1, .utf8 "java/lang/Object", .class 3, .utf8 "Code", .utf8 "odd",
    .utf8 "()Q"]⟩
  thisClass := 2
  superClass := 4
  methods := [⟨9, 6, 7, 5, 0, 0, #[0xb1]⟩]

/-- The verifier lets the class pass, although no result is written `Q`. -/
theorem descriptor_of_verify_oddResult :
    oddResult.verify = .ok () ∧ (∃ m ∈ oddResult.methods,
      oddResult.pool.text? m.descriptor = some "()Q") ∧ ¬ MethodForm "()Q" := by
  have hverify : oddResult.verify = .ok () := by cbv
  have hmem : ⟨9, 6, 7, 5, 0, 0, #[0xb1]⟩ ∈ oddResult.methods := List.mem_singleton.2 rfl
  have hread : oddResult.pool.text? 7 = some "()Q" := by decide
  refine ⟨hverify, ⟨_, hmem, hread⟩, ?_⟩
  obtain ⟨d, ps, result, hd, hps, heq, -, hform⟩ := descriptor_of_verify hverify hmem
  obtain rfl : "()Q" = d := Option.some.inj (hread.symm.trans hd)
  have hsplit : "(" ++ String.join [] ++ ")" ++ "Q" = "()Q" := by decide
  obtain rfl : "Q" = result := result_unique (by simp) hps (hsplit.trans heq)
  have hletters : "Q".toList = ['Q'] := by decide
  rw [hform, ResultForm, hletters]
  rintro (hvoid | hfield)
  · exact absurd hvoid (by decide)
  · cases hfield with
    | primitive letter => simp at letter

end ClassFoundry.Descriptor
