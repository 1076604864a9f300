import ClassFoundry.ClassFile.Listing

/-!
# Constants in listings

A listing shows behind an index what the constant stands for. The text is cut out of the description of
the constant, which has it behind a pair of slashes and a blank. It is looked for from the end, so a
text that has the same three characters in it is cut behind the last of them. All other texts are shown
as they are.

## Main definitions

* `Constant.referent?`: the text that a constant stands for
* `Instruction.constantIndex?`: the index of the constant that an instruction refers to
* `codeLine`: the line of an instruction
* `Marked`: texts that are cut

## Main results

* `afterSlashesFrom_cases`: what is found behind slashes
* `afterSlashes_append`: the slashes of a description are not mistaken for others
* `listCode_split`: the lines of a listing, one for each instruction
* `listCode_constant`: **what a listing shows of a constant**
-/

namespace ClassFoundry

/-- The text that a constant stands for, if all that it refers to is there. -/
def Constant.referent? (pool : ConstantPool) : Constant → Option String
  | .class name => pool.text? name
  | .string text => (pool.text? text).map Text.quoteString
  | .fieldRef cls sig | .methodRef cls sig =>
    (pool.memberOf? cls sig).map fun m => m.owner ++ "." ++ m.name ++ ":" ++ m.descriptor
  | .nameAndType name descriptor =>
    match pool.text? name, pool.text? descriptor with
    | some name, some descriptor => some (name ++ ":" ++ descriptor)
    | _, _ => none
  | _ => none

/-- The index of the constant that an instruction refers to. -/
def Instruction.constantIndex? : Instruction → Option UInt16
  | .byte op operand => if op = .ldc then some operand.toUInt16 else none
  | .short op operand => if op.takesConstant then some operand else none
  | _ => none

/-- The line of an instruction. -/
def codeLine (pool : ConstantPool) (e : Nat × Instruction) : String :=
  lineHead e.1 ++ e.2.mnemonic ++ e.2.operandText pool e.1 ++ "\n"

/-- A pair of slashes and a blank. -/
def marker : List Char := ['/', '/', ' ']

/-- Texts with a pair of slashes and a blank in them. -/
def Marked (text : String) : Prop := marker <:+: text.toList

/-! ## The search for slashes -/

theorem afterSlashesFrom_cons {found cs : List Char} {c : Char} (h : ¬ marker <+: c :: cs) :
    afterSlashesFrom found (c :: cs) = afterSlashesFrom found cs := by
  rw [afterSlashesFrom]
  rintro rest rfl rfl
  exact h (List.prefix_append marker rest)

theorem afterSlashesFrom_marker (found rest : List Char) :
    afterSlashesFrom found (marker ++ rest) = afterSlashesFrom rest rest := by
  -- behind the first slash no other marker begins before the rest
  show afterSlashesFrom rest ('/' :: ' ' :: rest) = _
  rw [afterSlashesFrom_cons (by simp [marker]), afterSlashesFrom_cons (by simp [marker])]

/-- **What is found behind slashes**: nothing new if there are none, and otherwise what follows the last
ones. -/
theorem afterSlashesFrom_cases (found cs : List Char) :
    (¬ marker <:+: cs ∧ afterSlashesFrom found cs = found) ∨
      ∃ before, cs = before ++ marker ++ afterSlashesFrom found cs ∧
        ¬ marker <:+: afterSlashesFrom found cs := by
  induction cs generalizing found with
  | nil => exact .inl ⟨by simp [marker], rfl⟩
  | cons c cs ih =>
    by_cases hmarker : marker <+: c :: cs
    · obtain ⟨rest, hrest⟩ := hmarker
      obtain ⟨rfl, rfl⟩ : c = '/' ∧ cs = '/' :: ' ' :: rest := (List.cons.inj hrest.symm)
      have hstep : afterSlashesFrom found ('/' :: '/' :: ' ' :: rest) =
          afterSlashesFrom rest ('/' :: ' ' :: rest) := rfl
      -- what was found before is given up for the rest, so something is found in any case
      right
      rw [hstep]
      rcases ih rest with ⟨hnone, heq⟩ | ⟨before, hcs, hnone⟩
      · -- these slashes are the last ones
        rw [heq]
        exact ⟨[], rfl, fun hrest => hnone (hrest.trans ⟨['/', ' '], [], by simp⟩)⟩
      · exact ⟨'/' :: before, congrArg ('/' :: ·) hcs, hnone⟩
    · rw [afterSlashesFrom_cons hmarker]
      rcases ih found with ⟨hnone, heq⟩ | ⟨before, hcs, hnone⟩
      · refine .inl ⟨?_, heq⟩
        rw [List.infix_cons_iff, not_or]
        exact ⟨hmarker, hnone⟩
      · exact .inr ⟨c :: before, congrArg (c :: ·) hcs, hnone⟩

/-- What stands in front of slashes makes no difference. -/
theorem afterSlashesFrom_append (found head rest : List Char) :
    afterSlashesFrom found (head ++ marker ++ rest) = afterSlashesFrom rest rest := by
  induction head generalizing found with
  | nil => exact afterSlashesFrom_marker found rest
  | cons c head ih =>
    rw [List.cons_append, List.cons_append]
    by_cases hmarker : marker <+: c :: (head ++ marker ++ rest)
    · -- these may run into the slashes behind the head, which are found all the same
      obtain ⟨after, hafter⟩ := hmarker
      have hstep : afterSlashesFrom found (c :: (head ++ marker ++ rest)) =
          afterSlashesFrom after (head ++ marker ++ rest) := by
        obtain ⟨rfl, htail⟩ := List.cons.inj hafter
        rw [← htail]
        rfl
      rw [hstep, ih]
    · rw [afterSlashesFrom_cons hmarker, ih]

/-- The slashes of a description are not mistaken for others. -/
theorem afterSlashes_append (head text : String) :
    afterSlashes (head ++ " // " ++ text) = afterSlashes text := by
  unfold afterSlashes
  have hsplit : (head ++ " // " ++ text).toList = head.toList ++ [' '] ++ marker ++ text.toList := by
    simp [marker]
  dsimp only
  rw [hsplit, afterSlashesFrom_append]

/-- **A text as it is shown**: all of it, or what follows the last slashes in it. -/
theorem afterSlashes_cases (text : String) :
    (¬ Marked text ∧ afterSlashes text = text) ∨
      ∃ before, text = before ++ "// " ++ afterSlashes text ∧ ¬ Marked (afterSlashes text) := by
  unfold Marked afterSlashes
  dsimp only
  rw [String.toList_ofList]
  rcases afterSlashesFrom_cases text.toList text.toList with ⟨hnone, heq⟩ | ⟨before, htext, hnone⟩
  · exact .inl ⟨hnone, by rw [heq, String.ofList_toList]⟩
  · refine .inr ⟨String.ofList before, String.toList_inj.1 ?_, hnone⟩
    simpa [marker] using htext

/-- A text is shown as it is exactly if it has no slashes and blank in it. -/
theorem afterSlashes_eq_self_iff (text : String) : afterSlashes text = text ↔ ¬ Marked text := by
  rcases afterSlashes_cases text with ⟨hnone, heq⟩ | ⟨before, htext, -⟩
  · exact iff_of_true heq hnone
  · refine iff_of_false (fun heq => ?_) (fun hnone => hnone ?_)
    · have hlength := congrArg String.length htext
      rw [heq, String.length_append, String.length_append] at hlength
      have : "// ".length = 3 := rfl
      omega
    · refine ⟨before.toList, (afterSlashes text).toList, ?_⟩
      conv => rhs; rw [htext]
      simp [marker]

instance (text : String) : Decidable (Marked text) :=
  decidable_of_iff (afterSlashes text ≠ text)
    (by rw [ne_eq, afterSlashes_eq_self_iff, Classical.not_not])

/-! ## Descriptions -/

theorem ConstantPool.textOr_of_text? {pool : ConstantPool} {index : UInt16} {text : String}
    (h : pool.text? index = some text) : pool.textOr index = text := by
  rw [ConstantPool.textOr, h, Option.getD_some]

theorem ConstantPool.memberText_of_memberOf? {pool : ConstantPool} {cls sig : UInt16} {m : Member}
    (h : pool.memberOf? cls sig = some m) :
    pool.memberText cls sig = m.owner ++ "." ++ m.name ++ ":" ++ m.descriptor := by
  rw [ConstantPool.memberText, h]

/-- The description of a constant ends with the text that it stands for. -/
theorem Constant.describe_of_referent? {pool : ConstantPool} {c : Constant} {text : String}
    (h : c.referent? pool = some text) : ∃ head, c.describe pool = head ++ " // " ++ text := by
  unfold Constant.referent? at h
  unfold Constant.describe
  cases c with
  | «class» name => exact ⟨_, by rw [← ConstantPool.textOr_of_text? h]⟩
  | string index =>
    obtain ⟨quoted, htext, rfl⟩ := Option.map_eq_some_iff.1 h
    exact ⟨_, by rw [← ConstantPool.textOr_of_text? htext]⟩
  | fieldRef cls sig | methodRef cls sig =>
    obtain ⟨m, hm, rfl⟩ := Option.map_eq_some_iff.1 h
    exact ⟨_, by rw [← ConstantPool.memberText_of_memberOf? hm]⟩
  | nameAndType name descriptor =>
    dsimp only at h ⊢
    split at h
    · rename_i hname hdescriptor
      obtain rfl := Option.some.inj h
      rw [ConstantPool.textOr_of_text? hname, ConstantPool.textOr_of_text? hdescriptor]
      exact ⟨"NameAndType " ++ indexText name ++ ":" ++ indexText descriptor,
        by simp only [String.append_assoc]⟩
    · cases h
  | _ => cases h

theorem constantOperand_of_referent? {pool : ConstantPool} {index : UInt16} {c : Constant}
    {text : String} (hc : pool.get? index = some c) (htext : c.referent? pool = some text) :
    constantOperand pool index = " " ++ indexText index ++ " // " ++ afterSlashes text := by
  obtain ⟨head, hhead⟩ := Constant.describe_of_referent? htext
  unfold constantOperand
  rw [hc]
  dsimp only
  rw [hhead, afterSlashes_append]

theorem Instruction.operandText_of_constantIndex? {pool : ConstantPool} {i : Instruction}
    {index : UInt16} (h : i.constantIndex? = some index) (pc : Nat) :
    i.operandText pool pc = constantOperand pool index := by
  cases i with
  | byte op operand =>
    obtain ⟨hop, hindex⟩ := Option.ite_none_right_eq_some.1 h
    obtain rfl := Option.some.inj hindex
    rw [hop]
    rfl
  | short op operand =>
    obtain ⟨hop, hindex⟩ := Option.ite_none_right_eq_some.1 h
    obtain rfl := Option.some.inj hindex
    -- one operand of two bytes is a number of its own
    have hne : op ≠ .sipush := by
      rintro rfl
      cases hop
    simp only [Instruction.operandText, if_neg hne, if_pos hop]
  | _ => cases h

/-! ## Lines -/

theorem foldl_codeLine (pool : ConstantPool) (es : List (Nat × Instruction)) (out : String) :
    es.foldl (fun out (pc, i) => out ++ lineHead pc ++ i.mnemonic ++ i.operandText pool pc ++ "\n")
      out = out ++ String.join (es.map (codeLine pool)) := by
  induction es generalizing out with
  | nil => simp
  | cons e es ih =>
    rw [List.foldl_cons, ih, List.map_cons, String.join_cons]
    simp only [codeLine, String.append_assoc]

/-- **The lines of a listing**: one for each instruction, in order. -/
theorem listCode_split (pool : ConstantPool) {code : CodeArray}
    {front rest : List (Nat × Instruction)} {e : Nat × Instruction}
    (h : (sweep code).instructions.toList = front ++ e :: rest) :
    ∃ after, listCode pool code =
      String.join (front.map (codeLine pool)) ++ codeLine pool e ++ after := by
  have hlines (after : String) :
      (sweep code).instructions.foldl (fun out (pc, i) =>
        out ++ lineHead pc ++ i.mnemonic ++ i.operandText pool pc ++ "\n") "" ++ after =
      String.join (front.map (codeLine pool)) ++ codeLine pool e ++
        (String.join (rest.map (codeLine pool)) ++ after) := by
    rw [← Array.foldl_toList, foldl_codeLine, h, List.map_append, String.join_append, List.map_cons,
      String.join_cons]
    simp only [String.empty_append, String.append_assoc]
  -- bytes that are no instruction are told behind all lines
  unfold listCode
  dsimp only
  split
  · have hnone := hlines ""
    rw [String.append_empty] at hnone
    exact ⟨_, hnone⟩
  · simp only [String.append_assoc] at hlines ⊢
    exact ⟨_, hlines _⟩

/-- **What a listing shows of a constant**: in the line of an instruction that refers to it, the index
and behind two slashes a text. The description of the constant ends with the text that it stands for.
That is also the text that is shown, exactly if there is no pair of slashes with a blank in it, and
otherwise what follows the last such pair is shown. -/
theorem listCode_constant {pool : ConstantPool} {code : CodeArray}
    {front rest : List (Nat × Instruction)} {pc : Nat} {i : Instruction} {index : UInt16}
    {c : Constant} {text : String}
    (hcode : (sweep code).instructions.toList = front ++ (pc, i) :: rest)
    (hindex : i.constantIndex? = some index) (hc : pool.get? index = some c)
    (htext : c.referent? pool = some text) :
    (∃ head, c.describe pool = head ++ " // " ++ text) ∧
      ∃ shown after,
        listCode pool code = String.join (front.map (codeLine pool)) ++
          (lineHead pc ++ i.mnemonic ++ i.operandText pool pc ++ "\n") ++ after ∧
        i.operandText pool pc = " " ++ indexText index ++ " // " ++ shown ∧
        (i.operandText pool pc = " " ++ indexText index ++ " // " ++ text ↔ ¬ Marked text) ∧
        (Marked text → ∃ before, text = before ++ "// " ++ shown ∧ ¬ Marked shown) := by
  have hoperand : i.operandText pool pc = " " ++ indexText index ++ " // " ++ afterSlashes text := by
    rw [Instruction.operandText_of_constantIndex? hindex, constantOperand_of_referent? hc htext]
  obtain ⟨after, hlisting⟩ := listCode_split pool hcode
  refine ⟨Constant.describe_of_referent? htext, afterSlashes text, after, hlisting, hoperand, ?_, ?_⟩
  · rw [hoperand, String.append_right_inj, afterSlashes_eq_self_iff]
  · intro hmarked
    rcases afterSlashes_cases text with ⟨hnone, -⟩ | hcut
    · exact absurd hmarked hnone
    · exact hcut

/-- A text and a class. -/
def pointPool : ConstantPool :=
  ⟨#[.utf8 "a // b", .string 1, .utf8 "demo/Point", .class 3]⟩

/-- Loads the text and makes an object of the class. -/
def pointCode : CodeArray := #[0x12, 0x02, 0xbb, 0x00, 0x04, 0xb1]

/-- Of the text only the end is shown, of the class the whole name. -/
theorem listCode_constant_point :
    (Constant.string 1).referent? pointPool = some "\"a // b\"" ∧
      (Instruction.byte .ldc 2).operandText pointPool 0 ≠ " #2 // \"a // b\"" ∧
      (Constant.class 3).referent? pointPool = some "demo/Point" ∧
      (Instruction.short .new 4).operandText pointPool 2 = " #4 // demo/Point" := by
  have hquoted : (Constant.string 1).referent? pointPool = some "\"a // b\"" := by decide
  have hnamed : (Constant.class 3).referent? pointPool = some "demo/Point" := by decide
  have hload : (sweep pointCode).instructions.toList =
      [] ++ (0, .byte .ldc 2) :: [(2, .short .new 4), (5, .plain .vreturn)] := by decide
  have hnew : (sweep pointCode).instructions.toList =
      [(0, .byte .ldc 2)] ++ (2, .short .new 4) :: [(5, .plain .vreturn)] := hload
  obtain ⟨-, _, _, -, -, hcut, -⟩ := listCode_constant hload rfl rfl hquoted
  obtain ⟨-, _, _, -, -, hwhole, -⟩ := listCode_constant hnew rfl rfl hnamed
  have htwo : " " ++ indexText (UInt8.toUInt16 2) ++ " // " ++ "\"a // b\"" =
      " #2 // \"a // b\"" := by decide
  have hfour : " " ++ indexText 4 ++ " // " ++ "demo/Point" = " #4 // demo/Point" := by decide
  rw [htwo] at hcut
  rw [hfour] at hwhole
  exact ⟨hquoted, fun heq => hcut.1 heq (by decide), hnamed, hwhole.2 (by decide)⟩

end ClassFoundry
