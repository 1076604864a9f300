import ClassFoundry.Descriptor

/-!
# Reading descriptors back

The descriptor of a method is read back as the descriptors of its parameters, and gives the words
of its arguments and of its result, unless a class name contains one of the delimiters.

## Main definitions

* `DataType.Clean`: no delimiter in a class name
* `DataType.Undivided`: not the one that ends class names

## Main results

* `parameters?_ofMethod`: the descriptors of the parameters
* `parameters?_ofMethod_cases`: nothing else is read if class names stay in one piece
* `argumentWords?_ofMethod`, `returnWords?_ofMethod`: the words of the arguments and of the result
* `returnWords?_isSome_iff`: where a result is found at all
-/

namespace ClassFoundry

/-- Whether a class name has no delimiter of descriptors in it. -/
def CleanName (name : String) : Prop := ∀ c ∈ name.toList, c ≠ ';' ∧ c ≠ ')'

theorem cleanName_iff {name : String} :
    name.toList.all (fun c => c != ';' && c != ')') = true ↔ CleanName name := by
  simp [CleanName]

theorem CleanName.notMem {name : String} (h : CleanName name) {c : Char} (hc : c ∈ [';', ')']) :
    c ∉ name.toList := by
  intro hmem
  have hne := h c hmem
  simp_all

/-- Whether the class names of a type are clean. -/
def DataType.Clean : DataType → Prop
  | .struct name | .object name => CleanName name
  | _ => True

/-- Whether the class name of a type stays in one piece in descriptors: it does not have the delimiter
in it that ends class names. -/
def DataType.Undivided (ty : DataType) : Prop := ∀ name ∈ ty.className?, ';' ∉ name.toList

theorem DataType.Clean.name {ty : DataType} (h : ty.Clean) {name : String}
    (hname : name ∈ ty.className?) : CleanName name := by
  cases ty with
  | struct given | object given =>
    cases hname
    exact h
  | _ => cases hname

theorem DataType.Clean.undivided {ty : DataType} (h : ty.Clean) : ty.Undivided :=
  fun _ hname hmem => (h.name hname _ hmem).1 rfl

namespace Descriptor

/-- The delimiters in a class name as it stands in a descriptor are those of the name. -/
theorem mem_mapped {name : String} {c : Char} (hne : c ≠ '/')
    (hc : c ∈ (name.map fun c => if c = '.' then '/' else c).toList) : c ∈ name.toList := by
  rw [String.toList_map, List.mem_map] at hc
  obtain ⟨d, hd, rfl⟩ := hc
  split at hne
  · exact absurd rfl hne
  · rwa [if_neg ‹_›]

/-- The descriptor of a type with values is one letter of a primitive type, or a class name between
its delimiters. Delimiters within the name are those of the class of the type. -/
theorem ofType_cases {ty : DataType} (hk : ty.kind?.isSome) :
    (∃ c, (ofType ty).toList = [c] ∧ isPrimitive c = true ∧ c ≠ '[') ∨
      ∃ name : String, ofType ty = ofClass name ∧
        ∀ c ∈ [';', ')'], c ∈ name.toList → ∃ given ∈ ty.className?, c ∈ given.toList := by
  have hslash : ∀ c ∈ [';', ')'], c ≠ '/' := by simp
  cases ty with
  | void => simp [DataType.kind?] at hk
  | bool => exact .inl ⟨'Z', by decide⟩
  | char => exact .inl ⟨'C', by decide⟩
  | int width unsigned =>
    left
    cases width <;> cases unsigned
    · exact ⟨'B', by decide⟩
    · exact ⟨'S', by decide⟩
    · exact ⟨'S', by decide⟩
    · exact ⟨'C', by decide⟩
    · exact ⟨'I', by decide⟩
    · exact ⟨'I', by decide⟩
    · exact ⟨'J', by decide⟩
    · exact ⟨'J', by decide⟩
  | string =>
    have hclean : CleanName stringClass := cleanName_iff.1 (by decide)
    exact .inr ⟨stringClass, rfl, fun c hc hmem => absurd hmem (hclean.notMem hc)⟩
  | ptr base =>
    have hclean : CleanName objectClass := cleanName_iff.1 (by decide)
    exact .inr ⟨objectClass, rfl, fun c hc hmem => absurd hmem (hclean.notMem hc)⟩
  | struct name => exact .inr ⟨_, rfl, fun c hc hmem => ⟨name, rfl, mem_mapped (hslash c hc) hmem⟩⟩
  | object name => exact .inr ⟨_, rfl, fun c hc hmem => ⟨name, rfl, mem_mapped (hslash c hc) hmem⟩⟩

theorem toList_ofClass (name : String) :
    (ofClass name).toList = 'L' :: (name.toList ++ [';']) := by
  simp [ofClass]

theorem splitFrom_start_class (cs : List Char) (acc : Array String) :
    splitFrom .start ('L' :: cs) [] acc = splitFrom .className cs ['L'] acc := by
  conv => lhs; unfold splitFrom
  simp [isPrimitive]

/-- A class name is read up to its delimiter. -/
theorem splitFrom_className (cs rest item : List Char) (acc : Array String)
    (h : ∀ c ∈ cs, c ≠ ';') :
    splitFrom .className (cs ++ ';' :: rest) item acc =
      splitFrom .start rest [] (acc.push (String.ofList (item.reverse ++ cs ++ [';']))) := by
  induction cs generalizing item with
  | nil => simp [splitFrom]
  | cons c cs ih =>
    have hc : c ≠ ';' := h c List.mem_cons_self
    rw [List.cons_append, splitFrom, if_neg hc, ih _ fun d hd => h d (List.mem_cons_of_mem _ hd)]
    simp

/-- A class name without its delimiter is not read. -/
theorem splitFrom_className_none (cs item : List Char) (acc : Array String) (h : ';' ∉ cs) :
    splitFrom .className cs item acc = none := by
  induction cs generalizing item with
  | nil => rfl
  | cons c cs ih =>
    rw [List.mem_cons, not_or] at h
    rw [splitFrom, if_neg (Ne.symm h.1), ih _ h.2]

/-- One field descriptor is read. -/
theorem splitFrom_ofType {ty : DataType} (hty : ty.Undivided) (hk : ty.kind?.isSome)
    (rest : List Char) (acc : Array String) :
    splitFrom .start ((ofType ty).toList ++ rest) [] acc =
      splitFrom .start rest [] (acc.push (ofType ty)) := by
  rcases ofType_cases hk with ⟨c, hc, hp, hb⟩ | ⟨name, hname, hgiven⟩
  · have hty : ofType ty = String.ofList [c] := by rw [← hc, String.ofList_toList]
    rw [hc, hty, List.singleton_append]
    conv => lhs; unfold splitFrom
    simp [hp, hb]
  · have hlist : ofType ty = String.ofList ('L' :: (name.toList ++ [';'])) := by
      rw [hname, ← toList_ofClass, String.ofList_toList]
    rw [hname, toList_ofClass, ← hname, hlist, List.cons_append, List.append_assoc]
    have hmark : ∀ c ∈ name.toList, c ≠ ';' := by
      rintro _ hc rfl
      obtain ⟨given, hmem, hc⟩ := hgiven _ (by decide) hc
      exact hty given hmem hc
    rw [splitFrom_start_class, List.singleton_append, splitFrom_className _ _ _ _ hmark]
    rfl

theorem splitFrom_flatMap {tys : List DataType} (h : ∀ ty ∈ tys, ty.Undivided ∧ ty.kind?.isSome)
    (acc : Array String) :
    splitFrom .start ((tys.map ofType).flatMap String.toList) [] acc =
      some (acc ++ (tys.map ofType).toArray) := by
  induction tys generalizing acc with
  | nil => simp [splitFrom]
  | cons ty tys ih =>
    obtain ⟨hty, hk⟩ := h ty List.mem_cons_self
    rw [List.map_cons, List.flatMap_cons, splitFrom_ofType hty hk,
      ih fun t ht => h t (List.mem_cons_of_mem _ ht)]
    simp

/-- No descriptor of a clean type contains the parenthesis that ends the parameters. -/
theorem parenthesis_notMem {ty : DataType} (hty : ty.Clean) (hk : ty.kind?.isSome) :
    ∀ c ∈ (ofType ty).toList, (c != ')') = true := by
  intro c hc
  rcases ofType_cases hk with ⟨d, hd, hp, -⟩ | ⟨name, hname, hgiven⟩
  · rw [hd, List.mem_singleton] at hc
    subst hc
    revert hp
    unfold isPrimitive
    grind
  · rw [hname, toList_ofClass] at hc
    rcases List.mem_cons.1 hc with rfl | hc
    · decide
    · rcases List.mem_append.1 hc with hc | hc
      · have hmark : c ≠ ')' := by
          rintro rfl
          obtain ⟨given, hmem, hc⟩ := hgiven _ (by decide) hc
          exact (hty.name hmem _ hc).2 rfl
        simpa using hmark
      · rw [List.mem_singleton] at hc
        subst hc
        decide

/-- **The parameters of a method** are read back from its descriptor. -/
theorem parameters?_ofMethod {tys : List DataType} (result : DataType)
    (h : ∀ ty ∈ tys, ty.Clean ∧ ty.kind?.isSome) :
    parameters? (ofMethod tys result) = some (tys.map ofType) := by
  have hlist : (ofMethod tys result).toList =
      '(' :: ((tys.map ofType).flatMap String.toList ++ ')' :: (ofType result).toList) := by
    simp [ofMethod, String.toList_join]
  have htake : ((tys.map ofType).flatMap String.toList ++
      ')' :: (ofType result).toList).takeWhile (· != ')') =
        (tys.map ofType).flatMap String.toList := by
    rw [List.takeWhile_append_of_pos]
    · simp
    · intro c hc
      simp only [List.flatMap_map, List.mem_flatMap] at hc
      obtain ⟨ty, hty, hc⟩ := hc
      exact parenthesis_notMem (h ty hty).1 (h ty hty).2 c hc
  unfold parameters?
  rw [hlist]
  simp only [htake]
  rw [splitFrom_flatMap fun ty hty => (h ty hty).imp_left DataType.Clean.undivided]
  simp

/-- Of field descriptors up to a parenthesis, all are read or none. The parenthesis may be one within
a class name, which lacks its delimiter then. -/
theorem splitFrom_takeWhile {tys : List DataType} (h : ∀ ty ∈ tys, ty.Undivided ∧ ty.kind?.isSome)
    (rest : List Char) (acc : Array String) :
    splitFrom .start (((tys.map ofType).flatMap String.toList ++ ')' :: rest).takeWhile (· != ')')) []
        acc ∈ [none, some (acc ++ (tys.map ofType).toArray)] := by
  induction tys generalizing acc with
  | nil => simp [splitFrom]
  | cons ty tys ih =>
    obtain ⟨⟨hty, hk⟩, hrest⟩ := List.forall_mem_cons.1 h
    rw [List.map_cons, List.flatMap_cons, List.append_assoc]
    by_cases hmem : ')' ∈ (ofType ty).toList
    · -- the reader stops within the class name
      rcases ofType_cases hk with ⟨d, hd, hp, -⟩ | ⟨name, hname, hgiven⟩
      · rw [hd, List.mem_singleton] at hmem
        subst hmem
        cases hp
      · rw [hname, toList_ofClass] at hmem ⊢
        have hinside : ')' ∈ name.toList := by simpa using hmem
        obtain ⟨front, back, hsplit, hfront⟩ := List.eq_append_cons_of_mem hinside
        have hmark : ';' ∉ front := by
          intro hc
          obtain ⟨given, hgiven, hc⟩ := hgiven ';' (by decide) (hsplit ▸ List.mem_append_left _ hc)
          exact hty given hgiven hc
        have htake : ('L' :: (name.toList ++ [';']) ++ ((tys.map ofType).flatMap String.toList ++
            ')' :: rest)).takeWhile (· != ')') = 'L' :: front := by
          rw [hsplit, List.cons_append, List.takeWhile_cons_of_pos (by decide)]
          simp only [List.append_assoc, List.cons_append]
          rw [List.takeWhile_append_of_pos fun c hc => by
            simpa using fun heq : c = ')' => hfront (heq ▸ hc)]
          simp
        rw [htake, splitFrom_start_class, splitFrom_className_none _ _ _ hmark]
        exact List.mem_cons_self
    · rw [List.takeWhile_append_of_pos fun c hc => by
        simpa using fun heq : c = ')' => hmem (heq ▸ hc)]
      rw [splitFrom_ofType hty hk]
      simpa using ih hrest (acc.push (ofType ty))

/-- **The parameters of a method are read back or cannot be read** if class names stay in one piece. -/
theorem parameters?_ofMethod_cases {tys : List DataType} (result : DataType)
    (h : ∀ ty ∈ tys, ty.Undivided ∧ ty.kind?.isSome) :
    parameters? (ofMethod tys result) = none ∨
      parameters? (ofMethod tys result) = some (tys.map ofType) := by
  have hlist : (ofMethod tys result).toList =
      '(' :: ((tys.map ofType).flatMap String.toList ++ ')' :: (ofType result).toList) := by
    simp [ofMethod, String.toList_join]
  have hread := splitFrom_takeWhile h (ofType result).toList #[]
  simp only [List.mem_cons, List.not_mem_nil, or_false] at hread
  unfold parameters?
  rw [hlist]
  rcases hread with hread | hread
  · exact .inl (by simp [hread])
  · exact .inr (by simp [hread])

theorem parameters?_entryPoint : parameters? entryPoint = some ["[Ljava/lang/String;"] := by
  decide

theorem parameterWords_ofType {ty : DataType} (hk : ty.kind?.isSome) :
    parameterWords (ofType ty) = ty.width := by
  have hclass : ∀ name, parameterWords (ofClass name) = 1 := by
    intro name
    have hne : ∀ c : Char, ofClass name ≠ String.ofList [c] := by
      intro c h
      have := congrArg String.toList h
      rw [toList_ofClass] at this
      simp at this
    exact if_neg (not_or.2 ⟨hne 'J', hne 'D'⟩)
  cases ty with
  | void => simp [DataType.kind?] at hk
  | bool => decide
  | char => decide
  | int width unsigned => cases width <;> cases unsigned <;> decide
  | string => exact hclass _
  | ptr base => exact hclass _
  | struct name => exact hclass _
  | object name => exact hclass _

theorem argumentWords?_ofMethod {tys : List DataType} (result : DataType)
    (h : ∀ ty ∈ tys, ty.Clean ∧ ty.kind?.isSome) :
    argumentWords? (ofMethod tys result) = some (tys.foldl (fun n ty => n + ty.width) 0) := by
  have hfold (ts : List DataType) (n : Nat) (hts : ∀ ty ∈ ts, ty.kind?.isSome) :
      (ts.map ofType).foldl (fun n p => n + parameterWords p) n =
        ts.foldl (fun n ty => n + ty.width) n := by
    induction ts generalizing n with
    | nil => rfl
    | cons ty ts ih =>
      rw [List.map_cons, List.foldl_cons, parameterWords_ofType (hts ty List.mem_cons_self),
        ih _ fun t ht => hts t (List.mem_cons_of_mem _ ht), List.foldl_cons]
  rw [argumentWords?, parameters?_ofMethod result h, Option.map_some,
    hfold tys 0 fun ty hty => (h ty hty).2]

/-- What follows the last parenthesis, if the rest has none. -/
theorem takeWhile_reverse (front rest : List Char) (h : ∀ c ∈ rest, (c != ')') = true) :
    ((front ++ ')' :: rest).reverse.takeWhile (· != ')')).reverse = rest := by
  rw [List.reverse_append, List.reverse_cons, List.append_assoc,
    List.takeWhile_append_of_pos (by simpa using h)]
  simp

theorem returnWords?_ofMethod {tys : List DataType} {result : DataType} (h : result.Clean) :
    returnWords? (ofMethod tys result) = some result.width := by
  have hlist : (ofMethod tys result).toList =
      ('(' :: (tys.map ofType).flatMap String.toList) ++ ')' :: (ofType result).toList := by
    simp [ofMethod, String.toList_join]
  have hlast : ∀ c ∈ (ofType result).toList, (c != ')') = true := by
    cases hk : result.kind? with
    | some k => exact parenthesis_notMem h (by simp [hk])
    | none =>
      have hvoid : result = .void := by
        revert hk
        unfold DataType.kind?
        split <;> simp
      subst hvoid
      exact List.all_eq_true.1 (by decide)
  -- the reader looks behind the last parenthesis, and the result has none of its own
  unfold returnWords?
  rw [hlist]
  simp only [takeWhile_reverse _ _ hlast]
  rw [if_pos (by simp)]
  cases result with
  | void => rfl
  | bool => rfl
  | char => rfl
  | int width unsigned => cases width <;> cases unsigned <;> rfl
  | string =>
    rw [ofType, toList_ofClass]
    rfl
  | ptr base =>
    rw [ofType, toList_ofClass]
    rfl
  | struct name =>
    rw [ofType, toList_ofClass]
    rfl
  | object name =>
    rw [ofType, toList_ofClass]
    rfl

/-- **The letter of the result** is there in every text that has a closing parenthesis but does not
end with it. -/
theorem returnWords?_isSome_iff {d : String} :
    (returnWords? d).isSome ↔ ')' ∈ d.toList ∧ ∃ last ∈ d.toList.getLast?, last ≠ ')' := by
  unfold returnWords?
  dsimp only
  generalize d.toList = letters
  by_cases hclosed : ')' ∈ letters
  · rw [if_pos (List.contains_iff_mem.2 hclosed)]
    obtain ⟨front, last, rfl⟩ : ∃ front last, letters = front ++ [last] :=
      ⟨_, _, (List.dropLast_concat_getLast (List.ne_nil_of_mem hclosed)).symm⟩
    by_cases hlast : last = ')'
    · simp [hlast]
    · have hback : ((front ++ [last]).reverse.takeWhile (· != ')')).reverse ≠ [] := by
        simp [hlast]
      split
      · contradiction
      all_goals simpa [hlast] using hclosed
  · simp [hclosed]

/-- Some letter follows the last parenthesis of the descriptor of a method. -/
theorem returnWords?_ofMethod_isSome (tys : List DataType) (result : DataType) :
    (returnWords? (ofMethod tys result)).isSome := by
  have hend : ∃ front c, (ofType result).toList = front ++ [c] ∧ c ≠ ')' := by
    have hclass (name : String) : ∃ front c, (ofClass name).toList = front ++ [c] ∧ c ≠ ')' :=
      ⟨'L' :: name.toList, ';', by simp [toList_ofClass], by decide⟩
    cases result with
    | void => exact ⟨[], 'V', by decide⟩
    | bool => exact ⟨[], 'Z', by decide⟩
    | char => exact ⟨[], 'C', by decide⟩
    | int width unsigned =>
      cases width <;> cases unsigned
      · exact ⟨[], 'B', by decide⟩
      · exact ⟨[], 'S', by decide⟩
      · exact ⟨[], 'S', by decide⟩
      · exact ⟨[], 'C', by decide⟩
      · exact ⟨[], 'I', by decide⟩
      · exact ⟨[], 'I', by decide⟩
      · exact ⟨[], 'J', by decide⟩
      · exact ⟨[], 'J', by decide⟩
    | string => exact hclass _
    | ptr base => exact hclass _
    | struct name => exact hclass _
    | object name => exact hclass _
  obtain ⟨front, c, hfront, hc⟩ := hend
  have hlist : (ofMethod tys result).toList =
      ("(" ++ String.join (tys.map ofType) ++ ")").toList ++ (front ++ [c]) := by
    rw [ofMethod, String.toList_append, hfront]
  refine returnWords?_isSome_iff.2 ⟨by simp [ofMethod], c, ?_, hc⟩
  rw [Option.mem_def, hlist, ← List.append_assoc, List.getLast?_concat]

end Descriptor

end ClassFoundry
