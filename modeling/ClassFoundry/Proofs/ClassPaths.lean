import ClassFoundry.Files.Path

/-!
# The files of classes

A class file lies below the output directory, under the parts of the class name. The last part gets an
extension, and what stands behind its last dot gives way to it, unless that dot is its first character.
So classes whose names have no such dot lie in files of their own. All others share their file with the
classes whose names differ in nothing but what stands behind the last dot.

## Main definitions

* `Path.IsName`: parts that lead further down
* `Path.components`: the way that a path leads, without the parts that lead nowhere
* `IsClassName`, `packageOf`, `simpleName`: the names of classes, and their parts

## Main results

* `Path.components_push`: one more part is one more step of the way
* `Path.withExtension_push`: an extension changes the last part alone
* `Path.stem_eq_self_iff`: the names that keep all their characters
* `classFilePath_apart`: **where class files lie**, and which of them are one
-/

namespace ClassFoundry

namespace Path

/-- A part of a path that leads further down. -/
def IsName (part : List Char) : Prop := part ≠ [] ∧ part ≠ here ∧ part ≠ above

instance (part : List Char) : Decidable (IsName part) :=
  inferInstanceAs (Decidable (_ ∧ _ ∧ _))

/-- Whether a part of a path leads anywhere. -/
def counts (part : List Char) : Bool := part ≠ [] ∧ part ≠ here

/-- **The way that a path leads**: whether it starts at the root, and the parts that count. Paths that
lead the same way are one path, however they are written. -/
def components (path : List Char) : Bool × List (List Char) :=
  (path.head? == some '/', (parts path).filter counts)

/-! ## Parts -/

theorem parts_append_slash (path rest : List Char) :
    parts (path ++ '/' :: rest) = parts path ++ parts rest := by
  induction path with
  | nil => simp [parts]
  | cons c cs ih =>
    rw [List.cons_append, parts, parts, ih]
    split
    · rfl
    · -- a character that is no slash belongs to the first part, which is there
      cases hcs : parts cs with
      | nil => exact absurd hcs (parts_ne_nil cs)
      | cons p ps => rfl

theorem parts_of_not_mem {part : List Char} (h : '/' ∉ part) : parts part = [part] := by
  induction part with
  | nil => rfl
  | cons c cs ih =>
    rw [List.mem_cons, not_or] at h
    rw [parts, if_neg (Ne.symm h.1), ih h.2]

theorem not_mem_of_mem_parts {path part : List Char} (h : part ∈ parts path) : '/' ∉ part := by
  induction path generalizing part with
  | nil => simp_all [parts]
  | cons c cs ih =>
    rw [parts] at h
    split at h
    · rcases List.mem_cons.1 h with rfl | h
      · exact List.not_mem_nil
      · exact ih h
    · rename_i hc
      cases hcs : parts cs with
      | nil => exact absurd hcs (parts_ne_nil cs)
      | cons p ps =>
        rw [hcs] at h ih
        rcases List.mem_cons.1 h with rfl | h
        · rw [List.mem_cons, not_or]
          exact ⟨Ne.symm hc, ih List.mem_cons_self⟩
        · exact ih (List.mem_cons_of_mem _ h)

theorem join_concat (before : List (List Char)) (part rest : List Char) :
    join (before ++ [part ++ rest]) = join (before ++ [part]) ++ rest := by
  induction before with
  | nil => rfl
  | cons p ps ih =>
    have hcons (q : List Char) : join (p :: (ps ++ [q])) = p ++ '/' :: join (ps ++ [q]) := by
      cases ps <;> rfl
    rw [List.cons_append, List.cons_append, hcons, hcons, ih, List.append_assoc]
    rfl

/-! ## One more part -/

/-- The parts in front of a part that is pushed are those of the path, but for an empty one behind its
last slash. -/
theorem exists_parts_push (path : List Char) :
    ∃ before, before.filter counts = (parts path).filter counts ∧
      ∀ part, '/' ∉ part → parts (push path part) = before ++ [part] := by
  unfold push
  cases hlast : path.getLast? with
  | none =>
    obtain rfl := List.getLast?_eq_none_iff.1 hlast
    exact ⟨[], rfl, fun part hpart => parts_of_not_mem hpart⟩
  | some c =>
    by_cases hc : c = '/'
    · -- a path that ends with a slash gets no other, and its last part is empty
      subst hc
      obtain ⟨before, rfl⟩ := List.getLast?_eq_some_iff.1 hlast
      refine ⟨parts before, ?_, fun part hpart => ?_⟩
      · rw [parts_append_slash, List.filter_append]
        exact (List.append_nil _).symm
      · show parts (before ++ ['/'] ++ part) = parts before ++ [part]
        rw [List.append_assoc, List.singleton_append, parts_append_slash, parts_of_not_mem hpart]
    · refine ⟨parts path, rfl, fun part hpart => ?_⟩
      split
      · rename_i h
        cases h
      · rename_i h
        exact absurd (Option.some.inj h) hc
      · rw [parts_append_slash, parts_of_not_mem hpart]

theorem push_inj {path part part' : List Char} : push path part = push path part' ↔ part = part' := by
  unfold push
  split <;> simp

theorem head?_push {path part : List Char} (hpart : '/' ∉ part) :
    ((push path part).head? == some '/') = (path.head? == some '/') := by
  cases path with
  | nil =>
    cases part with
    | nil => rfl
    | cons c cs =>
      rw [List.mem_cons, not_or] at hpart
      simpa [push] using Ne.symm hpart.1
  | cons c cs =>
    unfold push
    split <;> rfl

/-- One more part is one more step of the way. -/
theorem components_push {path part : List Char} (hpart : '/' ∉ part) (hname : IsName part) :
    components (push path part) = ((components path).1, (components path).2 ++ [part]) := by
  obtain ⟨before, hbefore, hparts⟩ := exists_parts_push path
  have hcounts : [part].filter counts = [part] := by
    simp [counts, hname.1, hname.2.1]
  unfold components
  rw [hparts part hpart, List.filter_append, hbefore, hcounts, head?_push hpart]

theorem components_foldl_push {path : List Char} {ps : List (List Char)}
    (hps : ∀ part ∈ ps, '/' ∉ part ∧ IsName part) :
    components (ps.foldl push path) = ((components path).1, (components path).2 ++ ps) := by
  induction ps generalizing path with
  | nil => simp
  | cons p ps ih =>
    obtain ⟨hp, hps⟩ := List.forall_mem_cons.1 hps
    rw [List.foldl_cons, ih hps, components_push hp.1 hp.2, List.append_assoc]
    rfl

/-! ## Extensions -/

/-- The part of a name up to its last dot, if there is one behind its first character. -/
theorem stem_cases (name : List Char) :
    ('.' ∉ name.tail ∧ stem name = name) ∨
      ∃ after, '.' ∈ name.tail ∧ name = stem name ++ '.' :: after := by
  have hsplit : name = (name.reverse.dropWhile (· ≠ '.')).reverse ++
      (name.reverse.takeWhile (· ≠ '.')).reverse := by
    rw [← List.reverse_append, List.takeWhile_append_dropWhile, List.reverse_reverse]
  have hafter : '.' ∉ (name.reverse.takeWhile (· ≠ '.')).reverse := by
    intro hmem
    simpa using List.all_eq_true.1 (List.all_takeWhile (p := (· ≠ '.'))) _ (List.mem_reverse.1 hmem)
  -- the last dot is looked for from behind
  unfold stem
  cases hdrop : name.reverse.dropWhile (· ≠ '.') with
  | nil =>
    rw [hdrop, List.reverse_nil, List.nil_append] at hsplit
    rw [← hsplit] at hafter
    exact .inl ⟨fun hmem => hafter (List.mem_of_mem_tail hmem), rfl⟩
  | cons c before =>
    -- the search stops at a dot only
    have hc : c = '.' := by
      have hstop := List.head?_dropWhile_not (· ≠ '.') name.reverse
      rw [hdrop] at hstop
      simpa using hstop
    subst hc
    rw [hdrop, List.reverse_cons, List.append_assoc, List.singleton_append] at hsplit
    cases before with
    | nil =>
      -- the dot is the first character, and there is none behind it
      refine .inl ⟨?_, rfl⟩
      rw [hsplit]
      exact hafter
    | cons d before =>
      refine .inr ⟨(name.reverse.takeWhile (· ≠ '.')).reverse, ?_, hsplit⟩
      rw [hsplit, List.tail_append_of_ne_nil (by simp)]
      exact List.mem_append_right _ List.mem_cons_self

/-- **The names that keep all their characters**: those without a dot behind the first one. -/
theorem stem_eq_self_iff (name : List Char) : stem name = name ↔ '.' ∉ name.tail := by
  rcases stem_cases name with ⟨hdot, hstem⟩ | ⟨after, hdot, hname⟩
  · exact iff_of_true hstem hdot
  · refine iff_of_false (fun hstem => ?_) (fun hnot => hnot hdot)
    have hlength := congrArg List.length hname
    rw [hstem, List.length_append, List.length_cons] at hlength
    omega

/-- What is left of a name in front of an extension belongs to it. -/
theorem mem_of_mem_stem {name : List Char} {c : Char} (h : c ∈ stem name) : c ∈ name := by
  rcases stem_cases name with ⟨-, hstem⟩ | ⟨after, -, hname⟩
  · rwa [hstem] at h
  · rw [hname]
    exact List.mem_append_left _ h

/-- An extension changes the last part of a path alone. -/
theorem withExtension_push {path part extension : List Char} (hpart : '/' ∉ part)
    (hname : IsName part) (hext : '/' ∉ extension) :
    withExtension (push path part) extension = push path (stem part ++ '.' :: extension) := by
  obtain ⟨before, -, hparts⟩ := exists_parts_push path
  -- the file name is the part that was pushed
  have hfile : fileName? (parts (push path part)).reverse = some (part, before.reverse) := by
    obtain ⟨hne, hhere, habove⟩ := hname
    rw [hparts part hpart, List.reverse_append, List.reverse_singleton, List.singleton_append]
    cases before.reverse <;> simp [fileName?, hne, hhere, habove]
  have hslash : '/' ∉ stem part ++ '.' :: extension := by
    rw [List.mem_append, List.mem_cons, not_or, not_or]
    exact ⟨fun hmem => hpart (mem_of_mem_stem hmem), by decide, hext⟩
  unfold withExtension
  rw [hfile]
  dsimp only
  rw [List.reverse_cons, List.reverse_reverse, ← join_concat, ← hparts _ hslash, join_parts]

end Path

open ClassFoundry.Path

/-! ## Classes -/

/-- A class name all of whose parts lead further down. -/
def IsClassName (name : String) : Prop := ∀ part ∈ parts name.toList, IsName part

instance (name : String) : Decidable (IsClassName name) :=
  inferInstanceAs (Decidable (∀ part ∈ _, _))

/-- The parts of a class name that are directories. -/
def packageOf (name : String) : List (List Char) := (parts name.toList).dropLast

/-- The last part of a class name. -/
def simpleName (name : String) : List Char := (parts name.toList).getLast (parts_ne_nil _)

/-- The file name of a class. -/
def fileNameOf (name : String) : List Char := stem (simpleName name) ++ ".class".toList

theorem parts_eq_concat (name : String) :
    parts name.toList = packageOf name ++ [simpleName name] :=
  (List.dropLast_concat_getLast _).symm

theorem eq_of_parts {name name' : String} (hpackage : packageOf name = packageOf name')
    (hsimple : simpleName name = simpleName name') : name = name' := by
  have hparts : parts name.toList = parts name'.toList := by
    rw [parts_eq_concat, parts_eq_concat, hpackage, hsimple]
  rw [← String.toList_inj, ← join_parts name.toList, hparts, join_parts]

section

variable {dir name name' : String}

theorem IsClassName.package (h : IsClassName name) :
    ∀ part ∈ packageOf name, '/' ∉ part ∧ IsName part := fun _ hpart =>
  have hmem := List.dropLast_subset _ hpart
  ⟨not_mem_of_mem_parts hmem, h _ hmem⟩

theorem IsClassName.simple (h : IsClassName name) :
    '/' ∉ simpleName name ∧ IsName (simpleName name) :=
  ⟨not_mem_of_mem_parts (List.getLast_mem _), h _ (List.getLast_mem _)⟩

theorem IsClassName.file (h : IsClassName name) :
    '/' ∉ fileNameOf name ∧ IsName (fileNameOf name) := by
  unfold fileNameOf
  have hlength : 6 ≤ (stem (simpleName name) ++ ".class".toList).length := by
    rw [List.length_append]
    exact Nat.le_add_left 6 _
  refine ⟨?_, ?_, ?_, ?_⟩
  · rw [List.mem_append, not_or]
    exact ⟨fun hmem => h.simple.1 (mem_of_mem_stem hmem), by decide⟩
  -- the extension alone is longer than what leads nowhere
  all_goals
    intro heq
    rw [heq] at hlength
    exact absurd hlength (by decide)

/-- The path of a class is the directory with the parts of the name behind it. -/
theorem IsClassName.toList_classFilePath (h : IsClassName name) :
    (classFilePath dir name).toList =
      (packageOf name ++ [fileNameOf name]).foldl push dir.toList := by
  unfold classFilePath
  rw [String.toList_ofList, parts_eq_concat, List.foldl_append, List.foldl_append]
  exact withExtension_push h.simple.1 h.simple.2 (by decide)

theorem IsClassName.components_classFilePath (h : IsClassName name) :
    components (classFilePath dir name).toList = ((components dir.toList).1,
      (components dir.toList).2 ++ (packageOf name ++ [fileNameOf name])) := by
  rw [h.toList_classFilePath]
  refine components_foldl_push fun part hpart => ?_
  rcases List.mem_append.1 hpart with hpart | hpart
  · exact h.package part hpart
  · rw [List.mem_singleton.1 hpart]
    exact h.file

/-- Two classes share a file exactly if they differ in nothing but what stands behind the last dot. -/
theorem IsClassName.components_eq_iff (h : IsClassName name) (h' : IsClassName name') :
    components (classFilePath dir name).toList = components (classFilePath dir name').toList ↔
      packageOf name = packageOf name' ∧ stem (simpleName name) = stem (simpleName name') := by
  rw [h.components_classFilePath, h'.components_classFilePath, Prod.mk.injEq,
    List.append_cancel_left_eq, List.append_singleton_inj]
  unfold fileNameOf
  rw [List.append_cancel_right_eq]
  exact ⟨fun heq => heq.2, fun heq => ⟨rfl, heq⟩⟩

/-- **Where class files lie**: below the directory, under the parts of the class name, with an extension
behind what is in front of the last dot of the last one. That is the whole part exactly if there is no
dot behind its first character. Different classes of that kind have different files, and two classes of
any kind have one file exactly if they differ in nothing but what stands behind the last dot. -/
theorem classFilePath_apart (dir : String) (h : IsClassName name) (h' : IsClassName name') :
    (classFilePath dir name).toList = (packageOf name ++
        [stem (simpleName name) ++ ".class".toList]).foldl push dir.toList ∧
      ((classFilePath dir name).toList = (packageOf name ++
          [simpleName name ++ ".class".toList]).foldl push dir.toList ↔
        '.' ∉ (simpleName name).tail) ∧
      ('.' ∉ (simpleName name).tail → '.' ∉ (simpleName name').tail → name ≠ name' →
        components (classFilePath dir name).toList ≠ components (classFilePath dir name').toList) ∧
      (components (classFilePath dir name).toList = components (classFilePath dir name').toList ↔
        packageOf name = packageOf name' ∧ stem (simpleName name) = stem (simpleName name')) := by
  refine ⟨h.toList_classFilePath, ?_, ?_, h.components_eq_iff h'⟩
  · rw [h.toList_classFilePath, List.foldl_append, List.foldl_append, List.foldl_cons, List.foldl_nil,
      List.foldl_cons, List.foldl_nil, push_inj, ← stem_eq_self_iff]
    exact List.append_left_inj _
  · intro hdot hdot' hne heq
    obtain ⟨hpackage, hstem⟩ := (h.components_eq_iff h').1 heq
    rw [(stem_eq_self_iff _).2 hdot, (stem_eq_self_iff _).2 hdot'] at hstem
    exact hne (eq_of_parts hpackage hstem)

end

/-- A dot at the beginning of a name makes a difference, one inside of it does not. -/
theorem classFilePath_apart_dots : IsClassName "demo/A" ∧ IsClassName "demo/.A" ∧
    IsClassName "demo/A.B" ∧
    components (classFilePath "out" "demo/A").toList ≠
      components (classFilePath "out" "demo/.A").toList ∧
    components (classFilePath "out" "demo/A").toList =
      components (classFilePath "out" "demo/A.B").toList := by
  have hplain : IsClassName "demo/A" := by decide
  have hhidden : IsClassName "demo/.A" := by decide
  have hinner : IsClassName "demo/A.B" := by decide
  obtain ⟨-, -, happart, -⟩ := classFilePath_apart "out" hplain hhidden
  obtain ⟨-, -, -, hshared⟩ := classFilePath_apart "out" hplain hinner
  exact ⟨hplain, hhidden, hinner, happart (by decide) (by decide) (by decide),
    hshared.2 (by decide)⟩

end ClassFoundry
