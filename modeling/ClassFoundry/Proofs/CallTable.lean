import ClassFoundry.CallTable

/-!
# The callee of a call

What is known of a method when a call has been resolved to it.

## Main results

* `CallTable.resolve_ok`: where the callee stands in the table and why it was taken
* `CallTable.length_params_of_resolve`: it has as many parameters as the call has arguments
-/

namespace ClassFoundry

/-- The receiver of a built-in method is its first argument or the standard output. -/
theorem receiver_builtins : ∀ c ∈ builtins,
    c.receiver = .firstArg ∨ c.receiver = .staticField standardOutput := by decide

theorem first_builtins : ∀ c ∈ builtins, c.receiver = .firstArg →
    ∀ ty ∈ c.params.head?, ty.kind? = some .reference := by decide

namespace CallTable

variable {t : CallTable} {name : String} {args : List DataType} {i : Nat} {c : Callable}

/-- A search among the candidates for a call. -/
theorem find_candidate {p : Callable → Bool} {e : Callable × Nat}
    (h : (t.entries.toList.zipIdx.filter (·.1.name == name)).find? (p ·.1) = some e) :
    t.entries[e.2]? = some e.1 ∧ e.1.name = name ∧ p e.1 = true := by
  have hp := List.find?_some h
  have hmem := List.mem_of_find?_eq_some h
  rw [List.mem_filter] at hmem
  obtain ⟨hmem, hname⟩ := hmem
  have hget := List.mem_zipIdx_iff_getElem?.1 hmem
  rw [Array.getElem?_toList] at hget
  exact ⟨hget, by simpa using hname, hp⟩

/-- **The callee of a call** is a method of that name in the table. A method of the class takes
arguments of the kinds of its parameters; other methods are considered only if the class has none
of that name. -/
theorem resolve_ok (h : t.resolve name args = .ok (i, c)) :
    t.entries[i]? = some c ∧ c.name = name ∧
      ((c.defined = true ∧ c.accepts args = true) ∨
        ((∀ e ∈ t.entries, e.name = name → e.defined = false) ∧
          (c.params = args ∨ c.params = args.map DataType.widened ∨ c.accepts args = true))) := by
  unfold resolve at h
  dsimp only at h
  split at h
  · cases h
  · split at h
    · rename_i found hfound
      simp only [Option.map_eq_some_iff] at hfound
      obtain ⟨e, he, rfl⟩ := hfound
      obtain ⟨hget, hname, hdefined⟩ := find_candidate he
      split at h
      · rename_i haccepts
        cases h
        exact ⟨hget, hname, .inl ⟨hdefined, haccepts⟩⟩
      · cases h
    · rename_i hnone
      -- among imports those with equal parameters come first, then with widened ones
      have hundefined : ∀ e ∈ t.entries, e.name = name → e.defined = false := by
        intro e he hname
        simp only [Option.map_eq_none_iff, List.find?_eq_none, List.mem_filter] at hnone
        obtain ⟨k, hk⟩ := List.getElem?_of_mem (Array.mem_toList_iff.2 he)
        simpa using hnone (e, k) ⟨List.mem_zipIdx_iff_getElem?.2 hk, by simpa using hname⟩
      split at h
      · rename_i found hfound
        cases h
        simp only [Option.or_eq_some_iff, Option.map_eq_some_iff] at hfound
        rcases hfound with ⟨e, he, heq⟩ | ⟨-, ⟨e, he, heq⟩ | ⟨-, e, he, heq⟩⟩ <;>
          obtain ⟨rfl, rfl⟩ := Prod.mk.inj heq
        · obtain ⟨hget, hname, hp⟩ := find_candidate (p := (·.params == args)) he
          exact ⟨hget, hname, .inr ⟨hundefined, .inl (by simpa using hp)⟩⟩
        · obtain ⟨hget, hname, hp⟩ :=
            find_candidate (p := (·.params == args.map DataType.widened)) he
          exact ⟨hget, hname, .inr ⟨hundefined, .inr (.inl (by simpa using hp))⟩⟩
        · obtain ⟨hget, hname, hp⟩ := find_candidate (p := (·.accepts args)) he
          exact ⟨hget, hname, .inr ⟨hundefined, .inr (.inr hp)⟩⟩
      · cases h

theorem mem_of_resolve (h : t.resolve name args = .ok (i, c)) : c ∈ t.entries :=
  Array.mem_of_getElem? (resolve_ok h).1

theorem length_params_of_resolve (h : t.resolve name args = .ok (i, c)) :
    c.params.length = args.length := by
  have haccepts (h : c.accepts args = true) : c.params.length = args.length := by
    simp only [Callable.accepts, beq_iff_eq] at h
    simpa using congrArg List.length h
  rcases (resolve_ok h).2.2 with ⟨-, h⟩ | ⟨-, h | h | h⟩
  · exact haccepts h
  · rw [h]
  · rw [h, List.length_map]
  · exact haccepts h

/-- Methods of other names do not take part in a call. -/
theorem resolve_append {t : CallTable} {front back : List Callable} {name : String}
    (ht : t.entries.toList = front ++ back) (hback : ∀ e ∈ back, e.name ≠ name)
    (args : List DataType) : t.resolve name args = resolve ⟨front.toArray⟩ name args := by
  have hnone (n : Nat) : (back.zipIdx n).filter (·.1.name == name) = [] := by
    rw [List.filter_eq_nil_iff]
    intro e he
    simpa using hback e.1 (List.fst_mem_of_mem_zipIdx he)
  unfold resolve
  rw [ht, List.zipIdx_append, List.filter_append, hnone, List.append_nil]

end CallTable

end ClassFoundry
