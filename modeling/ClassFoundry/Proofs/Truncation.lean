import ClassFoundry.Proofs.Normalisation

/-!
# Truncated class files

A reader takes bytes from the head of what is left and depends on no others. So a class is read
from every byte sequence that begins with the bytes that were taken for it, and if the last of them
are missing, wherever the cut is, reading ends at the first part that is not all there.

## Main definitions

* `Reader.Consumes`: the bytes that a reader takes, and what happens if some are missing
* `Reader.Sequential`: readers that take bytes in that way wherever they succeed

## Main results

* `Reader.Consumes.bind`: one reader after the other
* `readConstants_sequential`, `readMethod_sequential`, `readClass_sequential`: the parts of a class
* `truncated_of_take`: no truncated class file is accepted
-/

namespace ClassFoundry

namespace Reader

variable {α β : Type} {r : Reader α} {f : α → Reader β}

/-- **The bytes that a reader takes** from an offset on: with all of them it gives a result, whatever
follows, and with only some of them it finds its input truncated. -/
structure Consumes (r : Reader α) (offset : Nat) (bytes : Bytes) (a : α) : Prop where
  whole : ∀ rest, r ⟨bytes ++ rest, offset⟩ = .ok (a, ⟨rest, offset + bytes.length⟩)
  part : ∀ k < bytes.length, ∃ cut ≤ offset + k,
    r ⟨bytes.take k, offset⟩ = .error (.truncated cut)

/-- One reader after the other. The input may end in the bytes of the first or in those of the
second. -/
theorem Consumes.bind {offset : Nat} {bytes bytes' : Bytes} {a : α} {b : β}
    (hr : r.Consumes offset bytes a) (hf : (f a).Consumes (offset + bytes.length) bytes' b) :
    (r >>= f).Consumes offset (bytes ++ bytes') b where
  whole rest := by
    show (r ⟨bytes ++ bytes' ++ rest, offset⟩).bind (fun p => f p.1 p.2) = _
    rw [List.append_assoc, hr.whole, List.length_append, ← Nat.add_assoc]
    exact hf.whole rest
  part k hk := by
    rw [List.length_append] at hk
    show ∃ cut ≤ offset + k,
      (r ⟨(bytes ++ bytes').take k, offset⟩).bind (fun p => f p.1 p.2) = _
    by_cases hfirst : k < bytes.length
    · obtain ⟨cut, hcut, herror⟩ := hr.part k hfirst
      refine ⟨cut, hcut, ?_⟩
      rw [List.take_append_of_le_length (Nat.le_of_lt hfirst), herror]
      rfl
    · -- the first is read whole, so its end is where the second starts
      obtain ⟨j, rfl⟩ := Nat.exists_eq_add_of_le (Nat.le_of_not_lt hfirst)
      obtain ⟨cut, hcut, herror⟩ := hf.part j (by omega)
      refine ⟨cut, by omega, ?_⟩
      rw [List.take_length_add_append, hr.whole]
      exact herror

/-- **Readers that take bytes one after the other**: wherever they succeed, the bytes in front of
what is left are those that they take. -/
def Sequential (r : Reader α) : Prop :=
  ∀ c a c', r c = .ok (a, c') → ∃ bytes, c.rest = bytes ++ c'.rest ∧ r.Consumes c.offset bytes a

namespace Sequential

/-- A reader that takes nothing. -/
theorem of_empty (g : Nat → α) (h : ∀ c, r c = .ok (g c.offset, c)) : r.Sequential := by
  intro c a c' hc
  cases (h c).symm.trans hc
  exact ⟨[], rfl, fun rest => h ⟨rest, c.offset⟩, fun k hk => absurd hk (Nat.not_lt_zero k)⟩

theorem pure (a : α) : (Pure.pure a : Reader α).Sequential := of_empty (fun _ => a) fun _ => rfl

theorem throw (e : ReadError) : (throw e : Reader α).Sequential := fun _ _ _ h => by cases h

/-- A reader that takes a fixed number of bytes. -/
theorem of_length (n : Nat) (g : Bytes → α)
    (h : ∀ c, r c = if c.rest.length < n then .error (.truncated c.offset)
      else .ok (g (c.rest.take n), ⟨c.rest.drop n, c.offset + n⟩)) : r.Sequential := by
  intro c a c' hc
  rw [h] at hc
  split at hc
  · cases hc
  · rename_i hlength
    cases hc
    have htaken : (c.rest.take n).length = n := List.length_take_of_le (Nat.le_of_not_lt hlength)
    refine ⟨c.rest.take n, (List.take_append_drop n c.rest).symm, fun rest => ?_, fun k hk => ?_⟩
    · rw [h, if_neg (by rw [List.length_append]; omega), List.take_left' htaken,
        List.drop_left' htaken, htaken]
    · refine ⟨c.offset, Nat.le_add_right _ _, ?_⟩
      rw [h, if_pos (by rw [List.length_take]; omega)]

theorem bind (hr : r.Sequential) (hf : ∀ a, (f a).Sequential) : (r >>= f).Sequential := by
  intro c b c'' h
  obtain ⟨⟨a, c'⟩, h₁, h₂⟩ := Except.bind_eq_ok.1 h
  obtain ⟨bytes, hrest, hbytes⟩ := hr c a c' h₁
  obtain ⟨bytes', hrest', hbytes'⟩ := hf a c' b c'' h₂
  -- the second reader starts at the offset that the first has reached
  have hoffset : c'.offset = c.offset + bytes.length := by
    have hwhole := hbytes.whole c'.rest
    rw [← hrest] at hwhole
    exact congrArg Cursor.offset (Prod.mk.inj (Except.ok.inj (h₁.symm.trans hwhole))).2
  rw [hoffset] at hbytes'
  exact ⟨bytes ++ bytes', by rw [hrest, hrest', List.append_assoc], hbytes.bind hbytes'⟩

end Sequential

/-! ## Words and lists -/

theorem take_sequential (n : Nat) : (take n).Sequential :=
  .of_length n id fun c => by
    unfold take
    dsimp only
    by_cases h : c.rest.length < n
    · rw [if_pos h, if_pos (by rw [List.length_take]; omega)]
    · rw [if_neg h, if_neg (by rw [List.length_take]; omega)]
      rfl

theorem u8_sequential : u8.Sequential :=
  .of_length 1 (fun bytes => bytes.headD 0) fun c => by
    obtain ⟨_ | ⟨b, rest⟩, offset⟩ := c <;> rfl

theorem u16_sequential : u16.Sequential :=
  .of_length 2 (fun bytes => ofBe16 (bytes.getD 0 0) (bytes.getD 1 0)) fun c => by
    obtain ⟨_ | ⟨hi, _ | ⟨lo, rest⟩⟩, offset⟩ := c <;> rfl

theorem u32_sequential : u32.Sequential :=
  .of_length 4 (fun bytes => ofBe32 (ofBe16 (bytes.getD 0 0) (bytes.getD 1 0))
      (ofBe16 (bytes.getD 2 0) (bytes.getD 3 0))) fun c => by
    obtain ⟨_ | ⟨b₃, _ | ⟨b₂, _ | ⟨b₁, _ | ⟨b₀, rest⟩⟩⟩⟩, offset⟩ := c <;> rfl

theorem offset_sequential : offset.Sequential := .of_empty id fun _ => rfl

theorem skip_sequential (n : Nat) : (skip n).Sequential :=
  (take_sequential n).bind fun _ => .pure _

theorem skipMany_sequential {r : Reader Unit} (h : r.Sequential) (n : Nat) :
    (skipMany r n).Sequential := by
  induction n with
  | zero => exact .pure _
  | succ n ih => exact h.bind fun _ => ih

theorem many_sequential (h : r.Sequential) (n : Nat) (acc : Array α) :
    (many r n acc).Sequential := by
  induction n generalizing acc with
  | zero => exact .pure _
  | succ n ih => exact h.bind fun a => ih (acc.push a)

theorem skipAttribute_sequential : skipAttribute.Sequential :=
  u16_sequential.bind fun _ => u32_sequential.bind fun _ => skip_sequential _

theorem skipAttributes_sequential : skipAttributes.Sequential :=
  u16_sequential.bind fun _ => skipMany_sequential skipAttribute_sequential _

end Reader

/-! ## The parts of a class -/

open Reader

theorem readConstant_sequential : readConstant.Sequential := by
  have hword (g : UInt16 → Constant) : (u16 >>= fun i => pure (g i)).Sequential :=
    u16_sequential.bind fun _ => .pure _
  have hwords (g : UInt16 → UInt16 → Constant) :
      (u16 >>= fun i => u16 >>= fun j => pure (g i j)).Sequential :=
    u16_sequential.bind fun _ => u16_sequential.bind fun _ => .pure _
  refine offset_sequential.bind fun start => u8_sequential.bind fun tag => ?_
  split
  · refine u16_sequential.bind fun length => offset_sequential.bind fun start =>
      (take_sequential _).bind fun bytes => ?_
    split
    · exact .pure _
    · exact .throw _
  · exact u32_sequential.bind fun _ => .pure _
  · exact u32_sequential.bind fun _ => u32_sequential.bind fun _ => .pure _
  · exact hword .class
  · exact hword .string
  · exact hwords .fieldRef
  · exact hwords .methodRef
  · exact hwords .nameAndType
  · exact .throw _

theorem readConstants_sequential (n : Nat) (acc : Array Constant) :
    (readConstants n acc).Sequential := by
  -- a long takes two slots at once
  induction n using Nat.strongRecOn generalizing acc with
  | ind n ih =>
    cases n with
    | zero => exact .pure _
    | succ n =>
      rw [readConstants.eq_def]
      refine readConstant_sequential.bind fun c => ?_
      split
      · cases n with
        | zero => exact .pure _
        | succ n => exact ih n (by omega) _
      · exact ih n (by omega) _

theorem readPool_sequential : readPool.Sequential :=
  u16_sequential.bind fun _ => (readConstants_sequential _ _).bind fun _ => .pure _

theorem readMethodAttribute_sequential (pool : ConstantPool) (found : Option CodeInfo) :
    (readMethodAttribute pool found).Sequential := by
  refine u16_sequential.bind fun attrName => u32_sequential.bind fun length => ?_
  split
  · exact u16_sequential.bind fun _ => u16_sequential.bind fun _ => u32_sequential.bind fun _ =>
      (take_sequential _).bind fun _ => u16_sequential.bind fun _ => (skip_sequential _).bind
      fun _ => skipAttributes_sequential.bind fun _ => .pure _
  · exact (skip_sequential _).bind fun _ => .pure _

theorem readMethodAttributes_sequential (pool : ConstantPool) (n : Nat) (found : Option CodeInfo) :
    (readMethodAttributes pool n found).Sequential := by
  induction n generalizing found with
  | zero => exact .pure _
  | succ n ih => exact (readMethodAttribute_sequential pool found).bind ih

theorem readMethod_sequential (pool : ConstantPool) : (readMethod pool).Sequential := by
  refine u16_sequential.bind fun _ => u16_sequential.bind fun _ => u16_sequential.bind fun _ =>
    u16_sequential.bind fun attributes =>
    (readMethodAttributes_sequential pool attributes.toNat none).bind fun found => ?_
  split
  · exact .pure _
  · exact .throw _

theorem skipField_sequential : skipField.Sequential :=
  (skip_sequential 6).bind fun _ => skipAttributes_sequential

/-- **A class** is read from bytes that are taken one after the other. -/
theorem readClass_sequential : readClass.Sequential := by
  refine u32_sequential.bind fun magic => ?_
  by_cases hmagic : magic = magicNumber
  · rw [if_neg (not_not.2 hmagic)]
    refine u16_sequential.bind fun _ => u16_sequential.bind fun _ => readPool_sequential.bind
      fun pool => ?_
    refine u16_sequential.bind fun _ => u16_sequential.bind fun _ => u16_sequential.bind fun _ =>
      u16_sequential.bind fun interfaces => (skip_sequential _).bind fun _ => ?_
    refine u16_sequential.bind fun fields =>
      (skipMany_sequential skipField_sequential _).bind fun _ => ?_
    exact u16_sequential.bind fun count =>
      (many_sequential (readMethod_sequential pool) count.toNat #[]).bind fun _ =>
      skipAttributes_sequential.bind fun _ => .pure _
  · rw [if_pos hmagic]
    exact fun _ _ _ h => by cases h

/-! ## Truncated classes -/

/-- What a class is read from: the bytes up to the offset at which reading ends. -/
theorem readClass_consumes {bytes rest : Bytes} {c : ClassFile} {n : Nat}
    (h : readClass { rest := bytes } = .ok (c, ⟨rest, n⟩)) :
    n ≤ bytes.length ∧ rest = bytes.drop n ∧ readClass.Consumes 0 (bytes.take n) c := by
  obtain ⟨taken, hbytes, htaken⟩ := readClass_sequential _ c _ h
  dsimp only at hbytes htaken
  have hlength : taken.length = n := by
    have hwhole := htaken.whole rest
    rw [← hbytes] at hwhole
    cases h.symm.trans hwhole
    exact (Nat.zero_add _).symm
  refine ⟨?_, ?_, ?_⟩
  · rw [hbytes, List.length_append]
    omega
  · rw [hbytes, List.drop_left' hlength]
  · rwa [hbytes, List.take_left' hlength]

theorem Reader.Consumes.read {bytes : Bytes} {c : ClassFile} (h : readClass.Consumes 0 bytes c)
    (rest : Bytes) : ClassFile.read (bytes ++ rest) = .ok c := by
  show (readClass ⟨bytes ++ rest, 0⟩).map Prod.fst = _
  rw [h.whole]
  rfl

theorem Reader.Consumes.read_take {bytes : Bytes} {c : ClassFile}
    (h : readClass.Consumes 0 bytes c) {k : Nat} (hk : k < bytes.length) :
    ∃ cut ≤ k, ClassFile.read (bytes.take k) = .error (.truncated cut) := by
  obtain ⟨cut, hcut, herror⟩ := h.part k hk
  refine ⟨cut, by omega, ?_⟩
  show (readClass ⟨bytes.take k, 0⟩).map Prod.fst = _
  rw [herror]
  rfl

/-- **No truncated class file is accepted**. If a class is read from the first `n` bytes of a byte
sequence, it is read from every byte sequence with the same first `n` bytes, and from fewer of them
reading ends with a truncation inside of what there is. In particular, it does so on the bytes of
every compiled class without the last ones. -/
theorem truncated_of_take :
    (∀ (bytes rest : Bytes) (c : ClassFile) (n : Nat),
      readClass { rest := bytes } = .ok (c, ⟨rest, n⟩) →
        (n ≤ bytes.length ∧ rest = bytes.drop n) ∧
        (∀ bytes' : Bytes, bytes'.take n = bytes.take n → ClassFile.read bytes' = .ok c) ∧
        ∀ k < n, ∃ cut ≤ k, ClassFile.read (bytes.take k) = .error (.truncated cut)) ∧
    ∀ (options : Options) (imports : List Callable) (p : Program) (c : ClassFile),
      (∀ i ∈ imports, i.methodRef = none) → (compileProgram options imports p).result = .ok c →
        ∀ k < c.toBytes.length, ∃ cut ≤ k,
          ClassFile.read (c.toBytes.take k) = .error (.truncated cut) := by
  constructor
  · intro bytes rest c n h
    obtain ⟨hn, hrest, hconsumes⟩ := readClass_consumes h
    refine ⟨⟨hn, hrest⟩, fun bytes' hbytes' => ?_, fun k hk => ?_⟩
    · rw [← List.take_append_drop n bytes', hbytes']
      exact hconsumes.read _
    · have hlength : k < (bytes.take n).length := by rwa [List.length_take_of_le hn]
      obtain ⟨cut, hcut, herror⟩ := hconsumes.read_take hlength
      rw [List.take_take, Nat.min_eq_left (Nat.le_of_lt hk)] at herror
      exact ⟨cut, hcut, herror⟩
  · intro options imports p c himports h k hk
    obtain ⟨table, hcompiled⟩ := compiled_of_ok himports h
    have hreads := hcompiled.writable.reads_toBytes [] 0
    rw [List.append_nil, Nat.zero_add] at hreads
    obtain ⟨-, -, hconsumes⟩ := readClass_consumes hreads
    rw [List.take_length] at hconsumes
    exact hconsumes.read_take hk

/-- A class with an interface and with a byte after its end is read from all but that byte, and from
no fewer. -/
theorem truncated_of_take_loose :
    ClassFile.read (looseBytes.take 31) = .ok looseClass ∧
      (∃ cut ≤ 30, ClassFile.read (looseBytes.take 30) = .error (.truncated cut)) ∧
      ∃ c, (compileProgram {} [] latch).result = .ok c ∧ 0 < c.toBytes.length ∧
        ∃ cut ≤ c.toBytes.length - 1,
          ClassFile.read (c.toBytes.take (c.toBytes.length - 1)) = .error (.truncated cut) := by
  have hread : readClass { rest := looseBytes } = .ok (looseClass, ⟨[0xff], 31⟩) := by rfl
  obtain ⟨-, hsame, hless⟩ := truncated_of_take.1 looseBytes _ looseClass 31 hread
  obtain ⟨c, hc⟩ := compileProgram_latch
  have hpos : 0 < c.toBytes.length := by
    obtain ⟨table, hcompiled⟩ := compiled_of_ok (by simp) hc
    rw [ClassFile.toBytes_of_shortTexts hcompiled.writable.texts]
    simp [ClassFile.header]
  exact ⟨hsame _ (by decide), hless 30 (by decide), c, hc, hpos,
    truncated_of_take.2 {} [] latch c (by simp) hc _ (by omega)⟩

end ClassFoundry
