import ClassFoundry.Proofs.CanonicalText
import ClassFoundry.Proofs.RoundTrip

/-!
# Reading normalises

Many byte sequences are read as one class: texts may be encoded longer than necessary, and
interfaces, fields, attributes and what follows the class are passed over. What was read can be
written, and is then read as the same class, as long as its pool has no more slots than the format
can count. A reader fills one slot more than it was told to where a long is the last constant.

## Main definitions

* `Reader.Gives`: what holds of everything that a reader may give

## Main results

* `readPool_gives`, `readMethod_gives`: what is read has the form in which it is written
* `read_toBytes_of_read`: a class that was read is read again from its bytes
-/

namespace ClassFoundry

/-! ## Readers -/

open Reader

namespace Reader

/-- **What holds of everything that a reader may give**. -/
def Gives {α : Type} (r : Reader α) (P : α → Prop) : Prop := ∀ c a c', r c = .ok (a, c') → P a

namespace Gives

variable {α β : Type} {r : Reader α} {f : α → Reader β} {P : α → Prop} {Q : β → Prop}

theorem any (r : Reader α) : r.Gives fun _ => True := fun _ _ _ _ => trivial

theorem pure {a : α} (h : P a) : (Pure.pure a : Reader α).Gives P := by
  intro c b c' hb
  cases hb
  exact h

theorem throw (e : ReadError) : (throw e : Reader α).Gives P := fun _ _ _ h => nomatch h

theorem bind (hr : r.Gives P) (hf : ∀ a, P a → (f a).Gives Q) : (r >>= f).Gives Q := by
  intro c b c' h
  obtain ⟨⟨a, c₁⟩, h₁, h₂⟩ := Except.bind_eq_ok.1 h
  exact hf a (hr c a c₁ h₁) c₁ b c' h₂

/-- A first step of which nothing has to be known. -/
theorem after (hf : ∀ a, (f a).Gives Q) : (r >>= f).Gives Q := (any r).bind fun a _ => hf a

theorem mono (h : r.Gives P) {P' : α → Prop} (hP : ∀ a, P a → P' a) : r.Gives P' :=
  fun c a c' hr => hP a (h c a c' hr)

end Gives

theorem take_gives (n : Nat) : (take n).Gives fun bytes => bytes.length = n := by
  intro c bytes c' h
  unfold take at h
  dsimp only at h
  split at h
  · cases h
  · rename_i hlt
    cases h
    rw [List.length_take] at hlt ⊢
    omega

/-- A list of things, each of which has a property. -/
theorem many_gives {α : Type} {r : Reader α} {P : α → Prop} (h : r.Gives P) (n : Nat)
    {acc : Array α} (hacc : ∀ a ∈ acc, P a) :
    (many r n acc).Gives fun as => as.size = acc.size + n ∧ ∀ a ∈ as, P a := by
  induction n generalizing acc with
  | zero => exact .pure ⟨rfl, hacc⟩
  | succ n ih =>
    refine h.bind fun a ha => ?_
    have hpush : ∀ b ∈ acc.push a, P b := by
      intro b hb
      rcases Array.mem_push.1 hb with hb | rfl
      · exact hacc b hb
      · exact ha
    refine (ih hpush).mono fun as has => ⟨?_, has.2⟩
    rw [has.1, Array.size_push]
    omega

end Reader

/-! ## The parts of a class -/

/-- A constant that can be written in a slot of its own. -/
def Constant.Writable (c : Constant) : Prop :=
  c ≠ .unusable ∧ ∀ text, c = .utf8 text → (ModifiedUtf8.encode text).length ≤ maxTextLength

theorem Constant.writable_of_ne_utf8 {c : Constant} (hc : c ≠ .unusable)
    (htext : ∀ text, c ≠ .utf8 text) : c.Writable :=
  ⟨hc, fun text heq => absurd heq (htext text)⟩

/-- **A constant that was read** can be written. -/
theorem readConstant_gives : readConstant.Gives Constant.Writable := by
  refine .after fun start => .after fun tag => ?_
  split
  · refine .after fun length => .after fun start => (take_gives _).bind fun bytes hbytes => ?_
    split
    · rename_i text htext
      refine .pure ⟨by simp, fun _ heq => ?_⟩
      cases heq
      have hle : (ModifiedUtf8.encode text).length ≤ bytes.length :=
        (ModifiedUtf8.stands_of_decode? htext).1
      have hlt := length.toNat_lt
      unfold maxTextLength
      omega
    · exact .throw _
  · exact .after fun _ => .pure (Constant.writable_of_ne_utf8 (by simp) (by simp))
  · exact .after fun _ => .after fun _ => .pure (Constant.writable_of_ne_utf8 (by simp) (by simp))
  · exact .after fun _ => .pure (Constant.writable_of_ne_utf8 (by simp) (by simp))
  · exact .after fun _ => .pure (Constant.writable_of_ne_utf8 (by simp) (by simp))
  · exact .after fun _ => .after fun _ => .pure (Constant.writable_of_ne_utf8 (by simp) (by simp))
  · exact .after fun _ => .after fun _ => .pure (Constant.writable_of_ne_utf8 (by simp) (by simp))
  · exact .after fun _ => .after fun _ => .pure (Constant.writable_of_ne_utf8 (by simp) (by simp))
  · exact .throw _

/-- A table of constants as a reader builds it. -/
structure ReadTable (constants : Array Constant) : Prop where
  paired : (⟨constants⟩ : ConstantPool).Paired
  texts : ShortTexts constants.toList

theorem ReadTable.append {constants : Array Constant} (h : ReadTable constants) {c : Constant}
    (hc : c.Writable) : ReadTable (PoolBuilder.append constants c) where
  paired := PoolBuilder.paired_append hc.1 h.paired
  texts := by
    intro text hmem
    unfold PoolBuilder.append at hmem
    split at hmem <;> simp only [Array.toList_push, List.mem_append, List.mem_singleton] at hmem
    · rcases hmem with (hmem | heq) | heq
      · exact h.texts text hmem
      · exact hc.2 text heq.symm
      · cases heq
    · rcases hmem with hmem | heq
      · exact h.texts text hmem
      · exact hc.2 text heq.symm

/-- **The constants that were read** are in the slots in which they are written. -/
theorem readConstants_gives {n : Nat} {acc : Array Constant} (h : ReadTable acc) :
    (readConstants n acc).Gives ReadTable := by
  induction n using Nat.strongRecOn generalizing acc with
  | ind n ih =>
    cases n with
    | zero => exact .pure h
    | succ n =>
      rw [readConstants.eq_def]
      refine readConstant_gives.bind fun c hc => ?_
      have happend := h.append hc
      unfold PoolBuilder.append at happend
      split
      · rename_i hslots
        rw [if_pos hslots] at happend
        cases n with
        | zero => exact .pure happend
        | succ n => exact ih n (by omega) happend
      · rename_i hslots
        rw [if_neg hslots] at happend
        exact ih n (by omega) happend

theorem readPool_gives : readPool.Gives fun pool => ReadTable pool.constants :=
  .after fun _ => (readConstants_gives ⟨fun k => by simp, by simp [ShortTexts]⟩).bind
    fun _ h => .pure h

/-- The code of a method, under a name that says so. -/
def CodeInfo.Writable (pool : ConstantPool) (info : CodeInfo) : Prop :=
  pool.text? info.attrName = some codeAttribute ∧ info.code.size < 2 ^ 32

theorem readMethodAttribute_gives {pool : ConstantPool} {found : Option CodeInfo}
    (h : ∀ info ∈ found, info.Writable pool) :
    (readMethodAttribute pool found).Gives fun found => ∀ info ∈ found, info.Writable pool := by
  refine .after fun attrName => .after fun _ => ?_
  split
  · rename_i hname
    refine .after fun _ => .after fun _ => .after fun length =>
      (take_gives _).bind fun code hcode => ?_
    refine .after fun _ => .after fun _ => .after fun _ => .pure fun info hinfo => ?_
    cases hinfo
    refine ⟨hname, ?_⟩
    have hlt := length.toNat_lt
    show code.toArray.size < 2 ^ 32
    rw [List.size_toArray, hcode]
    omega
  · exact .after fun _ => .pure h

theorem readMethodAttributes_gives {pool : ConstantPool} (n : Nat) {found : Option CodeInfo}
    (h : ∀ info ∈ found, info.Writable pool) :
    (readMethodAttributes pool n found).Gives fun found =>
      ∀ info ∈ found, info.Writable pool := by
  induction n generalizing found with
  | zero => exact .pure h
  | succ n ih => exact (readMethodAttribute_gives h).bind fun found hfound => ih hfound

/-- **A method that was read** can be written. -/
theorem readMethod_gives (pool : ConstantPool) : (readMethod pool).Gives fun m =>
    pool.text? m.attrName = some codeAttribute ∧ m.code.size < 2 ^ 32 := by
  refine .after fun _ => .after fun _ => .after fun _ => .after fun attributes => ?_
  refine (readMethodAttributes_gives attributes.toNat (by simp)).bind fun found hfound => ?_
  split
  · exact .pure (hfound _ rfl)
  · exact .throw _

/-- **A class that was read** can be written, if the format can count its constants. -/
theorem readClass_gives :
    readClass.Gives fun c => c.pool.size ≤ maxPoolIndex → c.Writable := by
  refine .after fun magic => ?_
  by_cases hmagic : magic = magicNumber
  · rw [if_neg (not_not.2 hmagic)]
    refine .after fun _ => .after fun _ => readPool_gives.bind fun pool hpool => ?_
    refine .after fun _ => .after fun _ => .after fun _ => .after fun _ => .after fun _ =>
      .after fun _ => .after fun _ => .after fun count => ?_
    refine (many_gives (readMethod_gives pool) count.toNat (by simp)).bind fun methods hmethods => ?_
    refine .after fun _ => .pure fun hsize => ?_
    have hlt := count.toNat_lt
    exact
      { magic := hmagic
        size := hsize
        paired := hpool.paired
        texts := hpool.texts
        methods := by
          rw [Array.length_toList, hmethods.1]
          simp only [List.size_toArray, List.length_nil]
          omega
        codes := fun m hm => hmethods.2 m (Array.mem_toList_iff.1 hm) }
  · rw [if_pos hmagic]
    exact Gives.bind (P := fun _ => False) (.throw _) fun _ h => h.elim

/-- **Reading normalises**: what was read from some bytes is read again from the bytes that are
written for it, if the format can count its constants. -/
theorem read_toBytes_of_read {bytes : Bytes} {c : ClassFile} (h : ClassFile.read bytes = .ok c)
    (hsize : c.pool.size ≤ maxPoolIndex) : ClassFile.read c.toBytes = .ok c := by
  unfold ClassFile.read at h
  cases hread : readClass.run { rest := bytes } with
  | error e =>
    rw [hread] at h
    cases h
  | ok r =>
    rw [hread] at h
    cases h
    exact (readClass_gives _ r.1 r.2 hread hsize).read_toBytes

/-- The bytes of a class with one constant, which is encoded longer than necessary, with an interface
and with a byte after its end. -/
def looseBytes : Bytes :=
  [0xca, 0xfe, 0xba, 0xbe, 0, 0, 0, 52, 0, 2, 1, 0, 2, 0xc1, 0x81, 0, 0, 0, 0, 0, 0, 0, 1, 0, 1,
    0, 0, 0, 0, 0, 0, 0xff]

/-- The class that is read from `looseBytes`. -/
def looseClass : ClassFile := { pool := ⟨#[.utf8 "A"]⟩, flags := 0 }

/-- A class that was not written in the form in which it is written is read again. -/
theorem read_toBytes_of_read_loose :
    ClassFile.read looseBytes = .ok looseClass ∧
      ClassFile.read looseClass.toBytes = .ok looseClass := by
  have hread : ClassFile.read looseBytes = .ok looseClass := by rfl
  exact ⟨hread, read_toBytes_of_read hread (by decide)⟩

end ClassFoundry
