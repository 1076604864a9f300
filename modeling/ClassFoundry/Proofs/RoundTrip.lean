import ClassFoundry.ClassFile.Reader
import ClassFoundry.ClassFile.Writer
import ClassFoundry.Proofs.Compilation
import ClassFoundry.Proofs.ModifiedUtf8
import ClassFoundry.Proofs.Progress

/-!
# Class files can be read back

Reading the bytes of a class gives the class. The format asks for little: lengths and counts have
to fit their fields, the slots of longs have to be where a reader puts them, and the attribute of
every method has to be named as its code. Every class that the compiler gives is of that kind.

## Main definitions

* `Reads`: a reader takes exactly the given bytes and gives a result
* `SlotList`: constants in the slots in which a reader puts them
* `ClassFile.Writable`: the classes that the format can hold

## Main results

* `reads_constant`, `reads_pool`, `reads_method`: the parts
* `ClassFile.Writable.read_toBytes`: a class is read from its bytes
* `Compiled.writable`: a compiled class is writable
-/

namespace ClassFoundry

open Reader

/-! ## Readers -/

/-- **A reader takes exactly the given bytes**, whatever follows, and gives a result. -/
def Reads {α : Type} (r : Reader α) (bytes : Bytes) (a : α) : Prop :=
  ∀ rest offset, r ⟨bytes ++ rest, offset⟩ = .ok (a, ⟨rest, offset + bytes.length⟩)

namespace Reads

variable {α β : Type} {r : Reader α} {f : α → Reader β} {bytes bytes' : Bytes} {a : α} {b : β}

theorem pure (a : α) : Reads (pure a) [] a := fun _ _ => rfl

theorem bind (hr : Reads r bytes a) (hf : Reads (f a) bytes' b) :
    Reads (r >>= f) (bytes ++ bytes') b := by
  intro rest offset
  show (r ⟨bytes ++ bytes' ++ rest, offset⟩).bind (fun p => f p.1 p.2) = _
  rw [List.append_assoc, hr, List.length_append, ← Nat.add_assoc]
  exact hf rest (offset + bytes.length)

/-- The first step of a reader may take nothing. -/
theorem first (hr : Reads r [] a) (hf : Reads (f a) bytes b) : Reads (r >>= f) bytes b :=
  hr.bind hf

/-- The last step of a reader may take nothing. -/
theorem last (hr : Reads r bytes a) (hf : Reads (f a) [] b) : Reads (r >>= f) bytes b := by
  have h := hr.bind hf
  rwa [List.append_nil] at h

theorem map {g : α → β} (hr : Reads r bytes a) :
    Reads (r >>= fun a => Pure.pure (g a)) bytes (g a) :=
  hr.last (pure (g a))

/-- Asking for the offset takes nothing. -/
theorem atOffset {g : Nat → Reader β} (h : ∀ n, Reads (g n) bytes b) :
    Reads (offset >>= g) bytes b :=
  fun rest n => h n rest n

end Reads

theorem reads_u8 (b : UInt8) : Reads u8 [b] b := fun _ _ => rfl

theorem reads_u16 (w : UInt16) : Reads u16 (be16 w) w := by
  intro rest n
  show Except.ok (ofBe16 (hiByte w) (loByte w), _) = _
  rw [ofBe16_hi_lo]
  rfl

theorem ofBe32_halves (w : UInt32) :
    ofBe32 (UInt16.ofNat (w.toNat / 65536)) (UInt16.ofNat w.toNat) = w := by
  have h := w.toNat_lt
  apply UInt32.toNat.inj
  simp only [ofBe32, UInt32.toNat_ofNat', UInt16.toNat_ofNat']
  omega

theorem ofBe64_halves (w : UInt64) :
    ofBe64 (UInt32.ofNat (w.toNat / 4294967296)) (UInt32.ofNat w.toNat) = w := by
  have h := w.toNat_lt
  apply UInt64.toNat.inj
  simp only [ofBe64, UInt64.toNat_ofNat', UInt32.toNat_ofNat']
  omega

theorem reads_u32 (w : UInt32) : Reads u32 (be32 w) w := by
  intro rest n
  show Except.ok (ofBe32 (ofBe16 (hiByte _) (loByte _)) (ofBe16 (hiByte _) (loByte _)), _) = _
  rw [ofBe16_hi_lo, ofBe16_hi_lo, ofBe32_halves]
  rfl

theorem reads_take (bytes : Bytes) : Reads (take bytes.length) bytes bytes := by
  intro rest n
  unfold take
  simp

theorem reads_skip (bytes : Bytes) : Reads (skip bytes.length) bytes () := (reads_take bytes).map

theorem reads_skipMany_zero (r : Reader Unit) : Reads (skipMany r (0 : UInt16).toNat) [] () :=
  .pure ()

/-- No attributes are passed over. -/
theorem reads_skipAttributes : Reads skipAttributes (be16 0) () :=
  (reads_u16 0).last (reads_skipMany_zero skipAttribute)

/-- A list of things, each read from its bytes. -/
theorem reads_many {α : Type} {r : Reader α} {encode : α → Bytes} {xs : List α}
    (h : ∀ x ∈ xs, Reads r (encode x) x) (acc : Array α) :
    Reads (many r xs.length acc) (xs.flatMap encode) (acc ++ xs.toArray) := by
  induction xs generalizing acc with
  | nil =>
    show Reads _ _ (acc ++ #[])
    rw [Array.append_empty]
    exact .pure acc
  | cons x xs ih =>
    obtain ⟨hx, hxs⟩ := List.forall_mem_cons.1 h
    have hpush : acc ++ (x :: xs).toArray = acc.push x ++ xs.toArray := by
      apply Array.ext'
      simp
    rw [hpush]
    exact hx.bind (ih hxs (acc.push x))

/-! ## Constants -/

/-- **A constant** is read from its bytes. -/
theorem reads_constant {c : Constant} (hc : c ≠ .unusable)
    (htext : ∀ text, c = .utf8 text → (ModifiedUtf8.encode text).length ≤ maxTextLength) :
    Reads readConstant c.encode c := by
  refine .atOffset fun start => ?_
  cases c with
  | utf8 text =>
    have hlength : (UInt16.ofNat (ModifiedUtf8.encode text).length).toNat =
        (ModifiedUtf8.encode text).length := by
      have hle := htext text rfl
      rw [UInt16.toNat_ofNat']
      simp only [maxTextLength] at hle
      omega
    refine (reads_u8 1).bind ((reads_u16 _).bind (.atOffset fun at_ => ?_))
    rw [hlength]
    refine (reads_take (ModifiedUtf8.encode text)).last ?_
    rw [ModifiedUtf8.decode?_encode]
    exact .pure _
  | integer value =>
    refine (reads_u8 3).bind ((reads_u32 value.toUInt32).last ?_)
    rw [Int32.toInt32_toUInt32]
    exact .pure _
  | long value =>
    refine (reads_u8 5).bind ((reads_u32 _).bind ((reads_u32 _).last ?_))
    rw [ofBe64_halves, Int64.toInt64_toUInt64]
    exact .pure _
  | «class» name => exact (reads_u8 7).bind (reads_u16 name).map
  | string text => exact (reads_u8 8).bind (reads_u16 text).map
  | fieldRef cls sig => exact (reads_u8 9).bind ((reads_u16 cls).bind (reads_u16 sig).map)
  | methodRef cls sig => exact (reads_u8 10).bind ((reads_u16 cls).bind (reads_u16 sig).map)
  | nameAndType name descriptor =>
    exact (reads_u8 12).bind ((reads_u16 name).bind (reads_u16 descriptor).map)
  | unusable => exact absurd rfl hc

/-- **Constants in the slots in which a reader puts them**: every long is followed by the slot that
it also takes. -/
inductive SlotList : List Constant → Prop
  | nil : SlotList []
  | single {c : Constant} {rest : List Constant} (hc : c ≠ .unusable) (hs : c.slots ≠ 2)
      (hrest : SlotList rest) : SlotList (c :: rest)
  | long {v : Int64} {rest : List Constant} (hrest : SlotList rest) :
      SlotList (.long v :: .unusable :: rest)

/-- The positions say the same. -/
theorem SlotList.of_positions {l : List Constant}
    (h : ∀ k : Nat, l[k]? = some .unusable ↔ ∃ j v, k = j + 1 ∧ l[j]? = some (.long v)) :
    SlotList l := by
  induction hn : l.length using Nat.strongRecOn generalizing l with
  | ind n ih =>
    cases l with
    | nil => exact .nil
    | cons c rest =>
      have hc : c ≠ .unusable := by
        rintro rfl
        obtain ⟨j, v, hk, -⟩ := (h 0).1 rfl
        cases hk
      -- a long takes the slot behind it along, so two of them go at once
      by_cases hs : c.slots = 2
      · obtain ⟨v, rfl⟩ := PoolBuilder.slots_eq_two_iff.1 hs
        have hnext := (h 1).2 ⟨0, v, rfl, rfl⟩
        cases rest with
        | nil => cases hnext
        | cons d rest =>
          cases Option.some.inj hnext
          refine .long (ih rest.length (by simp only [List.length_cons] at hn; omega)
            (fun k => ?_) rfl)
          rw [show rest[k]? = (Constant.long v :: .unusable :: rest)[k + 2]? from rfl, h (k + 2)]
          constructor
          · rintro ⟨j, w, hk, hj⟩
            match j, hk, hj with
            | j + 2, hk, hj => exact ⟨j, w, by omega, hj⟩
            | 1, _, hj => cases hj
          · rintro ⟨j, w, rfl, hj⟩
            exact ⟨j + 2, w, rfl, hj⟩
      · refine .single hc hs (ih rest.length (by simp only [List.length_cons] at hn; omega)
          (fun k => ?_) rfl)
        rw [show rest[k]? = (c :: rest)[k + 1]? from rfl, h (k + 1)]
        constructor
        · rintro ⟨j, w, hk, hj⟩
          match j, hk, hj with
          | j + 1, hk, hj => exact ⟨j, w, by omega, hj⟩
          | 0, _, hj =>
            cases Option.some.inj hj
            exact absurd rfl hs
        · rintro ⟨j, w, rfl, hj⟩
          exact ⟨j + 1, w, rfl, hj⟩

theorem ConstantPool.Paired.slotList {p : ConstantPool} (h : p.Paired) :
    SlotList p.constants.toList :=
  .of_positions fun k => by simpa only [Array.getElem?_toList] using h k

/-- Whether the texts among constants fit their length fields. -/
def ShortTexts (l : List Constant) : Prop :=
  ∀ text, .utf8 text ∈ l → (ModifiedUtf8.encode text).length ≤ maxTextLength

theorem ShortTexts.tail {c : Constant} {l : List Constant} (h : ShortTexts (c :: l)) :
    ShortTexts l :=
  fun text hmem => h text (List.mem_cons_of_mem c hmem)

theorem ShortTexts.head {c : Constant} {l : List Constant} (h : ShortTexts (c :: l)) :
    ∀ text, c = .utf8 text → (ModifiedUtf8.encode text).length ≤ maxTextLength :=
  fun text heq => h text (heq ▸ List.mem_cons_self)

/-- **The constants of a pool** are read from their bytes. -/
theorem reads_constants {l : List Constant} (h : SlotList l) (htexts : ShortTexts l)
    (acc : Array Constant) :
    Reads (readConstants l.length acc) (l.flatMap Constant.encode) (acc ++ l.toArray) := by
  induction h generalizing acc with
  | nil =>
    show Reads _ _ (acc ++ #[])
    rw [Array.append_empty]
    exact .pure acc
  | @single c rest hc hs _ ih =>
    have hpush : acc ++ (c :: rest).toArray = acc.push c ++ rest.toArray := by
      apply Array.ext'
      simp
    rw [hpush, List.length_cons, readConstants.eq_def]
    refine (reads_constant hc htexts.head).bind ?_
    rw [if_neg hs]
    exact ih htexts.tail _
  | @long v rest _ ih =>
    have hpush : acc ++ (Constant.long v :: .unusable :: rest).toArray =
        (acc.push (.long v)).push .unusable ++ rest.toArray := by
      apply Array.ext'
      simp
    rw [hpush]
    exact (reads_constant (by simp) htexts.head).bind (ih htexts.tail.tail _)

theorem reads_pool {p : ConstantPool} (hsize : p.size ≤ maxPoolIndex) (hpaired : p.Paired)
    (htexts : ShortTexts p.constants.toList) :
    Reads readPool (be16 (UInt16.ofNat (p.size + 1)) ++
      p.constants.toList.flatMap Constant.encode) p := by
  have hcount : (UInt16.ofNat (p.size + 1)).toNat - 1 = p.constants.toList.length := by
    simp only [maxPoolIndex] at hsize
    rw [UInt16.toNat_ofNat', Array.length_toList]
    show (p.size + 1) % 65536 - 1 = p.size
    omega
  refine (reads_u16 _).bind ?_
  rw [hcount]
  refine (reads_constants hpaired.slotList htexts #[]).last ?_
  rw [Array.empty_append, Array.toArray_toList]
  exact .pure _

/-! ## Methods and classes -/

/-- **A method** is read from its bytes. -/
theorem reads_method {p : ConstantPool} {m : Method} (hattr : p.text? m.attrName = some codeAttribute)
    (hsize : m.code.size < 2 ^ 32) : Reads (readMethod p) m.encode m := by
  have hlength : (UInt32.ofNat m.code.size).toNat = m.code.toList.length := by
    rw [UInt32.toNat_ofNat', Array.length_toList]
    omega
  have hattribute : Reads (readMethodAttributes p (1 : UInt16).toNat none)
      (be16 m.attrName ++ (be32 (UInt32.ofNat m.codeInfo.length) ++ m.codeInfo))
      (some ⟨m.attrName, m.maxStack, m.maxLocals, m.code⟩) := by
    show Reads (readMethodAttribute p none >>= fun found => readMethodAttributes p 0 found) _ _
    refine Reads.last ?_ (.pure _)
    refine (reads_u16 m.attrName).bind ((reads_u32 _).bind ?_)
    rw [if_pos hattr]
    simp only [Method.codeInfo, List.append_assoc]
    refine (reads_u16 _).bind ((reads_u16 _).bind ((reads_u32 _).bind ?_))
    rw [hlength]
    refine (reads_take _).bind ((reads_u16 0).bind ((reads_skip []).first ?_))
    refine reads_skipAttributes.last ?_
    rw [Array.toArray_toList]
    exact .pure _
  simp only [Method.encode, List.append_assoc]
  exact (reads_u16 _).bind ((reads_u16 _).bind ((reads_u16 _).bind ((reads_u16 1).bind
    (hattribute.last (.pure _)))))

/-- **The classes that the format can hold**. -/
structure ClassFile.Writable (c : ClassFile) : Prop where
  magic : c.magic = magicNumber
  size : c.pool.size ≤ maxPoolIndex
  paired : c.pool.Paired
  texts : ShortTexts c.pool.constants.toList
  methods : c.methods.length ≤ 65535
  codes : ∀ m ∈ c.methods, c.pool.text? m.attrName = some codeAttribute ∧ m.code.size < 2 ^ 32

/-- Where all texts fit, everything is written. -/
theorem ClassFile.toBytes_of_shortTexts {c : ClassFile} (h : ShortTexts c.pool.constants.toList) :
    c.toBytes = c.header ++ (be16 (UInt16.ofNat (c.pool.size + 1)) ++
      c.pool.constants.toList.flatMap Constant.encode) ++ c.body := by
  have hfits : ∀ d ∈ c.pool.constants.toList, d.fits = true := by
    intro d hd
    cases d with
    | utf8 text =>
      rw [Constant.fits, ← ModifiedUtf8.length_encode]
      exact decide_eq_true (h text hd)
    | _ => rfl
  have herror : c.pool.write.error = none := by
    refine List.findSome?_eq_none_iff.2 fun d hd => ?_
    have := hfits d hd
    cases d with
    | utf8 text => exact if_pos this
    | _ => rfl
  unfold toBytes write
  dsimp only
  rw [herror]
  dsimp only [ConstantPool.write]
  rw [List.takeWhile_eq_self_iff.2 hfits]

/-- **A class** takes exactly its bytes to be read. -/
theorem ClassFile.Writable.reads_toBytes {c : ClassFile} (h : c.Writable) :
    Reads readClass c.toBytes c := by
  have hcount : (UInt16.ofNat c.methods.length).toNat = c.methods.length := by
    have := h.methods
    rw [UInt16.toNat_ofNat']
    omega
  rw [toBytes_of_shortTexts h.texts]
  simp only [header, body, List.append_assoc]
  refine (reads_u32 _).bind ?_
  rw [if_neg (not_not.2 h.magic)]
  refine (reads_u16 _).bind ((reads_u16 _).bind
    ((reads_pool h.size h.paired h.texts).bind ?_))
  refine (reads_u16 _).bind ((reads_u16 _).bind ((reads_u16 _).bind ?_))
  -- neither interfaces nor fields
  refine (reads_u16 0).bind ((reads_skip []).first ((reads_u16 0).bind
    ((reads_skipMany_zero skipField).first ((reads_u16 _).bind ?_))))
  rw [hcount]
  refine (reads_many (fun m hm => reads_method (h.codes m hm).1 (h.codes m hm).2) #[]).bind ?_
  refine reads_skipAttributes.last ?_
  rw [Array.empty_append]
  exact .pure _

theorem ClassFile.Writable.read_toBytes {c : ClassFile} (h : c.Writable) :
    ClassFile.read c.toBytes = .ok c := by
  have hreads := h.reads_toBytes [] 0
  rw [List.append_nil] at hreads
  unfold ClassFile.read
  show (readClass { rest := c.toBytes, offset := 0 }).map Prod.fst = _
  rw [hreads]
  rfl

/-! ## Compiled classes -/

theorem PoolBuilder.Sound.shortTexts {b : PoolBuilder} (h : b.Sound) :
    ShortTexts b.pool.constants.toList := by
  intro text hmem
  obtain ⟨k, hk⟩ := List.getElem?_of_mem hmem
  rw [Array.getElem?_toList] at hk
  have hrefers := h.refers (h.get?_of_getElem? hk (by simp)).2
  rw [ModifiedUtf8.length_encode]
  exact hrefers

section Compiled

variable {options : Options} {imports : List Callable} {p : Program} {c : ClassFile}
  {table : CallTable}

/-- Methods have different names, so there are no more than indices. -/
theorem Compiled.length_methods_le (h : Compiled options imports p c table) :
    c.methods.length ≤ 65535 := by
  obtain ⟨constructors, functions, hmethods, hconstructors, hfunctions⟩ := h.methods
  have hnames : functions.map (fun m => c.pool.text? m.name) =
      p.functions.map fun f => some f.name := by
    rw [← List.forall₂_eq_eq_eq, List.forall₂_map_left_iff, List.forall₂_map_right_iff]
    exact (hfunctions.imp fun _ _ hm => hm.name).flip
  have hdistinct : (p.functions.map fun f => some f.name).Nodup :=
    List.pairwise_map.2 (h.distinct.imp fun hne heq => hne (Option.some.inj heq))
  have hnodup : (c.methods.map fun m => c.pool.text? m.name).Nodup := by
    rw [hmethods, List.map_append, hnames]
    rcases hconstructors with rfl | ⟨m, rfl, hm, hne⟩
    · exact hdistinct
    · refine List.nodup_cons.2 ⟨fun hmem => ?_, hdistinct⟩
      obtain ⟨f, hf, heq⟩ := List.mem_map.1 hmem
      exact hne f hf (Option.some.inj (heq.trans hm.name))
  -- the names are found by index, so the indices differ too, and none of them is zero
  have hindices : (c.methods.map fun m => m.name.toNat).Nodup := by
    refine List.Nodup.of_map (fun n => c.pool.text? (UInt16.ofNat n)) ?_
    simpa only [List.map_map, Function.comp_def, UInt16.ofNat_toNat] using hnodup
  have hrange : (c.methods.map fun m => m.name.toNat) ⊆ List.range' 1 65535 := by
    intro n hn
    obtain ⟨m, hm, rfl⟩ := List.mem_map.1 hn
    have hname : ∃ name, c.pool.text? m.name = some name := by
      rcases h.method_cases hm with hm | ⟨f, -, hm⟩
      · exact ⟨_, hm.name⟩
      · exact ⟨_, hm.name⟩
    obtain ⟨name, hname⟩ := hname
    have hzero := (ConstantPool.get?_eq_some_iff.1 (ConstantPool.text?_eq_some_iff.1 hname)).1
    have hpos : m.name.toNat ≠ 0 := fun h0 => hzero (UInt16.toNat.inj h0)
    have hlt := m.name.toNat_lt
    rw [List.mem_range'_1]
    omega
  simpa using (hindices.subperm hrange).length_le

/-- **A compiled class** is writable. -/
theorem Compiled.writable (h : Compiled options imports p c table) : c.Writable := by
  obtain ⟨b, hb, hpool⟩ := h.pool
  exact
    { magic := h.magic
      size := hpool ▸ Nat.le_trans hb.size_le hb.limit_le
      paired := hpool ▸ hb.paired
      texts := hpool ▸ hb.shortTexts
      methods := h.length_methods_le
      codes := by
        intro m hm
        have hsize {n : Nat} (hn : n ≤ maxCodeLength) : n < 2 ^ 32 := by
          unfold maxCodeLength at hn
          omega
        rcases h.method_cases hm with hm | ⟨f, -, hm⟩
        · obtain ⟨a, hbody⟩ := hm.body
          exact ⟨hm.attrName, hsize hbody.size⟩
        · obtain ⟨_, _, _, -, -, -, -, hbody⟩ := hm.body
          exact ⟨hm.attrName, hsize hbody.size⟩ }

end Compiled

/-- **Reading the bytes of a class gives the class**, if the format can hold it, and it can hold
every class that the compiler gives. -/
theorem read_of_write :
    (∀ c : ClassFile, c.Writable → ClassFile.read c.toBytes = .ok c) ∧
      ∀ (options : Options) (imports : List Callable) (p : Program) (c : ClassFile),
        (∀ i ∈ imports, i.methodRef = none) →
          (compileProgram options imports p).result = .ok c → c.Writable := by
  refine ⟨fun c h => h.read_toBytes, fun options imports p c himports h => ?_⟩
  obtain ⟨table, hcompiled⟩ := compiled_of_ok himports h
  exact hcompiled.writable

/-- The class of a program with a loop is read back. -/
theorem read_of_write_latch :
    ∃ c, (compileProgram {} [] latch).result = .ok c ∧ c.Writable ∧
      ClassFile.read c.toBytes = .ok c := by
  obtain ⟨c, hc⟩ := compileProgram_latch
  have hwritable := read_of_write.2 {} [] latch c (by simp) hc
  exact ⟨c, hc, hwritable, read_of_write.1 c hwritable⟩

end ClassFoundry
