import ClassFoundry.Proofs.Success

/-!
# Interning keeps a pool sound

A pool under construction only grows, so what an index names stays what it is. The table behind
the look-up is the inverse of the pool, every constant refers to earlier constants of the right
sort, and the second slot of a long is never handed out. All this holds also where interning fails
halfway.

## Main definitions

* `p ≤ q` on pools: the constants of `p` are the first ones of `q`
* `Constant.Refers`: a constant refers to constants of the right sort
* `ConstantPool.Paired`: exactly the slot after a long holds no constant
* `PoolBuilder.Sound`: the invariant of a pool under construction
* `PoolBuilder.Interns`: work that keeps the invariant, with what its result names

## Main results

* `ConstantPool.get?_mono` and its like: what an index names is kept
* `PoolBuilder.intern_interns`: one step of interning
* `PoolBuilder.internMethod_interns` and its like: an index names what was interned
-/

namespace ClassFoundry

namespace ConstantPool

/-- One pool is the beginning of another. -/
instance : LE ConstantPool := ⟨fun p q => p.constants.toList <+: q.constants.toList⟩

variable {p q r : ConstantPool}

theorem le_def : p ≤ q ↔ p.constants.toList <+: q.constants.toList := Iff.rfl

@[refl] theorem le_refl (p : ConstantPool) : p ≤ p := List.prefix_refl _

theorem le_trans (h : p ≤ q) (h' : q ≤ r) : p ≤ r := List.IsPrefix.trans h h'

theorem getElem?_mono (h : p ≤ q) {k : Nat} {c : Constant} (hc : p.constants[k]? = some c) :
    q.constants[k]? = some c := by
  rw [← Array.getElem?_toList] at hc ⊢
  obtain ⟨rest, hrest⟩ := h
  rw [← hrest, List.getElem?_append_left (List.getElem?_eq_some_iff.1 hc).1]
  exact hc

theorem get?_eq_some_iff {i : UInt16} {c : Constant} :
    p.get? i = some c ↔ i ≠ 0 ∧ c ≠ .unusable ∧ p.constants[i.toNat - 1]? = some c := by
  unfold get?
  by_cases hi : i = 0
  · simp [hi]
  · rw [if_neg hi]
    cases h : p.constants[i.toNat - 1]? with
    | none => simp
    | some d =>
      cases d
      case unusable => grind
      all_goals simp only [Option.some.injEq]; grind

theorem get?_mono (h : p ≤ q) {i : UInt16} {c : Constant} (hc : p.get? i = some c) :
    q.get? i = some c := by
  rw [get?_eq_some_iff] at hc ⊢
  exact ⟨hc.1, hc.2.1, getElem?_mono h hc.2.2⟩

theorem text?_eq_some_iff {i : UInt16} {t : String} :
    p.text? i = some t ↔ p.get? i = some (.utf8 t) := by
  unfold text?
  split <;> grind

theorem text?_mono (h : p ≤ q) {i : UInt16} {t : String} (ht : p.text? i = some t) :
    q.text? i = some t := by
  rw [text?_eq_some_iff] at ht ⊢
  exact get?_mono h ht

theorem className?_eq_some_iff {i : UInt16} {t : String} :
    p.className? i = some t ↔ ∃ n, p.get? i = some (.class n) ∧ p.text? n = some t := by
  unfold className?
  split <;> grind

theorem className?_mono (h : p ≤ q) {i : UInt16} {t : String} (ht : p.className? i = some t) :
    q.className? i = some t := by
  rw [className?_eq_some_iff] at ht ⊢
  obtain ⟨n, hn, ht⟩ := ht
  exact ⟨n, get?_mono h hn, text?_mono h ht⟩

theorem memberOf?_eq_some_iff {i j : UInt16} {m : Member} :
    p.memberOf? i j = some m ↔ p.className? i = some m.owner ∧
      ∃ n d, p.get? j = some (.nameAndType n d) ∧ p.text? n = some m.name ∧
        p.text? d = some m.descriptor := by
  unfold memberOf?
  split
  · rename_i n d hj
    simp only [hj, Option.bind_eq_bind, Option.bind_eq_some_iff, Option.pure_def,
      Option.some.injEq, Constant.nameAndType.injEq]
    constructor
    · rintro ⟨o, ho, n', hn, d', hd, rfl⟩
      exact ⟨ho, n, d, ⟨rfl, rfl⟩, hn, hd⟩
    · rintro ⟨ho, _, _, ⟨rfl, rfl⟩, hn, hd⟩
      exact ⟨_, ho, _, hn, _, hd, rfl⟩
  · rename_i hj
    simp only [reduceCtorEq, false_iff]
    rintro ⟨-, n, d, h, -⟩
    exact hj n d h

theorem memberOf?_mono (h : p ≤ q) {i j : UInt16} {m : Member} (hm : p.memberOf? i j = some m) :
    q.memberOf? i j = some m := by
  rw [memberOf?_eq_some_iff] at hm ⊢
  obtain ⟨ho, n, d, hg, hn, hd⟩ := hm
  exact ⟨className?_mono h ho, n, d, get?_mono h hg, text?_mono h hn, text?_mono h hd⟩

theorem member?_of_fieldRef {i cls sig : UInt16} {m : Member}
    (hi : p.get? i = some (.fieldRef cls sig)) (hm : p.memberOf? cls sig = some m) :
    p.member? i = some m := by
  rwa [member?, hi]

theorem member?_of_methodRef {i cls sig : UInt16} {m : Member}
    (hi : p.get? i = some (.methodRef cls sig)) (hm : p.memberOf? cls sig = some m) :
    p.member? i = some m := by
  rwa [member?, hi]

theorem member?_mono (h : p ≤ q) {i : UInt16} {m : Member} (hm : p.member? i = some m) :
    q.member? i = some m := by
  unfold member? at hm
  split at hm
  · rename_i hg
    exact member?_of_fieldRef (get?_mono h hg) (memberOf?_mono h hm)
  · rename_i hg
    exact member?_of_methodRef (get?_mono h hg) (memberOf?_mono h hm)
  · simp at hm

end ConstantPool

/-- A constant refers to constants of the right sort, and its text is not too long. -/
def Constant.Refers (pool : ConstantPool) : Constant → Prop
  | .class text | .string text => ∃ t, pool.get? text = some (.utf8 t)
  | .fieldRef cls sig | .methodRef cls sig =>
    (∃ n, pool.get? cls = some (.class n)) ∧ ∃ n d, pool.get? sig = some (.nameAndType n d)
  | .nameAndType name descriptor =>
    (∃ t, pool.get? name = some (.utf8 t)) ∧ ∃ t, pool.get? descriptor = some (.utf8 t)
  | .utf8 text => ModifiedUtf8.encodedLength text ≤ maxTextLength
  | .integer _ | .long _ => True
  | .unusable => False

theorem Constant.Refers.mono {p q : ConstantPool} (h : p ≤ q) {c : Constant}
    (hc : c.Refers p) : c.Refers q := by
  have hg : ∀ {i d}, p.get? i = some d → q.get? i = some d := ConstantPool.get?_mono h
  cases c with
  | utf8 text => exact hc
  | integer v => trivial
  | long v => trivial
  | «class» n =>
    obtain ⟨t, ht⟩ := hc
    exact ⟨t, hg ht⟩
  | string n =>
    obtain ⟨t, ht⟩ := hc
    exact ⟨t, hg ht⟩
  | fieldRef i j =>
    obtain ⟨⟨n, hn⟩, m, d, hd⟩ := hc
    exact ⟨⟨n, hg hn⟩, m, d, hg hd⟩
  | methodRef i j =>
    obtain ⟨⟨n, hn⟩, m, d, hd⟩ := hc
    exact ⟨⟨n, hg hn⟩, m, d, hg hd⟩
  | nameAndType i j =>
    obtain ⟨⟨n, hn⟩, d, hd⟩ := hc
    exact ⟨⟨n, hg hn⟩, d, hg hd⟩
  | unusable => exact hc

namespace ConstantPool

/-- The constants in the first `n` slots. -/
def before (p : ConstantPool) (n : Nat) : ConstantPool := ⟨(p.constants.toList.take n).toArray⟩

theorem before_le (p : ConstantPool) (n : Nat) : p.before n ≤ p := List.take_prefix _ _

theorem before_of_le {p q : ConstantPool} (h : p ≤ q) {n : Nat} (hn : n ≤ p.size) :
    q.before n = p.before n := by
  obtain ⟨rest, hrest⟩ := h
  unfold before
  rw [← hrest, List.take_append_of_le_length hn]

theorem before_size (p : ConstantPool) : p.before p.size = p := by
  unfold before size
  rw [← Array.length_toList, List.take_length]

/-- **Exactly the slot after a long holds no constant**. -/
def Paired (p : ConstantPool) : Prop :=
  ∀ k, p.constants[k]? = some .unusable ↔ ∃ j v, k = j + 1 ∧ p.constants[j]? = some (.long v)

end ConstantPool

namespace PoolBuilder

/-- **The invariant of a pool under construction**: the look-up table is the inverse of the pool,
every constant refers to earlier constants of the right sort, and the slots that hold no constant
are the second ones of longs. -/
structure Sound (b : PoolBuilder) : Prop where
  size_le : b.pool.size ≤ b.limit
  limit_le : b.limit ≤ maxPoolIndex
  indexed : ∀ c i, b.index[c]? = some i ↔ b.pool.get? i = some c
  earlier : ∀ i c, b.pool.get? i = some c → c.Refers (b.pool.before (i.toNat - 1))
  paired : b.pool.Paired

namespace Sound

variable {b : PoolBuilder} {i j : UInt16} {c : Constant}

theorem refers (h : b.Sound) (hc : b.pool.get? i = some c) : c.Refers b.pool :=
  (h.earlier i c hc).mono (b.pool.before_le _)

/-- A constant has one index. -/
theorem unique (h : b.Sound) (hi : b.pool.get? i = some c) (hj : b.pool.get? j = some c) :
    i = j := by
  rw [← h.indexed] at hi hj
  exact Option.some.inj (hi.symm.trans hj)

theorem continued (h : b.Sound) {v : Int64} (hi : b.pool.get? i = some (.long v)) :
    b.pool.constants[i.toNat]? = some .unusable := by
  obtain ⟨h0, -, hi⟩ := ConstantPool.get?_eq_some_iff.1 hi
  have hpos : 0 < i.toNat := Nat.pos_of_ne_zero fun h => h0 (UInt16.toNat.inj h)
  exact (h.paired _).2 ⟨i.toNat - 1, v, by omega, hi⟩

/-- A constant in a slot has an index. -/
theorem get?_of_getElem? (h : b.Sound) {k : Nat} (hk : b.pool.constants[k]? = some c)
    (hc : c ≠ .unusable) : (UInt16.ofNat (k + 1)).toNat = k + 1 ∧
      b.pool.get? (UInt16.ofNat (k + 1)) = some c := by
  have hlt : k < b.pool.size := (Array.getElem?_eq_some_iff.1 hk).1
  have hsize : b.pool.size ≤ maxPoolIndex := Nat.le_trans h.size_le h.limit_le
  have hnat : (UInt16.ofNat (k + 1)).toNat = k + 1 := by
    rw [UInt16.toNat_ofNat']
    simp only [maxPoolIndex] at hsize
    omega
  refine ⟨hnat, ConstantPool.get?_eq_some_iff.2 ⟨fun h0 => ?_, hc, by rwa [hnat]⟩⟩
  rw [h0] at hnat
  simp at hnat

end Sound

theorem sound_withLimit (limit : Nat) : (withLimit limit).Sound where
  size_le := Nat.zero_le _
  limit_le := Nat.min_le_right _ _
  indexed c i := by
    rw [ConstantPool.get?_eq_some_iff]
    simp [withLimit]
  earlier i c h := by
    rw [ConstantPool.get?_eq_some_iff] at h
    simp [withLimit] at h
  paired k := by simp [withLimit]

/-- What interning does to a pool: it only grows, and stays sound. -/
structure Grows (b b' : PoolBuilder) : Prop where
  le : b.pool ≤ b'.pool
  limit : b'.limit = b.limit
  sound : b'.Sound

theorem Grows.refl {b : PoolBuilder} (h : b.Sound) : b.Grows b :=
  ⟨ConstantPool.le_refl _, rfl, h⟩

theorem Grows.trans {a b c : PoolBuilder} (h : a.Grows b) (h' : b.Grows c) : a.Grows c :=
  ⟨ConstantPool.le_trans h.le h'.le, h'.limit.trans h.limit, h'.sound⟩

/-! ## Appending -/

theorem le_append (constants : Array Constant) (c : Constant) :
    (⟨constants⟩ : ConstantPool) ≤ ⟨append constants c⟩ := by
  unfold append
  split <;> simp [ConstantPool.le_def]

theorem append_getElem?_size (constants : Array Constant) (c : Constant) :
    (append constants c)[constants.size]? = some c := by
  unfold append
  split <;> grind

theorem append_getElem?_of_lt {constants : Array Constant} {c : Constant} {k : Nat}
    (hk : k < constants.size) : (append constants c)[k]? = constants[k]? := by
  unfold append
  split <;> grind

/-- Past a new constant there is at most the second slot of a long. -/
theorem append_getElem?_of_gt {constants : Array Constant} {c : Constant} {k : Nat}
    (hk : constants.size < k) : (append constants c)[k]? =
      if c.slots = 2 ∧ k = constants.size + 1 then some .unusable else none := by
  unfold append
  split <;> grind

theorem size_append (constants : Array Constant) (c : Constant) :
    (append constants c).size = constants.size + c.slots := by
  unfold append
  split
  · simp_all
  · have : c.slots = 1 := by cases c <;> simp_all [Constant.slots]
    simp [this]

/-- A constant found in a grown table is the new one or an old one. -/
theorem get?_append {constants : Array Constant} {c d : Constant} {i : UInt16}
    (h : (⟨append constants c⟩ : ConstantPool).get? i = some d) :
    (i.toNat = constants.size + 1 ∧ d = c) ∨ (⟨constants⟩ : ConstantPool).get? i = some d := by
  rw [ConstantPool.get?_eq_some_iff] at h
  obtain ⟨hi, hd, hg⟩ := h
  rcases Nat.lt_trichotomy (i.toNat - 1) constants.size with hlt | heq | hgt
  · refine .inr (ConstantPool.get?_eq_some_iff.2 ⟨hi, hd, ?_⟩)
    rwa [append_getElem?_of_lt hlt] at hg
  · have hpos : 0 < i.toNat := Nat.pos_of_ne_zero fun h0 => hi (UInt16.toNat.inj h0)
    dsimp only at hg
    rw [heq, append_getElem?_size] at hg
    exact .inl ⟨by omega, (Option.some.inj hg).symm⟩
  · rw [append_getElem?_of_gt hgt] at hg
    split at hg
    · exact absurd (Option.some.inj hg).symm hd
    · cases hg

theorem slots_eq_two_iff {c : Constant} : c.slots = 2 ↔ ∃ v, c = .long v := by
  cases c <;> simp [Constant.slots]

theorem paired_append {constants : Array Constant} {c : Constant} (hc : c ≠ .unusable)
    (h : (⟨constants⟩ : ConstantPool).Paired) :
    (⟨append constants c⟩ : ConstantPool).Paired := by
  -- the last constant before the new one is no long, for there would be a slot after it
  have hlast : ∀ j v, constants[j]? = some (.long v) → j + 1 < constants.size := fun j v hj =>
    (Array.getElem?_eq_some_iff.1 ((h (j + 1)).2 ⟨j, v, rfl, hj⟩)).1
  intro k
  dsimp only
  rcases Nat.lt_trichotomy k constants.size with hlt | rfl | hgt
  · rw [append_getElem?_of_lt hlt, h k]
    refine exists_congr fun j => exists_congr fun v => and_congr_right fun hk => ?_
    rw [append_getElem?_of_lt (by omega)]
  · rw [append_getElem?_size]
    refine ⟨fun heq => absurd (Option.some.inj heq) hc, ?_⟩
    rintro ⟨j, v, hk, hj⟩
    rw [append_getElem?_of_lt (by omega)] at hj
    have := hlast j v hj
    omega
  · rw [append_getElem?_of_gt hgt]
    constructor
    · intro hk
      split at hk
      · rename_i hlong
        obtain ⟨hslots, rfl⟩ := hlong
        obtain ⟨v, rfl⟩ := slots_eq_two_iff.1 hslots
        exact ⟨constants.size, v, rfl, append_getElem?_size _ _⟩
      · cases hk
    · rintro ⟨j, v, rfl, hj⟩
      rcases Nat.eq_or_lt_of_le (Nat.le_of_lt_succ hgt) with rfl | hlt
      · rw [append_getElem?_size] at hj
        cases hj
        rw [if_pos ⟨rfl, rfl⟩]
      · rw [append_getElem?_of_gt hlt] at hj
        split at hj <;> cases hj

/-! ## Interning -/

/-- What interning a constant does: it is found, there is no room for it, or it is appended. -/
theorem intern_cases (c : Constant) (b : PoolBuilder) :
    (∃ i, b.index[c]? = some i ∧ intern c b = .ok i b) ∨
      (∃ e, b.index[c]? = none ∧ intern c b = .error e b) ∨
      (b.index[c]? = none ∧ b.pool.size + c.slots ≤ b.limit ∧
        intern c b = .ok (UInt16.ofNat (b.pool.size + 1))
          ⟨⟨append b.pool.constants c⟩, b.index.insert c (UInt16.ofNat (b.pool.size + 1)),
            b.limit⟩) := by
  obtain ⟨⟨constants⟩, index, limit⟩ := b
  unfold intern
  dsimp only
  cases hi : index[c]? with
  | some i => exact .inl ⟨i, rfl, rfl⟩
  | none =>
    by_cases hroom : constants.size + c.slots > limit
    · exact .inr (.inl ⟨_, rfl, if_pos hroom⟩)
    · exact .inr (.inr ⟨rfl, Nat.not_lt.1 hroom, if_neg hroom⟩)

/-- A new constant is appended to a sound pool. -/
theorem sound_append {b : PoolBuilder} {c : Constant} (hb : b.Sound) (hc : c.Refers b.pool)
    (hnew : b.index[c]? = none) (hroom : b.pool.size + c.slots ≤ b.limit) :
    b.Grows ⟨⟨append b.pool.constants c⟩, b.index.insert c (UInt16.ofNat (b.pool.size + 1)),
        b.limit⟩ ∧
      (⟨append b.pool.constants c⟩ : ConstantPool).get? (UInt16.ofNat (b.pool.size + 1)) =
        some c := by
  have hle := le_append b.pool.constants c
  have hne : c ≠ .unusable := by
    rintro rfl
    exact hc
  -- there is room, so the index of the new constant is not cut off
  have hnat : (UInt16.ofNat (b.pool.size + 1)).toNat = b.pool.size + 1 := by
    have hlimit := hb.limit_le
    have hslots : 1 ≤ c.slots := by cases c <;> simp [Constant.slots]
    rw [UInt16.toNat_ofNat']
    simp only [maxPoolIndex] at hlimit
    omega
  have hget : (⟨append b.pool.constants c⟩ : ConstantPool).get?
      (UInt16.ofNat (b.pool.size + 1)) = some c := by
    rw [ConstantPool.get?_eq_some_iff, hnat]
    refine ⟨?_, hne, append_getElem?_size _ c⟩
    intro h0
    rw [h0] at hnat
    simp at hnat
  refine ⟨⟨hle, rfl, ?_⟩, hget⟩
  constructor
  · show (append b.pool.constants c).size ≤ b.limit
    rw [size_append]
    exact hroom
  · exact hb.limit_le
  · intro d j
    rw [Std.HashMap.getElem?_insert]
    constructor
    · intro hd
      split at hd
      · rename_i heq
        rw [← eq_of_beq heq, ← Option.some.inj hd]
        exact hget
      · exact ConstantPool.get?_mono hle ((hb.indexed _ _).1 hd)
    · intro hd
      -- a constant of the pool is the new one or was there before, and these two differ
      rcases get?_append hd with ⟨hj, rfl⟩ | hd
      · rw [if_pos (beq_self_eq_true _), Option.some.injEq]
        exact UInt16.toNat.inj (hnat.trans hj.symm)
      · have hold := (hb.indexed _ _).2 hd
        rw [if_neg, hold]
        intro heq
        rw [← eq_of_beq heq, hnew] at hold
        cases hold
  · intro j d hd
    rcases get?_append hd with ⟨hj, rfl⟩ | hd
    · -- all constants that were there come before the new one
      rw [hj, Nat.add_sub_cancel]
      show d.Refers ((⟨append b.pool.constants d⟩ : ConstantPool).before b.pool.size)
      rw [ConstantPool.before_of_le hle (Nat.le_refl _)]
      exact b.pool.before_size.symm ▸ hc
    · have hk := (Array.getElem?_eq_some_iff.1 (ConstantPool.get?_eq_some_iff.1 hd).2.2).1
      show d.Refers ((⟨append b.pool.constants c⟩ : ConstantPool).before (j.toNat - 1))
      rw [ConstantPool.before_of_le hle (Nat.le_of_lt hk)]
      exact hb.earlier j d hd
  · exact paired_append hne hb.paired

/-- **Work on a pool**. From a sound pool that satisfies `pre` it appends to the pool and leaves it
sound, also where it fails, and its result satisfies `post`. -/
def Interns {α : Type} (pre : ConstantPool → Prop) (x : PoolM α)
    (post : ConstantPool → α → Prop) : Prop :=
  ∀ b : PoolBuilder, b.Sound → pre b.pool →
    match x b with
    | .ok a b' => b.Grows b' ∧ post b'.pool a
    | .error _ b' => b.Grows b'

/-- A property of pools that is kept when they grow. -/
def Kept (p : ConstantPool → Prop) : Prop := ∀ q r, q ≤ r → p q → p r

theorem kept_text? (i : UInt16) (t : String) : Kept (·.text? i = some t) :=
  fun _ _ h => ConstantPool.text?_mono h

theorem kept_className? (i : UInt16) (t : String) : Kept (·.className? i = some t) :=
  fun _ _ h => ConstantPool.className?_mono h

theorem kept_memberOf? (i j : UInt16) (m : Member) : Kept (·.memberOf? i j = some m) :=
  fun _ _ h => ConstantPool.memberOf?_mono h

namespace Interns

variable {α β : Type} {pre pre' : ConstantPool → Prop} {x : PoolM α} {f : α → PoolM β}
  {post post' : ConstantPool → α → Prop} {last : ConstantPool → β → Prop} {b b' : PoolBuilder}
  {a : α}

theorem ok (h : Interns pre x post) (hb : b.Sound) (hpre : pre b.pool) (hx : x b = .ok a b') :
    b.Grows b' ∧ post b'.pool a := by
  have := h b hb hpre
  rwa [hx] at this

theorem weaken (h : Interns pre x post) (hpre : ∀ p, pre' p → pre p)
    (hpost : ∀ p a, post p a → post' p a) : Interns pre' x post' := by
  intro b hb hp
  have := h b hb (hpre _ hp)
  cases hx : x b with
  | ok a b' =>
    rw [hx] at this
    exact ⟨this.1, hpost _ _ this.2⟩
  | error e b' =>
    rw [hx] at this
    exact this

theorem bind (hx : Interns pre x post) (hf : ∀ a, Interns (post · a) (f a) last) :
    Interns pre (x >>= f) last := by
  intro b hb hpre
  have h₁ := hx b hb hpre
  show match EStateM.bind x f b with
    | .ok a b' => b.Grows b' ∧ last b'.pool a
    | .error _ b' => b.Grows b'
  unfold EStateM.bind
  cases hxb : x b with
  | error e b' =>
    rw [hxb] at h₁
    exact h₁
  | ok a b₁ =>
    rw [hxb] at h₁
    obtain ⟨hg₁, hpost⟩ := h₁
    have h₂ := hf a b₁ hg₁.sound hpost
    dsimp only
    cases hfb : f a b₁ with
    | error e b' =>
      rw [hfb] at h₂
      exact hg₁.trans h₂
    | ok a' b' =>
      rw [hfb] at h₂
      exact ⟨hg₁.trans h₂.1, h₂.2⟩

/-- What is kept when pools grow holds after the work if it held before. -/
theorem frame {p : ConstantPool → Prop} (h : Interns pre x post) (hp : Kept p) :
    Interns (fun q => pre q ∧ p q) x (fun q a => post q a ∧ p q) := by
  intro b hb ⟨hpre, hpb⟩
  have := h b hb hpre
  cases hx : x b with
  | ok a b' =>
    rw [hx] at this
    exact ⟨this.1, this.2, hp _ _ this.1.le hpb⟩
  | error e b' =>
    rw [hx] at this
    exact this

end Interns

/-- **One step of interning**: the index names the constant. -/
theorem intern_interns (c : Constant) : Interns c.Refers (intern c) (·.get? · = some c) := by
  intro b hb hc
  rcases intern_cases c b with ⟨i, hi, h⟩ | ⟨e, -, h⟩ | ⟨hnew, hroom, h⟩ <;> rw [h]
  · exact ⟨.refl hb, (hb.indexed c i).1 hi⟩
  · exact .refl hb
  · exact sound_append hb hc hnew hroom

theorem internText_interns (text : String) :
    Interns (fun _ => True) (internText text) (·.text? · = some text) := by
  intro b hb _
  by_cases hlen : ModifiedUtf8.encodedLength text > maxTextLength
  · have h : internText text b = .error (.textTooLong (ModifiedUtf8.encodedLength text)) b := by
      simp only [internText, if_pos hlen]
      rfl
    rw [h]
    exact .refl hb
  · have h : internText text b = intern (.utf8 text) b := by
      simp only [internText, if_neg hlen]
    have hintern : Interns (fun _ => True) (intern (.utf8 text)) (·.text? · = some text) :=
      (intern_interns (.utf8 text)).weaken (fun _ _ => Nat.not_lt.1 hlen)
        fun _ _ => ConstantPool.text?_eq_some_iff.2
    rw [h]
    exact hintern b hb trivial

theorem internClass_interns (name : String) :
    Interns (fun _ => True) (internClass name) (·.className? · = some name) :=
  (internText_interns name).bind fun n =>
    ((intern_interns (.class n)).frame (kept_text? n name)).weaken
      (fun _ h => ⟨⟨name, ConstantPool.text?_eq_some_iff.1 h⟩, h⟩)
      fun _ _ h => ConstantPool.className?_eq_some_iff.2 ⟨n, h⟩

theorem internString_interns (text : String) :
    Interns (fun _ => True) (internString text)
      (fun p i => ∃ n, p.get? i = some (.string n) ∧ p.text? n = some text) :=
  (internText_interns text).bind fun n =>
    ((intern_interns (.string n)).frame (kept_text? n text)).weaken
      (fun _ h => ⟨⟨text, ConstantPool.text?_eq_some_iff.1 h⟩, h⟩) fun _ _ h => ⟨n, h⟩

theorem internNameAndType_interns (name descriptor : String) :
    Interns (fun _ => True) (internNameAndType name descriptor)
      (fun p i => ∃ n d, p.get? i = some (.nameAndType n d) ∧ p.text? n = some name ∧
        p.text? d = some descriptor) :=
  (internText_interns name).bind fun n =>
    (((internText_interns descriptor).frame (kept_text? n name)).weaken
      (fun _ h => ⟨trivial, h⟩) fun _ _ h => h).bind fun d =>
        (((intern_interns (.nameAndType n d)).frame (kept_text? n name)).frame
          (kept_text? d descriptor)).weaken
          (fun _ ⟨hd, hn⟩ => ⟨⟨⟨⟨name, ConstantPool.text?_eq_some_iff.1 hn⟩,
            ⟨descriptor, ConstantPool.text?_eq_some_iff.1 hd⟩⟩, hn⟩, hd⟩)
          fun _ _ ⟨⟨hi, hn⟩, hd⟩ => ⟨n, d, hi, hn, hd⟩

/-- The class and the name and type of a member, and then a constant that refers to them. -/
theorem internMember_interns (m : Member) (ref : UInt16 → UInt16 → Constant)
    (href : ∀ i j p, (∃ n, p.get? i = some (.class n)) →
      (∃ n d, p.get? j = some (.nameAndType n d)) → (ref i j).Refers p) :
    Interns (fun _ => True)
      (do
        let cls ← internClass m.owner
        let nameAndType ← internNameAndType m.name m.descriptor
        intern (ref cls nameAndType))
      (fun p i => ∃ cls sig, p.get? i = some (ref cls sig) ∧ p.memberOf? cls sig = some m) :=
  (internClass_interns m.owner).bind fun cls =>
    (((internNameAndType_interns m.name m.descriptor).frame (kept_className? cls m.owner)).weaken
      (fun _ h => ⟨trivial, h⟩) fun _ _ h => h).bind fun sig =>
        ((intern_interns (ref cls sig)).frame (kept_memberOf? cls sig m)).weaken
          (by
            rintro p ⟨⟨n, d, hs, hn, hd⟩, hcls⟩
            obtain ⟨t, ht, -⟩ := ConstantPool.className?_eq_some_iff.1 hcls
            exact ⟨href cls sig p ⟨t, ht⟩ ⟨n, d, hs⟩,
              ConstantPool.memberOf?_eq_some_iff.2 ⟨hcls, n, d, hs, hn, hd⟩⟩)
          fun _ _ h => ⟨cls, sig, h⟩

theorem internField_interns (m : Member) : Interns (fun _ => True) (internField m)
    (fun p i => ∃ cls sig, p.get? i = some (.fieldRef cls sig) ∧ p.memberOf? cls sig = some m) :=
  internMember_interns m .fieldRef fun _ _ _ hc hs => ⟨hc, hs⟩

theorem internMethod_interns (m : Member) : Interns (fun _ => True) (internMethod m)
    (fun p i => ∃ cls sig, p.get? i = some (.methodRef cls sig) ∧ p.memberOf? cls sig = some m) :=
  internMember_interns m .methodRef fun _ _ _ hc hs => ⟨hc, hs⟩

/-! ## Work that succeeds -/

variable {b b' : PoolBuilder} {i : UInt16}

theorem internText_sound {text : String} (hb : b.Sound) (h : internText text b = .ok i b') :
    b.Grows b' ∧ b'.pool.text? i = some text :=
  (internText_interns text).ok hb trivial h

theorem internClass_sound {name : String} (hb : b.Sound) (h : internClass name b = .ok i b') :
    b.Grows b' ∧ b'.pool.className? i = some name :=
  (internClass_interns name).ok hb trivial h

theorem internMethod_sound {m : Member} (hb : b.Sound) (h : internMethod m b = .ok i b') :
    b.Grows b' ∧ b'.pool.member? i = some m ∧
      ∃ cls sig, b'.pool.get? i = some (.methodRef cls sig) := by
  obtain ⟨hg, cls, sig, hi, hm⟩ := (internMethod_interns m).ok hb trivial h
  exact ⟨hg, ConstantPool.member?_of_methodRef hi hm, cls, sig, hi⟩

theorem internField_sound {m : Member} (hb : b.Sound) (h : internField m b = .ok i b') :
    b.Grows b' ∧ b'.pool.member? i = some m ∧
      ∃ cls sig, b'.pool.get? i = some (.fieldRef cls sig) := by
  obtain ⟨hg, cls, sig, hi, hm⟩ := (internField_interns m).ok hb trivial h
  exact ⟨hg, ConstantPool.member?_of_fieldRef hi hm, cls, sig, hi⟩

theorem internString_sound {text : String} (hb : b.Sound) (h : internString text b = .ok i b') :
    b.Grows b' ∧ ∃ n, b'.pool.get? i = some (.string n) ∧ b'.pool.text? n = some text :=
  (internString_interns text).ok hb trivial h

theorem internInteger_sound {v : Int32} (hb : b.Sound) (h : internInteger v b = .ok i b') :
    b.Grows b' ∧ b'.pool.get? i = some (.integer v) :=
  (intern_interns (.integer v)).ok hb trivial h

theorem internLong_sound {v : Int64} (hb : b.Sound) (h : internLong v b = .ok i b') :
    b.Grows b' ∧ b'.pool.get? i = some (.long v) :=
  (intern_interns (.long v)).ok hb trivial h

end PoolBuilder

end ClassFoundry
