import OperatingSystems.Malloc.Coalesce

namespace OperatingSystems.Malloc
open ByteMemory TaggedWord DoublyLinked

def InUse (a : Nat) (bs : List Block) (x : Nat) (b : Block) : Prop :=
  (x, b) ∈ placed a bs ∧ b.alloc = true

theorem granted_inUse {a need found x : Nat} {bs bs' : List Block}
    (h : Granted a need found bs x bs') :
    (∃ new, InUse a bs' x new ∧ need ≤ new.size) ∧
      (∀ y c, InUse a bs y c → InUse a bs' y c ∧ y ≠ x) ∧
      ∀ y c, InUse a bs' y c → InUse a bs y c ∨ y = x := by
  refine ⟨?_, fun y c hc => ?_, fun y c hc => ?_⟩
  · obtain ⟨new, hm, ha, hn⟩ := granted_placed h
    exact ⟨new, ⟨hm, ha⟩, hn⟩
  · obtain ⟨hm, hne⟩ := granted_keeps h hc.1 hc.2
    exact ⟨⟨hm, hc.2⟩, hne⟩
  · exact (granted_only h hc.1 hc.2).imp_left fun hm => ⟨hm, hc.2⟩

theorem inUse_append {a : Nat} {l₁ l₂ : List Block} {x : Nat} {b : Block} :
    InUse a (l₁ ++ l₂) x b ↔ InUse a l₁ x b ∨ InUse (a + total l₁) l₂ x b := by
  simp [InUse, or_and_right]

theorem inUse_cons {a : Nat} {c : Block} {bs : List Block} {x : Nat} {b : Block} :
    InUse a (c :: bs) x b ↔ (x = a ∧ b = c ∧ c.alloc = true) ∨ InUse (a + c.size) bs x b := by
  simp only [InUse, placed_cons, List.mem_cons, Prod.mk.injEq, or_and_right]
  refine or_congr_left ?_
  constructor
  · rintro ⟨⟨rfl, rfl⟩, hb⟩
    exact ⟨rfl, rfl, hb⟩
  · rintro ⟨rfl, rfl, hb⟩
    exact ⟨⟨rfl, rfl⟩, hb⟩

theorem not_inUse_free {a : Nat} {bs : List Block} (h : ∀ b ∈ bs, b.alloc = false) {x : Nat}
    {b : Block} : ¬ InUse a bs x b := by
  rintro ⟨hm, hb⟩
  obtain ⟨pre, post, rfl, -⟩ := placed_split hm
  simp [h b (by simp)] at hb

theorem inUse_bounds {a x : Nat} {b : Block} {bs : List Block} (h : InUse a bs x b) :
    a ≤ x ∧ x + b.size ≤ a + total bs ∧ 32 ≤ b.size := by
  have := placed_bounds h.1
  have := b.large
  omega

theorem payload_iff {a y : Nat} {bs : List Block} :
    Payload a bs y ↔ ∃ x b, InUse a bs x b ∧ x + 8 ≤ y ∧ y < x + b.size := by
  simp [Payload, InUse, and_assoc]

theorem mergesPrev_free {pre pre' left : List Block} (h : MergesPrev pre pre' left) :
    ∀ c ∈ left, c.alloc = false := by
  cases h with
  | alone => simp
  | absorb free => simp [free]

theorem mergesNext_free {near : Prop} {post post' right : List Block}
    (h : MergesNext near post post' right) : ∀ c ∈ right, c.alloc = false := by
  cases h with
  | alone => simp
  | absorb free => simp [free]

section
variable {s : Heap} {pre post : List Block} {b : Block} {fl : List Nat}
  (h : WellFormed s (pre ++ b :: post) fl) (hb : b.alloc = true)
include h hb

theorem free_released : ∃ s₁ pre' left post' right,
    MergesPrev pre pre' left ∧ MergesNext (s.near (s.base + total pre + b.size)) post post' right ∧
      s.SameRegion s₁ ∧ Region s₁ ∧
      Released s₁ (s.free (s.base + total pre + 8)) pre' (fused left (b.withAlloc false) right) post' ∧
      Kept s s₁ (pre ++ b.withAlloc false :: post) := by
  have hm : (s.base + total pre, b) ∈ placed s.base (pre ++ b :: post) := by simp
  obtain ⟨hw, hkept⟩ := markFree_spec h hb
  set s₁ := (s.markFree (s.base + total pre)).addToFreeList (s.base + total pre) with hs₁
  have hbase : s₁.base = s.base := hkept.base
  have hbrk : s₁.memBrk = s.memBrk := by
    have h1 := hw.covers
    have h2 := h.covers
    simp only [total_append, total_cons, hbase, Block.withAlloc] at h1 h2
    omega
  obtain ⟨pre', left, hp⟩ := mergesPrev_exists pre
  obtain ⟨post', right, hn⟩ := mergesNext_exists (s.near (s.base + total pre + b.size)) post
  refine ⟨s₁, pre', left, post', right, hp, hn, ⟨hkept.heap, hbrk, hkept.memMaxAddr⟩, hw.region,
    ?_, hkept⟩
  have hfree : s.free (s.base + total pre + 8) = s₁.coalesce (s.base + total pre) := by
    rw [Heap.free, if_neg (by omega), Nat.add_sub_cancel]
  have hnear : s₁.near (s₁.base + total pre + (b.withAlloc false).size) ↔
      s.near (s.base + total pre + b.size) := by
    rw [Heap.near, Heap.near, hbrk, hbase]
    rfl
  rw [hfree, ← hbase]
  exact coalesce_spec hw rfl hp (by rw [hnear]; exact hn)

theorem free_spec (hok : ¬ s.twoFreeBefore (s.base + total pre)) :
    ∃ pre' left post' right fl', MergesPrev pre pre' left ∧
      MergesNext (s.near (s.base + total pre + b.size)) post post' right ∧
      WellFormed (s.free (s.base + total pre + 8))
        (pre' ++ fused left (b.withAlloc false) right :: post') fl' ∧
      Kept s (s.free (s.base + total pre + 8))
        (pre' ++ fused left (b.withAlloc false) right :: post') ∧
      ∀ y c, InUse s.base (pre' ++ fused left (b.withAlloc false) right :: post') y c ↔
        InUse s.base (pre ++ b :: post) y c ∧ y ≠ s.base + total pre := by
  obtain ⟨s₁, pre', left, post', right, hp, hn, hsame, hregion, hrel, hkept⟩ :=
    free_released h hb
  have hlast : lastAlloc true pre' = true := by
    rw [twoFreeBefore_iff h hp] at hok
    simpa using hok
  have hbl := b.large
  have hleft := mergesPrev_free hp
  have hright := mergesNext_free hn
  have hpre := mergesPrev_eq hp
  have hpost := mergesNext_eq hn
  obtain ⟨fl', hw⟩ := hrel.wellFormed hregion hlast
  have huse : ∀ y c, InUse s.base (pre' ++ fused left (b.withAlloc false) right :: post') y c ↔
      InUse s.base pre' y c ∨ InUse (s.base + total pre + b.size + total right) post' y c := by
    intro y c
    have hend : s.base + total pre' + (fused left (b.withAlloc false) right).size =
        s.base + total pre + b.size + total right := by
      rw [hpre, total_append]
      show _ + (total left + b.size + total right) = _
      omega
    rw [inUse_append, inUse_cons, hend]
    simp [fused]
  have huse' : ∀ y c, InUse s.base (pre ++ b :: post) y c ↔ InUse s.base pre' y c ∨
      (y = s.base + total pre ∧ c = b) ∨
        InUse (s.base + total pre + b.size + total right) post' y c := by
    intro y c
    rw [inUse_append, inUse_cons, hpost, inUse_append, hb]
    simp only [not_inUse_free hright, false_or, and_true]
    refine or_congr_left ?_
    rw [hpre, inUse_append]
    simp only [not_inUse_free hleft, or_false]
  have hiff : ∀ y c, InUse s.base (pre' ++ fused left (b.withAlloc false) right :: post') y c ↔
      InUse s.base (pre ++ b :: post) y c ∧ y ≠ s.base + total pre := by
    intro y c
    rw [huse, huse', hpre, total_append]
    constructor
    · rintro (hc | hc)
      · have := inUse_bounds hc
        exact ⟨.inl hc, by omega⟩
      · have := inUse_bounds hc
        exact ⟨.inr (.inr hc), by omega⟩
    · rintro ⟨hc | ⟨rfl, -⟩ | hc, hne⟩
      · exact .inl hc
      · exact absurd rfl hne
      · exact .inr hc
  refine ⟨pre', left, post', right, fl', hp, hn, hw, ⟨hrel.region.heap.trans hkept.heap,
    hrel.region.memMaxAddr.trans hkept.memMaxAddr, fun y hy => ?_⟩, hiff⟩
  rw [hrel.payload y (by rw [hsame.base]; exact hy)]
  refine hkept.payload y ?_
  obtain ⟨x, c, hc, h1, h2⟩ := payload_iff.mp hy
  obtain ⟨hc, hne⟩ := (hiff x c).mp hc
  refine payload_iff.mpr ⟨x, c, ?_, h1, h2⟩
  rw [inUse_append, inUse_cons] at hc ⊢
  rcases hc with hc | ⟨rfl, -, -⟩ | hc
  · exact .inl hc
  · exact absurd rfl hne
  · exact .inr (.inr hc)

theorem free_wellFormed (hok : ¬ s.twoFreeBefore (s.base + total pre)) :
    ∃ bs fl', WellFormed (s.free (s.base + total pre + 8)) bs fl' ∧
      Kept s (s.free (s.base + total pre + 8)) bs ∧
      ∀ y c, InUse s.base bs y c ↔
        InUse s.base (pre ++ b :: post) y c ∧ y ≠ s.base + total pre := by
  obtain ⟨pre', left, post', right, fl', -, -, hw, hkept, huse⟩ := free_spec h hb hok
  exact ⟨_, fl', hw, hkept, huse⟩

theorem free_broken (hbad : s.twoFreeBefore (s.base + total pre)) (bs : List Block)
    (fl' : List Nat) : ¬ WellFormed (s.free (s.base + total pre + 8)) bs fl' := by
  obtain ⟨s₁, pre', left, post', right, hp, hn, hsame, hregion, hrel, hkept⟩ :=
    free_released h hb
  exact hrel.broken ((twoFreeBefore_iff h hp).mp hbad) bs fl'

end

def DoubleGap (pre : List Block) : Prop :=
  ∃ q c d, pre = q ++ [c, d] ∧ c.alloc = false ∧ d.alloc = false

theorem doubleGap_append {q : List Block} {c d : Block} :
    DoubleGap (q ++ [c, d]) ↔ c.alloc = false ∧ d.alloc = false := by
  constructor
  · rintro ⟨q', c', d', he, hc, hd⟩
    have h := (List.append_inj' he rfl).2
    simp only [List.cons.injEq, and_true] at h
    rw [h.1, h.2]
    exact ⟨hc, hd⟩
  · rintro ⟨hc, hd⟩
    exact ⟨q, c, d, rfl, hc, hd⟩

theorem not_doubleGap_last {pre : List Block} {d : Block} (hd : d.alloc = true) :
    ¬ DoubleGap (pre ++ [d]) := by
  rintro ⟨q, c, d', he, -, hf⟩
  rw [List.append_cons q] at he
  have h := (List.append_inj' he rfl).2
  simp only [List.cons.injEq, and_true] at h
  rw [← h, hd] at hf
  cases hf

def Heap.reuses (s : Heap) (size block : Nat) : Prop :=
  s.search (requiredBlockSize size) = some (s.prevHeader block) ∨
    s.search (requiredBlockSize size) = some (s.prevHeader (s.prevHeader block))

instance (s : Heap) (size block : Nat) : Decidable (s.reuses size block) :=
  inferInstanceAs (Decidable (_ ∨ _))

theorem twoFreeBefore_iff_doubleGap {s : Heap} {pre post : List Block} {b : Block} {fl : List Nat}
    (h : WellFormed s (pre ++ b :: post) fl) :
    s.twoFreeBefore (s.base + total pre) ↔ DoubleGap pre := by
  obtain ⟨pre', left, hp⟩ := mergesPrev_exists pre
  rw [twoFreeBefore_iff h hp]
  cases hp with
  | alone allocated =>
    rw [allocated]
    refine iff_of_false (by simp) ?_
    rintro ⟨q, c, d, rfl, -, hd⟩
    simp [hd] at allocated
  | @absorb _ d free =>
    rcases List.eq_nil_or_concat pre' with rfl | ⟨q, c, rfl⟩
    · refine iff_of_false (by simp) ?_
      rintro ⟨q, c, d, he, -, -⟩
      have := congrArg List.length he
      simp at this
    · rw [List.concat_eq_append, List.append_assoc, List.singleton_append, doubleGap_append]
      simp [free]

theorem reuses_iff {s : Heap} {q post : List Block} {b c d : Block} {fl : List Nat}
    {size found : Nat} (h : WellFormed s (q ++ [c, d] ++ b :: post) fl) (hc : c.alloc = false)
    (hd : d.alloc = false) (hs : s.search (requiredBlockSize size) = some found) :
    s.reuses size (s.base + total (q ++ [c, d])) ↔
      found = s.base + total q + c.size ∨ found = s.base + total q := by
  have e₁ : q ++ [c, d] ++ b :: post = (q ++ [c]) ++ d :: b :: post := by simp
  have e₂ : q ++ [c, d] ++ b :: post = q ++ c :: d :: b :: post := by simp
  have h₁ : s.prevHeader (s.base + total (q ++ [c, d])) = s.base + total q + c.size := by
    have := prevHeader_eq (e₁ ▸ h) hd
    simpa [Nat.add_assoc] using this
  have h₂ : s.prevHeader (s.base + total q + c.size) = s.base + total q :=
    prevHeader_eq (e₂ ▸ h) hc
  rw [Heap.reuses, h₁, h₂, hs, Option.some.injEq, Option.some.injEq]

theorem doubleGap_replace {a : Nat} {p m new : List Block} {old last : Block}
    (hlast : last.alloc = true) :
    DoubleGap (p ++ (new ++ [last]) ++ m) ↔ DoubleGap (p ++ old :: m) ∧
      ∀ q c d, p ++ old :: m = q ++ [c, d] →
        ¬ (a + total p = a + total q + c.size ∨ a + total p = a + total q) := by
  have hold := old.large
  rcases List.eq_nil_or_concat m with rfl | ⟨m, d, rfl⟩
  · refine iff_of_false ?_ ?_
    · rw [List.append_nil, ← List.append_assoc]
      exact not_doubleGap_last hlast
    · rintro ⟨⟨q, c, d, he, -, -⟩, hne⟩
      refine hne q c d he (.inl ?_)
      have ht : p = q ++ [c] := by
        rw [List.append_cons q] at he
        exact (List.append_inj' he rfl).1
      simp [ht, Nat.add_assoc]
  · rw [List.concat_eq_append]
    rcases List.eq_nil_or_concat m with rfl | ⟨m, c, rfl⟩
    · refine iff_of_false ?_ ?_
      · have e : p ++ (new ++ [last]) ++ ([] ++ [d]) = (p ++ new) ++ [last, d] := by simp
        rw [e, doubleGap_append]
        simp [hlast]
      · rintro ⟨-, hne⟩
        exact hne p old d rfl (.inr rfl)
    · rw [List.concat_eq_append]
      have e₁ : p ++ (new ++ [last]) ++ (m ++ [c] ++ [d]) = (p ++ new ++ [last] ++ m) ++ [c, d] := by
        simp
      have e₂ : p ++ old :: (m ++ [c] ++ [d]) = (p ++ old :: m) ++ [c, d] := by simp
      rw [e₁, e₂, doubleGap_append, doubleGap_append]
      refine ⟨fun h => ⟨h, fun q c' d' he => ?_⟩, fun h => h.1⟩
      have hq := (List.append_inj' he rfl).1
      rw [← hq]
      simp only [total_append, total_cons]
      omega

theorem append_cons_cases {p q pre post : List Block} {old b : Block}
    (h : p ++ old :: q = pre ++ b :: post) (hne : old ≠ b) :
    (∃ m, pre = p ++ old :: m ∧ q = m ++ b :: post) ∨
      ∃ m, p = pre ++ b :: m ∧ post = m ++ old :: q := by
  rcases List.append_eq_append_iff.mp h with ⟨m, hm, hq⟩ | ⟨m, hm, hq⟩
  · cases m with
    | nil => exact absurd (List.cons.inj hq).1 hne
    | cons o m =>
      obtain ⟨rfl, hrest⟩ := List.cons.inj hq
      exact .inl ⟨m, hm, hrest⟩
  · cases m with
    | nil => exact absurd (List.cons.inj hq).1.symm hne
    | cons o m =>
      obtain ⟨rfl, hrest⟩ := List.cons.inj hq
      exact .inr ⟨m, hm, hrest⟩

theorem granted_gap {a need found x : Nat} {bs bs' pre post : List Block} {b : Block}
    (h : Granted a need found bs x bs') (ha : 0 < a) (he : bs = pre ++ b :: post)
    (hb : b.alloc = true) :
    ∃ pre' post', bs' = pre' ++ b :: post' ∧ total pre' = total pre ∧
      (DoubleGap pre' ↔ DoubleGap pre ∧ ∀ q c d, pre = q ++ [c, d] →
        ¬ (found = a + total q + c.size ∨ found = a + total q)) := by
  have hafter : ∀ {m : List Block}, DoubleGap pre ↔ DoubleGap pre ∧ ∀ q c d, pre = q ++ [c, d] →
      ¬ (a + total (pre ++ b :: m) = a + total q + c.size ∨
        a + total (pre ++ b :: m) = a + total q) := by
    intro m
    refine (and_iff_left ?_).symm
    rintro q c d rfl
    have := b.large
    have := d.large
    simp only [total_append, total_cons, total_nil]
    omega
  cases h with
  | @whole p q old free fits =>
    have hne : old ≠ b := fun e => by simp [e, hb] at free
    rcases append_cons_cases he hne with ⟨m, rfl, rfl⟩ | ⟨m, rfl, rfl⟩
    · have hgap := @doubleGap_replace a p m [] old (old.withAlloc true) rfl
      refine ⟨p ++ ([] ++ [old.withAlloc true]) ++ m, post, by simp, ?_, hgap⟩
      simp [Block.withAlloc]
    · exact ⟨pre, m ++ old.withAlloc true :: q, by simp, rfl, hafter⟩
  | @split p q old rest new free restFree newAlloc exact parts =>
    have hne : old ≠ b := fun e => by simp [e, hb] at free
    rcases append_cons_cases he hne with ⟨m, rfl, rfl⟩ | ⟨m, rfl, rfl⟩
    · have hgap := @doubleGap_replace a p m [rest] old new newAlloc
      refine ⟨p ++ ([rest] ++ [new]) ++ m, post, by simp, ?_, hgap⟩
      simp only [total_append, total_cons, total_nil]
      omega
    · exact ⟨pre, m ++ rest :: new :: q, by simp, rfl, hafter⟩
  | @grow _ new newAlloc exact nofit =>
    refine ⟨pre, post ++ [new], by simp [he], rfl, (and_iff_left ?_).symm⟩
    intro q c d _
    omega

theorem granted_gap_iff {s : Heap} {size found x : Nat} {bs bs' pre post fl} {b : Block}
    (h : WellFormed s bs fl) (he : bs = pre ++ b :: post) (hb : b.alloc = true)
    (hs : s.search (requiredBlockSize size) = some found)
    (hg : Granted s.base (requiredBlockSize size) found bs x bs') :
    ∃ pre' post', bs' = pre' ++ b :: post' ∧ total pre' = total pre ∧
      (DoubleGap pre' ↔ DoubleGap pre ∧ ¬ s.reuses size (s.base + total pre)) := by
  obtain ⟨pre', post', hbs', ht, hgap⟩ := granted_gap hg (Nat.succ_pos _) he hb
  refine ⟨pre', post', hbs', ht, hgap.trans (and_congr_right ?_)⟩
  rintro ⟨q, c, d, rfl, hc, hd⟩
  rw [reuses_iff (he ▸ h) hc hd hs]
  refine ⟨fun hall => hall q c d rfl, fun hnot q' c' d' hq => ?_⟩
  obtain ⟨hq, hcd⟩ := List.append_inj' hq rfl
  rw [← hq, ← (List.cons.inj hcd).1]
  exact hnot

end OperatingSystems.Malloc
