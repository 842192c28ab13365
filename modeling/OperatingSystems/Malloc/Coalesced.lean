import OperatingSystems.Malloc.Isolation
import OperatingSystems.Malloc.Contracts

namespace OperatingSystems.Malloc
open ByteMemory TaggedWord Transition

namespace Heap

-- a free block comes next, but begins too late in the heap for `coalesce` to merge it
def stranded (s : Heap) (block : Nat) : Prop :=
  s.load (s.nextHeader block) &&& 1 = 0 ∧ ¬ s.inRange (s.nextHeader block)

instance (s : Heap) (block : Nat) : Decidable (s.stranded block) :=
  inferInstanceAs (Decidable (_ ∧ _))

def absorbs (s : Heap) (size block : Nat) : Prop :=
  s.search (requiredBlockSize size) = some (s.nextHeader block) ∨
    (s.search (requiredBlockSize size) = some 0 ∧
      s.memBrk + requiredBlockSize size ≤ s.memMaxAddr)

instance (s : Heap) (size block : Nat) : Decidable (s.absorbs size block) :=
  inferInstanceAs (Decidable (_ ∨ _))

end Heap

def Coalesced (s : Heap) : Prop := ∃ bs fl, WellFormed s bs fl ∧ Separated bs

def Tidy (c : Client) : Call → Prop
  | .free ptr => ptr = 0 ∨ ¬ c.heap.stranded (ptr - 8)
  | .realloc oldptr size => oldptr = 0 ∨ ¬ c.heap.stranded (oldptr - 8) ∨
      (size ≠ 0 ∧ c.heap.absorbs size (oldptr - 8))
  | _ => True

instance (c : Client) (a : Call) : Decidable (Tidy c a) :=
  match a with
  | .free _ => inferInstanceAs (Decidable (_ ∨ _))
  | .realloc _ _ => inferInstanceAs (Decidable (_ ∨ _))
  | .malloc _ | .calloc _ _ | .write _ _ _ => .isTrue trivial

theorem coalesced_iff {s : Heap} {bs : List Block} {fl : List Nat} (h : WellFormed s bs fl) :
    Coalesced s ↔ Separated bs := by
  refine ⟨fun ⟨bs', fl', h', hs⟩ => ?_, fun hs => ⟨bs, fl, h, hs⟩⟩
  rw [wellFormed_unique h' h]
  exact hs

def Trailing (brk y : Nat) (post : List Block) : Prop :=
  ∃ d ∈ post.head?, d.alloc = false ∧ brk ≤ y + 57

theorem trailing_cons {brk y : Nat} {d : Block} {post : List Block} :
    Trailing brk y (d :: post) ↔ d.alloc = false ∧ brk ≤ y + 57 := by
  simp [Trailing]

section
variable {s : Heap} {pre post : List Block} {b : Block} {fl : List Nat}
  (h : WellFormed s (pre ++ b :: post) fl)
include h

theorem stranded_iff : s.stranded (s.base + total pre) ↔
    Trailing s.memBrk (s.base + total pre + b.size) post := by
  have hlarge := b.large
  rw [Heap.stranded, nextHeader_eq h, nextFree_iff h,
    inRange_iff h (by simp only [total_append, total_cons]; omega) (by omega), Heap.near,
    Nat.not_lt, Trailing]
  constructor
  · rintro ⟨⟨d, hd, hfree⟩, hlate⟩
    exact ⟨d, hd, hfree, hlate⟩
  · rintro ⟨d, hd, hfree, hlate⟩
    exact ⟨⟨d, hd, hfree⟩, hlate⟩

theorem free_coalesced (hs : Separated (pre ++ b :: post)) (hb : b.alloc = true) :
    Coalesced (s.free (s.base + total pre + 8)) ↔ ¬ s.stranded (s.base + total pre) := by
  obtain ⟨pre', left, post', right, fl', hp, hn, hw, -⟩ := free_spec h hb (separated_orderly h hs)
  rw [coalesced_iff hw, merged_separated hs rfl hp hn, stranded_iff h, Trailing, Heap.near]
  simp only [not_exists, not_and, Nat.not_le]

end

theorem served_separated {s s' : Heap} {bs : List Block} {fl : List Nat} {size r : Nat}
    (h : WellFormed s bs fl) (hs : Separated bs) (hserved : Served s bs size r s') :
    ∃ bs' fl', WellFormed s' bs' fl' ∧ Separated bs' := by
  rcases hserved with ⟨-, rfl, -⟩ | ⟨found, x, bs', fl', -, -, hg, hw, -⟩
  · exact ⟨bs, fl, h, hs⟩
  · exact ⟨bs', fl', hw, hg.separated hs⟩

theorem replaced_trailing {a : Nat} {p q pre post cs : List Block} {old b c : Block}
    (he : p ++ old :: q = pre ++ b :: post) (hne : old ≠ b) (hparts : c.size + total cs = old.size)
    (hlong : c.alloc = false → 64 ≤ old.size) :
    ∃ pre' post', p ++ c :: cs ++ q = pre' ++ b :: post' ∧ total pre' = total pre ∧
      (Trailing (a + total (p ++ old :: q) + 8) (a + total pre + b.size) post' ↔
        Trailing (a + total (p ++ old :: q) + 8) (a + total pre + b.size) post ∧
          a + total p ≠ a + total pre + b.size) := by
  have hold := old.large
  have hbl := b.large
  rcases append_cons_cases he hne with ⟨m, rfl, rfl⟩ | ⟨m, rfl, rfl⟩
  · refine ⟨p ++ c :: cs ++ m, post, by simp, ?_, (and_iff_left ?_).symm⟩
    · simp only [total_append, total_cons]
      omega
    · simp only [total_append, total_cons]
      omega
  · refine ⟨pre, m ++ c :: cs ++ q, by simp, rfl, ?_⟩
    cases m with
    | nil =>
      refine iff_of_false (fun hlate => ?_) fun hall => hall.2 (by simp [Nat.add_assoc])
      obtain ⟨hfree, hbrk⟩ := trailing_cons.mp hlate
      have hlong := hlong hfree
      simp only [total_append, total_cons, total_nil] at hbrk
      omega
    | cons d m =>
      have hdl := d.large
      rw [List.cons_append, List.cons_append, List.cons_append, trailing_cons, trailing_cons]
      refine (and_iff_left ?_).symm
      simp only [total_append, total_cons]
      omega

theorem granted_trailing {a need found x : Nat} {bs bs' pre post : List Block} {b : Block}
    (h : Granted a need found bs x bs') (he : bs = pre ++ b :: post) (hb : b.alloc = true) :
    ∃ pre' post', bs' = pre' ++ b :: post' ∧ total pre' = total pre ∧
      (Trailing (a + total bs' + 8) (a + total pre + b.size) post' ↔
        Trailing (a + total bs + 8) (a + total pre + b.size) post ∧
          found ≠ a + total pre + b.size ∧ total bs' = total bs) := by
  cases h with
  | @whole p q old free fits =>
    have hsame : total (p ++ old.withAlloc true :: q) = total (p ++ old :: q) := by
      simp [Block.withAlloc]
    obtain ⟨pre', post', hbs', ht, hiff⟩ := @replaced_trailing a p q pre post []
      old b (old.withAlloc true) he (fun e => by simp [e, hb] at free) rfl
      fun he => by cases he
    rw [List.append_assoc, List.cons_append, List.nil_append] at hbs'
    refine ⟨pre', post', hbs', ht, ?_⟩
    rw [hsame, hiff, and_iff_left rfl]
  | @split p q old rest new free restFree newAlloc exact parts =>
    have hrest := rest.large
    have hnew := new.large
    have hsame : total (p ++ rest :: new :: q) = total (p ++ old :: q) := by
      simp only [total_append, total_cons]
      omega
    obtain ⟨pre', post', hbs', ht, hiff⟩ := @replaced_trailing a p q pre post [new]
      old b rest he (fun e => by simp [e, hb] at free) (by simpa using parts) fun _ => by omega
    rw [List.append_assoc, List.cons_append, List.cons_append, List.nil_append] at hbs'
    refine ⟨pre', post', hbs', ht, ?_⟩
    rw [hsame, hiff, and_iff_left rfl]
  | @grow _ new newAlloc exact nofit =>
    have hnew := new.large
    have hbl := b.large
    refine ⟨pre, post ++ [new], by simp [he], rfl, iff_of_false (fun hlate => ?_) fun hall => ?_⟩
    · cases post with
      | nil => simp [trailing_cons, newAlloc] at hlate
      | cons d post =>
        have hdl := d.large
        have hbrk := (trailing_cons.mp hlate).2
        rw [he] at hbrk
        simp only [total_append, total_cons, total_nil] at hbrk
        omega
    · have hgrown := hall.2.2
      simp only [total_append, total_cons, total_nil] at hgrown
      omega

theorem moved_stranded {s mid : Heap} {pre post : List Block} {b : Block} {fl : List Nat}
    {size r : Nat} (h : WellFormed s (pre ++ b :: post) fl) (hs : Separated (pre ++ b :: post))
    (hb : b.alloc = true) (hserved : Served s (pre ++ b :: post) size r mid) (hr : r ≠ 0) :
    ∃ pre' post' fl', WellFormed mid (pre' ++ b :: post') fl' ∧ Separated (pre' ++ b :: post') ∧
      mid.base + total pre' = s.base + total pre ∧
      (mid.stranded (s.base + total pre) ↔
        s.stranded (s.base + total pre) ∧ ¬ s.absorbs size (s.base + total pre)) := by
  have hcov := h.covers
  obtain ⟨found, x, bs', fl', rfl, hsearch, hg, hw, hkept⟩ := hserved.resolve_left fun he => hr he.1
  obtain ⟨pre', post', rfl, ht, hiff⟩ := granted_trailing hg rfl hb
  have hbase : mid.base = s.base := hkept.base
  have hcov' := hw.covers
  refine ⟨pre', post', fl', hw, hg.separated hs, by rw [hbase, ht], ?_⟩
  have hx : s.base + total pre = mid.base + total pre' := by rw [hbase, ht]
  have hmid := stranded_iff hw
  rw [← hx] at hmid
  rw [hmid, stranded_iff h, Heap.absorbs, nextHeader_eq h, hsearch, ← hcov, ← hcov', hbase, hiff]
  refine and_congr_right fun _ => ?_
  have hbrk := hw.region.brk
  have hmax := hkept.memMaxAddr
  have hgrown := hg.extent (Nat.succ_pos _)
  have hneed := (requiredBlockSize_aligned size).2.1
  simp only [Option.some.injEq, not_or]
  omega

theorem started_coalesced {c : Client} (h : Started c) : Coalesced c.heap := by
  obtain ⟨addr, mem, ha, hpos, hb, hinit, -⟩ := h
  obtain ⟨s, b, fl, hs, hw⟩ := @mmInit_single mem addr ha hpos hb
  rw [hs, Prod.mk.injEq] at hinit
  exact hinit.2 ▸ ⟨[b], fl, hw, .singleton b⟩

theorem coalesced_orderly {s : Heap} {live : List Grant} {ptr : Nat} (h : Sound ⟨s, live⟩)
    (hs : Coalesced s) (hp : Holds live ptr) : ¬ s.twoFreeBefore (ptr - 8) := by
  obtain ⟨bs, fl, hw, hl⟩ := h
  dsimp only at hw hl
  obtain ⟨pre, b, post, rfl, hb, rfl⟩ := holds_split hl hp
  rw [Nat.add_sub_cancel]
  exact separated_orderly hw ((coalesced_iff hw).mp hs)

theorem coalesced_step {c c' : Client} {a : Call} {r : Nat} (h : Sound c) (hc : Coalesced c.heap)
    (hf : Fulfilled c a) (hs : c.step a = some (r, c')) : Orderly c a ∧ (Coalesced c'.heap ↔ Tidy c a) := by
  obtain ⟨s, live⟩ := c
  obtain ⟨bs, fl, hw, hl⟩ := h
  dsimp only at hw hl hc
  have hsep := (coalesced_iff hw).mp hc
  cases step_effect hw hl hs with
  | served call bound serves =>
    have hcoalesced := served_separated hw hsep serves
    rcases call with rfl | ⟨nmemb, n, rfl, -⟩ | rfl
    · exact ⟨trivial, iff_of_true hcoalesced trivial⟩
    · exact ⟨trivial, iff_of_true hcoalesced trivial⟩
    · exact ⟨.inl rfl, iff_of_true hcoalesced (.inl rfl)⟩
  | @freed _ ptr call given held =>
    have horderly := coalesced_orderly ⟨bs, fl, hw, hl⟩ hc held
    have htidy : Tidy ⟨s, live⟩ a ↔ ¬ s.stranded (ptr - 8) := by
      rcases call with rfl | rfl <;> simp [Tidy, given]
    rw [htidy]
    refine ⟨?_, ?_⟩
    · rcases call with rfl | rfl
      · exact .inr horderly
      · exact .inr (.inl horderly)
    · obtain ⟨pre, b, post, rfl, hb, rfl⟩ := holds_split hl held
      exact free_coalesced hw hsep hb
  | @moved ptr size _ mid given held sized bound serves moves =>
    refine ⟨.inr (.inl (coalesced_orderly ⟨bs, fl, hw, hl⟩ hc held)), ?_⟩
    obtain ⟨pre, b, post, rfl, hb, rfl⟩ := holds_split hl held
    obtain ⟨pre', post', fl', hw', hsep', hx, hiff⟩ :=
      moved_stranded hw hsep hb serves moves
    have hfree := free_coalesced hw' hsep' hb
    rw [hx, hiff] at hfree
    simp only [Tidy, hfree, Nat.add_sub_cancel, sized, given, false_or, ne_eq, not_false_eq_true,
      true_and]
    rw [not_and_or, not_not]
  | failed given held sized refused => simp [Fulfilled, given, sized, refused] at hf
  | idle => exact ⟨.inl rfl, iff_of_true hc (.inl rfl)⟩
  | written allowed =>
    obtain ⟨hw', -⟩ := Ledger.written hw hl allowed
    exact ⟨trivial, iff_of_true ⟨bs, fl, hw', hsep⟩ trivial⟩

def Settled (c : Client) : Prop := Sound c ∧ Coalesced c.heap

theorem settled_step {c c' : Client} {a : Call} {r : Nat} (h : Settled c) (hf : Fulfilled c a)
    (hs : c.step a = some (r, c')) :
    Sound c' ∧ (Tidy c a → Settled c') ∧ (¬ Tidy c a → ¬ Coalesced c'.heap) := by
  obtain ⟨horderly, hiff⟩ := coalesced_step h.1 h.2 hf hs
  have hsound := (step_spec h.1 hf hs).1 horderly
  exact ⟨hsound, fun ha => ⟨hsound, hiff.mpr ha⟩, fun ha hc => ha (hiff.mp hc)⟩

theorem started_settled {c : Client} (h : Started c) : Settled c :=
  ⟨started_sound h, started_coalesced h⟩

theorem run_settled {tr : List (Event Client Call Nat)} {c : Client} (h : Run allocator tr c)
    (hok : Meets Tidy tr) (hf : Meets Fulfilled tr) : Settled c :=
  h.state_invariant (P := Settled) (fun _ hi => started_settled hi)
    (fun _ _ _ _ hc ha hs => (settled_step hc ha.2 hs).2.1 ha.1) ((meets_and _ _ _).mpr ⟨hok, hf⟩)

-- the first of the two blocks stays beside the second
def strandedCalls : List Call := [.malloc 24, .malloc 24, .free 8176, .free 8144]

end OperatingSystems.Malloc
