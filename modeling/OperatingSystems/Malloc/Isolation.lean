import OperatingSystems.Malloc.Client

namespace OperatingSystems.Malloc
open ByteMemory Transition

def Sound (c : Client) : Prop :=
  ∃ bs fl, WellFormed c.heap bs fl ∧ Ledger c.heap bs c.live

theorem Sound.consistent {c : Client} (h : Sound c) : Consistent c.heap := by
  obtain ⟨bs, fl, hw, -⟩ := h
  exact ⟨bs, fl, hw⟩

theorem Sound.isolated {c : Client} (h : Sound c) : Isolated c := by
  obtain ⟨bs, fl, hw, hl⟩ := h
  have hcov := hw.covers
  have hlo : c.heap.base = c.heap.heap + 8 := rfl
  refine ⟨fun g hg => ?_, fun g hg => ?_, ?_, fun g hg i v hv => ?_⟩
  · obtain ⟨x, b, hb⟩ := hl.backed g hg
    have hbd := hw.bounds hb.inUse.1
    have := hb.ptr
    have := hb.size
    simp only [Heap.mmHeapLo, Heap.mmHeapHi]
    omega
  · obtain ⟨x, b, hb⟩ := hl.backed g hg
    have hm := placed_mod hb.inUse.1
    have := hw.base_mod
    have := hb.ptr
    omega
  · refine hl.distinct.imp_of_mem fun {g k} hg hk hne => ?_
    obtain ⟨x, b, hb⟩ := hl.backed g hg
    obtain ⟨y, d, hd⟩ := hl.backed k hk
    have hbs := hb.size
    have hds := hd.size
    have hbp := hb.ptr
    have hdp := hd.ptr
    rcases placed_apart hb.inUse.1 hd.inUse.1 with ⟨rfl, -⟩ | h | h <;> omega
  · obtain ⟨x, b, hb⟩ := hl.backed g hg
    exact hb.stored i v hv

theorem started_sound {c : Client} (h : Started c) : Sound c := by
  obtain ⟨addr, mem, ha, hpos, hb, hinit, hlive⟩ := h
  obtain ⟨s, bs, fl, hs, hw⟩ := @mmInit_spec mem addr ha hpos hb
  rw [hs, Prod.mk.injEq] at hinit
  refine ⟨bs, fl, hinit.2 ▸ hw, ⟨?_, ?_⟩⟩ <;> simp [hlive]

theorem holds_split {s : Heap} {bs : List Block} {live : List Grant} {ptr : Nat}
    (h : Ledger s bs live) (hp : Holds live ptr) :
    ∃ pre b post, bs = pre ++ b :: post ∧ b.alloc = true ∧ ptr = s.base + total pre + 8 := by
  obtain ⟨g, hg, rfl⟩ := hp
  obtain ⟨x, b, hb⟩ := h.backed g hg
  obtain ⟨pre, post, rfl, rfl⟩ := placed_split hb.inUse.1
  exact ⟨pre, b, post, rfl, hb.inUse.2, hb.ptr⟩

theorem free_step {s : Heap} {live : List Grant} {ptr : Nat} (h : Sound ⟨s, live⟩)
    (hp : Holds live ptr) :
    (¬ s.twoFreeBefore (ptr - 8) → Sound ⟨s.free ptr, release live ptr⟩) ∧
      (s.twoFreeBefore (ptr - 8) → ¬ Consistent (s.free ptr)) := by
  obtain ⟨bs, fl, hw, hl⟩ := h
  dsimp only at hw hl
  obtain ⟨pre, b, post, rfl, hb, rfl⟩ := holds_split hl hp
  rw [Nat.add_sub_cancel]
  exact ⟨hl.released hw hb, fun hbad ⟨bs, fl, hw'⟩ => free_broken hw hb hbad bs fl hw'⟩

theorem obtain_holds {live : List Grant} {r size ptr : Nat} (h : Holds live ptr) :
    Holds (obtain live r size) ptr := by
  obtain ⟨g, hg, hp⟩ := h
  refine ⟨g, ?_, hp⟩
  rw [obtain]
  split
  · exact hg
  · exact List.mem_cons_of_mem _ hg

theorem release_obtain {live : List Grant} {r size ptr : Nat} (h : r ≠ ptr) :
    release (obtain live r size) ptr = obtain (release live ptr) r size := by
  rw [obtain, obtain]
  split
  · rfl
  · simp [release, h]

theorem exchange_moved (live : List Grant) (oldptr : Nat) {r size : Nat} (h : r ≠ 0 ∨ size = 0) :
    exchange live oldptr r size = obtain (release live oldptr) r size :=
  if_neg (by omega)

theorem release_zero {s : Heap} {bs : List Block} {live : List Grant} (h : Ledger s bs live) :
    release live 0 = live := by
  refine List.filter_eq_self.mpr fun g hg => ?_
  obtain ⟨x, b, hb⟩ := h.backed g hg
  have := hb.ptr
  simp
  omega

theorem exchange_zero {s : Heap} {bs : List Block} {live : List Grant} (h : Ledger s bs live)
    (r size : Nat) : exchange live 0 r size = obtain live r size := by
  rw [exchange, release_zero h, obtain]
  split <;> simp_all

inductive Effect (s : Heap) (bs : List Block) (live : List Grant) : Call → Nat → Client → Prop
  | served {a : Call} {size r : Nat} {s' : Heap}
      (call : a = .malloc size ∨ (∃ nmemb n, a = .calloc nmemb n ∧ size = n * nmemb) ∨
        a = .realloc 0 size)
      (bound : size + 23 < 2 ^ 64) (serves : Served s bs size r s') :
      Effect s bs live a r ⟨s', obtain live r size⟩
  | freed {a : Call} {ptr : Nat} (call : a = .free ptr ∨ a = .realloc ptr 0) (given : ptr ≠ 0)
      (held : Holds live ptr) : Effect s bs live a 0 ⟨s.free ptr, release live ptr⟩
  | moved {ptr size r : Nat} {mid : Heap} (given : ptr ≠ 0) (held : Holds live ptr)
      (sized : size ≠ 0) (bound : size + 23 < 2 ^ 64) (serves : Served s bs size r mid)
      (moves : r ≠ 0) :
      Effect s bs live (.realloc ptr size) r ⟨mid.free ptr, obtain (release live ptr) r size⟩
  | failed {ptr size : Nat} (given : ptr ≠ 0) (held : Holds live ptr) (sized : size ≠ 0)
      (refused : s.refuses size) : Effect s bs live (.realloc ptr size) 0 ⟨s.free ptr, live⟩
  | idle : Effect s bs live (.free 0) 0 ⟨s, live⟩
  | written {ptr i : Nat} {v : UInt8} (allowed : (Client.mk s live).Allowed (.write ptr i v)) :
      Effect s bs live (.write ptr i v) 0
        ⟨{ s with mem := Function.update s.mem (ptr + i) v }, live.map (Grant.record ptr i v)⟩

section
variable {s mid : Heap} {bs : List Block} {fl : List Nat} {live : List Grant}
  (hw : WellFormed s bs fl) (hl : Ledger s bs live)
include hw hl

theorem step_effect {a : Call} {r : Nat} {c' : Client}
    (hs : (Client.mk s live).step a = some (r, c')) : Effect s bs live a r c' := by
  unfold Client.step at hs
  split at hs
  · rename_i ha
    cases a with
    | malloc size =>
      obtain ⟨q, s', hm, hserved⟩ := @malloc_served _ _ _ size hw
      simp only [Client.perform, hm, Option.map_some, Option.some.injEq, Prod.mk.injEq] at hs
      obtain ⟨rfl, rfl⟩ := hs
      exact .served (.inl rfl) ha hserved
    | calloc nmemb size =>
      obtain ⟨q, s', hm, hserved⟩ := calloc_served hw ha rfl
      simp only [Client.perform, hm, Option.map_some, Option.some.injEq, Prod.mk.injEq] at hs
      obtain ⟨rfl, rfl⟩ := hs
      exact .served (.inr (.inl ⟨nmemb, size, rfl, rfl⟩)) ha hserved
    | realloc oldptr size =>
      obtain ⟨hsize, hold⟩ := ha
      by_cases hnull : oldptr = 0
      · subst hnull
        obtain ⟨q, s', hm, hserved⟩ := @malloc_served _ _ _ size hw
        simp only [Client.perform, Heap.realloc, if_true, hm, Option.map_some, Option.some.injEq,
          Prod.mk.injEq, exchange_zero hl] at hs
        obtain ⟨rfl, rfl⟩ := hs
        exact .served (.inr (.inr rfl)) hsize hserved
      · have hp := hold.resolve_left hnull
        by_cases hpos : size = 0
        · subst hpos
          simp only [Client.perform, Heap.realloc, hnull, if_false, if_true, Option.map_some,
            Option.some.injEq, Prod.mk.injEq, exchange_moved live oldptr (.inr rfl), obtain] at hs
          obtain ⟨rfl, rfl⟩ := hs
          exact .freed (.inr rfl) hnull hp
        · obtain ⟨q, mid, hr, hserved⟩ := realloc_served hw hsize hnull hpos
          simp only [Client.perform, hr, Option.map_some, Option.some.injEq, Prod.mk.injEq] at hs
          obtain ⟨rfl, rfl⟩ := hs
          by_cases hq : q = 0
          · obtain ⟨rfl, hrefused⟩ := hserved.refused hq hpos
            rw [exchange, if_pos ⟨hq, hpos⟩, hq]
            exact .failed hnull hp hpos hrefused
          · rw [exchange_moved live oldptr (.inl hq)]
            exact .moved hnull hp hpos hsize hserved hq
    | free ptr =>
      simp only [Client.perform, Option.some.injEq, Prod.mk.injEq] at hs
      obtain ⟨rfl, rfl⟩ := hs
      by_cases hnull : ptr = 0
      · subst hnull
        rw [release_zero hl]
        exact .idle
      · exact .freed (.inl rfl) hnull (ha.resolve_left hnull)
    | write ptr i v =>
      cases hs
      exact .written ha
  · cases hs

theorem moved_step {ptr size r : Nat} (hp : Holds live ptr) (hpos : size ≠ 0)
    (hsize : size + 23 < 2 ^ 64) (hs : Served s bs size r mid) :
    r ≠ ptr ∧ Sound ⟨mid, obtain live r size⟩ ∧
      (mid.twoFreeBefore (ptr - 8) ↔ s.twoFreeBefore (ptr - 8) ∧ ¬ s.reuses size (ptr - 8)) := by
  have hl' := Ledger.served hw hl hsize hs
  obtain ⟨pre, b, post, rfl, hb, rfl⟩ := holds_split hl hp
  refine ⟨?_, hl', ?_⟩
  · rcases hs with ⟨rfl, -⟩ | ⟨found, x, bs₁, fl₁, rfl, -, hg, -, -⟩
    · omega
    · have := ((granted_inUse hg).2.1 (s.base + total pre) b ⟨by simp, hb⟩).2
      omega
  · rw [Nat.add_sub_cancel, twoFreeBefore_iff_doubleGap hw]
    rcases hs with ⟨-, rfl, hzero⟩ | ⟨found, x, bs₁, fl₁, rfl, hsearch, hg, hw₁, hkept⟩
    · rw [twoFreeBefore_iff_doubleGap hw]
      refine (and_iff_left_of_imp ?_).symm
      rintro ⟨q, c, d, rfl, hc, hd⟩
      have hb0 : mid.base = mid.heap + 8 := rfl
      rw [reuses_iff hw hc hd (hzero.resolve_left hpos).1]
      omega
    · obtain ⟨pre', post', rfl, ht, hgap⟩ := granted_gap_iff hw rfl hb hsearch hg
      have hbase : mid.base = s.base := hkept.base
      rw [← ht, ← hbase, twoFreeBefore_iff_doubleGap hw₁, hgap, ht, hbase]

end

theorem step_spec {c c' : Client} {a : Call} {r : Nat} (h : Sound c) (hf : Fulfilled c a)
    (hs : c.step a = some (r, c')) :
    (Orderly c a → Sound c') ∧ (¬ Orderly c a → ¬ Consistent c'.heap) := by
  obtain ⟨s, live⟩ := c
  obtain ⟨bs, fl, hw, hl⟩ := h
  dsimp only at hw hl
  cases step_effect hw hl hs with
  | served call bound serves =>
    have horder : Orderly ⟨s, live⟩ a := by
      rcases call with rfl | ⟨nmemb, n, rfl, -⟩ | rfl
      · trivial
      · trivial
      · exact .inl rfl
    exact ⟨fun _ => Ledger.served hw hl bound serves, fun hbad => absurd horder hbad⟩
  | @freed _ ptr call given held =>
    obtain ⟨hgood, hbad⟩ := free_step ⟨bs, fl, hw, hl⟩ held
    have horder : Orderly ⟨s, live⟩ a ↔ ¬ s.twoFreeBefore (ptr - 8) := by
      rcases call with rfl | rfl <;> simp [Orderly, given]
    rw [horder, not_not]
    exact ⟨hgood, hbad⟩
  | @moved ptr size _ mid given held sized bound serves moves =>
    obtain ⟨hne, hsound, hiff⟩ := moved_step hw hl held sized bound serves
    obtain ⟨hgood, hbad⟩ := free_step hsound (obtain_holds held)
    rw [release_obtain hne] at hgood
    have horder : Orderly ⟨s, live⟩ (.realloc ptr size) ↔ ¬ mid.twoFreeBefore (ptr - 8) := by
      simp only [Orderly, given, sized, false_or, ne_eq, not_false_eq_true, true_and, hiff]
      rw [not_and_or, not_not]
    rw [horder, not_not]
    exact ⟨hgood, hbad⟩
  | failed given held sized refused => simp [Fulfilled, given, sized, refused] at hf
  | idle => exact ⟨fun _ => ⟨bs, fl, hw, hl⟩, fun hbad => absurd (.inl rfl) hbad⟩
  | written allowed =>
    have hwl := Ledger.written hw hl allowed
    exact ⟨fun _ => ⟨bs, fl, hwl.1, hwl.2⟩, fun hbad => absurd trivial hbad⟩

theorem run_sound {tr : List (Event Client Call Nat)} {c : Client} (h : Run allocator tr c)
    (hok : Meets Orderly tr) (hf : Meets Fulfilled tr) : Sound c :=
  h.state_invariant (P := Sound) (fun _ hi => started_sound hi)
    (fun _ _ _ _ hp ha hs => (step_spec hp ha.2 hs).1 ha.1) ((meets_and _ _ _).mpr ⟨hok, hf⟩)

theorem payloads_isolated {tr : List (Event Client Call Nat)} {c : Client}
    (h : Run allocator tr c) (hok : Meets Orderly tr) (hf : Meets Fulfilled tr) : Isolated c :=
  (run_sound h hok hf).isolated

def firstClient : Client where
  heap := ((memInit 4096 fun _ => 0).mmInit).2
  live := []

theorem firstClient_started : Started firstClient :=
  ⟨4096, fun _ => 0, by decide, by decide, by decide, Prod.ext (by decide +kernel) rfl, rfl⟩

def mixedCalls : List Call :=
  [.malloc 100, .calloc 3 40, .write 8096 7 255, .realloc 8096 300, .free 7968]

theorem payloads_isolated_mixed :
    ∃ tr c, Run allocator tr c ∧ tr.map Event.action = mixedCalls ∧ Isolated c := by
  obtain ⟨tr, c, hr, ha, hok, hf⟩ := @replay_run _ _ _ allocator _ firstClient_started mixedCalls
    (fun tr _ => Meets Orderly tr ∧ Meets Fulfilled tr) _ (by decide +kernel)
  exact ⟨tr, c, hr, ha, payloads_isolated hr hok hf⟩

def overlapCalls : List Call :=
  [.malloc 24, .malloc 24, .free 8176, .free 8144, .malloc 5000, .free 8208, .malloc 5032,
    .malloc 4056, .free 8176, .malloc 9096]

theorem payloads_overlap : ∃ tr c, Run allocator tr c ∧ tr.map Event.action = overlapCalls ∧
    c.live.map Grant.ptr = [4112, 4112] ∧ ¬ Isolated c := by
  obtain ⟨tr, c, hr, ha, hptr, hover⟩ := @replay_run _ _ _ allocator _ firstClient_started
    overlapCalls (fun _ c => c.live.map Grant.ptr = [4112, 4112] ∧
      ¬ c.live.Pairwise fun g h => g.ptr + g.size ≤ h.ptr ∨ h.ptr + h.size ≤ g.ptr) _
    (by decide +kernel)
  exact ⟨tr, c, hr, ha, hptr, fun h => hover h.disjoint⟩

-- `realloc` frees the old block although it has no new one, and the block is handed out again
def refusedCalls : List Call := [.malloc 24, .realloc 8176 (2 ^ 41), .malloc 24]

theorem refused_overlap : ∃ tr c, Run allocator tr c ∧ tr.map Event.action = refusedCalls ∧
    Meets Orderly tr ∧ c.live.map Grant.ptr = [8176, 8176] ∧ ¬ Isolated c := by
  obtain ⟨tr, c, hr, ha, hok, hptr, hover⟩ := @replay_run _ _ _ allocator _ firstClient_started
    refusedCalls (fun tr c => Meets Orderly tr ∧ c.live.map Grant.ptr = [8176, 8176] ∧
      ¬ c.live.Pairwise fun g h => g.ptr + g.size ≤ h.ptr ∨ h.ptr + h.size ≤ g.ptr) _
    (by decide +kernel)
  exact ⟨tr, c, hr, ha, hok, hptr, fun h => hover h.disjoint⟩

def brokenCalls : List Call :=
  [.malloc 24, .malloc 24, .free 8176, .free 8144, .malloc 5000, .free 8208]

end OperatingSystems.Malloc
