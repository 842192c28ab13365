import OperatingSystems.Driver.RangeUpdate

namespace OperatingSystems.Driver
open Transition

-- `z` and `p` are the cells that `malloc` returns
inductive RangeCall (ν π : Type)
  | add (b : Block) (z : ν) (p : π)
  | remove (lo : Nat)
  | reset

inductive RangeReply
  | added (refusal : Option Refusal)
  | done
  deriving DecidableEq

namespace RangeSet
variable {ν π : Type}

def Overlaps (s : RangeSet ν π) (b : Block) (q : π) : Prop := b.lo ≤ s.hi q ∧ s.lo q ≤ b.hi

def Right (s : RangeSet ν π) (b : Block) : Refusal → Prop
  | .unaligned lo => lo = b.lo ∧ ¬ b.Aligned
  | .outside lo hi heapLo heapHi =>
    lo = b.lo ∧ hi = b.hi ∧ heapLo = b.heapLo ∧ heapHi = b.heapHi ∧ ¬ b.Inside
  | .overlaps lo hi otherLo otherHi => lo = b.lo ∧ hi = b.hi ∧
    ∃ q, s.live q = true ∧ s.lo q = otherLo ∧ s.hi q = otherHi ∧ s.Overlaps b q

structure Nearest (s : RangeSet ν π) (b : Block) (q : π) : Prop where
  live : s.live q = true
  below : s.lo q ≤ b.lo
  greatest : ∀ r, s.live r = true → s.lo r ≤ b.lo → s.lo r ≤ s.lo q

def Sound (s : RangeSet ν π) (b : Block) : Option Refusal → Prop
  | some refusal => s.Right b refusal
  | none => b.Aligned ∧ b.Inside ∧
    ∀ q, s.Nearest b q → s.hi q < b.lo ∧ ∀ r, s.next q = some r → b.hi < s.lo r

def Clear (s : RangeSet ν π) (b : Block) : Prop :=
  b.Aligned ∧ b.Inside ∧ ∀ q, s.live q = true → ¬ s.Overlaps b q

theorem Sound.clear {s : RangeSet ν π} {b : Block} {refusal : Option Refusal}
    (h : s.Sound b refusal) (hc : s.Clear b) : refusal = none := by
  obtain ⟨ha, hi, hover⟩ := hc
  cases refusal with
  | none => rfl
  | some e =>
    cases e with
    | unaligned => exact absurd ha h.2
    | outside => exact absurd hi h.2.2.2.2
    | overlaps =>
      obtain ⟨-, -, q, hq, -, -, hover'⟩ := h
      exact absurd hover' (hover q hq)

def Covered (s : RangeSet ν π) : RangeCall ν π → Prop
  | .add b _ _ => (∀ q, s.live q = false) ∨ ∃ q, s.live q = true ∧ s.lo q ≤ b.lo
  | _ => True

-- addresses are those of a user process, sizes at most half of the address space
def Legal (s : RangeSet ν π) : RangeCall ν π → Prop
  | .add b z p => (0 < b.size ∧ b.size ≤ 2 ^ 63 ∧ b.heapHi < 2 ^ 63) ∧
    s.loTree.live z = false ∧ s.live p = false
  | _ => True

instance (s : RangeSet ν π) (c : RangeCall ν π) : Decidable (s.Legal c) := by
  cases c <;> unfold Legal <;> infer_instance

instance [Fintype π] (s : RangeSet ν π) (c : RangeCall ν π) : Decidable (s.Covered c) := by
  cases c <;> unfold Covered <;> infer_instance

theorem Tracked.accepts [DecidableEq ν] [Fintype ν] {s : RangeSet ν π} {b : Block} {l : List π}
    {z : ν} {p : π} (h : s.Tracked False l) (hc : s.Covered (.add b z p : RangeCall ν π))
    (ha : s.Sound b none) : s.Clear b := by
  obtain ⟨haligned, hinside, hnearest⟩ := ha
  refine ⟨haligned, hinside, fun q hq hover => ?_⟩
  obtain ⟨before, behind, rfl, hbefore, hbehind⟩ := split_at h.sorted b.lo
  obtain ⟨hsb, -, hsa⟩ := List.pairwise_append.mp h.sorted
  obtain ⟨-, -, hmid⟩ := (chain_split _ _).mp h.joined
  rcases hc with hdead | ⟨q₀, hq₀, hlo₀⟩
  · rw [hdead q] at hq
    cases hq
  · have hmem₀ : q₀ ∈ before := by
      rcases List.mem_append.mp ((h.live q₀).mp hq₀) with hmem | hmem
      · exact hmem
      · exact absurd (hbehind q₀ hmem) (not_lt.mpr hlo₀)
    obtain ⟨r, hr, -⟩ := below_last hsb hmem₀
    have hrmem : r ∈ before := List.mem_of_getLast? hr
    have hbelow (x : π) (hx : x ∈ before) : s.lo x ≤ s.lo r := by
      obtain ⟨r', hr', hle⟩ := below_last hsb hx
      rw [hr] at hr'
      cases hr'
      rcases hle with rfl | hlt
      · exact le_rfl
      · exact hlt.le
    have hr' : s.Nearest b r := by
      refine ⟨(h.live r).mpr (List.mem_append_left _ hrmem), hbefore r hrmem, fun x hx hlo => ?_⟩
      rcases List.mem_append.mp ((h.live x).mp hx) with hmem | hmem
      · exact hbelow x hmem
      · exact absurd (hbehind x hmem) (not_lt.mpr hlo)
    obtain ⟨hhi, hnext⟩ := hnearest r hr'
    have hextent := (h.extent r (List.mem_append_left _ hrmem)).1
    rcases List.mem_append.mp ((h.live q).mp hq) with hmem | hmem
    · have hapart : s.hi q < s.lo r ∨ q = r := by
        obtain ⟨rest, hrest⟩ := List.getLast?_eq_some_iff.mp hr
        have hpairs := (List.pairwise_append.mp h.apart).1
        rw [hrest] at hpairs hmem
        rcases List.mem_append.mp hmem with hm | hm
        · exact .inl ((List.pairwise_append.mp hpairs).2.2 q hm r (List.mem_singleton_self r))
        · exact .inr (List.mem_singleton.mp hm)
      have hlow := hover.1
      rcases hapart with hlt | rfl
      · omega
      · omega
    · cases behind with
      | nil => cases hmem
      | cons c rest =>
        rw [hr] at hmid
        have hc : s.next r = some c := by
          rcases hmid.succeeding with ⟨hn, -⟩ | ⟨hcut, -⟩
          · exact hn
          · exact hcut.elim
        have hlo := hnext c hc
        have hhigh := hover.2
        rcases List.mem_cons.mp hmem with rfl | hmem
        · omega
        · obtain ⟨-, hsh, -⟩ := List.pairwise_append.mp h.sorted
          have hlt := (List.pairwise_cons.mp hsh).1 q hmem
          omega

section
variable [DecidableEq π] [DecidableEq ν] [Fintype ν]

def call (mode : DebugMode) (s : RangeSet ν π) : RangeCall ν π → Option (RangeReply × RangeSet ν π)
  | .add b z p => (s.addRange mode b z p).map fun (refusal, s) => (.added refusal, s)
  | .remove lo => (s.removeRange lo).map fun s => (.done, s)
  | .reset => s.resetRangeSet.map fun s => (.done, s)

variable {cut : Prop} {s : RangeSet ν π} {b : Block}

theorem hi_inside (hsize : 0 < b.size ∧ b.size ≤ 2 ^ 63 ∧ b.heapHi < 2 ^ 63) (h : b.Inside) :
    b.lo ≤ b.hi ∧ b.hi < 2 ^ 63 := by
  obtain ⟨-, hlo, -, hhi⟩ := h
  have hfit : b.lo + b.size - 1 < 2 ^ 64 := by omega
  have heq : b.hi = b.lo + b.size - 1 := Nat.mod_eq_of_lt hfit
  omega

theorem search_tracked {mode : DebugMode} {l : List π} {z : ν} {p : π} (h : s.Tracked cut l)
    (hm : mode ≠ .none) (hl : s.Legal (.add b z p)) (hc : cut ∨ s.Covered (.add b z p : RangeCall ν π))
    (ha : b.Aligned) (hi : b.Inside) : ∃ refusal s' l', s.addRange mode b z p = some (refusal, s') ∧
      s.Sound b refusal ∧ s'.Tracked cut l' ∧ s.Grown s' b := by
  obtain ⟨hsize, hz, hp⟩ := hl
  have hext := hi_inside hsize hi
  have hsame : s.Grown s b := fun q hq => .inr ⟨hq, rfl, rfl⟩
  obtain ⟨before, behind, rfl, hbefore, hbehind⟩ := split_at h.sorted b.lo
  obtain ⟨hsb, -, -⟩ := List.pairwise_append.mp h.sorted
  obtain ⟨-, -, hmid⟩ := (chain_split _ _).mp h.joined
  have hlast (q : π) (hq : before.getLast? = some q) : q ∈ before := List.mem_of_getLast? hq
  have hlive (q : π) (hq : before.getLast? = some q) : s.live q = true :=
    (h.live q).mpr (List.mem_append_left _ (hlast q hq))
  have hfollow (q : π) (hq : before.getLast?.bind s.next = some q) : q ∈ behind :=
    List.mem_of_head? (hmid.follows hq)
  have hnextLive (q : π) (hq : before.getLast?.bind s.next = some q) : s.live q = true :=
    (h.live q).mpr (List.mem_append_right _ (hfollow q hq))
  have hadd : s.addRange mode b z p =
      s.addBetween b z p before.getLast? (before.getLast?.bind s.next) := by
    have hlong : toLong b.lo = b.lo := toLong_small (by omega)
    rw [addRange, if_neg (by omega), if_neg (not_not.mpr ha), if_neg (not_not.mpr hi), if_neg hm, hlong,
      findNearest_split h hbefore hbehind, Option.bind_eq_bind, Option.bind_some, nextOf_live hlive,
      Option.bind_some]
  rw [addBetween, clash_live hlive, Option.bind_eq_bind, Option.bind_some] at hadd
  cases hover : before.getLast?.filter fun q => b.lo ≤ s.hi q with
  | some q =>
    obtain ⟨hq, htest⟩ := Option.filter_eq_some_iff.mp hover
    have hhi : b.lo ≤ s.hi q := by simpa using htest
    have hlo : s.lo q ≤ b.hi := (hbefore q (hlast q hq)).trans hext.1
    have hright : s.Right b (.overlaps b.lo b.hi (s.lo q) (s.hi q)) :=
      ⟨rfl, rfl, q, hlive q hq, rfl, rfl, hhi, hlo⟩
    exact ⟨some (.overlaps b.lo b.hi (s.lo q) (s.hi q)), s, _, by rw [hadd, hover], hright, h, hsame⟩
  | none =>
    rw [hover, clash_live hnextLive] at hadd
    have hclear : ∀ q, before.getLast? = some q → s.hi q < b.lo := by
      simpa [Option.filter_eq_none_iff] using hover
    cases hover' : (before.getLast?.bind s.next).filter fun q => s.lo q ≤ b.hi with
    | some q =>
      obtain ⟨hq, htest⟩ := Option.filter_eq_some_iff.mp hover'
      have hlo : s.lo q ≤ b.hi := by simpa using htest
      have hmem := hfollow q hq
      have hhi : b.lo ≤ s.hi q := by
        have h₁ := hbehind q hmem
        have h₂ := (h.extent q (List.mem_append_right _ hmem)).1
        omega
      have hright : s.Right b (.overlaps b.lo b.hi (s.lo q) (s.hi q)) :=
        ⟨rfl, rfl, q, hnextLive q hq, rfl, rfl, hhi, hlo⟩
      exact ⟨some (.overlaps b.lo b.hi (s.lo q) (s.hi q)), s, _, by rw [hadd, hover']; rfl,
        hright, h, hsame⟩
    | none =>
      have hclear' : ∀ q, before.getLast?.bind s.next = some q → b.hi < s.lo q := by
        simpa [Option.filter_eq_none_iff] using hover'
      have hlow (q : π) (hq : q ∈ before) : s.lo q < b.lo := by
        obtain ⟨r, hr, hqr⟩ := below_last hsb hq
        have h₁ := (h.extent r (List.mem_append_left _ (hlast r hr))).1
        have h₂ := hclear r hr
        rcases hqr with rfl | hlt
        · omega
        · omega
      have hnearest (q : π) (hq : s.Nearest b q) : before.getLast? = some q := by
        have hmem : q ∈ before := by
          rcases List.mem_append.mp ((h.live q).mp hq.live) with hmem | hmem
          · exact hmem
          · exact absurd (hbehind q hmem) (not_lt.mpr hq.below)
        obtain ⟨r, hr, rfl | hlt⟩ := below_last hsb hmem
        · exact hr
        · exact absurd (hq.greatest r (hlive r hr) (hbefore r (hlast r hr))) (not_le.mpr hlt)
      have hcut : cut ∨ before ≠ [] ∨ behind = [] := by
        rcases hc with hc | hdead | ⟨q, hq, hlo⟩
        · exact .inl hc
        · refine .inr (.inr (List.eq_nil_iff_forall_not_mem.mpr fun q hq => ?_))
          have hq' := (h.live q).mpr (List.mem_append_right _ hq)
          rw [hdead q] at hq'
          cases hq'
        · refine .inr (.inl ?_)
          rcases List.mem_append.mp ((h.live q).mp hq) with hmem | hmem
          · exact List.ne_nil_of_mem hmem
          · exact absurd (hbehind q hmem) (not_lt.mpr hlo)
      obtain ⟨s', hrecord, ht, hgrown⟩ := record_tracked h hp hz hcut hlow hbehind hext hclear hclear'
      refine ⟨none, s', _, by rw [hadd, hover', hrecord]; rfl, ⟨ha, hi, fun q hq => ?_⟩, ht,
        hgrown⟩
      have hq' := hnearest q hq
      exact ⟨hclear q hq', fun r hr => hclear' r (by rw [hq']; exact hr)⟩

theorem addRange_tracked {mode : DebugMode} {l : List π} {z : ν} {p : π} (h : s.Tracked cut l)
    (hm : mode ≠ .none) (hl : s.Legal (.add b z p))
    (hc : cut ∨ s.Covered (.add b z p : RangeCall ν π)) : ∃ refusal s' l',
      s.addRange mode b z p = some (refusal, s') ∧ s.Sound b refusal ∧ s'.Tracked cut l' ∧
        s.Grown s' b := by
  have hsize : b.size ≠ 0 := hl.1.1.ne'
  have hsame : s.Grown s b := fun q hq => .inr ⟨hq, rfl, rfl⟩
  by_cases ha : b.Aligned
  · by_cases hi : b.Inside
    · exact search_tracked h hm hl hc ha hi
    · have hright : s.Right b (.outside b.lo b.hi b.heapLo b.heapHi) := ⟨rfl, rfl, rfl, rfl, hi⟩
      refine ⟨some (.outside b.lo b.hi b.heapLo b.heapHi), s, l, ?_, hright, h, hsame⟩
      rw [addRange, if_neg hsize, if_neg (not_not.mpr ha), if_pos hi]
  · have hright : s.Right b (.unaligned b.lo) := ⟨rfl, ha⟩
    refine ⟨some (.unaligned b.lo), s, l, ?_, hright, h, hsame⟩
    rw [addRange, if_neg hsize, if_pos ha]

theorem call_tracked {mode : DebugMode} {l : List π} {c : RangeCall ν π} (h : s.Tracked cut l)
    (hm : mode ≠ .none) (hl : s.Legal c) (hc : cut ∨ s.Covered c) : ∃ reply s' l',
      s.call mode c = some (reply, s') ∧ s'.Tracked cut l' ∧
        ∀ b z p, c = .add b z p → ∃ refusal, reply = .added refusal ∧ s.Sound b refusal := by
  cases c with
  | add b z p =>
    obtain ⟨refusal, s', l', hadd, hsound, ht, -⟩ := addRange_tracked h hm hl hc
    refine ⟨.added refusal, s', l', by rw [call, hadd]; rfl, ht, fun b' z' p' heq => ?_⟩
    cases heq
    exact ⟨refusal, rfl, hsound⟩
  | remove lo =>
    obtain ⟨s', l', hremove, ht, -⟩ := removeRange_tracked h lo
    exact ⟨.done, s', l', by rw [call, hremove]; rfl, ht, fun b z p heq => by cases heq⟩
  | reset =>
    obtain ⟨s', hreset, ht⟩ := resetRangeSet_tracked h
    exact ⟨.done, s', [], by rw [call, hreset]; rfl, ht, fun b z p heq => by cases heq⟩

end

end RangeSet

open RangeSet

variable {ν π : Type} [DecidableEq π] [DecidableEq ν] [Fintype ν]

-- a call that does not return is seen as `none`
def rangeSets (mode : DebugMode) (ν π : Type) [DecidableEq π] [DecidableEq ν] [Fintype ν] :
    System (RangeSet ν π) (RangeCall ν π) (Option RangeReply) where
  init s := s.list = none ∧ (trees ν π).init s.loTree ∧ ∀ p, s.live p = false
  step s c :=
    if s.Legal c then
      match s.call mode c with
      | some (reply, s') => some (some reply, s')
      | none => some (none, s)
    else none

theorem init_tracked {mode : DebugMode} {s : RangeSet ν π} {cut : Prop}
    (h : (rangeSets mode ν π).init s) : s.Tracked cut [] := by
  obtain ⟨hlist, htree, hlive⟩ := h
  refine ⟨init_stores htree, List.Pairwise.nil, fun p => by simp [hlive p], by simp, ?_, fun _ => hlist⟩
  simp [left, RangeSet.Joined]

def Shows (e : Event (RangeSet ν π) (RangeCall ν π) (Option RangeReply)) : Prop :=
  ∃ reply, e.seen = some reply ∧ ∀ b z p, e.action = .add b z p →
    ∃ refusal, reply = .added refusal ∧ e.before.Sound b refusal

theorem run_tracked (cut : Prop) {mode : DebugMode} (hm : mode ≠ .none)
    {tr : List (Event (RangeSet ν π) (RangeCall ν π) (Option RangeReply))} {s : RangeSet ν π}
    (h : Run (rangeSets mode ν π) tr s) (hc : Meets (fun s c => cut ∨ s.Covered c) tr) :
    (∃ l, s.Tracked cut l) ∧ ∀ e ∈ tr, (∃ l, e.before.Tracked cut l) ∧ Shows e := by
  refine h.invariant (P := fun tr s => (∃ l, s.Tracked cut l) ∧
    ∀ e ∈ tr, (∃ l, e.before.Tracked cut l) ∧ Shows e) (fun s hi => ⟨⟨[], init_tracked hi⟩, by simp⟩)
    (fun tr s c o s' _ hp hok hs => ?_) hc
  obtain ⟨⟨l, ht⟩, hall⟩ := hp
  by_cases hl : s.Legal c
  · obtain ⟨reply, s₁, l', hcall, ht', hreply⟩ := call_tracked ht hm hl hok
    simp only [rangeSets, if_pos hl, hcall, Option.some.injEq, Prod.mk.injEq] at hs
    obtain ⟨rfl, rfl⟩ := hs
    refine ⟨⟨l', ht'⟩, fun e he => ?_⟩
    rcases List.mem_append.mp he with he | he
    · exact hall e he
    · rw [List.mem_singleton.mp he]
      exact ⟨⟨l, ht⟩, reply, rfl, hreply⟩
  · simp only [rangeSets, if_neg hl] at hs
    cases hs

theorem ranges_sound {mode : DebugMode} (hm : mode ≠ .none)
    {tr : List (Event (RangeSet ν π) (RangeCall ν π) (Option RangeReply))} {s : RangeSet ν π}
    (h : Run (rangeSets mode ν π) tr s) : (∃ l, s.Tracked True l) ∧ ∀ e ∈ tr, Shows e := by
  obtain ⟨ht, hall⟩ := run_tracked True hm h fun _ _ => .inl trivial
  exact ⟨ht, fun e he => (hall e he).2⟩

def emptyRanges (ν π : Type) : RangeSet ν π where
  list := none
  loTree := emptyTree ν π
  live _ := false
  lo _ := 0
  hi _ := 0
  index _ := 0
  next _ := none
  prev _ := none

theorem emptyRanges_init (mode : DebugMode) : (rangeSets mode ν π).init (emptyRanges ν π) :=
  ⟨rfl, ⟨rfl, rfl, fun _ => rfl⟩, fun _ => rfl⟩

def block (lo size : Nat) : Block := ⟨lo, size, 0, 16, 4095⟩

-- the second block covers the first one
def overlappingCalls : List (RangeCall (Fin 7) (Fin 7)) :=
  [.add (block 256 32) 0 0, .add (block 16 512) 1 1, .add (block 272 16) 2 2, .remove 256]

theorem ranges_sound_overlapping : ∃ tr s, Run (rangeSets .cheap (Fin 7) (Fin 7)) tr s ∧
    tr.map Event.action = overlappingCalls ∧
    seen tr = [some (.added none), some (.added none), some (.added (some (.overlaps 272 287 256 287))),
      some .done] ∧ (∃ l, s.Tracked True l) ∧ ∀ e ∈ tr, Shows e := by
  obtain ⟨tr, s, hr, ha, hseen⟩ := replay_run (emptyRanges_init .cheap) overlappingCalls
    (fun tr _ => seen tr = [some (.added none), some (.added none),
      some (.added (some (.overlaps 272 287 256 287))), some .done]) (by decide +kernel)
  exact ⟨tr, s, hr, ha, hseen, ranges_sound (by decide) hr⟩

theorem ranges_exact {mode : DebugMode} (hm : mode ≠ .none)
    {tr : List (Event (RangeSet ν π) (RangeCall ν π) (Option RangeReply))} {s : RangeSet ν π}
    (h : Run (rangeSets mode ν π) tr s) (hc : Meets Covered tr) :
    (∃ l, s.Tracked False l ∧ l.Pairwise (fun p q => s.hi p < s.lo q) ∧
      s.walk (l.length + 1) s.list = some l) ∧
    ∀ e ∈ tr, ∀ b z p, e.action = .add b z p → ∃ refusal, e.seen = some (.added refusal) ∧
      (refusal = none ↔ e.before.Clear b) := by
  obtain ⟨⟨l, ht⟩, hall⟩ := run_tracked False hm h fun e he => .inr (hc e he)
  refine ⟨⟨l, ht, ht.apart, ht.walk_list⟩, fun e he b z p hadd => ?_⟩
  obtain ⟨⟨l', ht'⟩, reply, hseen, hreply⟩ := hall e he
  obtain ⟨refusal, rfl, hsound⟩ := hreply b z p hadd
  have hcovered : e.before.Covered (.add b z p : RangeCall ν π) := hadd ▸ hc e he
  refine ⟨refusal, hseen, fun hr => ?_, hsound.clear⟩
  rw [hr] at hsound
  exact ht'.accepts hcovered hsound

def apartCalls : List (RangeCall (Fin 7) (Fin 7)) :=
  [.add (block 256 32) 0 0, .add (block 512 32) 1 1, .add (block 496 32) 2 2, .remove 512,
    .add (block 496 32) 2 2]

theorem ranges_exact_apart : ∃ tr s l, Run (rangeSets .cheap (Fin 7) (Fin 7)) tr s ∧
    tr.map Event.action = apartCalls ∧ s.walk (l.length + 1) s.list = some l ∧
    seen tr = [some (.added none), some (.added none), some (.added (some (.overlaps 496 527 512 543))),
      some .done, some (.added none)] := by
  obtain ⟨tr, s, hr, ha, hc, hseen⟩ := replay_run (emptyRanges_init .cheap) apartCalls
    (fun tr _ => Meets Covered tr ∧ seen tr = [some (.added none), some (.added none),
      some (.added (some (.overlaps 496 527 512 543))), some .done, some (.added none)])
    (by decide +kernel)
  obtain ⟨⟨l, -, -, hwalk⟩, -⟩ := ranges_exact (by decide) hr hc
  exact ⟨tr, s, l, hr, ha, hwalk, hseen⟩

theorem record_first {s s' : RangeSet ν π} {b : Block} {z : ν} {p : π}
    (h : s.record b z p none none = some s') :
    s'.list = some p ∧ s'.next p = none ∧ ∀ q, s'.live q = true ↔ q = p ∨ s.live q = true := by
  obtain ⟨⟨new, t⟩, -, heq⟩ := Option.bind_eq_some_iff.mp
    (show (s.loTree.treeInsert (toLong b.lo) (some p) z).bind _ = some s' from h)
  cases heq
  refine ⟨rfl, Function.update_self _ _ _, fun q => ?_⟩
  by_cases hq : q = p
  · simp [createRange, hq]
  · simp [createRange, hq]

theorem undercut_unseen {mode : DebugMode} (hm : mode ≠ .none)
    {tr : List (Event (RangeSet ν π) (RangeCall ν π) (Option RangeReply))} {s : RangeSet ν π}
    (h : Run (rangeSets mode ν π) tr s) {b : Block} {z : ν} {p : π} (hl : s.Legal (.add b z p))
    (ha : b.Aligned) (hi : b.Inside) (hbelow : ∀ q, s.live q = true → b.lo < s.lo q) :
    ∃ s', s.addRange mode b z p = some (none, s') ∧ s'.walk 2 s'.list = some [p] ∧
      ∀ q, s.live q = true → s'.live q = true := by
  obtain ⟨⟨l, ht⟩, -⟩ := run_tracked True hm h fun _ _ => .inl trivial
  have hbelow' : ∀ q ∈ l, b.lo < s.lo q := fun q hq => hbelow q ((ht.live q).mpr hq)
  have hnone : s.Tracked True ([] ++ l) := ht
  have hfind := findNearest_split hnone (by simp) hbelow'
  obtain ⟨hsize, hz, hp⟩ := hl
  have hext := hi_inside hsize hi
  obtain ⟨s', hrecord, -⟩ := record_tracked (z := z) hnone hp hz (.inl trivial) (by simp)
    hbelow' hext (by simp) (by simp)
  obtain ⟨hlist, hnext, hlive⟩ := record_first hrecord
  refine ⟨s', ?_, ?_, fun q hq => (hlive q).mpr (.inr hq)⟩
  · have hlong : toLong b.lo = b.lo := toLong_small (by omega)
    rw [addRange, if_neg (by omega), if_neg (not_not.mpr ha), if_neg (not_not.mpr hi), if_neg hm, hlong,
      hfind]
    change (s.record b z p none none).map _ = _
    rw [show s.record b z p none none = some s' from hrecord]
    rfl
  · rw [hlist, walk, deref_live ((hlive p).mpr (.inl rfl)), hnext]
    rfl

theorem undercut_unseen_overlapping : ∃ s s' : RangeSet (Fin 7) (Fin 7), s.live 0 = true ∧
    s.Overlaps (block 16 512) 0 ∧ s.addRange .cheap (block 16 512) 1 1 = some (none, s') ∧
      s'.walk 2 s'.list = some [1] := by
  obtain ⟨tr, s, hr, -, hlive, hover, hl, hbelow⟩ := replay_run (emptyRanges_init .cheap)
    (overlappingCalls.take 1) (fun _ s => s.live 0 = true ∧
      ((block 16 512).lo ≤ s.hi 0 ∧ s.lo 0 ≤ (block 16 512).hi) ∧ s.Legal (.add (block 16 512) 1 1) ∧
        ∀ q, s.live q = true → (block 16 512).lo < s.lo q) (by decide +kernel)
  obtain ⟨s', hadd, hwalk, -⟩ := undercut_unseen (by decide) hr hl (by decide) (by decide) hbelow
  exact ⟨s, s', hlive, hover, hadd, hwalk⟩

end OperatingSystems.Driver
