import OperatingSystems.Driver.RangeRuns
import OperatingSystems.Malloc.Isolation

namespace OperatingSystems.Driver
open Transition

-- a request of a trace, and the writes of `randomize_block`; `oldp` and `ptr` are `blocks[index]`
inductive Request (ν π : Type)
  | alloc (size : Nat) (index : Int) (z : ν) (p : π)
  | realloc (oldp size : Nat) (index : Int) (z : ν) (p : π)
  | free (ptr : Nat)
  | freeNull
  | write (ptr i : Nat) (v : UInt8)

inductive Verdict
  | ok
  | mallocFailed
  | reallocFailed
  | reallocNotNull
  | refused (refusal : Refusal)
  deriving DecidableEq

-- the state of `eval_mm_valid`; `stopped` once it has returned false
structure Evaluation (ν π : Type) where
  client : Malloc.Client
  ranges : RangeSet ν π
  stopped : Bool

variable {ν π : Type}

def Request.call : Request ν π → Malloc.Call
  | .alloc size _ _ _ => .malloc size
  | .realloc oldp size _ _ _ => .realloc oldp size
  | .free ptr => .free ptr
  | .freeNull => .free 0
  | .write ptr i v => .write ptr i v

def blockAt (s : Malloc.Heap) (lo size : Nat) (index : Int) : Block :=
  ⟨lo, size, index, s.mmHeapLo, s.mmHeapHi⟩

namespace Evaluation

variable [DecidableEq π] [DecidableEq ν] [Fintype ν]

-- requests are for one byte or more, `malloc` of the driver hands out free cells
def Legal (e : Evaluation ν π) (r : Request ν π) : Prop :=
  e.stopped = false ∧ e.client.Allowed r.call ∧ Malloc.Orderly e.client r.call ∧
    match r with
    | .alloc size _ z p => 0 < size ∧ e.ranges.loTree.live z = false ∧ e.ranges.live p = false
    | .realloc oldp _ _ z p => ∀ ranges ∈ e.ranges.removeRange oldp,
      ranges.loTree.live z = false ∧ ranges.live p = false
    | _ => True

instance (e : Evaluation ν π) (r : Request ν π) : Decidable (e.Legal r) := by
  cases r <;> unfold Legal <;> infer_instance

def track (mode : DebugMode) (ranges : RangeSet ν π) (client : Malloc.Client) (lo size : Nat)
    (index : Int) (z : ν) (p : π) : Option (Verdict × Evaluation ν π) :=
  (ranges.addRange mode (blockAt client.heap lo size index) z p).map fun (refusal, ranges) =>
    match refusal with
    | none => (.ok, ⟨client, ranges, false⟩)
    | some refusal => (.refused refusal, ⟨client, ranges, true⟩)

-- what follows a call of `mm_realloc`
def reallocated (mode : DebugMode) (e : Evaluation ν π) (client : Malloc.Client) (newp oldp size : Nat)
    (index : Int) (z : ν) (p : π) : Option (Verdict × Evaluation ν π) :=
  if newp = 0 ∧ size ≠ 0 then some (.reallocFailed, ⟨client, e.ranges, true⟩)
  else if newp ≠ 0 ∧ size = 0 then some (.reallocNotNull, ⟨client, e.ranges, true⟩)
  else do
    let ranges ← e.ranges.removeRange oldp
    if 0 < size then track mode ranges client newp size index z p
    else some (.ok, ⟨client, ranges, false⟩)

def request (mode : DebugMode) (e : Evaluation ν π) (r : Request ν π) :
    Option (Verdict × Evaluation ν π) := do
  let (newp, client) ← e.client.step r.call
  match r with
  | .alloc size index z p =>
    if newp = 0 then some (.mallocFailed, ⟨client, e.ranges, true⟩)
    else track mode e.ranges client newp size index z p
  | .realloc oldp size index z p => e.reallocated mode client newp oldp size index z p
  | .free ptr => (e.ranges.removeRange ptr).map fun ranges => (.ok, ⟨client, ranges, false⟩)
  | .freeNull => some (.ok, ⟨client, e.ranges, false⟩)
  | .write _ _ _ => some (.ok, ⟨client, e.ranges, false⟩)

end Evaluation

def Granted (ranges : RangeSet ν π) (live : List Malloc.Grant) : Prop :=
  ∀ q, ranges.live q = true → ∃ g ∈ live, 0 < g.size ∧ ranges.lo q = g.ptr ∧
    ranges.hi q = g.ptr + g.size - 1

theorem Granted.released {ranges ranges' : RangeSet ν π} {live : List Malloc.Grant} {ptr : Nat}
    (h : Granted ranges live) (hptr : ptr < 2 ^ 63) (hs : ranges.Shrunk ranges' (toLong ptr)) :
    Granted ranges' (Malloc.release live ptr) := fun q hq => by
  obtain ⟨hlive, hlo, hhi, hne⟩ := hs q hq
  obtain ⟨g, hg, hsize, hglo, hghi⟩ := h q hlive
  rw [toLong_small hptr, hglo] at hne
  refine ⟨g, List.mem_filter.mpr ⟨hg, decide_eq_true ?_⟩, hsize, hlo.trans hglo, hhi.trans hghi⟩
  omega

theorem Granted.recorded {ranges : RangeSet ν π} {live : List Malloc.Grant} (ptr i : Nat) (v : UInt8)
    (h : Granted ranges live) : Granted ranges (live.map (Malloc.Grant.record ptr i v)) := fun q hq => by
  obtain ⟨g, hg, hrest⟩ := h q hq
  have hsame : (g.record ptr i v).ptr = g.ptr ∧ (g.record ptr i v).size = g.size := by
    rw [Malloc.Grant.record]
    split <;> exact ⟨rfl, rfl⟩
  refine ⟨g.record ptr i v, List.mem_map_of_mem hg, ?_⟩
  rw [hsame.1, hsame.2]
  exact hrest

section
variable [DecidableEq π] [DecidableEq ν] [Fintype ν]

structure Bookkept (e : Evaluation ν π) : Prop where
  sound : Malloc.Sound e.client
  tracked : ∃ l, e.ranges.Tracked True l
  granted : Granted e.ranges e.client.live

theorem track_accepts {mode : DebugMode} {ranges : RangeSet ν π} {client : Malloc.Client} {lo size : Nat}
    {index : Int} {z : ν} {p : π} {l : List π} {old : List Malloc.Grant} {st : Nat → Option UInt8}
    (hm : mode ≠ .none) (ht : ranges.Tracked True l) (hs : Malloc.Sound client)
    (hlive : client.live = ⟨lo, size, st⟩ :: old) (hg : Granted ranges old) (hsize : 0 < size)
    (hz : ranges.loTree.live z = false) (hp : ranges.live p = false) : ∃ ranges',
      Evaluation.track mode ranges client lo size index z p = some (.ok, ⟨client, ranges', false⟩) ∧
        Bookkept ⟨client, ranges', false⟩ := by
  have hisolated := hs.isolated
  obtain ⟨bs, fl, hw, -⟩ := id hs
  have hbrk := hw.region.brk.trans hw.region.bound
  have hmem : (⟨lo, size, st⟩ : Malloc.Grant) ∈ client.live := by simp [hlive]
  obtain ⟨hlow, hhigh⟩ := hisolated.inside _ hmem
  have hbound : client.heap.mmHeapHi < 2 ^ 63 := by
    simp only [Malloc.Heap.mmHeapHi]
    omega
  have haligned := hisolated.aligned _ hmem
  have hdisjoint := hisolated.disjoint
  rw [hlive] at hdisjoint
  have hapart := (List.pairwise_cons.mp hdisjoint).1
  dsimp only at hlow hhigh haligned hapart
  have hhi : (blockAt client.heap lo size index).hi = lo + size - 1 := by
    have hfit : lo + size - 1 < 2 ^ 64 := by omega
    exact Nat.mod_eq_of_lt hfit
  have hclear : ranges.Clear (blockAt client.heap lo size index) := by
    refine ⟨haligned, ⟨hlow, ?_, ?_, ?_⟩, fun q hq hoverlap => ?_⟩
    · change lo ≤ client.heap.mmHeapHi
      omega
    · rw [hhi]
      change client.heap.mmHeapLo ≤ _
      omega
    · rw [hhi]
      change _ ≤ client.heap.mmHeapHi
      omega
    · obtain ⟨g, hgmem, hgsize, hglo, hghi⟩ := hg q hq
      obtain ⟨h₁, h₂⟩ := hoverlap
      rw [hghi] at h₁
      rw [hglo, hhi] at h₂
      change lo ≤ _ at h₁
      have hgapart := hapart g hgmem
      omega
  have hlegal : ranges.Legal (.add (blockAt client.heap lo size index) z p) :=
    ⟨⟨hsize, by change size ≤ _; omega, hbound⟩, hz, hp⟩
  obtain ⟨refusal, ranges', l', hadd, hsound, ht', hgrown⟩ :=
    RangeSet.addRange_tracked ht hm hlegal (.inl trivial)
  obtain rfl := hsound.clear hclear
  refine ⟨ranges', by rw [Evaluation.track, hadd]; rfl, hs, ⟨l', ht'⟩,
    fun q hq => ?_⟩
  rcases hgrown q hq with ⟨hlo, hhi'⟩ | ⟨hold, hlo, hhi'⟩
  · exact ⟨_, hmem, hsize, hlo, hhi'.trans hhi⟩
  · obtain ⟨g, hgmem, hgsize, hglo, hghi⟩ := hg q hold
    change g ∈ old at hgmem
    exact ⟨g, by simp [hlive, hgmem], hgsize, hlo.trans hglo, hhi'.trans hghi⟩

theorem held_small {c : Malloc.Client} {ptr : Nat} (h : Malloc.Sound c)
    (hp : ptr = 0 ∨ Malloc.Holds c.live ptr) : ptr < 2 ^ 63 := by
  obtain ⟨bs, fl, hw, hledger⟩ := h
  have hbrk := hw.region.brk.trans hw.region.bound
  rcases hp with rfl | ⟨g, hg, rfl⟩
  · decide
  · obtain ⟨x, b, hb⟩ := hledger.backed g hg
    have hbounds := hw.bounds hb.inUse.1
    have hlarge := b.large
    have hptr := hb.ptr
    omega

theorem realloc_returns {s : Malloc.Heap} {bs : List Malloc.Block} {fl : List Nat}
    (hw : Malloc.WellFormed s bs fl) (oldp size : Nat) :
    ∃ r s', s.realloc oldp size = some (r, s') ∧ (size = 0 → r = 0) ∧
      (r ≠ 0 → ¬ s.refuses size) := by
  obtain ⟨r, s', hmalloc, -⟩ := @Malloc.malloc_served _ _ _ size hw
  have hzero : size = 0 → r = 0 := fun h => by
    rw [h, Malloc.Heap.malloc, if_pos rfl] at hmalloc
    cases hmalloc
    rfl
  have hfits : r ≠ 0 → ¬ s.refuses size := fun hr hrefused => by
    rw [Malloc.refused_malloc hrefused, Option.some.injEq, Prod.mk.injEq] at hmalloc
    exact hr hmalloc.1.symm
  by_cases hold : oldp = 0
  · exact ⟨r, s', by rw [Malloc.Heap.realloc, if_pos hold, hmalloc], hzero, hfits⟩
  · by_cases hsize : size = 0
    · exact ⟨0, s.free oldp, by rw [Malloc.Heap.realloc, if_neg hold, if_pos hsize], fun _ => rfl,
        fun hr => absurd rfl hr⟩
    · exact ⟨r, _, by rw [Malloc.Heap.realloc, if_neg hold, if_neg hsize, hmalloc]; rfl, hzero,
        hfits⟩

def Verdict.Fine : Verdict → Prop
  | .ok | .mallocFailed | .reallocFailed => True
  | _ => False

theorem reallocated_kept {mode : DebugMode} {e : Evaluation ν π} {client : Malloc.Client}
    {newp oldp size : Nat} {index : Int} {z : ν} {p : π} (hm : mode ≠ .none) (h : Bookkept e)
    (hold : oldp < 2 ^ 63) (hzero : size = 0 → newp = 0)
    (hs : newp ≠ 0 ∨ size = 0 → Malloc.Sound client ∧
      client.live = Malloc.obtain (Malloc.release e.client.live oldp) newp size)
    (hfresh : ∀ ranges ∈ e.ranges.removeRange oldp,
      ranges.loTree.live z = false ∧ ranges.live p = false) :
    ∃ v e', e.reallocated mode client newp oldp size index z p = some (v, e') ∧ v.Fine ∧
      (e'.stopped = false → Bookkept e') := by
  obtain ⟨-, ⟨l, ht⟩, hgranted⟩ := h
  obtain ⟨ranges, l', hremove, ht', hshrunk⟩ := RangeSet.removeRange_tracked ht oldp
  have hreleased := hgranted.released hold hshrunk
  obtain ⟨hz, hp⟩ := hfresh ranges hremove
  rw [Evaluation.reallocated, hremove, Option.bind_eq_bind, Option.bind_some]
  by_cases hsize : size = 0
  · have hnull := hzero hsize
    obtain ⟨hsound, hlive⟩ := hs (.inr hsize)
    rw [if_neg fun h => h.2 hsize, if_neg fun h => h.1 hnull, if_neg (by omega)]
    refine ⟨.ok, _, rfl, trivial, fun _ => ⟨hsound, ⟨l', ht'⟩, ?_⟩⟩
    rw [Malloc.obtain, if_pos hnull] at hlive
    rw [hlive]
    exact hreleased
  · by_cases hnull : newp = 0
    · rw [if_pos ⟨hnull, hsize⟩]
      exact ⟨.reallocFailed, _, rfl, trivial, fun hstopped => by cases hstopped⟩
    · obtain ⟨hsound, hlive⟩ := hs (.inl hnull)
      rw [Malloc.obtain, if_neg hnull] at hlive
      obtain ⟨ranges', htrack, hbook⟩ := track_accepts (p := p) (z := z) hm ht' hsound hlive hreleased
        (Nat.pos_of_ne_zero hsize) hz hp
      rw [if_neg fun h => hnull h.1, if_neg fun h => hsize h.2, if_pos (Nat.pos_of_ne_zero hsize)]
      exact ⟨.ok, _, htrack, trivial, fun _ => hbook⟩

theorem request_kept {mode : DebugMode} {e : Evaluation ν π} {r : Request ν π} (hm : mode ≠ .none)
    (h : Bookkept e) (hl : e.Legal r) : ∃ v e', e.request mode r = some (v, e') ∧ v.Fine ∧
      (e'.stopped = false → Bookkept e') := by
  obtain ⟨hsound, ⟨l, ht⟩, hgranted⟩ := id h
  obtain ⟨-, hallowed, horderly, hfresh⟩ := hl
  obtain ⟨bs, fl, hw, hledger⟩ := id hsound
  have hkept {newp : Nat} {client : Malloc.Client} (hf : Malloc.Fulfilled e.client r.call)
      (hs : e.client.step r.call = some (newp, client)) : Malloc.Sound client :=
    (Malloc.step_spec hsound hf hs).1 horderly
  cases r with
  | alloc size index z p =>
    obtain ⟨hsize, hz, hp⟩ := hfresh
    change e.client.Allowed (.malloc size) at hallowed
    obtain ⟨newp, s', hmalloc, -⟩ := @Malloc.malloc_served _ _ _ size hw
    have hstep : e.client.step (.malloc size) =
        some (newp, ⟨s', Malloc.obtain e.client.live newp size⟩) := by
      rw [Malloc.Client.step, if_pos hallowed, Malloc.Client.perform, hmalloc]
      rfl
    by_cases hnull : newp = 0
    · refine ⟨.mallocFailed, ⟨⟨s', Malloc.obtain e.client.live newp size⟩, e.ranges, true⟩, ?_, trivial,
        fun hstopped => by cases hstopped⟩
      rw [Evaluation.request, Request.call, hstep, Option.bind_eq_bind, Option.bind_some]
      exact if_pos hnull
    · obtain ⟨ranges', htrack, hbook⟩ := track_accepts (p := p) hm ht (hkept trivial hstep)
        (show Malloc.obtain e.client.live newp size = _ from if_neg hnull) hgranted hsize hz hp
      refine ⟨.ok, _, ?_, trivial, fun _ => hbook⟩
      rw [Evaluation.request, Request.call, hstep, Option.bind_eq_bind, Option.bind_some]
      exact (if_neg hnull).trans htrack
  | realloc oldp size index z p =>
    change e.client.Allowed (.realloc oldp size) at hallowed
    obtain ⟨newp, s', hrealloc, hzero, hfits⟩ := realloc_returns hw oldp size
    have hstep : e.client.step (.realloc oldp size) =
        some (newp, ⟨s', Malloc.exchange e.client.live oldp newp size⟩) := by
      rw [Malloc.Client.step, if_pos hallowed, Malloc.Client.perform, hrealloc]
      rfl
    -- after a failure the driver stops, and its client is of no more interest
    have hmoved : newp ≠ 0 ∨ size = 0 →
        Malloc.Sound ⟨s', Malloc.exchange e.client.live oldp newp size⟩ ∧
          Malloc.exchange e.client.live oldp newp size =
            Malloc.obtain (Malloc.release e.client.live oldp) newp size := fun hserved =>
      ⟨hkept (.inr (hserved.symm.imp_right hfits)) hstep, Malloc.exchange_moved _ _ hserved⟩
    obtain ⟨v, e', hrequest, hfine, hbook⟩ := reallocated_kept (p := p) hm h
      (held_small hsound hallowed.2) hzero hmoved hfresh
    refine ⟨v, e', ?_, hfine, hbook⟩
    rw [Evaluation.request, Request.call, hstep, Option.bind_eq_bind, Option.bind_some]
    exact hrequest
  | free ptr =>
    obtain ⟨ranges', l', hremove, ht', hshrunk⟩ := RangeSet.removeRange_tracked ht ptr
    have hstep : e.client.step (.free ptr) =
        some (0, ⟨e.client.heap.free ptr, Malloc.release e.client.live ptr⟩) := if_pos hallowed
    refine ⟨.ok, ⟨⟨e.client.heap.free ptr, Malloc.release e.client.live ptr⟩, ranges', false⟩, ?_,
      trivial, fun _ => ⟨hkept trivial hstep, ⟨l', ht'⟩, hgranted.released (held_small hsound hallowed) hshrunk⟩⟩
    rw [Evaluation.request, Request.call, hstep, Option.bind_eq_bind, Option.bind_some]
    change (e.ranges.removeRange ptr).map _ = _
    rw [hremove]
    rfl
  | freeNull =>
    have hstep : e.client.step (.free 0) =
        some (0, ⟨e.client.heap.free 0, Malloc.release e.client.live 0⟩) := if_pos hallowed
    refine ⟨.ok, ⟨_, e.ranges, false⟩, ?_, trivial, fun _ => ⟨hkept trivial hstep, ⟨l, ht⟩, ?_⟩⟩
    · rw [Evaluation.request, Request.call, hstep, Option.bind_eq_bind, Option.bind_some]
    · rw [Malloc.release_zero hledger]
      exact hgranted
  | write ptr i v =>
    have hstep : e.client.step (.write ptr i v) = some (0,
        ⟨{ e.client.heap with mem := Function.update e.client.heap.mem (ptr + i) v },
          e.client.live.map (Malloc.Grant.record ptr i v)⟩) := if_pos hallowed
    refine ⟨.ok, ⟨_, e.ranges, false⟩, ?_, trivial, fun _ => ⟨hkept trivial hstep, ⟨l, ht⟩,
      hgranted.recorded ptr i v⟩⟩
    rw [Evaluation.request, Request.call, hstep, Option.bind_eq_bind, Option.bind_some]

end

-- a request that does not return is seen as `none`
def evaluations (mode : DebugMode) (ν π : Type) [DecidableEq π] [DecidableEq ν] [Fintype ν] :
    System (Evaluation ν π) (Request ν π) (Option Verdict) where
  init e := Malloc.Started e.client ∧ (rangeSets mode ν π).init e.ranges ∧ e.stopped = false
  step e r :=
    if e.Legal r then
      match e.request mode r with
      | some (v, e') => some (some v, e')
      | none => some (none, e)
    else none

section
variable [DecidableEq π] [DecidableEq ν] [Fintype ν]

theorem blocks_accepted {mode : DebugMode} (hm : mode ≠ .none)
    {tr : List (Event (Evaluation ν π) (Request ν π) (Option Verdict))} {e : Evaluation ν π}
    (h : Run (evaluations mode ν π) tr e) :
    (∀ o ∈ seen tr, ∃ v, o = some v ∧ v.Fine) ∧ (e.stopped = false → Bookkept e) := by
  refine h.along (P := fun tr e => (∀ o ∈ seen tr, ∃ v, o = some v ∧ v.Fine) ∧
    (e.stopped = false → Bookkept e)) (fun e hi => ?_) fun tr e r o e' _ hp hs => ?_
  · obtain ⟨hclient, hranges, -⟩ := hi
    refine ⟨by simp, fun _ => ⟨Malloc.started_sound hclient, ⟨[], init_tracked hranges⟩, fun q hq => ?_⟩⟩
    rw [hranges.2.2 q] at hq
    cases hq
  · obtain ⟨hall, hbook⟩ := hp
    by_cases hl : e.Legal r
    · obtain ⟨v, e₁, hrequest, hfine, hbook'⟩ := request_kept hm (hbook hl.1) hl
      simp only [evaluations, if_pos hl, hrequest, Option.some.injEq, Prod.mk.injEq] at hs
      obtain ⟨rfl, rfl⟩ := hs
      refine ⟨fun o ho => ?_, hbook'⟩
      rw [seen_append, List.mem_append] at ho
      rcases ho with ho | ho
      · exact hall o ho
      · exact ⟨v, List.mem_singleton.mp ho, hfine⟩
    · simp only [evaluations, if_neg hl] at hs
      cases hs

end

def firstEvaluation : Evaluation (Fin 8) (Fin 8) := ⟨Malloc.firstClient, emptyRanges _ _, false⟩

def mixedRequests : List (Request (Fin 8) (Fin 8)) :=
  [.alloc 24 0 0 0, .write 8176 3 255, .alloc 100 1 1 1, .realloc 8176 200 0 0 0, .free 8064, .freeNull]

theorem blocks_accepted_mixed : ∃ tr e, Run (evaluations .cheap (Fin 8) (Fin 8)) tr e ∧
    tr.map Event.action = mixedRequests ∧ (∀ o ∈ seen tr, ∃ v, o = some v ∧ v.Fine) ∧
      e.ranges.loTree.nodeCount = 1 ∧ Bookkept e := by
  obtain ⟨tr, e, hr, ha, hstopped, hcount⟩ := @replay_run _ _ _ (evaluations .cheap (Fin 8) (Fin 8))
    firstEvaluation ⟨Malloc.firstClient_started, emptyRanges_init .cheap, rfl⟩ mixedRequests
    (fun _ e => e.stopped = false ∧ e.ranges.loTree.nodeCount = 1) _ (by decide +kernel)
  obtain ⟨hall, hbook⟩ := blocks_accepted (by decide) hr
  exact ⟨tr, e, hr, ha, hall, hcount, hbook hstopped⟩

end OperatingSystems.Driver
