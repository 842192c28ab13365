import OperatingSystems.Stress.RouterTesting

namespace OperatingSystems.Stress
open Concurrency

variable {n : Nat} {topology : Topology n} {i j k : Fin n} {m m' : Memory n} {r r' : Router n}
  {queue queue' : Chan n → List (Message n)} {closed closed' : Chan n → Bool}
  {router : Fin n → Router n} {l l' : Main n} {s : Stage n}

structure Testing (queue : Chan n → List (Message n)) (closed : Chan n → Bool) (m : Memory n)
    (router : Fin n → Router n) (l : Main n) : Prop where
  isOpen : ∀ c, closed c = false
  unfreed : ∀ i, m.freed i = false
  running : ∀ i, (router i).pc ≠ .exit ∧ (router i).pc ≠ .exited ∧ (router i).pc ≠ .failed
  tested : Tested queue router l
  index : ∀ i p index, l.pc = .oldEpoch i p index → index = p.owner
  epoch : ∀ i p e, l.pc = .newEpoch i p e → ∀ c₁,
    (router p.owner).replies[l.rounds - 1]? = some (c₁, true) → Fin.ofNat 4 e = slotOf c₁

def Topology.Mutual (topology : Topology n) : Prop :=
  ∀ i j, topology.link i j = infDistance → topology.link j i = infDistance

theorem no_fault (hsym : topology.Mutual) (hs : ∀ i, Stated topology i m (router i))
    (hp : Posted topology queue router) (isOpen : ∀ c, closed c = false)
    (unfreed : ∀ i, m.freed i = false) : ¬ RouterFault topology i closed m (router i) := by
  intro fault
  cases fault with
  | done pc shut => simp [isOpen] at shut
  | node j pc shut => simp [isOpen] at shut
  | completed pc shut => simp [isOpen] at shut
  | freed p hand freed => simp [unfreed] at freed
  | infinite p pc infinite =>
    have hlinked := hp.held i p (by rw [pc]; rfl)
    rw [(hs p.owner).src p.slot] at infinite
    exact hlinked.2 (hsym _ _ infinite)

theorem step_running (step : RouterStep topology i queue closed m r queue' m' r')
    (isOpen : closed .done = false) (exit : r.pc ≠ .exit)
    (sound : ¬ RouterFault topology i closed m r) :
    (r'.pc ≠ .exit ∧ r'.pc ≠ .exited ∧ r'.pc ≠ .failed) ∧ m'.freed = m.freed := by
  have settled (r₁ : Router n) : r₁.settle.pc ≠ .exit ∧ r₁.settle.pc ≠ .exited ∧
      r₁.settle.pc ≠ .failed := by
    rcases settle_pc r₁ with h | h <;> simp [h]
  have relaxed (r₁ : Router n) (p : VectorPtr n) (x : Nat) (k : Fin n) :
      (r₁.relaxed p x k).pc ≠ .exit ∧ (r₁.relaxed p x k).pc ≠ .exited ∧
        (r₁.relaxed p x k).pc ≠ .failed := by
    rcases relaxed_cases r₁ p x k with ⟨k', -, h⟩ | ⟨-, h⟩
    · simp [h]
    · rw [h]
      exact settled r₁
  cases step with
  | send x j pc two_le count channel empty => exact ⟨settled _, rfl⟩
  | report pc empty => exact ⟨settled _, rfl⟩
  | vector | null | source | load | cycle => exact ⟨by simp, rfl⟩
  | improve p x k y pc less => exact ⟨relaxed _ p x k, rfl⟩
  | keep p x k y pc least => exact ⟨relaxed _ p x k, rfl⟩
  | copy k pc =>
    refine ⟨?_, rfl⟩
    rcases copied_cases topology i r k with ⟨k', -, h⟩ | ⟨-, h⟩ <;> simp [h, Router.reset]
  | leave pc shut same =>
    rw [isOpen] at shut
    cases shut
  | free pc => exact absurd pc exit
  | fail fault => exact absurd fault sound

theorem step_testing (h : Testing queue closed m router l) (hsym : topology.Mutual)
    (hs : ∀ i, Stated topology i m (router i)) (hp : Posted topology queue router)
    (step : RouterStep topology i queue closed m (router i) queue' m' r') :
    Testing queue' closed m' (Function.update router i r') l := by
  obtain ⟨hrunning, hfreed⟩ := step_running step (h.isOpen _) (h.running i).1
    (no_fault hsym hs hp h.isOpen h.unfreed)
  obtain ⟨s, hstage, hround, hcalm⟩ := h.tested
  refine ⟨h.isOpen, by rw [hfreed]; exact h.unfreed, fun j => ?_,
    ⟨s, hstage, step_round hround (hs i) step hrunning.2.2, fun hsecond => ?_⟩, h.index,
    fun i' p e hpc c₁ hc₁ => ?_⟩
  · by_cases hj : j = i
    · subst hj
      rw [Function.update_self]
      exact hrunning
    · rw [Function.update_of_ne hj]
      exact h.running j
  · rcases hcalm hsecond with hcalm | htainted
    · exact step_calm hround hsecond hcalm (hs i) step hrunning.2.2
    · exact .inr (step_tainted htainted step)
  · have hsecond : s.second = true := by
      rw [hpc] at hstage
      cases hstage
      rfl
    obtain ⟨-, hall⟩ := hround.first hsecond
    obtain ⟨c, hc, -⟩ := hall p.owner
    obtain rfl : c = c₁ := by simpa using (step_prior step p.owner hc).symm.trans hc₁
    exact h.epoch i' p e hpc c hc

theorem calm_queue (hq : ∀ j p, queue' (.node j) = [some p] ↔ queue (.node j) = [some p])
    (h : Calm queue router l.rounds ∨ Tainted router l.rounds) :
    Calm queue' router l.rounds ∨ Tainted router l.rounds := by
  rcases h with h | h
  · refine .inl ⟨h.unmoved, fun j hj => ?_⟩
    obtain ⟨hhand, hchanged, hnone⟩ := h.answered j hj
    exact ⟨hhand, hchanged, fun p hp => hnone p ((hq j p).mp hp)⟩
  · exact .inr h

theorem testing_of (h : Testing queue closed m router l) (tested : Tested queue' router l')
    (pc : ∃ second i, l'.pc = .gather second i ∨ l'.pc = .flush second i) :
    Testing queue' closed m router l' := by
  obtain ⟨second, i, hpc | hpc⟩ := pc
  · exact ⟨h.isOpen, h.unfreed, h.running, tested, by simp [hpc], by simp [hpc]⟩
  · exact ⟨h.isOpen, h.unfreed, h.running, tested, by simp [hpc], by simp [hpc]⟩

theorem flush_round {second : Bool} (h : Round queue router l ⟨second, fun j => j < i, 0, none⟩)
    (empty : queue (.node i) = []) (asked : Fin n → Bool)
    (hasked : ∀ j, asked j = decide ((j : Nat) < i + 1)) :
    Round (Function.update queue (.node i) [none]) router l ⟨second, asked, 0, none⟩ := by
  have hcompleted : Function.update queue (.node i) [none] .completed = queue .completed :=
    Function.update_of_ne (by simp) _ _
  refine ⟨fun j => ?_, h.old, ?_, ?_, ?_, ?_, h.first, ?_⟩
  · have htoken := h.token j
    simp only [Router.nulls, hasked] at htoken ⊢
    by_cases hj : j = i
    · subst hj
      simp [empty] at htoken ⊢
      omega
    · have hlt : (j : Nat) < i + 1 ↔ j < i := by
        have hne : (j : Nat) ≠ i := fun he => hj (Fin.ext he)
        rw [Fin.lt_def]
        omega
      simpa [hj, hlt] using htoken
  · rw [hcompleted]
    exact h.counted
  · rw [hcompleted]
    exact h.genuine
  · rw [hcompleted]
    exact h.refused
  · rw [hcompleted]
    exact h.noted
  · rw [hcompleted]
    exact h.compared

theorem flushed_round {second : Bool}
    (h : Round queue router l ⟨second, fun j => j < i, 0, none⟩) (empty : queue (.node i) = []) :
    (∀ i' : Fin n, (i' : Nat) = i + 1 →
      Round (Function.update queue (.node i) [none]) router l ⟨second, fun j => j < i', 0, none⟩) ∧
    ((i : Nat) + 1 = n →
      Round (Function.update queue (.node i) [none]) router l ⟨second, fun _ => true, 0, none⟩) := by
  refine ⟨fun i' hi' => flush_round h empty _ fun j => by simp [Fin.lt_def, hi'],
    fun hn => flush_round h empty _ fun j => ?_⟩
  have := j.isLt
  simp
  omega

theorem taken_round {second : Bool} {k : Nat} {p : VectorPtr n}
    (h : Round queue router l ⟨second, fun _ => true, k, none⟩) (head : queue .completed = [some p]) :
    Round (Function.update queue .completed []) router l ⟨second, fun _ => true, k + 1, some p⟩ := by
  have hcounted := h.counted
  rw [head] at hcounted
  refine ⟨fun j => ?_, h.old, by simpa using hcounted, fun q hq => ?_, fun j c hc => ?_,
    fun hsecond j c hc => ?_, h.first, fun hsecond hvalid j c c₁ hc hc₁ => ?_⟩
  · rw [Router.nulls, Function.update_of_ne (by simp)]
    exact h.token j
  · simp only [Function.update_self, List.ne_cons_self, false_or] at hq
    exact h.genuine q (.inl (by rw [head, hq]))
  · rcases h.refused j c hc with hq | hv
    · rw [head] at hq
      cases hq
    · exact .inr hv
  · rcases h.noted hsecond j c hc with hq | hq | hn
    · rw [head] at hq
      exact .inr (.inl (by simpa using hq))
    · cases hq
    · exact .inr (.inr hn)
  · rcases h.compared hsecond hvalid j c c₁ hc hc₁ with hq | hq | hn
    · rw [head] at hq
      exact .inr (.inl (by simpa using hq))
    · cases hq
    · exact .inr (.inr hn)

theorem refused_round {second : Bool} {k : Nat}
    (h : Round queue router l ⟨second, fun _ => true, k, none⟩) (head : queue .completed = [none]) :
    Round (Function.update queue .completed []) router { l with valid := false }
      ⟨second, fun _ => true, k + 1, none⟩ := by
  have hcounted := h.counted
  rw [head] at hcounted
  refine ⟨fun j => ?_, h.old, by simpa using hcounted, by simp, fun j c hc => .inr rfl,
    fun hsecond j c hc => ?_, h.first, by simp⟩
  · rw [Router.nulls, Function.update_of_ne (by simp)]
    exact h.token j
  · rcases h.noted hsecond j c hc with hq | hq | hn
    · rw [head] at hq
      cases hq
    · cases hq
    · exact .inr (.inr hn)

theorem noted_round {k : Nat} {p : VectorPtr n}
    (h : Round queue router l ⟨false, fun _ => true, k, some p⟩) :
    Round queue router { l with completed := Function.update l.completed p.owner (some p) }
      ⟨false, fun _ => true, k, none⟩ := by
  refine ⟨h.token, h.old, h.counted, fun q hq => ?_, h.refused, fun _ j c hc => ?_, by simp, by simp⟩
  · exact h.genuine q (.inl (by simpa using hq))
  · rcases h.noted rfl j c hc with hq | hq | hn
    · exact .inl hq
    · cases hq
      exact .inr (.inr (Function.update_self _ _ _))
    · right
      right
      dsimp only
      by_cases hj : j = p.owner
      · subst hj
        obtain ⟨c', hc', hslot⟩ := h.genuine p (.inr rfl)
        cases hc.symm.trans hc'
        rw [Function.update_self, ← hslot]
      · rw [Function.update_of_ne hj]
        exact hn

-- `same` is the comparison of the two epochs
theorem compared_round {k : Nat} {p : VectorPtr n} {same : Bool}
    (h : Round queue router l ⟨true, fun _ => true, k, some p⟩)
    (hsame : same = true → ∀ c₁, (router p.owner).replies[l.rounds - 1]? = some (c₁, true) →
      slotOf c₁ = p.slot) :
    Round queue router { l with valid := l.valid && same } ⟨true, fun _ => true, k, none⟩ := by
  refine ⟨h.token, h.old, h.counted, fun q hq => ?_, fun j c hc => ?_, by simp, h.first,
    fun _ hvalid j c c₁ hc hc₁ => ?_⟩
  · exact h.genuine q (.inl (by simpa using hq))
  · rcases h.refused j c hc with hq | hv
    · exact .inl hq
    · exact .inr (by simp [hv])
  · obtain ⟨hv, he⟩ : l.valid = true ∧ same = true := by simpa using hvalid
    rcases h.compared rfl hv j c c₁ hc hc₁ with hq | hq | hslot
    · exact .inl hq
    · cases hq
      exact .inr (.inr (hsame he c₁ hc₁))
    · exact .inr (.inr hslot)

theorem no_main_fault {solution : Matrix n} (h : Testing queue closed m router l) :
    ¬ MainFault solution closed m l := by
  obtain ⟨s, hstage, hround, -⟩ := h.tested
  intro fault
  cases fault with
  | flush second i pc shut => simp [h.isOpen] at shut
  | gather second i pc shut => simp [h.isOpen] at shut
  | closeDone pc shut => simp [h.isOpen] at shut
  | closeCompleted pc shut => simp [h.isOpen] at shut
  | closeNode i pc shut => simp [h.isOpen] at shut
  | source second i p pc freed => simp [h.unfreed] at freed
  | newEpoch i p epoch pc freed => simp [h.unfreed] at freed
  | oldEpoch i p index pc freed =>
    rw [pc] at hstage
    cases hstage
    obtain ⟨c, -, hcompleted⟩ := (hround.first rfl).2 index
    have hfreed := freed _ hcompleted
    simp [h.unfreed] at hfreed
  | check src dst pc wrong =>
    rw [pc] at hstage
    cases hstage

variable [NeZero n]

theorem gathered_testing {second : Bool} {l₁ : Main n} (h : Testing queue closed m router l)
    (hs : ∀ i, Stated topology i m (router i))
    (hr : Round queue' router l₁ ⟨second, fun _ => true, i + 1, none⟩)
    (hc : second = true → Calm queue' router l₁.rounds ∨ Tainted router l₁.rounds) :
    Testing queue' closed m router (l₁.gathered second i) ∨
      ((l₁.gathered second i).pc = .check 0 0 ∧ Accepted queue' router (l₁.gathered second i)) := by
  have answered (j : Fin n) (a : Nat × Bool) (ha : a ∈ (router j).replies) :
      a.1 ≤ (router j).cycles := ((hs j).answered a ha).1
  rcases gathered_tested hr hc answered with ⟨htested, second', i', hpc⟩ | ⟨hl, ha⟩
  · exact .inl (testing_of h htested ⟨second', i', hpc⟩)
  · rw [hl]
    exact .inr ⟨rfl, ⟨ha.answers, ha.length, ha.rounds, ha.empty, ha.quiet, ha.calm⟩⟩

theorem main_testing {solution : Matrix n} (h : Testing queue closed m router l)
    (hs : ∀ i, Stated topology i m (router i))
    (step : MainStep solution queue closed m l queue' closed' l') :
    Testing queue' closed' m router l' ∨
      (closed' = closed ∧ l'.pc = .check 0 0 ∧ Accepted queue' router l') := by
  obtain ⟨s, hstage, hround, hcalm⟩ := h.tested
  have hqueue := main_queued step
  have hcalm' (hsecond : s.second = true) := calm_queue hqueue (hcalm hsecond)
  have hsrc (p : VectorPtr n) : (m.vector p).src = p.owner := (hs p.owner).src p.slot
  have hepoch (p : VectorPtr n) : Fin.ofNat 4 (m.vector p).epoch = p.slot :=
    (hs p.owner).epoch p.slot
  cases step with
  | flush second i pc empty =>
    rw [pc] at hstage
    cases hstage
    obtain ⟨hnext, hlast⟩ := flushed_round hround empty
    unfold Main.flushed
    rcases after_cases i with ⟨i', hafter, hi'⟩ | ⟨hafter, hn⟩
    · rw [hafter]
      exact .inl (testing_of h ⟨_, rfl, (hnext i' hi').goes _, hcalm'⟩ ⟨second, i', .inr rfl⟩)
    · rw [hafter]
      have hround' := (hlast hn).goes (.gather second 0)
      exact .inl (testing_of h ⟨_, rfl, by simpa using hround', hcalm'⟩ ⟨second, 0, .inl rfl⟩)
  | gather second i data pc head =>
    rw [pc] at hstage
    cases hstage
    cases data with
    | some p =>
      exact .inl ⟨h.isOpen, h.unfreed, h.running, ⟨_, rfl, (taken_round hround head).goes _, hcalm'⟩,
        by simp [Main.received], by simp [Main.received]⟩
    | none =>
      exact (gathered_testing h hs (refused_round hround head) hcalm').imp_right fun ha => ⟨rfl, ha⟩
  | note i p pc alive =>
    rw [pc] at hstage
    cases hstage
    rw [hsrc]
    exact (gathered_testing h hs (noted_round hround) (by simp)).imp_right fun ha => ⟨rfl, ha⟩
  | index i p pc alive =>
    rw [pc] at hstage
    cases hstage
    refine .inl ⟨h.isOpen, h.unfreed, h.running, ⟨_, rfl, hround.goes _, hcalm⟩,
      fun i' p' index hpc => ?_, by simp⟩
    cases hpc
    exact hsrc p
  | oldEpoch i p index q pc noted alive =>
    rw [pc] at hstage
    cases hstage
    refine .inl ⟨h.isOpen, h.unfreed, h.running, ⟨_, rfl, hround.goes _, hcalm⟩, by simp,
      fun i' p' e hpc c₁ hc₁ => ?_⟩
    cases hpc
    obtain rfl := h.index i p index pc
    obtain ⟨c, hc, hcompleted⟩ := (hround.first rfl).2 p.owner
    cases hc.symm.trans hc₁
    cases noted.symm.trans hcompleted
    exact hepoch _
  | newEpoch i p epoch pc alive =>
    rw [pc] at hstage
    cases hstage
    refine (gathered_testing h hs (compared_round hround fun hsame c₁ hc₁ => ?_) hcalm).imp_right
      fun ha => ⟨rfl, ha⟩
    rw [← h.epoch i p epoch pc c₁ hc₁, of_decide_eq_true hsame, hepoch]
  | check src dst q pc | closeDone pc | join i pc | closeCompleted pc | closeNode i pc =>
    rw [pc] at hstage
    cases hstage
  | fail fault => exact absurd fault (no_main_fault h)

end OperatingSystems.Stress
