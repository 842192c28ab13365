import OperatingSystems.Scheduling.TraceRun

namespace OperatingSystems.Scheduling
open Transition

variable {ι : Type}

-- no completion is asked for while one is pending, and none is cancelled in vain
def Orderly : Option Nat → List Request → Prop
  | _, [] => True
  | none, .scheduleNextCompletion timestamp :: rest => Orderly (some timestamp) rest
  | some _, .cancelNextCompletion :: rest => Orderly none rest
  | none, .cancelNextCompletion :: _ => False
  | some _, .scheduleNextCompletion _ :: _ => False

theorem scheduleNextCompletion_ahead {s : Scheduler ι} {sim : Simulator Callback} {timestamp : Nat}
    (hnone : s.completionEvent = none) {r : Scheduler ι × Simulator Callback}
    (h : schedulerScheduleNextCompletion timestamp (s, sim) = some r) : sim.simTime ≤ timestamp := by
  unfold schedulerScheduleNextCompletion at h
  rw [hnone] at h
  obtain ⟨r', hs, -⟩ := Option.map_eq_some_iff.mp h
  unfold Simulator.schedule at hs
  split at hs
  · assumption
  · cases hs

-- the assertion of `simulatorSchedule` is all that can stop them
theorem serve_answer {s : Scheduler ι} {sim : Simulator Callback} {executed : List Nat}
    {completion : Option Nat} {others : List (Nat × Event Callback)} {requests : List Request}
    (h : Waits s sim executed completion others) (ho : Orderly completion requests)
    {r : Scheduler ι × Simulator Callback} (hs : serve requests (s, sim) = some r) :
    ∃ completion', Machine.answer sim.simTime completion requests = some completion' := by
  induction requests generalizing s sim completion with
  | nil => exact ⟨completion, rfl⟩
  | cons request rest ih =>
    cases request with
    | scheduleNextCompletion timestamp =>
      cases completion with
      | some c => cases ho
      | none =>
        obtain ⟨r₁, hone, hrest⟩ := Option.bind_eq_some_iff.mp hs
        have hnone : s.completionEvent = none := by
          obtain ⟨c, hc, -⟩ := h.queue
          generalize s.completionEvent = event at hc
          cases hc
          rfl
        have hahead := scheduleNextCompletion_ahead hnone hone
        obtain ⟨s₁, sim₁, hone', hw, htime, -⟩ := scheduleNextCompletion_waits h hahead
        rw [hone] at hone'
        cases hone'
        simp only [Machine.answer, if_pos hahead]
        rw [← htime]
        exact ih hw ho hrest
    | cancelNextCompletion =>
      cases completion with
      | none => cases ho
      | some c =>
        obtain ⟨r₁, hone, hrest⟩ := Option.bind_eq_some_iff.mp hs
        obtain ⟨s₁, sim₁, hone', hw, htime, -⟩ := cancelNextCompletion_waits h
        rw [hone] at hone'
        cases hone'
        simp only [Machine.answer]
        rw [← htime]
        exact ih hw ho hrest

section
variable {p : Policy ι} {D : Discipline ι} {all : List Job} {m m' : Machine ι} {since : Nat}
  {w w' : World ι} {n : Nat × Event Callback}

theorem Accepts.orderly {info : ι} {job : Job} {now : Nat} {o : ι × List Request}
    (h : Accepts p D info since job now o) :
    Orderly ((p.running info).map fun r => since + D.slice r) o.2 := by
  cases h with
  | wait info' _ _ _ =>
    cases p.running info <;> trivial
  | start info' hnone _ _ =>
    rw [hnone]
    trivial
  | displace info' hrun _ _ _ =>
    obtain ⟨r, hr⟩ := Option.ne_none_iff_exists'.mp hrun
    rw [hr]
    trivial

theorem grants_orderly (D : Discipline ι) (now : Nat) (next : Option Job) :
    Orderly none (next.toList.map (grant D now)) := by
  cases next <;> trivial

theorem clock_of_wrap {now slice : Nat} (hslice : slice < 2 ^ 64) (h : now ≤ wrap (now + slice)) :
    now + slice < 2 ^ 64 := by
  unfold wrap at h
  omega

theorem Accepts.clock {info : ι} {job : Job} {now : Nat} {o : ι × List Request}
    (hslice : D.slice job < 2 ^ 64) (h : Accepts p D info since job now o) {completion : Option Nat}
    (ha : Machine.answer now ((p.running info).map fun r => since + D.slice r) o.2 =
      some completion) : o.2 ≠ [] → now + D.slice job < 2 ^ 64 := by
  intro hne
  apply clock_of_wrap hslice
  cases h with
  | wait => exact absurd rfl hne
  | start info' hnone _ _ =>
    rw [hnone] at ha
    simp only [Option.map_none, grant, Machine.answer] at ha
    split at ha
    · assumption
    · cases ha
  | displace info' hrun _ _ _ =>
    obtain ⟨r, hr⟩ := Option.ne_none_iff_exists'.mp hrun
    rw [hr] at ha
    simp only [Option.map_some, grant, Machine.answer] at ha
    split at ha
    · assumption
    · cases ha

theorem grants_clock {now : Nat} {next : Option Job} {completion : Option Nat}
    (hslice : ∀ job, D.slice job < 2 ^ 64)
    (ha : Machine.answer now none (next.toList.map (grant D now)) = some completion) :
    ∀ r ∈ next, now + D.slice r < 2 ^ 64 := by
  rintro r rfl
  apply clock_of_wrap (hslice r)
  simp only [Option.toList_some, List.map_cons, List.map_nil, grant, Machine.answer] at ha
  split at ha
  · assumption
  · cases ha

theorem arrival_answer (hL : Lawful p D) (hP : Proper D all) (h : Steady p D all m since)
    (hm : Models [] w m) (hx : executeNext (callbacks p) w = some (n, w'))
    (hcallback : n.2.callback = .traceArrivalCallback) {job : Job} {rest : List Job}
    (ha : m.arrivals = job :: rest) (hjob : w.1.currentJob = some job)
    (htime : n.2.timestamp = job.arrivalTime) (hc : ∀ c ∈ m.completion, job.arrivalTime < c) :
    ∃ completion, Machine.answer job.arrivalTime m.completion
      (p.scheduleJob m.info job job.arrivalTime).2 = some completion := by
  obtain ⟨executed, a, hw, -⟩ := hm.queue
  obtain ⟨others, hq⟩ := loop_step hx
  unfold executeNext at hx
  rw [hq] at hx
  obtain ⟨w₁, hcall, -⟩ := Option.bind_eq_some_iff.mp hx
  dsimp only at hcall
  rw [hcallback, htime] at hcall
  simp only [callbacks, traceArrivalCallback, hjob, Option.bind_some] at hcall
  obtain ⟨w₂, hschedule, -⟩ := Option.bind_eq_some_iff.mp hcall
  simp only [schedulerScheduleJob, hm.info] at hschedule
  obtain ⟨r, hserve, -⟩ := Option.map_eq_some_iff.mp hschedule
  have hledger := hw.ledger.advance hq
  rw [htime] at hledger
  have hstart : Waits { w.1.scheduler with
      schedulerInfo := (p.scheduleJob m.info job job.arrivalTime).1 }
      { w.2 with simTime := job.arrivalTime } executed m.completion (a ++ []) :=
    ⟨hledger, hw.queue, hw.answers⟩
  have horderly := (hL.accepts (h.offer hP ha hc)).orderly
  rw [← h.settled.runs] at horderly
  exact serve_answer hstart horderly hserve

theorem completion_answer (hL : Lawful p D) (h : Steady p D all m since) (hm : Models [] w m)
    (hx : executeNext (callbacks p) w = some (n, w'))
    (hcallback : n.2.callback = .schedulerCompleteJob) (hc : m.completion = some n.2.timestamp) :
    ∃ completion, Machine.answer n.2.timestamp none (p.completeJob m.info n.2.timestamp).2.2 =
      some completion := by
  obtain ⟨executed, a, hw, -⟩ := hm.queue
  obtain ⟨others, hq⟩ := loop_step hx
  unfold executeNext at hx
  rw [hq] at hx
  obtain ⟨w₁, hcall, -⟩ := Option.bind_eq_some_iff.mp hx
  dsimp only at hcall
  rw [hcallback] at hcall
  simp only [callbacks, schedulerCompleteJob, hm.info] at hcall
  obtain ⟨r, hserve, -⟩ := Option.map_eq_some_iff.mp hcall
  have horderly : Orderly none (p.completeJob m.info n.2.timestamp).2.2 := by
    obtain ⟨ran, hran, htime⟩ := h.completing hc
    rw [← htime, hL.serves_next h.settled.inv hran]
    exact grants_orderly D _ _
  have hstart : Waits { w.1.scheduler with
      schedulerInfo := (p.completeJob m.info n.2.timestamp).1, completionEvent := none }
      { w.2 with simTime := n.2.timestamp } executed none w.2.queue :=
    ⟨hw.ledger.advance hq, ⟨[], .nothing, .refl _⟩, hw.answers⟩
  exact serve_answer hstart horderly hserve

inductive Advance (p : Policy ι) (m : Machine ι) (n : Nat × Event Callback) : Machine ι → Prop
  | arrival {m' : Machine ι} (job : Job) (rest : List Job) : n.2.type = .arrival →
      n.2.timestamp = job.arrivalTime → m.arrivals = job :: rest →
      (∀ c ∈ m.completion, job.arrivalTime < c) → m.arrive p job rest = some m' → Advance p m n m'
  | completion {m' : Machine ι} : n.2.type = .completion → m.completion = some n.2.timestamp →
      m.complete p n.2.timestamp = some m' → Advance p m n m'

theorem dispatched_running {info : ι} {requests : List Request} {job : Job}
    (h : dispatched p info requests = some job) : p.running info = some job := by
  unfold dispatched at h
  split at h
  · exact h
  · cases h

-- also where the clock may run out: such a step does not end
theorem advance (hL : Lawful p D) (hP : Proper D all) (hslice : ∀ job, D.slice job < 2 ^ 64)
    (h : Steady p D all m since) (hm : Models [] w m)
    (hx : executeNext (callbacks p) w = some (n, w')) :
    ∃ m' since', Advance p m n m' ∧ Steady p D all m' since' ∧ Models [] w' m' := by
  obtain ⟨others, hq⟩ := loop_step hx
  rcases first_event hm hq with ⟨htype, hcallback, job, rest, ha, hjob, htime, hc⟩ |
    ⟨htype, hcallback, hc, ha⟩
  · obtain ⟨completion, hanswer⟩ := arrival_answer hL hP h hm hx hcallback ha hjob htime hc
    have haccepts := hL.accepts (h.offer hP ha hc)
    have hanswer' := hanswer
    rw [h.settled.runs] at hanswer'
    obtain ⟨m', since', hs, hsteady, -⟩ :=
      arrive_steady hL hP h ha hc (haccepts.clock (hslice job) hanswer')
    obtain ⟨n', w'', hx', hmodels⟩ :=
      step_models hm (h.chronological hP) ((Machine.arrival_step ha hc).trans hs)
    rw [hx] at hx'
    cases hx'
    exact ⟨m', since', .arrival job rest htype htime ha hc hs, hsteady, hmodels⟩
  · obtain ⟨completion, hanswer⟩ := completion_answer hL h hm hx hcallback hc
    have hclock : ∀ r ∈ p.running (p.completeJob m.info n.2.timestamp).1,
        n.2.timestamp + D.slice r < 2 ^ 64 := by
      obtain ⟨ran, hran, htime⟩ := h.completing hc
      rw [← htime] at hanswer ⊢
      rw [hL.serves_next h.settled.inv hran] at hanswer
      exact grants_clock hslice hanswer
    obtain ⟨m', hs, hsteady, -⟩ := complete_steady hL hP h hc ha hclock
    obtain ⟨n', w'', hx', hmodels⟩ :=
      step_models hm (h.chronological hP) ((Machine.completion_step hc ha).trans hs)
    rw [hx] at hx'
    cases hx'
    exact ⟨m', _, .completion htype hc hs, hsteady, hmodels⟩

theorem simulation_replay {records : List Record} (steps : Nat)
    (P : List (Transition.Event (World ι) Unit (Nat × Event Callback)) → World ι → Prop)
    [∀ tr w, Decidable (P tr w)]
    (h : (traceStart p records).any fun w =>
      ((simulation p records).replay w (List.replicate steps ())).any fun r => decide (P r.1 r.2)) :
    ∃ tr w, Run (simulation p records) tr w ∧ P tr w := by
  obtain ⟨w₀, hstart, hreplay⟩ := (Option.any_eq_true _ _).mp h
  obtain ⟨tr, w, hrun, -, hp⟩ := replay_run (M := simulation p records) hstart _ P hreplay
  exact ⟨tr, w, hrun, hp⟩

theorem run_tracked {records : List Record} {P : Machine ι → Prop} {ok : World ι → Unit → Prop}
    {tr : List (Transition.Event (World ι) Unit (Nat × Event Callback))} (hL : Lawful p D)
    (hP : Proper D (jobsOf 0 records)) (hslice : ∀ job, D.slice job < 2 ^ 64)
    (base : P (Machine.create p (jobsOf 0 records)))
    (ind : ∀ w m since n m' since', Models [] w m → Steady p D (jobsOf 0 records) m since → P m →
      ok w () → w.2.queue.head? = some n → Advance p m n m' →
      Steady p D (jobsOf 0 records) m' since' → P m')
    (hrun : Run (simulation p records) tr w) (hok : Meets ok tr) :
    ∃ m since, Models [] w m ∧ Steady p D (jobsOf 0 records) m since ∧ P m := by
  refine hrun.state_invariant
    (P := fun w => ∃ m since, Models [] w m ∧ Steady p D (jobsOf 0 records) m since ∧ P m)
    (fun w hw => ?_) (fun w a n w' ⟨m, since, hm, h, hp⟩ ha hs => ?_) hok
  · obtain ⟨w', hs, hmodels⟩ := start_models p records
    obtain rfl : w' = w := Option.some.inj (hs.symm.trans hw)
    exact ⟨_, 0, hmodels, create_steady hL _, base⟩
  · have hs : executeNext (callbacks p) w = some (n, w') := hs
    obtain ⟨m', since', hadvance, h', hm'⟩ := advance hL hP hslice h hm hs
    obtain ⟨others, hq⟩ := loop_step hs
    exact ⟨m', since', hm', h', ind w m since n m' since' hm h hp ha (by simp [hq]) hadvance h'⟩

end

end OperatingSystems.Scheduling
