import OperatingSystems.Scheduling.Checked

namespace OperatingSystems.Scheduling
open Transition BusyPeriod

section
variable {ι : Type} {p q : Policy ι} {D : Discipline ι} {c : CheckedPolicy ι} {all : List Job}
  {m : Machine ι} {since : Nat} {w : World ι} {records : List Record}

def Safe (c : CheckedPolicy ι) (p : Policy ι) (w : World ι) (event : Event Callback) : Prop :=
  match event.callback with
  | .traceArrivalCallback => ∃ job, w.1.currentJob = some job ∧
    c.scheduleJob w.1.scheduler.schedulerInfo job event.timestamp =
      some (p.scheduleJob w.1.scheduler.schedulerInfo job event.timestamp)
  | .schedulerCompleteJob =>
    c.completeJob w.1.scheduler.schedulerInfo event.timestamp =
      some (p.completeJob w.1.scheduler.schedulerInfo event.timestamp)

structure Follows (p q : Policy ι) (all : List Job) : Prop where
  create : p.create = q.create
  schedule : p.scheduleJob = q.scheduleJob
  running : p.running = q.running
  complete : ∀ m now, Reachable (Machine.system q all) m → m.completion = some now →
    p.completeJob m.info now = q.completeJob m.info now

theorem Follows.refl (p : Policy ι) (all : List Job) : Follows p p all :=
  ⟨rfl, rfl, rfl, fun _ _ _ _ => rfl⟩

theorem Follows.step (h : Follows p q all) (hm : Reachable (Machine.system q all) m) :
    m.step p = m.step q := by
  have harrive (job : Job) (rest : List Job) : m.arrive p job rest = m.arrive q job rest := by
    simp only [Machine.arrive, dispatched, h.schedule, h.running]
  have hcomplete (now : Nat) (hc : m.completion = some now) : m.complete p now = m.complete q now := by
    simp only [Machine.complete, dispatched, h.running, h.complete m now hm hc]
  unfold Machine.step
  cases hc : m.completion with
  | none => cases m.arrivals with
    | nil => rfl
    | cons job rest => exact harrive job rest
  | some now =>
    cases m.arrivals with
    | nil => exact hcomplete now hc
    | cons job rest => simp only [harrive, hcomplete now hc]

theorem follows_models (hL : Lawful q D) (hF : Feasible D (jobsOf 0 records))
    (hfollows : Follows p q (jobsOf 0 records)) (h : Reachable (simulation p records) w) :
    ∃ m, Reachable (Machine.system q (jobsOf 0 records)) m ∧ Models [] w m := by
  refine h.simulated (N := Machine.system q (jobsOf 0 records)) (R := Models [])
    (fun w hw => ?_) fun w m a n w' hm hmodels hs => ?_
  · obtain ⟨w', hs, hmodels⟩ := start_models p records
    obtain rfl : w' = w := Option.some.inj (hs.symm.trans hw)
    refine ⟨_, rfl, ?_⟩
    rw [Machine.create, ← hfollows.create]
    exact hmodels
  · have hs : executeNext (callbacks p) w = some (n, w') := hs
    obtain ⟨since, hsteady⟩ := reachable_steady hL hF hm
    rcases step_steady hL hF hsteady with ⟨hc, ha⟩ | ⟨m', since', hs', -, -⟩
    · obtain ⟨rest, hq⟩ := loop_step hs
      rw [queue_nil hmodels hc ha] at hq
      cases hq
    · obtain ⟨n₁, w₁, hs₁, hmodels'⟩ := step_models hmodels (hsteady.chronological hF.toProper)
        ((hfollows.step hm).trans hs')
      rw [hs] at hs₁
      cases hs₁
      exact ⟨(), (), m', by simp [Machine.system, hs'], hmodels'⟩

theorem event_safe (hL : Lawful q D) (hF : Feasible D (jobsOf 0 records)) (hC : Checks c p D)
    (hfollows : Follows p q (jobsOf 0 records)) (hw : Reachable (simulation p records) w)
    {n : Nat × Event Callback} {rest : List (Nat × Event Callback)} (hq : w.2.queue = n :: rest) :
    (∃ w', executeNext (callbacks p) w = some (n, w')) ∧ Safe c p w n.2 := by
  obtain ⟨m, hm, hmodels⟩ := follows_models hL hF hfollows hw
  obtain ⟨since, h⟩ := reachable_steady hL hF hm
  constructor
  · rcases step_steady hL hF h with ⟨hc, ha⟩ | ⟨m', since', hs, -, -⟩
    · rw [queue_nil hmodels hc ha] at hq
      cases hq
    · obtain ⟨n', w', hx, -⟩ := step_models hmodels (h.chronological hF.toProper)
        ((hfollows.step hm).trans hs)
      obtain ⟨others, hq'⟩ := loop_step hx
      obtain rfl : n = n' := (List.cons.inj (hq.symm.trans hq')).1
      exact ⟨w', hx⟩
  · unfold Safe
    rw [hmodels.info]
    rcases first_event hmodels hq with ⟨-, hcallback, job, rest', ha, hjob, htime, hc⟩ |
      ⟨-, hcallback, hc, -⟩
    · rw [hcallback, htime]
      have hoffer := h.offer hF.toProper ha hc
      have hmem : job ∈ jobsOf 0 records := by simp [← h.all, ha]
      have hsize : job.jobTime ≤ ((jobsOf 0 records).map Job.jobTime).sum :=
        List.le_sum_of_mem (List.mem_map_of_mem hmem)
      have hbound := hF.bound job hmem
      refine ⟨job, hjob, hC.schedule ⟨hoffer.inv, hoffer.fits, hoffer.fresh, hoffer.distinct,
        hoffer.since_le, ?_⟩ (by omega)⟩
      rw [hfollows.running]
      exact hoffer.early
    · rw [hcallback]
      have hagree := hfollows.complete m _ hm hc
      refine hC.complete ?_ ?_
      · rw [hagree]
        exact complete_inv hL h hc
      · rw [hagree, hfollows.running]
        exact complete_clock hL hF h hc

theorem late_small (hL : Lawful p D) (hF : Feasible D all) (h : Steady p D all m since) {job r : Job}
    {rest : List Job} (ha : m.arrivals = job :: rest) (hr : p.running m.info = some r)
    (hearly : job.arrivalTime < since + D.slice r) : job.small := by
  have hmem := hL.running_mem h.settled.inv hr
  have hend := h.busy (List.ne_nil_of_mem hmem)
  have hslice := slice_backlog hL hmem
  have hne : arrived m.history ≠ [] := by
    obtain ⟨j, hj, -⟩ := h.job_mem hmem
    exact List.ne_nil_of_mem hj
  obtain ⟨x, hx, hle⟩ := lastDeparture_le 0 (l := work (arrived m.history))
    (by simpa [work] using hne) fun _ _ => Nat.zero_le _
  obtain ⟨j, hj, rfl⟩ := List.mem_map.mp hx
  have hbound := hF.bound j (h.arrived_initial.subset hj)
  rw [work_snd] at hle
  rw [← h.all, ha, List.map_append, List.sum_append, List.map_cons, List.sum_cons] at hbound
  dsimp only at hle
  unfold Job.small
  omega

theorem rest_subset {C : Selection ι} {jobs : List Job} : C.rest jobs ⊆ jobs := by
  unfold Selection.rest
  cases C.choose jobs with
  | none => exact List.nil_subset _
  | some j => exact List.erase_subset

end

-- SJF with a loop that takes every job; on these traces it does the same
abbrev sjfWide : Policy SJFInfo := sjfFrom (2 ^ 64) 0

abbrev sjfWideStack : Stack SJFInfo := sjfStackFrom (2 ^ 64) 0

section
variable {all : List Job} {m : Machine SJFInfo}

theorem scanShortest_wide {jobs : List Job} (h : ∀ j ∈ jobs, j.small) :
    scanShortest (2 ^ 64 - 1) (2 ^ 64 - 1) none jobs = scanShortest (2 ^ 64) 0 none jobs := by
  cases jobs with
  | nil => rfl
  | cons first rest =>
    have hsmall : first.jobTime < 2 ^ 64 - 1 := h first (List.mem_cons_self ..)
    rw [scanShortest, scanShortest, if_pos (.inl hsmall), if_pos (.inl (by omega))]

theorem wide_lawful : Lawful sjfWide (sjfWideStack.selection.discipline sjfWide) :=
  (sjfFrom_stacked (2 ^ 64) 0).nonPreemptive.lawful

theorem waiting_small (hF : Feasible (sjfWideStack.selection.discipline sjfWide) all)
    (h : Reachable (Machine.system sjfWide all) m) :
    ∀ j ∈ sjfWideStack.selection.waiting m.info, j.small := by
  have hS := sjfFrom_stacked (2 ^ 64) 0
  refine reachable_along (P := fun m => ∀ j ∈ sjfWideStack.selection.waiting m.info, j.small)
    wide_lawful hF ?_ ?_ h
  · intro j hj
    cases hj
  · intro m since m' since' hm _ hsmall hnext
    cases hnext with
    | arrival job rest ha hc harrive =>
      have hoffer := hm.offer hF.toProper ha hc
      rw [Machine.arrive_eq] at harrive
      obtain ⟨completion, -, rfl⟩ := Option.map_eq_some_iff.mp harrive
      cases hr : sjfWide.running m.info with
      | none =>
        obtain ⟨info', hs, -, hwaiting, -⟩ := hS.start_waiting hoffer hr
        rw [hs]
        dsimp only
        rw [hwaiting]
        simp
      | some r =>
        obtain ⟨info', hs, -, hwaiting, -⟩ := hS.wait_waiting hoffer hr
        rw [hs]
        dsimp only
        rw [hwaiting]
        intro j hj
        rcases List.mem_append.mp hj with hj | hj
        · exact hsmall j hj
        · rw [List.mem_singleton.mp hj]
          exact late_small wide_lawful hF hm ha hr (hoffer.early r hr)
    | completion now hc _ hcomplete =>
      obtain ⟨ran, hran, -⟩ := hm.completing hc
      rw [Machine.complete_eq] at hcomplete
      obtain ⟨completion, -, rfl⟩ := Option.map_eq_some_iff.mp hcomplete
      obtain ⟨info', hs, -, hwaiting, -⟩ := hS.complete_waiting now hm.settled.inv hran
      rw [hs]
      dsimp only
      rw [hwaiting]
      exact fun j hj => hsmall j (rest_subset hj)

theorem sjf_follows (hF : Feasible (sjfWideStack.selection.discipline sjfWide) all) :
    Follows sjf sjfWide all := by
  refine ⟨rfl, rfl, rfl, fun m now hm hc => ?_⟩
  obtain ⟨since, h⟩ := reachable_steady wide_lawful hF hm
  obtain ⟨r, hr, -⟩ := h.completing hc
  have hinv : sjfWideStack.Inv m.info := h.settled.inv
  have hcurrent : m.info.currentJob = some r := hr
  have hsmall := waiting_small hF hm
  have hqueue := listRemoveJob_erase hinv.distinct (hinv.current r hr)
  have hscan : scanShortest (2 ^ 64 - 1) (2 ^ 64 - 1) none (listRemoveJob m.info.jobQueue r) =
      scanShortest (2 ^ 64) 0 none (listRemoveJob m.info.jobQueue r) := by
    refine scanShortest_wide fun j hj => hsmall j ?_
    have hj : j ∈ (sjfWideStack.jobQueue m.info).erase r := hqueue ▸ hj
    simp only [Stack.selection, sjfStackFrom, hcurrent, Option.elim_some, List.mem_reverse]
    exact hj
  simp only [sjf, schedulerSJFCompleteJob, sjfFrom, hcurrent, Option.elim_some]
  generalize scanShortest (2 ^ 64 - 1) (2 ^ 64 - 1) none _ = nextJob at hscan ⊢
  subst hscan
  rfl

end

theorem arithmetic_safe {records : List Record} (h : Regular (2 ^ 64) records)
    (name : SchedulerName) : (∃ w, traceStart name.policy records = some w) ∧
    ∀ w, Reachable (simulation name.policy records) w →
      ∀ n rest, w.2.queue = n :: rest →
        (∃ w', executeNext (callbacks name.policy) w = some (n, w')) ∧
          Safe name.checked name.policy w n.2 := by
  obtain ⟨w₀, hstart, -⟩ := start_models name.policy records
  refine ⟨⟨w₀, hstart⟩, fun w hw n rest hq => ?_⟩
  cases name with
  | FCFS =>
    exact event_safe fcfs_nonPreemptive.lawful (h.feasible le_rfl fun _ _ => trivial) fcfs_checks
      (.refl _ _) hw hq
  | LCFS =>
    exact event_safe lcfs_nonPreemptive.lawful (h.feasible le_rfl fun _ _ => trivial) lcfs_checks
      (.refl _ _) hw hq
  | SJF =>
    have hF : Feasible (sjfWideStack.selection.discipline sjfWide) (jobsOf 0 records) :=
      h.feasible le_rfl fun _ hj => h.size_lt hj
    exact event_safe wide_lawful hF (sjf_checks (2 ^ 64) 0) (sjf_follows hF) hw hq
  | MLFQ =>
    exact event_safe mlfq_lawful (h.feasible le_rfl fun _ _ => trivial) mlfq_checks (.refl _ _) hw hq

-- two jobs that together fill the range of the clock
theorem arithmetic_safe_large : ∃ w n w', Reachable (simulation sjf [⟨1, 0, 2 ^ 64 - 2⟩, ⟨2, 0, 1⟩]) w ∧
    executeNext (callbacks sjf) w = some (n, w') ∧ Safe checkedSJF sjf w n.2 := by
  have h : Regular (2 ^ 64) [⟨1, 0, 2 ^ 64 - 2⟩, ⟨2, 0, 1⟩] := by decide
  obtain ⟨⟨w, hstart⟩, hsafe⟩ := arithmetic_safe h .SJF
  have hw : Reachable (simulation sjf [⟨1, 0, 2 ^ 64 - 2⟩, ⟨2, 0, 1⟩]) w := ⟨[], .start hstart⟩
  cases hstart
  obtain ⟨⟨w', hx⟩, hs⟩ := hsafe _ hw _ _ rfl
  exact ⟨_, _, w', hw, hx, hs⟩

end OperatingSystems.Scheduling
