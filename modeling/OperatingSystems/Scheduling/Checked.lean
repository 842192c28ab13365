import OperatingSystems.Scheduling.Mlfq
import OperatingSystems.Scheduling.Queues

namespace OperatingSystems.Scheduling

-- no answer when the sum does not fit into a `uint64_t`
def checkedAdd (a b : Nat) : Option Nat := if a + b < 2 ^ 64 then some (a + b) else none

def checkedSub (a b : Nat) : Option Nat := if b ≤ a then some (a - b) else none

-- the functions of a policy, which give no answer where their arithmetic goes wrong
structure CheckedPolicy (ι : Type) where
  scheduleJob : ι → Job → Nat → Option (ι × List Request)
  completeJob : ι → Nat → Option (ι × Option Job × List Request)

def checkedFCFS : CheckedPolicy FCFSInfo where
  scheduleJob := fun info job currentTime =>
    let jobQueue := job :: info.jobQueue
    if jobQueue.length = 1 then
      (checkedAdd currentTime job.jobTime).map fun finishTime =>
        (⟨jobQueue⟩, [.scheduleNextCompletion finishTime])
    else some (⟨jobQueue⟩, [])
  completeJob := fun info currentTime =>
    match info.jobQueue.getLast? with
    | none => some (info, none, [])
    | some finishedJob =>
      let jobQueue := info.jobQueue.dropLast
      match jobQueue.getLast? with
      | some nextJob =>
        (checkedAdd currentTime nextJob.remainingTime).map fun nextFinish =>
          (⟨jobQueue⟩, some finishedJob, [.scheduleNextCompletion nextFinish])
      | none => some (⟨jobQueue⟩, some finishedJob, [])

def checkedLCFS : CheckedPolicy LCFSInfo where
  scheduleJob := fun info job currentTime =>
    let jobQueue := job :: info.jobQueue
    if jobQueue.length = 1 then
      (checkedAdd currentTime job.jobTime).map fun finishTime =>
        (⟨jobQueue, some job⟩, [.scheduleNextCompletion finishTime])
    else some (⟨jobQueue, info.currentJob⟩, [])
  completeJob := fun info currentTime =>
    match info.currentJob with
    | none => some (info, none, [])
    | some finished =>
      let jobQueue := listRemoveJob info.jobQueue finished
      match jobQueue.head? with
      | some next =>
        (checkedAdd currentTime next.jobTime).map fun finishTime =>
          (⟨jobQueue, some next⟩, some finished, [.scheduleNextCompletion finishTime])
      | none => some (⟨jobQueue, none⟩, some finished, [])

def checkedSJF : CheckedPolicy SJFInfo where
  scheduleJob := fun info job currentTime =>
    let jobQueue := job :: info.jobQueue
    match info.currentJob with
    | none =>
      (checkedAdd currentTime job.jobTime).map fun finishTime =>
        (⟨jobQueue, some job⟩, [.scheduleNextCompletion finishTime])
    | some currentJob => some (⟨jobQueue, some currentJob⟩, [])
  completeJob := fun info currentTime =>
    let finished := info.currentJob
    let jobQueue := finished.elim info.jobQueue fun job => listRemoveJob info.jobQueue job
    match scanShortest (2 ^ 64 - 1) (2 ^ 64 - 1) none jobQueue with
    | some nextJob =>
      (checkedAdd currentTime nextJob.jobTime).map fun finishTime =>
        (⟨jobQueue, some nextJob⟩, finished, [.scheduleNextCompletion finishTime])
    | none => some (⟨jobQueue, none⟩, finished, [])

def checkedScheduleNext (info : MLFQInfo) (now : Nat) : Option (MLFQInfo × List Request) :=
  match highest info.queues with
  | none => some ({ info with running := none }, [])
  | some (lvl, next, rest) =>
    let rem := next.job.remainingTime
    let run := if rem < 1 then rem else 1
    (checkedAdd now run).map fun timestamp =>
      ({ queues := Function.update info.queues lvl rest, running := some next, lastTime := now },
        [.scheduleNextCompletion timestamp])

def checkedDisplace (running : MLFQJob) (run : Nat) : Option MLFQJob :=
  if 0 < run then
    let rem := running.job.remainingTime
    let run := if rem < run then rem else run
    (checkedSub rem run).map fun left =>
      let running := running.setRemainingTime left
      if 1 ≤ run then running.demote else running
  else some running

def checkedMLFQ : CheckedPolicy MLFQInfo where
  scheduleJob := fun info job now =>
    let info := info.insert ⟨job, 0⟩
    match info.running with
    | none => checkedScheduleNext info now
    | some running =>
      if 0 < running.level.val then do
        let run ← checkedSub now info.lastTime
        let running ← checkedDisplace running run
        let r ← checkedScheduleNext { info.insert running with running := none } now
        return (r.1, .cancelNextCompletion :: r.2)
      else some (info, [])
  completeJob := fun info now =>
    match info.running with
    | none => (checkedScheduleNext info now).map fun r => (r.1, none, r.2)
    | some w =>
      let info := { info with running := none }
      let rem := w.job.remainingTime
      if 1 < rem then do
        let left ← checkedSub rem 1
        let r ← checkedScheduleNext (info.insert (w.setRemainingTime left).demote) now
        return (r.1, none, r.2)
      else
        (checkedScheduleNext info now).map fun r => (r.1, some (w.setRemainingTime 0).job, r.2)

def SchedulerName.checked : (name : SchedulerName) → CheckedPolicy name.Info
  | .FCFS => checkedFCFS
  | .LCFS => checkedLCFS
  | .SJF => checkedSJF
  | .MLFQ => checkedMLFQ

theorem checkedAdd_some {a b : Nat} (h : a + b < 2 ^ 64) : checkedAdd a b = some (wrap (a + b)) := by
  rw [checkedAdd, if_pos h, wrap_of_lt h]

theorem checkedSub_some {a b : Nat} (h : b ≤ a) : checkedSub a b = some (a - b) := if_pos h

structure Checks {ι : Type} (c : CheckedPolicy ι) (p : Policy ι) (D : Discipline ι) : Prop where
  schedule : ∀ {info since job now}, Offer p D info since job now → now + job.jobTime < 2 ^ 64 →
    c.scheduleJob info job now = some (p.scheduleJob info job now)
  complete : ∀ {info now}, D.Inv (p.completeJob info now).1 now →
    (∀ r ∈ p.running (p.completeJob info now).1, now + D.slice r < 2 ^ 64) →
    c.completeJob info now = some (p.completeJob info now)

theorem fcfs_checks : Checks checkedFCFS fcfs (fcfsSelection.discipline fcfs) := by
  constructor
  case schedule =>
    intro info since job now _ hclock
    simp only [checkedFCFS, fcfs, schedulerFCFSScheduleJob]
    split
    · rw [checkedAdd_some hclock]
      rfl
    · rfl
  case complete =>
    intro info now _ hclock
    simp only [checkedFCFS, fcfs, schedulerFCFSCompleteJob] at hclock ⊢
    cases hlast : info.jobQueue.getLast? with
    | none => rfl
    | some finishedJob =>
      simp only [hlast] at hclock ⊢
      cases hnext : info.jobQueue.dropLast.getLast? with
      | none => rfl
      | some nextJob =>
        have hsum : now + nextJob.remainingTime < 2 ^ 64 := hclock nextJob hnext
        simp only [checkedAdd_some hsum]
        rfl

theorem Stack.Inv.current_size {ι : Type} {S : Stack ι} {info : ι} (h : S.Inv info) {job : Job}
    (hj : S.currentJob info = some job) : job.jobTime = job.remainingTime :=
  congrArg Job.remainingTime (h.fresh job (h.current job hj))

theorem lcfs_checks : Checks checkedLCFS lcfs (lcfsStack.selection.discipline lcfs) := by
  constructor
  case schedule =>
    intro info since job now _ hclock
    simp only [checkedLCFS, lcfs, schedulerLCFSScheduleJob]
    split
    · rw [checkedAdd_some hclock]
      rfl
    · rfl
  case complete =>
    intro info now hinv hclock
    have hinv : lcfsStack.Inv (lcfs.completeJob info now).1 := hinv
    have hsize (j : Job) := @Stack.Inv.current_size _ _ _ hinv j
    simp only [checkedLCFS, lcfs, schedulerLCFSCompleteJob] at hsize hclock ⊢
    cases hcurrent : info.currentJob with
    | none => rfl
    | some r =>
      simp only [hcurrent] at hsize hclock ⊢
      cases hnext : (listRemoveJob info.jobQueue r).head? with
      | none => rfl
      | some next =>
        simp only [hnext] at hsize hclock ⊢
        have hsum : now + next.remainingTime < 2 ^ 64 := hclock next rfl
        rw [← hsize next rfl] at hsum
        rw [checkedAdd_some hsum]
        rfl

theorem sjf_checks (bestTime bestId : Nat) : Checks checkedSJF sjf
    ((sjfStackFrom bestTime bestId).selection.discipline (sjfFrom bestTime bestId)) := by
  constructor
  case schedule =>
    intro info since job now _ hclock
    simp only [checkedSJF, sjf, schedulerSJFScheduleJob]
    cases info.currentJob with
    | none => rw [checkedAdd_some hclock]; rfl
    | some currentJob => rfl
  case complete =>
    intro info now hinv hclock
    have hinv : (sjfStackFrom bestTime bestId).Inv (sjf.completeJob info now).1 := hinv
    have hsize (j : Job) := @Stack.Inv.current_size _ _ _ hinv j
    simp only [checkedSJF, sjf, schedulerSJFCompleteJob] at hsize hclock ⊢
    generalize info.currentJob.elim info.jobQueue
      (fun job => listRemoveJob info.jobQueue job) = jobQueue at hsize hclock ⊢
    cases hnext : scanShortest (2 ^ 64 - 1) (2 ^ 64 - 1) none jobQueue with
    | none => rfl
    | some next =>
      simp only [hnext] at hsize hclock ⊢
      have hsum : now + next.remainingTime < 2 ^ 64 := hclock next rfl
      rw [← hsize next rfl] at hsum
      rw [checkedAdd_some hsum]
      rfl

theorem checkedScheduleNext_some {info : MLFQInfo} {now : Nat}
    (hclock : ∀ w ∈ (scheduleNext info now).1.running, now + mlfqDiscipline.slice w.job < 2 ^ 64) :
    checkedScheduleNext info now = some (scheduleNext info now) := by
  unfold checkedScheduleNext scheduleNext at *
  cases hhighest : highest info.queues with
  | none => rfl
  | some r =>
    obtain ⟨lvl, next, rest⟩ := r
    simp only [hhighest] at hclock ⊢
    have hsum := hclock next rfl
    simp only [mlfqDiscipline] at hsum
    rw [checkedAdd_some hsum]
    rfl

theorem displaced_checks {info : MLFQInfo} {since now : Nat} {job : Job} {r : MLFQJob}
    (hoffer : Offer mlfq mlfqDiscipline info since job now) (hr : info.running = some r) :
    checkedSub now info.lastTime = some 0 ∧ wrap (now + 2 ^ 64 - info.lastTime) = 0 := by
  have hlast : info.lastTime = now := by
    rw [displaced_at_once hoffer.since_le (hoffer.running_early r hr)]
    exact hoffer.inv.dispatch (by simp [hr])
  rw [hlast, checkedSub_some le_rfl, Nat.sub_self, Nat.add_sub_cancel_left]
  exact ⟨rfl, by decide⟩

theorem mlfq_schedule {info : MLFQInfo} {since now : Nat} {job : Job}
    (hoffer : Offer mlfq mlfqDiscipline info since job now) (hclock : now + job.jobTime < 2 ^ 64) :
    checkedMLFQ.scheduleJob info job now = some (mlfq.scheduleJob info job now) := by
  have hslice : now + mlfqDiscipline.slice job < 2 ^ 64 := by
    have hle := mlfq_lawful.slice_le job
    have hsize : job.jobTime = job.remainingTime := congrArg Job.remainingTime hoffer.fresh
    omega
  have hadmitted := hoffer.admitted
  simp only [checkedMLFQ, mlfq, schedulerMLFQScheduleJob] at hadmitted ⊢
  have hrunning : (info.insert ⟨job, 0⟩).running = info.running := rfl
  have hlast : (info.insert ⟨job, 0⟩).lastTime = info.lastTime := rfl
  simp only [hrunning, hlast] at hadmitted ⊢
  cases hr : info.running with
  | none =>
    simp only [hr] at hadmitted ⊢
    refine checkedScheduleNext_some fun w hw => ?_
    generalize scheduleNext (info.insert ⟨job, 0⟩) now = o at hadmitted hw
    cases hadmitted with
    | idle _ =>
      cases hw
      exact hslice
    | wait r hr' _ => exact nomatch hr.symm.trans hr'
    | displace r hr' _ => exact nomatch hr.symm.trans hr'
  | some r =>
    obtain ⟨hsub, hwrap⟩ := displaced_checks hoffer hr
    have hstays : checkedDisplace r 0 = some (r.displace 0) := rfl
    simp only [hr, hsub, hwrap] at hadmitted ⊢
    split
    · rename_i hlevel
      rw [if_pos hlevel] at hadmitted
      simp only [Option.bind_eq_bind, Option.bind_some, hstays]
      rw [checkedScheduleNext_some fun w hw => ?_]
      · rfl
      · generalize scheduleNext _ now = o at hadmitted hw
        obtain ⟨info', requests⟩ := o
        cases hadmitted with
        | displace _ _ _ =>
          cases hw
          exact hslice
    · rfl

theorem mlfq_complete {info : MLFQInfo} {now : Nat}
    (hclock : ∀ r ∈ mlfq.running (mlfq.completeJob info now).1,
      now + mlfqDiscipline.slice r < 2 ^ 64) :
    checkedMLFQ.completeJob info now = some (mlfq.completeJob info now) := by
  have hnext (w : MLFQJob) (hw : w ∈ (mlfq.completeJob info now).1.running) :
      now + mlfqDiscipline.slice w.job < 2 ^ 64 :=
    hclock w.job (Option.mem_map_of_mem MLFQJob.job hw)
  simp only [checkedMLFQ, mlfq, schedulerMLFQCompleteJob] at hnext ⊢
  cases hr : info.running with
  | none =>
    simp only [hr] at hnext ⊢
    rw [checkedScheduleNext_some hnext]
    rfl
  | some w =>
    simp only [hr] at hnext ⊢
    split
    · rename_i hrem
      simp only [if_pos hrem] at hnext
      simp only [checkedSub_some hrem.le, Option.bind_eq_bind, Option.bind_some]
      rw [checkedScheduleNext_some hnext]
      rfl
    · rename_i hrem
      simp only [if_neg hrem] at hnext
      rw [checkedScheduleNext_some hnext]
      rfl

theorem mlfq_checks : Checks checkedMLFQ mlfq mlfqDiscipline :=
  ⟨mlfq_schedule, fun _ hclock => mlfq_complete hclock⟩

end OperatingSystems.Scheduling
