import OperatingSystems.Scheduling.MlfqOrder

namespace OperatingSystems.Scheduling
open Transition Buckets

def Job.received (job : Job) : Nat := job.jobTime - job.remainingTime

def LeastServed (history : List Turn) (job : Job) : Prop :=
  ∀ other ∈ unfinishedJobs history, slices history job.ref ≤ slices history other.ref

instance (history : List Turn) (job : Job) : Decidable (LeastServed history job) :=
  inferInstanceAs (Decidable (∀ other ∈ unfinishedJobs history, _))

-- a job that comes to the bottom level meets only jobs that have come to it as well and not run
-- there, and a job displaced from the bottom level has run as much as those that wait there
def BottomInStep (w : World MLFQInfo) (_ : Unit) : Prop :=
  ∀ n ∈ w.2.queue.head?, ∀ r ∈ w.1.scheduler.schedulerInfo.running,
    (n.2.type = .completion → r.level = 8 → 1 < r.job.remainingTime →
      ∀ v ∈ w.1.scheduler.schedulerInfo.queues 9, v.job.received = 9) ∧
    (n.2.type = .arrival → r.level = 9 →
      ∀ v ∈ w.1.scheduler.schedulerInfo.queues 9, v.job.received ≤ r.job.received)

instance (w : World MLFQInfo) (a : Unit) : Decidable (BottomInStep w a) :=
  inferInstanceAs (Decidable (∀ n ∈ w.2.queue.head?, ∀ r ∈ w.1.scheduler.schedulerInfo.running, _))

def near (a b : MLFQJob) : Prop :=
  a.job.received ≤ b.job.received ∧ b.job.received ≤ a.job.received + 1

section
variable {info info' : MLFQInfo} {history history' : List Turn}

theorem Account.received {v : MLFQJob} (h : Account history v) :
    v.job.received = slices history v.job.ref := by
  have hserved := h.served
  unfold Job.received
  omega

theorem MLFQInfo.Consistent.level_received (hc : info.Consistent history) {v : MLFQJob}
    (hv : v ∈ info.held) : v.level.val = min 9 v.job.received := by
  have haccount := hc.accounts v hv
  rw [haccount.received]
  exact haccount.level

theorem resume_received {w w' : MLFQJob} (hle : w.job.remainingTime ≤ w.job.jobTime)
    (h : w.resume = some w') : w'.job.received = w.job.received + 1 ∧
      w'.level.val = min 9 (w.level.val + 1) ∧ 1 < w.job.remainingTime := by
  unfold MLFQJob.resume at h
  split at h
  · rename_i hrem
    cases h
    refine ⟨?_, demote_level _, hrem⟩
    rw [demote_job]
    simp only [MLFQJob.setRemainingTime, Job.received]
    omega
  · cases h

theorem displaced_near (hc : info.Consistent history) (h : Lined near info) {r : MLFQJob}
    (hr : info.running = some r)
    (hbottom : r.level = 9 → ∀ v ∈ info.queues 9, v.job.received ≤ r.job.received)
    {v : MLFQJob} (hv : v ∈ info.queues r.level) : near v r := by
  have hnear := h.running r hr v hv
  have hlevel := hc.level_received (running_mem_held hr)
  have hsame := hc.level_received (queue_held hv)
  rw [hc.placed r.level v hv] at hsame
  rcases eq_or_ne r.level 9 with hnine | hne
  · have hle := hbottom hnine v (hnine ▸ hv)
    exact ⟨hle, by have := hnear.1; omega⟩
  · have hlt : r.level.val ≠ (9 : Nat) := fun he => hne (Fin.ext he)
    constructor <;> omega

theorem resumed_near (hc : info.Consistent history) (h : Lined near info) {w w' : MLFQJob}
    (hw : info.running = some w) (hw' : w.resume = some w')
    (hbottom : w.level = 8 → 1 < w.job.remainingTime → ∀ v ∈ info.queues 9, v.job.received = 9)
    {v : MLFQJob} (hv : v ∈ info.queues w'.level) : near v w' := by
  have hheld := running_mem_held hw
  have hserved := (hc.accounts w hheld).served
  obtain ⟨hreceived, hdemoted, hrem⟩ := resume_received (by omega) hw'
  have hlevel := hc.level_received hheld
  have hsame := hc.level_received (queue_held hv)
  rw [hc.placed w'.level v hv] at hsame
  rcases Nat.lt_trichotomy w.level.val 8 with hlt | heq | hgt
  · constructor <;> omega
  · have hnine : w'.level = 9 := by
      apply Fin.ext
      rw [hdemoted, heq]
      rfl
    have hall := hbottom (Fin.ext heq) hrem v (hnine ▸ hv)
    constructor <;> omega
  · have hstays : w'.level = w.level := by
      apply Fin.ext
      have := w.level.isLt
      omega
    have hnear := h.running w hw v (hstays ▸ hv)
    unfold near at *
    omega

theorem moved_near {type : EventType} (hc : info.Consistent history) (h : Lined near info)
    (hbottom : ∀ r ∈ info.running,
      (type = .completion → r.level = 8 → 1 < r.job.remainingTime →
        ∀ v ∈ info.queues 9, v.job.received = 9) ∧
      (type = .arrival → r.level = 9 → ∀ v ∈ info.queues 9, v.job.received ≤ r.job.received))
    (hm : Moved info history type info' history') : Lined near info' := by
  cases hm with
  | arrival job now started o hfresh hnew hadmitted _ =>
    refine admitted_lined hc h (fun v hv hzero => ?_) (fun r hr _ v hv => ?_) hadmitted
    · have hlevel := hc.level_received hv
      have hsize : job.jobTime = job.remainingTime := congrArg Job.remainingTime hfresh
      have hreceived : job.received = 0 := by
        unfold Job.received
        omega
      rw [hzero, Fin.val_zero] at hlevel
      unfold near
      dsimp only
      omega
    · exact displaced_near hc h hr ((hbottom r hr).2 rfl) hv
  | completion w now started o hw hsliced _ =>
    refine sliced_lined hc h.queue (fun w' hw' v hv => ?_) hsliced
    exact resumed_near hc h hw hw' ((hbottom w hw).1 rfl) hv

theorem lined_leastServed (hc : info.Consistent history) (h : Lined near info) {job : Job}
    (hjob : mlfq.running info = some job) : LeastServed history job := by
  obtain ⟨r, hr, rfl⟩ := mlfq_running hjob
  intro other ho
  rcases eq_or_ne other.ref r.job.ref with hsame | hne
  · rw [hsame]
  · obtain ⟨v, hv, href⟩ := hc.waits hr ho hne
    have hrun := hc.accounts r (running_mem_held hr)
    have hwait := hc.accounts v (queue_held hv)
    have hle : r.level.val ≤ v.level.val := hc.lowest r hr v.level v hv
    have hrunLevel := hrun.level
    have hwaitLevel := hwait.level
    rw [← href]
    rcases hle.lt_or_eq with hlt | heq
    · omega
    · have hnear := h.running r hr v ((Fin.ext heq : r.level = v.level) ▸ hv)
      rw [← hrun.received, ← hwait.received]
      exact hnear.1

end

theorem least_served {records : List Record}
    (horder : records.Pairwise fun r₁ r₂ => r₁.arrivalTime ≤ r₂.arrivalTime) {w : World MLFQInfo}
    {tr : List (Transition.Event (World MLFQInfo) Unit (Nat × Event Callback))}
    (hrun : Run (simulation mlfq records) tr w) (hok : Meets BottomInStep tr) :
    AtDispatches LeastServed w.1.history :=
  dispatches_hold (P := fun info _ => Lined near info) horder (create_lined near)
    (fun _ n _ _ hc hlined hbottom hq hmoved => moved_near hc hlined (hbottom n hq) hmoved)
    (fun _ _ _ hc hlined hjob => lined_leastServed hc hlined hjob) hrun hok

theorem least_served_two : ∃ w : World MLFQInfo,
    slices w.1.history 0 = 10 ∧ slices w.1.history 1 = 10 ∧
      AtDispatches LeastServed w.1.history := by
  obtain ⟨tr, w, hrun, hok, hfirst, hsecond⟩ := @simulation_replay _ mlfq [⟨1, 0, 12⟩, ⟨2, 0, 12⟩] 22
    (fun tr w => Meets BottomInStep tr ∧ slices w.1.history 0 = 10 ∧ slices w.1.history 1 = 10) _
    (by decide +kernel)
  exact ⟨w, hfirst, hsecond, @least_served [⟨1, 0, 12⟩, ⟨2, 0, 12⟩] (by decide) w tr hrun hok⟩

-- the second job comes to the bottom level behind the first, which has run there
theorem least_served_broken : ∃ tr, ∃ w : World MLFQInfo,
    Run (simulation mlfq [⟨1, 0, 12⟩, ⟨2, 10, 11⟩]) tr w ∧ ¬ AtDispatches LeastServed w.1.history :=
  simulation_replay 21 (fun _ w => ¬ AtDispatches LeastServed w.1.history) (by decide +kernel)

end OperatingSystems.Scheduling
