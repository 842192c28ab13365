import OperatingSystems.Scheduling.MlfqOrder

namespace OperatingSystems.Scheduling
open Transition Buckets

def Turn.enters (turn : Turn) (ref : Nat) : Bool :=
  turn.arrived.map Job.ref = some ref ∨ turn.ran.map Job.ref = some ref

def entry (history : List Turn) (ref : Nat) : Nat :=
  history.length - history.reverse.findIdx fun turn => turn.enters ref

def level (history : List Turn) (ref : Nat) : Nat := min (maxMLFQLevels - 1) (slices history ref)

def EnteredFirst (history : List Turn) (job : Job) : Prop :=
  ∀ other ∈ unfinishedJobs history, other.ref ≠ job.ref →
    level history other.ref = level history job.ref → entry history job.ref < entry history other.ref

instance (history : List Turn) (job : Job) : Decidable (EnteredFirst history job) :=
  inferInstanceAs (Decidable (∀ other ∈ unfinishedJobs history, _))

-- when an arrival displaces the running job, no other job waits at its level
def DisplacesAlone (w : World MLFQInfo) (_ : Unit) : Prop :=
  ∀ n ∈ w.2.queue.head?, n.2.type = .arrival →
    ∀ r ∈ w.1.scheduler.schedulerInfo.running, 0 < r.level →
      w.1.scheduler.schedulerInfo.queues r.level = []

instance (w : World MLFQInfo) (a : Unit) : Decidable (DisplacesAlone w a) :=
  inferInstanceAs (Decidable (∀ n ∈ w.2.queue.head?, _))

theorem entry_snoc (history : List Turn) (turn : Turn) (ref : Nat) :
    entry (history ++ [turn]) ref =
      if turn.enters ref then history.length + 1 else entry history ref := by
  simp only [entry, List.reverse_append, List.reverse_singleton, List.singleton_append,
    List.findIdx_cons, List.length_append, List.length_singleton]
  cases turn.enters ref
  · simp only [cond_false, Bool.false_eq_true, if_false]
    omega
  · rfl

theorem entry_le (history : List Turn) (ref : Nat) : entry history ref ≤ history.length :=
  Nat.sub_le _ _

def earlier (history : List Turn) (a b : MLFQJob) : Prop :=
  entry history a.job.ref < entry history b.job.ref

section
variable {info info' : MLFQInfo} {history history' : List Turn} {turn : Turn}

theorem earlier_other {a b : MLFQJob} (ha : ¬ turn.enters a.job.ref) (hb : ¬ turn.enters b.job.ref)
    (h : earlier history a b) : earlier (history ++ [turn]) a b := by
  unfold earlier at *
  rwa [entry_snoc, entry_snoc, if_neg ha, if_neg hb]

theorem earlier_enters {a b : MLFQJob} (ha : ¬ turn.enters a.job.ref) (hb : turn.enters b.job.ref) :
    earlier (history ++ [turn]) a b := by
  unfold earlier
  rw [entry_snoc, entry_snoc, if_neg ha, if_pos hb]
  exact Nat.lt_succ_of_le (entry_le history _)

theorem resume_ref {w w' : MLFQJob} (h : w.resume = some w') : w'.job.ref = w.job.ref := by
  unfold MLFQJob.resume at h
  split at h
  · cases h
    rw [demote_job]
    rfl
  · cases h

theorem moved_earlier {type : EventType} (hc : info.Consistent history)
    (h : Lined (earlier history) info)
    (halone : type = .arrival → ∀ r ∈ info.running, 0 < r.level → info.queues r.level = [])
    (hm : Moved info history type info' history') : Lined (earlier history') info' := by
  cases hm with
  | arrival job now started o hfresh hnew hadmitted _ =>
    have hothers : ∀ v ∈ info.held,
        ¬ (⟨now, some job, none, none, started⟩ : Turn).enters v.job.ref := by
      intro v hv henters
      have hsame : job.ref = v.job.ref := by simpa [Turn.enters] using henters
      exact hnew (hsame ▸ hc.arrived hv)
    have hold := h.mono fun a ha b hb => earlier_other (hothers a ha) (hothers b hb)
    refine admitted_lined hc hold (fun v hv _ => ?_) (fun r hr hlevel v hv => ?_) hadmitted
    · exact earlier_enters (hothers v hv) (by simp [Turn.enters])
    · rw [halone rfl r hr hlevel] at hv
      cases hv
  | completion w now started o hw hsliced _ =>
    have hnodup := hc.once
    rw [running_held hw, List.map_cons, List.nodup_cons] at hnodup
    have hothers : ∀ l, ∀ v ∈ info.queues l,
        ¬ (⟨now, none, some w.job, o.2.1, started⟩ : Turn).enters v.job.ref := by
      intro l v hv henters
      have hsame : w.job.ref = v.job.ref := by simpa [Turn.enters] using henters
      exact hnodup.1 (hsame ▸ List.mem_map_of_mem (f := fun v : MLFQJob => v.job.ref)
        (mem_contents.mpr ⟨l, hv⟩))
    refine sliced_lined hc (fun l => ?_) (fun w' hw' v hv => ?_) hsliced
    · exact (h.queue l).imp_of_mem fun ha hb => earlier_other (hothers l _ ha) (hothers l _ hb)
    · refine earlier_enters (hothers _ v hv) ?_
      simp [Turn.enters, resume_ref hw']

theorem lined_enteredFirst (hc : info.Consistent history) (h : Lined (earlier history) info)
    {job : Job} (hjob : mlfq.running info = some job) : EnteredFirst history job := by
  obtain ⟨r, hr, rfl⟩ := mlfq_running hjob
  intro other ho hne hlevel
  obtain ⟨v, hv, href⟩ := hc.waits hr ho hne
  have hsame : v.level = r.level := by
    apply Fin.ext
    rw [(hc.accounts v (queue_held hv)).level, (hc.accounts r (running_mem_held hr)).level, href]
    exact hlevel
  rw [← href]
  exact h.running r hr v (hsame ▸ hv)

end

theorem round_robin {records : List Record}
    (horder : records.Pairwise fun r₁ r₂ => r₁.arrivalTime ≤ r₂.arrivalTime) {w : World MLFQInfo}
    {tr : List (Transition.Event (World MLFQInfo) Unit (Nat × Event Callback))}
    (hrun : Run (simulation mlfq records) tr w) (hok : Meets DisplacesAlone tr) :
    AtDispatches EnteredFirst w.1.history :=
  dispatches_hold (P := fun info history => Lined (earlier history) info) horder (create_lined _)
    (fun _ n _ _ hc hlined halone hq hmoved => moved_earlier hc hlined (halone n hq) hmoved)
    (fun _ _ _ hc hlined hjob => lined_enteredFirst hc hlined hjob) hrun hok

theorem round_robin_two : ∃ w : World MLFQInfo,
    started w.1.history = [⟨0, 0, 3, 3, 1⟩, ⟨0, 0, 3, 2, 1⟩, ⟨1, 1, 2, 2, 2⟩, ⟨0, 0, 3, 2, 1⟩,
      ⟨1, 1, 2, 1, 2⟩] ∧ AtDispatches EnteredFirst w.1.history := by
  obtain ⟨tr, w, hrun, hok, hstarted⟩ := @simulation_replay _ mlfq [⟨1, 0, 3⟩, ⟨2, 1, 2⟩] 5
    (fun tr w => Meets DisplacesAlone tr ∧ started w.1.history = [⟨0, 0, 3, 3, 1⟩, ⟨0, 0, 3, 2, 1⟩,
      ⟨1, 1, 2, 2, 2⟩, ⟨0, 0, 3, 2, 1⟩, ⟨1, 1, 2, 1, 2⟩]) _ (by decide +kernel)
  exact ⟨w, hstarted, @round_robin [⟨1, 0, 3⟩, ⟨2, 1, 2⟩] (by decide) w tr hrun hok⟩

-- the first job is displaced before it runs its second slice, and comes back behind the second job
theorem round_robin_broken : ∃ tr, ∃ w : World MLFQInfo,
    Run (simulation mlfq [⟨1, 0, 2⟩, ⟨2, 0, 2⟩, ⟨3, 2, 1⟩]) tr w ∧
      ¬ AtDispatches EnteredFirst w.1.history :=
  simulation_replay 6 (fun _ w => ¬ AtDispatches EnteredFirst w.1.history) (by decide +kernel)

end OperatingSystems.Scheduling
