import OperatingSystems.Scheduling.Mlfq
import OperatingSystems.Scheduling.Tracking

namespace OperatingSystems.Scheduling
open Transition Buckets

def slices (history : List Turn) (ref : Nat) : Nat :=
  history.countP fun turn => turn.ran.map Job.ref = some ref

theorem slices_snoc (history : List Turn) (turn : Turn) (ref : Nat) :
    slices (history ++ [turn]) ref =
      slices history ref + if turn.ran.map Job.ref = some ref then 1 else 0 := by
  simp [slices, List.countP_append, List.countP_cons]

inductive Moved (info : MLFQInfo) (history : List Turn) :
    EventType → MLFQInfo → List Turn → Prop
  | arrival (job : Job) (now : Nat) (started : Option Job) (o : MLFQInfo × List Request) :
      job.fresh = job → job.ref ∉ (arrived history).map Job.ref → Admitted info job now o →
      (∀ r ∈ started, mlfq.running o.1 = some r) →
      Moved info history .arrival o.1 (history ++ [⟨now, some job, none, none, started⟩])
  | completion (w : MLFQJob) (now : Nat) (started : Option Job)
      (o : MLFQInfo × Option Job × List Request) : info.running = some w → Sliced info w now o →
      (∀ r ∈ started, mlfq.running o.1 = some r) →
      Moved info history .completion o.1 (history ++ [⟨now, none, some w.job, o.2.1, started⟩])

section
variable {all : List Job} {m m' : Machine MLFQInfo} {since : Nat} {n : Nat × Event Callback}

theorem advance_moved (hP : Proper mlfqDiscipline all)
    (h : Steady mlfq mlfqDiscipline all m since) (ha : Advance mlfq m n m') :
    Moved m.info m.history n.2.type m'.info m'.history := by
  cases ha with
  | arrival job rest htype _ ha hc hs =>
    obtain ⟨completion, -, rfl⟩ := Option.map_eq_some_iff.mp (Machine.arrive_eq mlfq m job rest ▸ hs)
    have hoffer := h.offer hP ha hc
    have hnew : job.ref ∉ (arrived m.history).map Job.ref := by
      have hnodup := hP.distinct
      rw [← h.all, ha, List.map_append, List.nodup_append] at hnodup
      intro hmem
      exact hnodup.2.2 _ hmem _ (List.mem_map_of_mem (List.mem_cons_self ..)) rfl
    rw [htype]
    exact .arrival job job.arrivalTime _ _ hoffer.fresh hnew hoffer.admitted
      fun r hr => dispatched_running hr
  | completion htype hc hs =>
    obtain ⟨completion, -, rfl⟩ :=
      Option.map_eq_some_iff.mp (Machine.complete_eq mlfq m n.2.timestamp ▸ hs)
    obtain ⟨r, hr, -⟩ := h.completing hc
    obtain ⟨w, hw, rfl⟩ := mlfq_running hr
    rw [htype]
    dsimp only
    rw [hr]
    exact .completion w n.2.timestamp _ _ hw (completeJob_sliced hw n.2.timestamp)
      fun r hr => dispatched_running hr

theorem Steady.held_nodup (hP : Proper mlfqDiscipline all)
    (h : Steady mlfq mlfqDiscipline all m since) :
    (m.info.held.map fun v => v.job.ref).Nodup := by
  have hnodup := h.refs_nodup hP
  rw [List.map_append, List.nodup_append] at hnodup
  simpa [mlfqDiscipline, List.map_map, Function.comp_def] using hnodup.1

theorem Steady.held_arrived (h : Steady mlfq mlfqDiscipline all m since) :
    ∀ v ∈ m.info.held, v.job.ref ∈ (arrived m.history).map Job.ref := by
  intro v hv
  have hmem : v.job ∈ mlfqDiscipline.jobs m.info := List.mem_map_of_mem hv
  exact List.mem_map.mpr (h.job_mem hmem)

end

def MLFQJob.resume (w : MLFQJob) : Option MLFQJob :=
  if 1 < w.job.remainingTime then some (w.setRemainingTime (w.job.remainingTime - 1)).demote else none

theorem demote_level (w : MLFQJob) :
    w.demote.level.val = min (maxMLFQLevels - 1) (w.level.val + 1) := by
  have hlt := w.level.isLt
  unfold MLFQJob.demote
  split
  · dsimp only
    omega
  · omega

theorem sliced_held {info : MLFQInfo} {w : MLFQJob} {now : Nat}
    {o : MLFQInfo × Option Job × List Request} (h : Sliced info w now o) :
    o.1.held.Perm (w.resume.toList ++ contents info.queues) := by
  cases h with
  | demote info' requests hrem hpicked =>
    rw [MLFQJob.resume, if_pos hrem]
    exact hpicked.held.trans (insert_contents _ _)
  | finish info' requests hrem hpicked =>
    rw [MLFQJob.resume, if_neg (not_lt.mpr hrem)]
    exact hpicked.held

structure Account (history : List Turn) (v : MLFQJob) : Prop where
  served : v.job.remainingTime + slices history v.job.ref = v.job.jobTime
  level : v.level.val = min (maxMLFQLevels - 1) (slices history v.job.ref)

structure Accounted (info : MLFQInfo) (history : List Turn) : Prop where
  known : ∀ turn ∈ history, ∀ r ∈ turn.ran, r.ref ∈ (arrived history).map Job.ref
  accounts : ∀ v ∈ info.held, Account history v

theorem create_accounted : Accounted schedulerMLFQCreate [] := by
  constructor <;> simp [schedulerMLFQCreate, MLFQInfo.held, contents]

section
variable {info info' : MLFQInfo} {history history' : List Turn} {type : EventType}

theorem Account.other {v : MLFQJob} {turn : Turn} (h : Account history v)
    (hran : ∀ r ∈ turn.ran, r.ref ≠ v.job.ref) : Account (history ++ [turn]) v := by
  have hsame : slices (history ++ [turn]) v.job.ref = slices history v.job.ref := by
    rw [slices_snoc, if_neg, Nat.add_zero]
    intro hmap
    obtain ⟨r, hr, href⟩ := Option.map_eq_some_iff.mp hmap
    exact hran r hr href
  constructor
  · rw [hsame]
    exact h.served
  · rw [hsame]
    exact h.level

theorem Account.resume {w v : MLFQJob} {turn : Turn} (h : Account history w)
    (hran : turn.ran = some w.job) (hv : w.resume = some v) : Account (history ++ [turn]) v := by
  unfold MLFQJob.resume at hv
  split at hv
  · rename_i hrem
    cases hv
    have hserved := h.served
    have hlevel := h.level
    constructor
    · rw [demote_job, slices_snoc, hran]
      simp only [MLFQJob.setRemainingTime, Option.map_some, if_true]
      omega
    · rw [demote_level, demote_job, slices_snoc, hran]
      simp only [MLFQJob.setRemainingTime, Option.map_some, if_true]
      omega
  · cases hv

theorem slices_unknown (h : Accounted info history) {ref : Nat}
    (hnew : ref ∉ (arrived history).map Job.ref) : slices history ref = 0 := by
  refine List.countP_eq_zero.mpr fun turn hturn hran => hnew ?_
  obtain ⟨r, hr, rfl⟩ := Option.map_eq_some_iff.mp (of_decide_eq_true hran)
  exact h.known turn hturn r hr

theorem moved_accounted (hnodup : (info.held.map fun v => v.job.ref).Nodup)
    (harrived : ∀ v ∈ info.held, v.job.ref ∈ (arrived history).map Job.ref)
    (h : Accounted info history) (hm : Moved info history type info' history') :
    Accounted info' history' := by
  cases hm with
  | arrival job now started o hfresh hnew hadmitted _ =>
    constructor
    · intro turn hturn r hr
      rw [arrived_append, List.map_append]
      rcases List.mem_append.mp hturn with hturn | hturn
      · exact List.mem_append_left _ (h.known turn hturn r hr)
      · cases List.mem_singleton.mp hturn
        cases hr
    · intro v hv
      rcases List.mem_cons.mp ((admitted_held hadmitted).subset hv) with rfl | hv
      · have hsize : job.jobTime = job.remainingTime := congrArg Job.remainingTime hfresh
        have hzero := slices_unknown h hnew
        have haccount : Account history ⟨job, 0⟩ := by
          constructor
          · dsimp only
            omega
          · dsimp only
            rw [hzero]
            rfl
        exact haccount.other (by simp)
      · exact (h.accounts v hv).other (by simp)
  | completion w now started o hw hsliced _ =>
    have hmem := running_mem_held hw
    constructor
    · intro turn hturn r hr
      rw [arrived_append, List.map_append]
      apply List.mem_append_left
      rcases List.mem_append.mp hturn with hturn | hturn
      · exact h.known turn hturn r hr
      · cases List.mem_singleton.mp hturn
        cases hr
        exact harrived w hmem
    · intro v hv
      rw [running_held hw, List.map_cons, List.nodup_cons] at hnodup
      rcases List.mem_append.mp ((sliced_held hsliced).subset hv) with hv | hv
      · exact (h.accounts w hmem).resume rfl (Option.mem_toList.mp hv)
      · have hheld : v ∈ info.held := by
          rw [running_held hw]
          exact List.mem_cons_of_mem _ hv
        refine (h.accounts v hheld).other ?_
        rintro r ⟨⟩ href
        exact hnodup.1 (href ▸ List.mem_map_of_mem hv)

end

structure MLFQInfo.Consistent (info : MLFQInfo) (history : List Turn) : Prop where
  unfinished : (info.held.map fun v => v.job.fresh).Perm (unfinishedJobs history)
  once : (info.held.map fun v => v.job.ref).Nodup
  accounts : ∀ v ∈ info.held, Account history v
  placed : ∀ l, ∀ v ∈ info.queues l, v.level = l
  lowest : ∀ r ∈ info.running, ∀ l, ∀ v ∈ info.queues l, r.level ≤ v.level
  idle : info.running = none → ∀ l, info.queues l = []

section
variable {all : List Job} {m : Machine MLFQInfo} {since : Nat} {w : World MLFQInfo}

theorem mlfq_slice_lt (job : Job) : mlfqDiscipline.slice job < 2 ^ 64 :=
  (slice_le_one job).trans_lt (by decide)

theorem steady_consistent (hP : Proper mlfqDiscipline all)
    (h : Steady mlfq mlfqDiscipline all m since) (ha : Accounted m.info m.history) :
    m.info.Consistent m.history := by
  have hinv := h.settled.inv
  refine ⟨?_, h.held_nodup hP, ha.accounts, hinv.placed, fun r hr l v hv => ?_, hinv.idle⟩
  · have hperm := h.unfinished_fresh hP
    rwa [show mlfqDiscipline.jobs m.info = m.info.held.map MLFQJob.job from rfl, List.map_map] at hperm
  · rw [hinv.placed l v hv]
    exact hinv.lowest r hr l (List.ne_nil_of_mem hv)

theorem mlfq_tracked {records : List Record} {P : MLFQInfo → List Turn → Prop}
    {ok : World MLFQInfo → Unit → Prop}
    {tr : List (Transition.Event (World MLFQInfo) Unit (Nat × Event Callback))}
    (horder : records.Pairwise fun r₁ r₂ => r₁.arrivalTime ≤ r₂.arrivalTime)
    (base : P schedulerMLFQCreate [])
    (ind : ∀ w n info' history', w.1.scheduler.schedulerInfo.Consistent w.1.history →
      P w.1.scheduler.schedulerInfo w.1.history → ok w () → w.2.queue.head? = some n →
      Moved w.1.scheduler.schedulerInfo w.1.history n.2.type info' history' →
      info'.Consistent history' → P info' history')
    (hrun : Run (simulation mlfq records) tr w) (hok : Meets ok tr) :
    ∃ m since, Models [] w m ∧ Steady mlfq mlfqDiscipline (jobsOf 0 records) m since ∧
      m.info.Consistent m.history ∧ P m.info m.history := by
  have hP : Proper mlfqDiscipline (jobsOf 0 records) := jobsOf_proper horder fun _ _ => trivial
  obtain ⟨m, since, hm, h, ha, hp⟩ := run_tracked
    (P := fun m => Accounted m.info m.history ∧ P m.info m.history) mlfq_lawful hP
    mlfq_slice_lt ⟨create_accounted, base⟩
    (fun w m since n m' since' hm h ⟨ha, hp⟩ hok hq hadvance h' => by
      have hmoved := advance_moved hP h hadvance
      have ha' := moved_accounted (h.held_nodup hP) h.held_arrived ha hmoved
      have hc := steady_consistent hP h ha
      rw [← hm.info, ← hm.history] at hmoved hc hp
      exact ⟨ha', ind w n _ _ hc hp hok hq hmoved (steady_consistent hP h' ha')⟩) hrun hok
  exact ⟨m, since, hm, h, steady_consistent hP h ha, hp⟩

end

theorem mlfq_consistent {records : List Record}
    (horder : records.Pairwise fun r₁ r₂ => r₁.arrivalTime ≤ r₂.arrivalTime)
    {w : World MLFQInfo} (hw : Reachable (simulation mlfq records) w) :
    w.1.scheduler.schedulerInfo.Consistent w.1.history ∧
      ∀ n ∈ w.2.queue.head?, n.2.type = .arrival →
        ∀ r ∈ w.1.scheduler.schedulerInfo.running, 0 < r.level →
          wrap (n.2.timestamp + 2 ^ 64 - w.1.scheduler.schedulerInfo.lastTime) = 0 ∧
          ∃ h₁ turn h₂, w.1.history = h₁ ++ turn :: h₂ ∧ turn.started = some r.job ∧
            turn.time = n.2.timestamp ∧ ∀ t ∈ h₂, t.started = none := by
  obtain ⟨tr, hrun⟩ := hw
  have hP : Proper mlfqDiscipline (jobsOf 0 records) := jobsOf_proper horder fun _ _ => trivial
  have hall : Meets (fun _ _ => True) tr := fun _ _ => trivial
  obtain ⟨m, since, hm, h, hconsistent, -⟩ :=
    mlfq_tracked (P := fun _ _ => True) horder trivial (by simp) hrun hall
  rw [hm.info, hm.history]
  refine ⟨hconsistent, fun n hn htype r hr hlevel => ?_⟩
  obtain ⟨rest, hq⟩ := List.head?_eq_some_iff.mp hn
  rcases first_event hm hq with ⟨-, -, job, rest, ha, -, htime, hc⟩ | ⟨hcompletion, -⟩
  · have hoffer := h.offer hP ha hc
    have hnow : job.arrivalTime = since :=
      displaced_at_once hoffer.since_le (hoffer.running_early r hr)
    have hlast : m.info.lastTime = since := h.settled.inv.dispatch (Option.ne_none_iff_exists'.mpr ⟨r, hr⟩)
    have hrunning : r.job ∈ mlfq.running m.info := by simp [mlfq, Option.mem_def.mp hr]
    obtain ⟨h₁, turn, h₂, hsplit, hstarted, hturn, hquiet⟩ := h.dispatch r.job hrunning
    constructor
    · rw [htime, hnow, hlast, Nat.add_sub_cancel_left]
      decide
    · refine ⟨h₁, turn, h₂, hsplit, hstarted, ?_, fun t ht => (hquiet t ht).started⟩
      rw [hturn, htime, hnow]
  · rw [htype] at hcompletion
    cases hcompletion

-- the second job arrives at the end of a slice of the first
theorem mlfq_consistent_two : ∃ w : World MLFQInfo,
    w.1.scheduler.schedulerInfo.Consistent w.1.history ∧
      ∃ n r, w.2.queue.head? = some n ∧ w.1.scheduler.schedulerInfo.running = some r ∧
        r.level = 1 ∧
        wrap (n.2.timestamp + 2 ^ 64 - w.1.scheduler.schedulerInfo.lastTime) = 0 := by
  obtain ⟨tr, w, hrun, hn, hr⟩ := @simulation_replay _ mlfq [⟨1, 0, 2⟩, ⟨2, 1, 1⟩] 2
    (fun _ w => w.2.queue.head?.any (fun n => n.2.type = .arrival) ∧
      w.1.scheduler.schedulerInfo.running.any fun r => r.level = 1) _ (by decide +kernel)
  obtain ⟨n, hn, htype⟩ := (Option.any_eq_true _ _).mp hn
  obtain ⟨r, hr, hlevel⟩ := (Option.any_eq_true _ _).mp hr
  have hlevel : r.level = 1 := of_decide_eq_true hlevel
  obtain ⟨hconsistent, hdisplaced⟩ := @mlfq_consistent [⟨1, 0, 2⟩, ⟨2, 1, 1⟩] (by decide) w ⟨tr, hrun⟩
  obtain ⟨hwrap, -⟩ := hdisplaced n hn (of_decide_eq_true htype) r hr (by rw [hlevel]; decide)
  exact ⟨w, hconsistent, n, r, hn, hr, hlevel, hwrap⟩

end OperatingSystems.Scheduling
