import OperatingSystems.Library.Buckets
import OperatingSystems.Scheduling.Policies
import OperatingSystems.Scheduling.TraceRun

namespace OperatingSystems.Scheduling
open Transition BusyPeriod Buckets

def MLFQInfo.held (info : MLFQInfo) : List MLFQJob := info.running.toList ++ contents info.queues

structure MLFQInfo.Inv (info : MLFQInfo) (since : Nat) : Prop where
  placed : ∀ l, ∀ w ∈ info.queues l, w.level = l
  lowest : ∀ r ∈ info.running, ∀ l, info.queues l ≠ [] → r.level ≤ l
  idle : info.running = none → ∀ l, info.queues l = []
  dispatch : info.running ≠ none → info.lastTime = since

def mlfqDiscipline : Discipline MLFQInfo where
  jobs := fun info => info.held.map MLFQJob.job
  slice := fun job => if job.remainingTime < 1 then job.remainingTime else 1
  Fits := fun _ => True
  Inv := MLFQInfo.Inv

theorem highest_none {queues : Fin maxMLFQLevels → List MLFQJob} (h : highest queues = none)
    (l : Fin maxMLFQLevels) : queues l = [] := by
  have hl := List.findSome?_eq_none_iff.mp h l (List.mem_finRange l)
  cases hq : queues l with
  | nil => rfl
  | cons next rest => simp [hq] at hl

theorem highest_some {queues : Fin maxMLFQLevels → List MLFQJob} {l : Fin maxMLFQLevels}
    {next : MLFQJob} {rest : List MLFQJob} (h : highest queues = some (l, next, rest)) :
    queues l = next :: rest ∧ ∀ l' < l, queues l' = [] := by
  obtain ⟨l₁, k, l₂, hsplit, hk, hbefore⟩ := List.findSome?_eq_some_iff.mp h
  have hkl : queues l = next :: rest ∧ k = l := by
    split at hk
    · cases hk
    · rename_i hq
      cases hk
      exact ⟨hq, rfl⟩
  refine ⟨hkl.1, fun l' hlt => ?_⟩
  have hsorted := List.pairwise_lt_finRange maxMLFQLevels
  have hmem : l' ∈ l₁ ++ k :: l₂ := hsplit ▸ List.mem_finRange l'
  rw [hsplit, hkl.2] at hsorted
  rw [hkl.2] at hmem
  rcases List.mem_append.mp hmem with hmem | hmem
  · have hnone := hbefore l' hmem
    cases hq : queues l' with
    | nil => rfl
    | cons next rest => simp [hq] at hnone
  · rcases List.mem_cons.mp hmem with rfl | hmem
    · exact absurd hlt (lt_irrefl _)
    · have := (List.pairwise_cons.mp (List.pairwise_append.mp hsorted).2.1).1 l' hmem
      exact absurd hlt this.not_gt

-- what `schedule_next` does
inductive Picked (info : MLFQInfo) (now : Nat) : MLFQInfo × List Request → Prop
  | none : (∀ l, info.queues l = []) → Picked info now ({ info with running := none }, [])
  | some (l : Fin maxMLFQLevels) (next : MLFQJob) (rest : List MLFQJob) :
      info.queues l = next :: rest → (∀ l' < l, info.queues l' = []) →
      Picked info now
        ({ queues := Function.update info.queues l rest, running := some next, lastTime := now },
          [grant mlfqDiscipline now next.job])

theorem scheduleNext_picked (info : MLFQInfo) (now : Nat) :
    Picked info now (scheduleNext info now) := by
  unfold scheduleNext
  cases h : highest info.queues with
  | none => exact .none (highest_none h)
  | some r =>
    obtain ⟨l, next, rest⟩ := r
    obtain ⟨hqueue, hbefore⟩ := highest_some h
    exact .some l next rest hqueue hbefore

section
variable {info info' : MLFQInfo} {now since : Nat} {requests : List Request}

theorem Picked.held (h : Picked info now (info', requests)) :
    info'.held.Perm (contents info.queues) := by
  cases h with
  | none hnil => simp [MLFQInfo.held, contents_nil.mpr hnil]
  | some l next rest hqueue _ => exact contents_pop hqueue

theorem Picked.grants (h : Picked info now (info', requests)) :
    requests = (mlfq.running info').toList.map (grant mlfqDiscipline now) := by
  cases h <;> rfl

theorem Picked.inv (h : Picked info now (info', requests))
    (hplaced : ∀ l, ∀ w ∈ info.queues l, w.level = l) : info'.Inv now := by
  cases h with
  | none hnil => exact ⟨hplaced, by simp, fun _ => hnil, by simp⟩
  | some l next rest hqueue hbefore =>
    have hnext : next.level = l := hplaced l next (by simp [hqueue])
    have hqueues : ∀ l' w, w ∈ Function.update info.queues l rest l' → w ∈ info.queues l' := by
      intro l' w hw
      rcases eq_or_ne l' l with rfl | hne
      · rw [Function.update_self] at hw
        rw [hqueue]
        exact List.mem_cons_of_mem _ hw
      · rwa [Function.update_of_ne hne] at hw
    refine ⟨fun l' w hw => hplaced l' w (hqueues l' w hw), ?_, by simp, by simp⟩
    rintro r ⟨⟩ l' hne
    obtain ⟨w, hw⟩ := List.exists_mem_of_ne_nil _ hne
    rw [hnext]
    by_contra hlt
    have hempty := hbefore l' (not_le.mp hlt)
    have hmem := hqueues l' w hw
    rw [hempty] at hmem
    cases hmem

theorem insert_placed (h : ∀ l, ∀ w ∈ info.queues l, w.level = l) (w : MLFQJob) :
    ∀ l, ∀ v ∈ (info.insert w).queues l, v.level = l := by
  intro l v hv
  simp only [MLFQInfo.insert] at hv
  rcases eq_or_ne l w.level with rfl | hne
  · rw [Function.update_self] at hv
    rcases List.mem_append.mp hv with hv | hv
    · exact h _ v hv
    · rw [List.mem_singleton.mp hv]
  · rw [Function.update_of_ne hne] at hv
    exact h l v hv

theorem insert_contents (info : MLFQInfo) (w : MLFQJob) :
    (contents (info.insert w).queues).Perm (w :: contents info.queues) :=
  contents_push info.queues w.level w

theorem picked_zero {job : Job} {o : MLFQInfo × List Request} (hnil : info.queues 0 = [])
    (h : Picked (info.insert ⟨job, 0⟩) now o) :
    o = ({ queues := info.queues, running := some ⟨job, 0⟩, lastTime := now },
      [grant mlfqDiscipline now job]) := by
  have hzero : (info.insert ⟨job, 0⟩).queues 0 = [⟨job, 0⟩] := by simp [MLFQInfo.insert, hnil]
  cases h with
  | none hempty =>
    have := hempty 0
    rw [hzero] at this
    cases this
  | some l next rest hqueue hbefore =>
    have hl : l = 0 := by
      by_contra hne
      have := hbefore 0 (Fin.pos_iff_ne_zero.mpr hne)
      rw [hzero] at this
      cases this
    rw [hl, hzero] at hqueue
    cases hqueue
    rw [hl]
    simp only [MLFQInfo.insert, Function.update_idem]
    rw [← hnil, Function.update_eq_self]

end

inductive Admitted (info : MLFQInfo) (job : Job) (now : Nat) : MLFQInfo × List Request → Prop
  | idle : info.running = none →
      Admitted info job now ({ info with running := some ⟨job, 0⟩, lastTime := now },
        [grant mlfqDiscipline now job])
  | wait (r : MLFQJob) : info.running = some r → r.level = 0 →
      Admitted info job now (info.insert ⟨job, 0⟩, [])
  | displace (r : MLFQJob) : info.running = some r → 0 < r.level →
      Admitted info job now ({ info.insert r with running := some ⟨job, 0⟩, lastTime := now },
        [.cancelNextCompletion, grant mlfqDiscipline now job])

section
variable {info : MLFQInfo} {since now : Nat}

theorem slice_le_one (job : Job) : mlfqDiscipline.slice job ≤ 1 := by
  simp only [mlfqDiscipline]
  split <;> omega

theorem displaced_at_once {job : Job} (hle : since ≤ now)
    (hlt : now < since + mlfqDiscipline.slice job) : now = since := by
  have := slice_le_one job
  omega

theorem scheduleJob_admitted (hinv : info.Inv since) (job : Job) (hle : since ≤ now)
    (hearly : ∀ r ∈ info.running, now < since + mlfqDiscipline.slice r.job) :
    Admitted info job now (schedulerMLFQScheduleJob info job now) := by
  unfold schedulerMLFQScheduleJob
  have hrunning : (info.insert ⟨job, 0⟩).running = info.running := rfl
  cases hr : info.running with
  | none =>
    simp only [hrunning, hr]
    rw [picked_zero (hinv.idle hr 0) (scheduleNext_picked _ now)]
    exact .idle hr
  | some r =>
    simp only [hrunning, hr]
    split
    · rename_i hlevel
      have hsince : info.lastTime = now := by
        rw [displaced_at_once hle (hearly r hr)]
        exact hinv.dispatch (by simp [hr])
      have hrun : wrap (now + 2 ^ 64 - (info.insert ⟨job, 0⟩).lastTime) = 0 := by
        have hlast : (info.insert ⟨job, 0⟩).lastTime = now := hsince
        rw [hlast, Nat.add_sub_cancel_left]
        decide
      have hstays : r.displace 0 = r := rfl
      have hzero : info.queues 0 = [] := by
        by_contra hne
        exact absurd (hinv.lowest r hr 0 hne) (not_le.mpr hlevel)
      have hne : r.level ≠ 0 := (Fin.pos_iff_ne_zero).mp hlevel
      have hswap : ({ (info.insert ⟨job, 0⟩).insert r with running := none } : MLFQInfo) =
          ({ info.insert r with running := none } : MLFQInfo).insert ⟨job, 0⟩ := by
        simp [MLFQInfo.insert, Function.update_of_ne hne, Function.update_of_ne hne.symm,
          Function.update_comm hne.symm]
      have hzero' : ({ info.insert r with running := none } : MLFQInfo).queues 0 = [] := by
        simp [MLFQInfo.insert, Function.update_of_ne hne.symm, hzero]
      rw [hrun, hstays, hswap, picked_zero hzero' (scheduleNext_picked _ now)]
      exact .displace r hr hlevel
    · rename_i hlevel
      exact .wait r hr (Fin.ext (Nat.le_zero.mp (not_lt.mp hlevel)))

end

inductive Sliced (info : MLFQInfo) (w : MLFQJob) (now : Nat) :
    MLFQInfo × Option Job × List Request → Prop
  | demote (info' : MLFQInfo) (requests : List Request) : 1 < w.job.remainingTime →
      Picked ({ info with running := none }.insert
        (w.setRemainingTime (w.job.remainingTime - 1)).demote) now (info', requests) →
      Sliced info w now (info', none, requests)
  | finish (info' : MLFQInfo) (requests : List Request) : w.job.remainingTime ≤ 1 →
      Picked { info with running := none } now (info', requests) →
      Sliced info w now (info', some (w.setRemainingTime 0).job, requests)

theorem completeJob_sliced {info : MLFQInfo} {w : MLFQJob} (hw : info.running = some w) (now : Nat) :
    Sliced info w now (schedulerMLFQCompleteJob info now) := by
  unfold schedulerMLFQCompleteJob
  simp only [hw]
  split
  · rename_i hrem
    exact .demote _ _ hrem (scheduleNext_picked _ now)
  · rename_i hrem
    exact .finish _ _ (not_lt.mp hrem) (scheduleNext_picked _ now)

theorem demote_job (w : MLFQJob) : w.demote.job = w.job := by
  unfold MLFQJob.demote
  split <;> rfl

theorem mlfq_running {info : MLFQInfo} {r : Job} (h : mlfq.running info = some r) :
    ∃ w, info.running = some w ∧ w.job = r := Option.map_eq_some_iff.mp h

theorem running_held {info : MLFQInfo} {w : MLFQJob} (hw : info.running = some w) :
    info.held = w :: contents info.queues := by
  rw [MLFQInfo.held, hw]
  rfl

theorem running_mem_held {info : MLFQInfo} {w : MLFQJob} (hw : info.running = some w) :
    w ∈ info.held := by
  rw [running_held hw]
  exact List.mem_cons_self ..

theorem admitted_inv {info : MLFQInfo} {since now : Nat} {job : Job} {o : MLFQInfo × List Request}
    (hinv : info.Inv since) (h : Admitted info job now o) :
    o.1.Inv (if o.2 = [] then since else now) := by
  have hzero : ∀ (l : Fin maxMLFQLevels), (0 : Fin maxMLFQLevels) ≤ l := fun l => Fin.zero_le l
  cases h with
  | idle hr =>
    refine ⟨hinv.placed, ?_, by simp, by simp⟩
    rintro _ ⟨⟩ l _
    exact hzero l
  | wait r hr hlevel =>
    refine ⟨insert_placed hinv.placed _, ?_, ?_, hinv.dispatch⟩
    · intro r' hr' l _
      obtain rfl : r = r' := Option.some.inj (hr.symm.trans hr')
      rw [hlevel]
      exact hzero l
    · intro hnone
      exact absurd (hr.symm.trans hnone) (by simp)
  | displace r hr hlevel =>
    refine ⟨insert_placed hinv.placed r, ?_, by simp, by simp⟩
    rintro _ ⟨⟩ l _
    exact hzero l

theorem admitted_held {info : MLFQInfo} {now : Nat} {job : Job} {o : MLFQInfo × List Request}
    (h : Admitted info job now o) : o.1.held.Perm (⟨job, 0⟩ :: info.held) := by
  cases h with
  | idle hr => simp [MLFQInfo.held, hr]
  | wait r hr _ =>
    have hr' : (info.insert ⟨job, 0⟩).running = some r := hr
    rw [running_held hr, running_held hr']
    exact ((insert_contents info ⟨job, 0⟩).cons r).trans (.swap _ _ _)
  | displace r hr _ =>
    rw [running_held hr]
    exact (insert_contents info r).cons ⟨job, 0⟩

theorem Offer.running_early {info : MLFQInfo} {since now : Nat} {job : Job}
    (h : Offer mlfq mlfqDiscipline info since job now) :
    ∀ r ∈ info.running, now < since + mlfqDiscipline.slice r.job :=
  fun r hr => h.early r.job (by simp [mlfq, Option.mem_def.mp hr])

theorem Offer.admitted {info : MLFQInfo} {since now : Nat} {job : Job}
    (h : Offer mlfq mlfqDiscipline info since job now) :
    Admitted info job now (mlfq.scheduleJob info job now) :=
  scheduleJob_admitted h.inv job h.since_le h.running_early

theorem running_sliced {info : MLFQInfo} {r : Job} (hr : mlfq.running info = some r) (now : Nat) :
    ∃ w, info.running = some w ∧ w.job = r ∧ Sliced info w now (mlfq.completeJob info now) := by
  obtain ⟨w, hw, hjob⟩ := mlfq_running hr
  exact ⟨w, hw, hjob, completeJob_sliced hw now⟩

theorem mlfq_lawful : Lawful mlfq mlfqDiscipline := by
  constructor
  case slice_le =>
    intro job
    simp only [mlfqDiscipline]
    split <;> omega
  case create_jobs => simp [mlfqDiscipline, mlfq, schedulerMLFQCreate, MLFQInfo.held, contents]
  case create_inv => constructor <;> simp [mlfq, schedulerMLFQCreate]
  case idle =>
    intro info since hinv
    have hrunning : mlfq.running info = none ↔ info.running = none := Option.map_eq_none_iff
    rw [hrunning]
    constructor
    · intro hnone
      simp [mlfqDiscipline, MLFQInfo.held, hnone, contents_nil.mpr (hinv.idle hnone)]
    · intro hnil
      have hheld : info.held = [] := List.map_eq_nil_iff.mp hnil
      exact Option.toList_eq_nil_iff.mp (List.append_eq_nil_iff.mp hheld).1
  case running_mem =>
    intro info since r _ hr
    obtain ⟨w, hw, rfl⟩ := mlfq_running hr
    exact List.mem_map_of_mem (running_mem_held hw)
  case accepts =>
    intro info since job now hoffer
    have hadmitted := hoffer.admitted
    have hinv := admitted_inv hoffer.inv hadmitted
    generalize mlfq.scheduleJob info job now = o at hadmitted hinv
    cases hadmitted with
    | idle hr => exact .start _ (by simp [mlfq, hr]) rfl hinv
    | wait r hr _ => exact .wait _ (by simp [mlfq, hr]) rfl hinv
    | displace r hr _ =>
      exact .displace _ (by simp [mlfq, hr])
        (displaced_at_once hoffer.since_le (hoffer.running_early r hr)) rfl hinv
  case accepts_jobs =>
    intro info since job now hoffer
    exact (admitted_held hoffer.admitted).map MLFQJob.job
  case serves =>
    intro info since r hinv hr
    obtain ⟨w, hw, rfl, hsliced⟩ := running_sliced hr (since + mlfqDiscipline.slice r)
    generalize mlfq.completeJob info (since + mlfqDiscipline.slice w.job) = o at hsliced
    have hheld : (info.held.map MLFQJob.job).Perm
        (w.job :: (contents info.queues).map MLFQJob.job) := by
      rw [running_held hw]
      rfl
    cases hsliced with
    | demote info' requests hrem hpicked =>
      have hslice : mlfqDiscipline.slice w.job = 1 := by
        simp only [mlfqDiscipline]
        rw [if_neg (by omega)]
      refine .slice info' _ (by omega) (by omega) hheld ?_
      have hperm := (hpicked.held.trans (insert_contents _ _)).map MLFQJob.job
      rw [List.map_cons, demote_job] at hperm
      rw [hslice]
      exact hperm
    | finish info' requests hrem hpicked =>
      have hslice : mlfqDiscipline.slice w.job = w.job.remainingTime := by
        simp only [mlfqDiscipline]
        split <;> omega
      exact .finish info' _ rfl hslice (hheld.trans ((hpicked.held.map MLFQJob.job).symm.cons _))
  case serves_inv =>
    intro info since r hinv hr
    obtain ⟨w, hw, rfl, hsliced⟩ := running_sliced hr (since + mlfqDiscipline.slice r)
    generalize mlfq.completeJob info (since + mlfqDiscipline.slice w.job) = o at hsliced
    cases hsliced with
    | demote info' requests _ hpicked => exact hpicked.inv (insert_placed hinv.placed _)
    | finish info' requests _ hpicked => exact hpicked.inv hinv.placed
  case serves_next =>
    intro info since r hinv hr
    obtain ⟨w, hw, rfl, hsliced⟩ := running_sliced hr (since + mlfqDiscipline.slice r)
    generalize mlfq.completeJob info (since + mlfqDiscipline.slice w.job) = o at hsliced
    cases hsliced with
    | demote info' requests _ hpicked => exact hpicked.grants
    | finish info' requests _ hpicked => exact hpicked.grants

end OperatingSystems.Scheduling
