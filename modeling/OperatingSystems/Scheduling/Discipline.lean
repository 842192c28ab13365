import Mathlib.Algebra.Order.BigOperators.Group.List
import Mathlib.Algebra.Order.Group.Nat
import OperatingSystems.Library.BusyPeriod
import OperatingSystems.Scheduling.Refinement

namespace OperatingSystems.Scheduling
open Transition BusyPeriod

variable {ι : Type}

def Job.fresh (job : Job) : Job := { job with remainingTime := job.jobTime }

def Job.serve (job : Job) (time : Nat) : Job :=
  { job with remainingTime := job.remainingTime - time }

def work (jobs : List Job) : List (Nat × Nat) := jobs.map fun job => (job.arrivalTime, job.jobTime)

def backlog (jobs : List Job) : Nat := (jobs.map Job.remainingTime).sum

-- the unfinished jobs that a policy holds, how long the processor is given to one of them, and the
-- invariant of its data when the last job was started at `since`
structure Discipline (ι : Type) where
  jobs : ι → List Job
  slice : Job → Nat
  Fits : Job → Prop
  Inv : ι → Nat → Prop

variable {p : Policy ι} {D : Discipline ι}

def grant (D : Discipline ι) (now : Nat) (job : Job) : Request :=
  .scheduleNextCompletion (wrap (now + D.slice job))

structure Offer (p : Policy ι) (D : Discipline ι) (info : ι) (since : Nat) (job : Job) (now : Nat) :
    Prop where
  inv : D.Inv info since
  fits : D.Fits job
  fresh : job.fresh = job
  distinct : ∀ i ∈ D.jobs info, i.ref ≠ job.ref
  since_le : since ≤ now
  early : ∀ r ∈ p.running info, now < since + D.slice r

inductive Accepts (p : Policy ι) (D : Discipline ι) (info : ι) (since : Nat) (job : Job)
    (now : Nat) : ι × List Request → Prop
  | wait (info' : ι) : p.running info ≠ none → p.running info' = p.running info →
      D.Inv info' since → Accepts p D info since job now (info', [])
  | start (info' : ι) : p.running info = none → p.running info' = some job →
      D.Inv info' now → Accepts p D info since job now (info', [grant D now job])
  | displace (info' : ι) : p.running info ≠ none → now = since → p.running info' = some job →
      D.Inv info' now →
      Accepts p D info since job now (info', [.cancelNextCompletion, grant D now job])

inductive Serves (D : Discipline ι) (info : ι) (ran : Job) : ι × Option Job → Prop
  | slice (info' : ι) (rest : List Job) : 0 < D.slice ran → D.slice ran < ran.remainingTime →
      (D.jobs info).Perm (ran :: rest) → (D.jobs info').Perm (ran.serve (D.slice ran) :: rest) →
      Serves D info ran (info', none)
  | finish (info' : ι) (job : Job) : job.fresh = ran.fresh → D.slice ran = ran.remainingTime →
      (D.jobs info).Perm (ran :: D.jobs info') → Serves D info ran (info', some job)

-- what the four policies have in common: no time and no job is lost
structure Lawful (p : Policy ι) (D : Discipline ι) : Prop where
  slice_le : ∀ job, D.slice job ≤ job.remainingTime
  create_jobs : D.jobs p.create = []
  create_inv : D.Inv p.create 0
  idle : ∀ {info since}, D.Inv info since → (p.running info = none ↔ D.jobs info = [])
  running_mem : ∀ {info since r}, D.Inv info since → p.running info = some r → r ∈ D.jobs info
  accepts : ∀ {info since job now}, Offer p D info since job now →
    Accepts p D info since job now (p.scheduleJob info job now)
  accepts_jobs : ∀ {info since job now}, Offer p D info since job now →
    (D.jobs (p.scheduleJob info job now).1).Perm (job :: D.jobs info)
  serves : ∀ {info since r}, D.Inv info since → p.running info = some r →
    Serves D info r ((p.completeJob info (since + D.slice r)).1,
      (p.completeJob info (since + D.slice r)).2.1)
  serves_inv : ∀ {info since r}, D.Inv info since → p.running info = some r →
    D.Inv (p.completeJob info (since + D.slice r)).1 (since + D.slice r)
  serves_next : ∀ {info since r}, D.Inv info since → p.running info = some r →
    (p.completeJob info (since + D.slice r)).2.2 =
      (p.running (p.completeJob info (since + D.slice r)).1).toList.map
        (grant D (since + D.slice r))

structure Proper (D : Discipline ι) (all : List Job) : Prop where
  order : Chronological all
  fits : ∀ job ∈ all, D.Fits job
  fresh : ∀ job ∈ all, job.fresh = job
  distinct : (all.map Job.ref).Nodup

structure Feasible (D : Discipline ι) (all : List Job) : Prop extends Proper D all where
  bound : ∀ job ∈ all, job.arrivalTime + (all.map Job.jobTime).sum < 2 ^ 64

def tally (acc : Nat × List Nat) (turn : Turn) : Nat × List Nat :=
  let unfinished := acc.1 + turn.arrived.toList.length - turn.finished.toList.length
  (unfinished,
    if turn.finished.isSome ∧ unfinished = 0 then acc.2 ++ [turn.time] else acc.2)

def busyPeriodEnds (history : List Turn) : List Nat := (history.foldl tally (0, [])).2

structure Settled (p : Policy ι) (D : Discipline ι) (info : ι) (since now : Nat)
    (completion : Option Nat) : Prop where
  inv : D.Inv info since
  since_le : since ≤ now
  runs : completion = (p.running info).map fun r => since + D.slice r
  ahead : ∀ c ∈ completion, now ≤ c
  running_served : ∀ r ∈ p.running info, r.arrivalTime + r.jobTime ≤ since + r.remainingTime

structure Quiet (limit : Nat) (turn : Turn) : Prop where
  started : turn.started = none
  finished : turn.finished = none
  early : turn.time < limit

structure Steady (p : Policy ι) (D : Discipline ι) (all : List Job) (m : Machine ι) (since : Nat) :
    Prop where
  settled : Settled p D m.info since m.now m.completion
  dispatch : ∀ r ∈ p.running m.info, ∃ h₁ turn h₂, m.history = h₁ ++ turn :: h₂ ∧
    turn.started = some r ∧ turn.time = since ∧ ∀ t ∈ h₂, Quiet (since + D.slice r) t
  future : ∀ job ∈ m.arrivals, m.now ≤ job.arrivalTime
  all : arrived m.history ++ m.arrivals = all
  jobs : ((D.jobs m.info ++ finished m.history).map Job.fresh).Perm (arrived m.history)
  served : ∀ job ∈ D.jobs m.info, job.remainingTime ≤ job.jobTime ∧
    job.arrivalTime + job.jobTime ≤ m.now + job.remainingTime
  busy : D.jobs m.info ≠ [] →
    since + backlog (D.jobs m.info) = lastDeparture 0 (work (arrived m.history))
  clear : D.jobs m.info = [] → lastDeparture 0 (work (arrived m.history)) ≤ m.now
  late : ∀ turn ∈ m.history, ∀ job ∈ turn.finished, job.arrivalTime + job.jobTime ≤ turn.time
  unfinished : (m.history.foldl tally (0, [])).1 = (D.jobs m.info).length
  ends : busyPeriodEnds m.history ++
      (if D.jobs m.info = [] then [] else [lastDeparture 0 (work (arrived m.history))]) =
    busyEnds 0 (work (arrived m.history))

theorem create_steady (hL : Lawful p D) (all : List Job) : Steady p D all (Machine.create p all) 0 := by
  have hidle := (hL.idle hL.create_inv).mpr hL.create_jobs
  refine ⟨⟨hL.create_inv, le_rfl, ?_, ?_, ?_⟩, ?_, fun _ _ => Nat.zero_le _, rfl, ?_, ?_, ?_, ?_, ?_, ?_,
    ?_⟩ <;>
    simp [Machine.create, hidle, hL.create_jobs, arrived, finished, work, lastDeparture, busyEnds,
      busyPeriodEnds]

section
variable {all : List Job} {m : Machine ι} {since : Nat}

@[simp] theorem work_append (l₁ l₂ : List Job) : work (l₁ ++ l₂) = work l₁ ++ work l₂ :=
  List.map_append

theorem work_snd (l : List Job) : (work l).map Prod.snd = l.map Job.jobTime := by
  simp [work]

theorem lastDeparture_lt (hF : Feasible D all) {l : List Job} (hl : l <+: all) :
    lastDeparture 0 (work l) < 2 ^ 64 := by
  obtain ⟨more, rfl⟩ := hl
  cases l with
  | nil => decide
  | cons job l =>
    obtain ⟨x, hx, hle⟩ := lastDeparture_le 0 (l := work (job :: l)) (by simp [work])
      fun _ _ => Nat.zero_le _
    obtain ⟨j, hj, rfl⟩ := List.mem_map.mp hx
    have hbound := hF.bound j (List.mem_append_left _ hj)
    rw [work_snd] at hle
    rw [List.map_append, List.sum_append] at hbound
    dsimp only at hle
    omega

theorem Steady.arrived_initial (h : Steady p D all m since) : arrived m.history <+: all :=
  ⟨m.arrivals, h.all⟩

theorem Steady.job_mem (h : Steady p D all m since) {job : Job} (hj : job ∈ D.jobs m.info) :
    ∃ j ∈ arrived m.history, j.ref = job.ref := by
  have hmem : job.fresh ∈ (D.jobs m.info ++ finished m.history).map Job.fresh :=
    List.mem_map_of_mem (List.mem_append_left _ hj)
  exact ⟨job.fresh, h.jobs.mem_iff.mp hmem, rfl⟩

theorem Steady.refs (h : Steady p D all m since) :
    ((D.jobs m.info ++ finished m.history).map Job.ref).Perm ((arrived m.history).map Job.ref) := by
  have hperm := h.jobs.map Job.ref
  rwa [List.map_map] at hperm

theorem Steady.refs_nodup (hP : Proper D all) (h : Steady p D all m since) :
    ((D.jobs m.info ++ finished m.history).map Job.ref).Nodup := by
  refine h.refs.nodup_iff.mpr (hP.distinct.sublist ?_)
  exact h.arrived_initial.sublist.map Job.ref

theorem Steady.unfinished_fresh (hP : Proper D all) (h : Steady p D all m since) :
    ((D.jobs m.info).map Job.fresh).Perm (unfinishedJobs m.history) := by
  have hnodup := h.refs_nodup hP
  have hperm := h.jobs.filter fun job => job.ref ∉ (finished m.history).map Job.ref
  rw [List.map_append, List.nodup_append] at hnodup
  rw [List.map_append, List.filter_append] at hperm
  have hjobs : ((D.jobs m.info).map Job.fresh).filter
      (fun job => job.ref ∉ (finished m.history).map Job.ref) = (D.jobs m.info).map Job.fresh := by
    refine List.filter_eq_self.mpr fun job hjob => decide_eq_true fun hdone => ?_
    obtain ⟨i, hi, rfl⟩ := List.mem_map.mp hjob
    exact hnodup.2.2 i.ref (List.mem_map_of_mem hi) i.ref hdone rfl
  have hdone : ((finished m.history).map Job.fresh).filter
      (fun job => job.ref ∉ (finished m.history).map Job.ref) = [] := by
    refine List.filter_eq_nil_iff.mpr fun job hjob hnew => ?_
    obtain ⟨i, hi, rfl⟩ := List.mem_map.mp hjob
    exact of_decide_eq_true hnew (List.mem_map.mpr ⟨i, hi, rfl⟩)
  rw [hjobs, hdone, List.append_nil] at hperm
  exact hperm

theorem Steady.unfinished_refs (hP : Proper D all) (h : Steady p D all m since) :
    ((D.jobs m.info).map Job.ref).Perm ((unfinishedJobs m.history).map Job.ref) := by
  have hperm := (h.unfinished_fresh hP).map Job.ref
  rwa [List.map_map] at hperm

theorem Steady.completing (h : Steady p D all m since) {now : Nat} (hc : m.completion = some now) :
    ∃ ran, p.running m.info = some ran ∧ since + D.slice ran = now := by
  rw [h.settled.runs] at hc
  exact Option.map_eq_some_iff.mp hc

theorem Steady.chronological (hP : Proper D all) (h : Steady p D all m since) :
    Chronological m.arrivals := by
  have horder := hP.order
  rw [← h.all] at horder
  exact (List.pairwise_append.mp horder).2.1

theorem Steady.offer (hP : Proper D all) (h : Steady p D all m since) {job : Job}
    {rest : List Job} (ha : m.arrivals = job :: rest)
    (hc : ∀ c ∈ m.completion, job.arrivalTime < c) :
    Offer p D m.info since job job.arrivalTime := by
  have hmem : job ∈ all := by simp [← h.all, ha]
  have hnow : m.now ≤ job.arrivalTime := h.future job (by simp [ha])
  refine ⟨h.settled.inv, hP.fits job hmem, hP.fresh job hmem, fun i hi hsame => ?_, h.settled.since_le.trans hnow,
    fun r hr => hc _ ?_⟩
  · obtain ⟨j, hj, hji⟩ := h.job_mem hi
    have hnodup := hP.distinct
    rw [← h.all, ha, List.map_append, List.nodup_append] at hnodup
    exact hnodup.2.2 _ (List.mem_map_of_mem hj) _ (List.mem_map_of_mem (List.mem_cons_self ..))
      (hji.trans hsame)
  · rw [h.settled.runs, Option.mem_def.mp hr]
    rfl

theorem backlog_perm {l₁ l₂ : List Job} (h : l₁.Perm l₂) : backlog l₁ = backlog l₂ :=
  (h.map Job.remainingTime).sum_eq

theorem backlog_cons (job : Job) (l : List Job) :
    backlog (job :: l) = job.remainingTime + backlog l := rfl

theorem lastDeparture_work (l : List Job) (job : Job) :
    lastDeparture 0 (work (l ++ [job])) =
      max job.arrivalTime (lastDeparture 0 (work l)) + job.jobTime := by
  rw [work_append, lastDeparture_append]
  rfl

theorem slice_backlog (hL : Lawful p D) {r : Job} {l : List Job} (hr : r ∈ l) :
    D.slice r ≤ backlog l := by
  have hle : r.remainingTime ≤ (l.map Job.remainingTime).sum :=
    List.le_sum_of_mem (List.mem_map_of_mem hr)
  exact (hL.slice_le r).trans hle

inductive Started (p : Policy ι) (info : ι) (since : Nat) (job : Job) (now : Nat) :
    Nat → ι × List Request → Prop
  | no (o : ι × List Request) : dispatched p o.1 o.2 = none → p.running o.1 = p.running info →
      Started p info since job now since o
  | yes (o : ι × List Request) : dispatched p o.1 o.2 = some job → p.running o.1 = some job →
      Started p info since job now now o

theorem arrive_settled (hL : Lawful p D) (hP : Proper D all) (h : Steady p D all m since)
    {job : Job} {rest : List Job} (ha : m.arrivals = job :: rest)
    (hc : ∀ c ∈ m.completion, job.arrivalTime < c)
    (hclock : (p.scheduleJob m.info job job.arrivalTime).2 ≠ [] →
      job.arrivalTime + D.slice job < 2 ^ 64) :
    ∃ completion since', Machine.answer job.arrivalTime m.completion
        (p.scheduleJob m.info job job.arrivalTime).2 = some completion ∧
      Settled p D (p.scheduleJob m.info job job.arrivalTime).1 since' job.arrivalTime completion ∧
      since' + backlog (job :: D.jobs m.info) =
        lastDeparture 0 (work (arrived m.history ++ [job])) ∧
      Started p m.info since job job.arrivalTime since'
        (p.scheduleJob m.info job job.arrivalTime) := by
  have hmem : job ∈ all := by simp [← h.all, ha]
  have hfresh : job.remainingTime = job.jobTime :=
    (congrArg Job.remainingTime (hP.fresh job hmem)).symm
  have hnow : m.now ≤ job.arrivalTime := h.future job (by simp [ha])
  have hoffer := h.offer hP ha hc
  have haccepts := hL.accepts hoffer
  have hbusy : p.running m.info ≠ none → since + backlog (job :: D.jobs m.info) =
      lastDeparture 0 (work (arrived m.history ++ [job])) := by
    intro hrun
    obtain ⟨r, hr⟩ := Option.ne_none_iff_exists'.mp hrun
    have hend := h.busy fun hnil => hrun ((hL.idle h.settled.inv).mpr hnil)
    have hlt := hoffer.early r hr
    have hle := slice_backlog hL (hL.running_mem h.settled.inv hr)
    rw [lastDeparture_work, ← hend, backlog_cons, hfresh, max_eq_right (by omega)]
    omega
  have hstart : ∀ r ∈ some job, r.arrivalTime + r.jobTime ≤ job.arrivalTime + r.remainingTime := by
    rintro r ⟨⟩
    omega
  generalize p.scheduleJob m.info job job.arrivalTime = o at haccepts hclock
  cases haccepts with
  | wait info' hrun hsame hinv =>
    refine ⟨m.completion, since, rfl, ⟨hinv, h.settled.since_le.trans hnow, ?_, fun c hc' => (hc c hc').le, ?_⟩,
      hbusy hrun, .no _ rfl hsame⟩
    · rw [hsame]
      exact h.settled.runs
    · rw [hsame]
      exact h.settled.running_served
  | start info' hnone hrun hinv =>
    have hidle := (hL.idle h.settled.inv).mp hnone
    have hcompletion : m.completion = none := by rw [h.settled.runs, hnone]; rfl
    have hwrap := wrap_of_lt (hclock (by simp))
    refine ⟨some (job.arrivalTime + D.slice job), job.arrivalTime, ?_, ⟨hinv, le_rfl, ?_, ?_, ?_⟩, ?_,
      .yes _ (by simp [dispatched, grant, hrun]) hrun⟩
    · simp [grant, hcompletion, Machine.answer, hwrap]
    · rw [hrun]
      rfl
    · simp
    · rw [hrun]
      exact hstart
    · have hclear := (h.clear hidle).trans hnow
      rw [lastDeparture_work, hidle, backlog_cons, hfresh, max_eq_left hclear]
      rfl
  | displace info' hrun hsince hjob hinv =>
    obtain ⟨r, hr⟩ := Option.ne_none_iff_exists'.mp hrun
    have hcompletion : m.completion = some (since + D.slice r) := by rw [h.settled.runs, hr]; rfl
    have hwrap := wrap_of_lt (hclock (by simp))
    refine ⟨some (job.arrivalTime + D.slice job), job.arrivalTime, ?_, ⟨hinv, le_rfl, ?_, ?_, ?_⟩, ?_,
      .yes _ (by simp [dispatched, grant, hjob]) hjob⟩
    · simp [grant, hcompletion, Machine.answer, hwrap]
    · rw [hjob]
      rfl
    · simp
    · rw [hjob]
      exact hstart
    · rw [hsince]
      exact hbusy hrun

def effort (jobs : List Job) : Nat := (jobs.map fun job => job.remainingTime + 1).sum

theorem effort_perm {l₁ l₂ : List Job} (h : l₁.Perm l₂) : effort l₁ = effort l₂ :=
  (h.map fun job : Job => job.remainingTime + 1).sum_eq

theorem effort_cons (job : Job) (l : List Job) :
    effort (job :: l) = job.remainingTime + 1 + effort l := rfl

def potential (D : Discipline ι) (m : Machine ι) : Nat :=
  (m.arrivals.map fun job => job.jobTime + 2).sum + effort (D.jobs m.info)

theorem tally_append (history : List Turn) (turn : Turn) :
    (history ++ [turn]).foldl tally (0, []) = tally (history.foldl tally (0, [])) turn := by
  rw [List.foldl_append]
  rfl

theorem Steady.dispatch_arrive (h : Steady p D all m since) {job : Job} {now since' : Nat}
    (hearly : ∀ r ∈ p.running m.info, now < since + D.slice r) {o : ι × List Request}
    (hstarted : Started p m.info since job now since' o) :
    ∀ r ∈ p.running o.1, ∃ h₁ turn h₂,
      m.history ++ [⟨now, some job, none, none, dispatched p o.1 o.2⟩] = h₁ ++ turn :: h₂ ∧
        turn.started = some r ∧ turn.time = since' ∧ ∀ t ∈ h₂, Quiet (since' + D.slice r) t := by
  intro r hr
  cases hstarted with
  | no _ hnone hsame =>
    rw [hsame] at hr
    obtain ⟨h₁, turn, h₂, hsplit, hturn, htime, hquiet⟩ := h.dispatch r hr
    refine ⟨h₁, turn, h₂ ++ [_], by rw [hsplit, List.append_assoc]; rfl, hturn, htime, ?_⟩
    intro t ht
    rcases List.mem_append.mp ht with ht | ht
    · exact hquiet t ht
    · rw [List.mem_singleton.mp ht]
      exact ⟨hnone, rfl, hearly r hr⟩
  | yes _ hsome hrun =>
    rw [hrun] at hr
    cases hr
    exact ⟨m.history, _, [], rfl, hsome, rfl, by simp⟩

theorem Steady.ends_arrive (hL : Lawful p D) (h : Steady p D all m since) {job : Job} {now : Nat}
    (hnow : m.now ≤ now) (harrival : job.arrivalTime = now)
    (hearly : ∀ r ∈ p.running m.info, now < since + D.slice r) (started : Option Job) :
    busyPeriodEnds (m.history ++ [⟨now, some job, none, none, started⟩]) ++
        [lastDeparture 0 (work (arrived m.history ++ [job]))] =
      busyEnds 0 (work (arrived m.history ++ [job])) := by
  rw [busyPeriodEnds, tally_append, work_append,
    show work [job] = [(job.arrivalTime, job.jobTime)] from rfl, busyEnds_append,
    lastDeparture_append, ← h.ends]
  simp only [tally, Option.isSome_none, Bool.false_eq_true, false_and, if_false]
  congr 1
  rcases List.eq_nil_or_concat (D.jobs m.info) with hnil | ⟨l, j, hl⟩
  · have hclear := h.clear hnil
    simp only [hnil, if_true, List.append_nil]
    rw [if_neg (by omega)]
    rfl
  · have hbusy : D.jobs m.info ≠ [] := by simp [hl]
    obtain ⟨r, hr⟩ := Option.ne_none_iff_exists'.mp (mt (hL.idle h.settled.inv).mp hbusy)
    have hlt := hearly r hr
    have hle := slice_backlog hL (hL.running_mem h.settled.inv hr)
    have hlast := h.busy hbusy
    rw [if_neg hbusy, if_pos (by omega), List.dropLast_concat]
    rfl

theorem arrive_steady (hL : Lawful p D) (hP : Proper D all) (h : Steady p D all m since)
    {job : Job} {rest : List Job} (ha : m.arrivals = job :: rest)
    (hc : ∀ c ∈ m.completion, job.arrivalTime < c)
    (hclock : (p.scheduleJob m.info job job.arrivalTime).2 ≠ [] →
      job.arrivalTime + D.slice job < 2 ^ 64) :
    ∃ m' since', m.arrive p job rest = some m' ∧ Steady p D all m' since' ∧
      potential D m' < potential D m := by
  obtain ⟨completion, since', hanswer, hsettled, hend, hstarted⟩ := arrive_settled hL hP h ha hc hclock
  have hjobs := hL.accepts_jobs (h.offer hP ha hc)
  have hmem : job ∈ all := by simp [← h.all, ha]
  have hfresh := hP.fresh job hmem
  have hsize : job.remainingTime = job.jobTime := (congrArg Job.remainingTime hfresh).symm
  have hnow : m.now ≤ job.arrivalTime := h.future job (by simp [ha])
  have hlater : ∀ j ∈ rest, job.arrivalTime ≤ j.arrivalTime := by
    have horder := h.chronological hP
    rw [ha] at horder
    exact (List.pairwise_cons.mp horder).1
  have hne : D.jobs (p.scheduleJob m.info job job.arrivalTime).1 ≠ [] := by
    intro hnil
    rw [hnil] at hjobs
    exact List.cons_ne_nil _ _ hjobs.nil_eq.symm
  rw [Machine.arrive_eq, hanswer]
  refine ⟨_, since', rfl, ⟨hsettled, fun r hr => ?_, hlater, ?_, ?_, fun j hj => ?_, fun _ => ?_,
    fun hnil => absurd hnil hne, fun turn ht j hj => ?_, ?_, ?_⟩, ?_⟩
  · exact h.dispatch_arrive (h.offer hP ha hc).early hstarted r hr
  · simp [← h.all, ha]
  · dsimp only
    rw [finished_append, arrived_append, arrived_singleton, finished_singleton, Option.toList_none,
      List.append_nil]
    refine .trans ((hjobs.append_right _).map Job.fresh) ?_
    rw [List.cons_append, List.map_cons, hfresh]
    exact (h.jobs.cons _).trans (List.perm_append_singleton _ _).symm
  · rcases List.mem_cons.mp (hjobs.mem_iff.mp hj) with rfl | hj
    · exact ⟨hsize.le, by dsimp only; omega⟩
    · have hserved := h.served j hj
      exact ⟨hserved.1, by dsimp only; omega⟩
  · dsimp only
    rw [backlog_perm hjobs, arrived_append]
    exact hend
  · rcases List.mem_append.mp ht with ht | ht
    · exact h.late turn ht j hj
    · cases List.mem_singleton.mp ht
      cases hj
  · dsimp only
    rw [tally_append, tally, h.unfinished, hjobs.length_eq]
    simp
  · dsimp only
    rw [arrived_append, arrived_singleton, if_neg hne]
    exact h.ends_arrive hL hnow rfl (h.offer hP ha hc).early _
  · have heffort := effort_perm hjobs
    rw [effort_cons] at heffort
    simp only [potential, ha, List.map_cons, List.sum_cons]
    omega

section
variable {info info' : ι} {ran : Job} {job : Option Job}

theorem Serves.fresh (h : Serves D info ran (info', job)) :
    ((D.jobs info' ++ job.toList).map Job.fresh).Perm ((D.jobs info).map Job.fresh) := by
  cases h with
  | slice _ rest _ _ hjobs hjobs' =>
    rw [Option.toList_none, List.append_nil]
    exact (hjobs'.map Job.fresh).trans (hjobs.map Job.fresh).symm
  | finish _ job hsame _ hjobs =>
    refine .trans ?_ (hjobs.map Job.fresh).symm
    rw [List.map_append, List.map_cons, ← hsame]
    exact List.perm_append_singleton _ _

theorem Serves.length (h : Serves D info ran (info', job)) :
    (D.jobs info).length = (D.jobs info').length + job.toList.length := by
  have hlength := h.fresh.length_eq
  rw [List.length_map, List.length_map, List.length_append] at hlength
  exact hlength.symm

theorem Serves.backlog (h : Serves D info ran (info', job)) :
    backlog (D.jobs info) = D.slice ran + backlog (D.jobs info') := by
  cases h with
  | slice _ rest _ hlt hjobs hjobs' =>
    have hrem : (ran.serve (D.slice ran)).remainingTime = ran.remainingTime - D.slice ran := rfl
    rw [backlog_perm hjobs, backlog_perm hjobs', backlog_cons, backlog_cons, hrem]
    omega
  | finish _ job _ hall hjobs => rw [backlog_perm hjobs, backlog_cons, hall]

theorem Serves.effort_lt (h : Serves D info ran (info', job)) :
    effort (D.jobs info') < effort (D.jobs info) := by
  cases h with
  | slice _ rest hpos hlt hjobs hjobs' =>
    have hrem : (ran.serve (D.slice ran)).remainingTime = ran.remainingTime - D.slice ran := rfl
    rw [effort_perm hjobs, effort_perm hjobs', effort_cons, effort_cons, hrem]
    omega
  | finish _ job _ hall hjobs =>
    rw [effort_perm hjobs, effort_cons]
    omega

theorem Serves.mem (h : Serves D info ran (info', job)) {j : Job} (hj : j ∈ D.jobs info') :
    j ∈ D.jobs info ∨ j = ran.serve (D.slice ran) ∧ D.slice ran < ran.remainingTime := by
  cases h with
  | slice _ rest _ hlt hjobs hjobs' =>
    rcases List.mem_cons.mp (hjobs'.mem_iff.mp hj) with rfl | hj
    · exact .inr ⟨rfl, hlt⟩
    · exact .inl (hjobs.mem_iff.mpr (List.mem_cons_of_mem _ hj))
  | finish _ job _ _ hjobs => exact .inl (hjobs.mem_iff.mpr (List.mem_cons_of_mem _ hj))

theorem Serves.finished (h : Serves D info ran (info', job)) {j : Job} (hj : job = some j) :
    j.fresh = ran.fresh ∧ D.slice ran = ran.remainingTime := by
  cases h with
  | slice => cases hj
  | finish _ job hsame hall _ =>
    cases hj
    exact ⟨hsame, hall⟩

end

theorem answer_grant {info : ι} {now : Nat}
    (hclock : ∀ r ∈ p.running info, now + D.slice r < 2 ^ 64) :
    Machine.answer now none ((p.running info).toList.map (grant D now)) =
      some ((p.running info).map fun r => now + D.slice r) := by
  cases hr : p.running info with
  | none => rfl
  | some r =>
    have hwrap := wrap_of_lt (hclock r hr)
    simp [grant, Machine.answer, hwrap]

theorem dispatched_grant {info : ι} {now : Nat} {r : Job} (hr : p.running info = some r) :
    dispatched p info ((p.running info).toList.map (grant D now)) = some r := by
  simp [dispatched, grant, hr]

theorem complete_backlog (hL : Lawful p D) (h : Steady p D all m since) {now : Nat}
    (hc : m.completion = some now) :
    now + backlog (D.jobs (p.completeJob m.info now).1) =
      lastDeparture 0 (work (arrived m.history)) := by
  obtain ⟨ran, hran, rfl⟩ := h.completing hc
  have hinv := h.settled.inv
  have hbacklog := (hL.serves hinv hran).backlog
  have hlast := h.busy (List.ne_nil_of_mem (hL.running_mem hinv hran))
  omega

theorem complete_inv (hL : Lawful p D) (h : Steady p D all m since) {now : Nat}
    (hc : m.completion = some now) : D.Inv (p.completeJob m.info now).1 now := by
  obtain ⟨ran, hran, rfl⟩ := h.completing hc
  exact hL.serves_inv h.settled.inv hran

theorem complete_clock (hL : Lawful p D) (hF : Feasible D all) (h : Steady p D all m since)
    {now : Nat} (hc : m.completion = some now) :
    ∀ r ∈ p.running (p.completeJob m.info now).1, now + D.slice r < 2 ^ 64 := by
  intro r hr
  have hend := complete_backlog hL h hc
  have hlt := lastDeparture_lt hF h.arrived_initial
  have hle := slice_backlog hL (hL.running_mem (complete_inv hL h hc) hr)
  omega

theorem arrive_clock (hL : Lawful p D) (hF : Feasible D all) {job : Job} (hj : job ∈ all) :
    job.arrivalTime + D.slice job < 2 ^ 64 := by
  have hfresh : job.remainingTime = job.jobTime :=
    (congrArg Job.remainingTime (hF.fresh job hj)).symm
  have hslice := hL.slice_le job
  have hsize : job.jobTime ≤ (all.map Job.jobTime).sum :=
    List.le_sum_of_mem (List.mem_map_of_mem hj)
  have hbound := hF.bound job hj
  omega

theorem all_later {now : Nat} {jobs : List Job} (h : Chronological jobs)
    (hfirst : ∀ job ∈ jobs.head?, now ≤ job.arrivalTime) : ∀ job ∈ jobs, now ≤ job.arrivalTime := by
  cases jobs with
  | nil => simp
  | cons job rest =>
    intro j hj
    have hle := hfirst job rfl
    rcases List.mem_cons.mp hj with rfl | hj
    · exact hle
    · exact hle.trans ((List.pairwise_cons.mp h).1 j hj)

theorem Steady.ends_complete (h : Steady p D all m since) {now : Nat} {jobs' : List Job}
    {job : Option Job} (ran started : Option Job) (hbusy : D.jobs m.info ≠ [])
    (hlength : (D.jobs m.info).length = jobs'.length + job.toList.length)
    (hend : now + backlog jobs' = lastDeparture 0 (work (arrived m.history))) :
    busyPeriodEnds (m.history ++ [⟨now, none, ran, job, started⟩]) ++
        (if jobs' = [] then [] else [lastDeparture 0 (work (arrived m.history))]) =
      busyEnds 0 (work (arrived m.history)) := by
  have hends := h.ends
  rw [if_neg hbusy] at hends
  rw [busyPeriodEnds, tally_append, ← hends, tally, h.unfinished, hlength]
  simp only [Option.toList_none, List.length_nil, Nat.add_zero, Nat.add_sub_cancel,
    List.length_eq_zero_iff]
  cases job with
  | none =>
    have hne : jobs' ≠ [] := by
      intro hnil
      rw [hnil] at hlength
      exact hbusy (List.length_eq_zero_iff.mp hlength)
    rw [if_neg (by simp), if_neg hne]
    rfl
  | some j =>
    rcases eq_or_ne jobs' [] with hnil | hne
    · rw [if_pos ⟨rfl, hnil⟩, if_pos hnil, List.append_nil, ← hend, hnil]
      rfl
    · rw [if_neg (fun hand => hne hand.2), if_neg hne]
      rfl

theorem complete_steady (hL : Lawful p D) (hP : Proper D all) (h : Steady p D all m since)
    {now : Nat} (hc : m.completion = some now)
    (ha : ∀ job ∈ m.arrivals.head?, now ≤ job.arrivalTime)
    (hclock : ∀ r ∈ p.running (p.completeJob m.info now).1, now + D.slice r < 2 ^ 64) :
    ∃ m', m.complete p now = some m' ∧ Steady p D all m' now ∧ potential D m' < potential D m := by
  have hahead := h.settled.ahead now hc
  have hend := complete_backlog hL h hc
  obtain ⟨ran, hran, rfl⟩ := h.completing hc
  have hinv := h.settled.inv
  have hserves := hL.serves hinv hran
  have hinv' := hL.serves_inv hinv hran
  have hnext := hL.serves_next hinv hran
  have hserved := h.settled.running_served ran hran
  have hbusy : D.jobs m.info ≠ [] := List.ne_nil_of_mem (hL.running_mem hinv hran)
  obtain ⟨now, hnow⟩ : ∃ now, now = since + D.slice ran := ⟨_, rfl⟩
  rw [← hnow] at hserves hinv' hnext hahead ha hclock hend ⊢
  have hjobs : ∀ j ∈ D.jobs (p.completeJob m.info now).1, j.remainingTime ≤ j.jobTime ∧
      j.arrivalTime + j.jobTime ≤ now + j.remainingTime := by
    intro j hj
    rcases hserves.mem hj with hj | ⟨rfl, hlt⟩
    · have := h.served j hj
      omega
    · have hle := (h.served ran (hL.running_mem hinv hran)).1
      dsimp only [Job.serve]
      omega
  have hlater := all_later (h.chronological hP) ha
  have hanswer : Machine.answer now none (p.completeJob m.info now).2.2 =
      some ((p.running (p.completeJob m.info now).1).map fun r => now + D.slice r) := by
    rw [hnext]
    exact answer_grant hclock
  rw [Machine.complete_eq, hanswer]
  refine ⟨_, rfl, ⟨⟨hinv', le_rfl, rfl, ?_, fun r hr => (hjobs r (hL.running_mem hinv' hr)).2⟩,
    fun r hr => ⟨m.history, _, [], rfl, ?_, rfl, by simp⟩, hlater, ?_, ?_, hjobs, fun _ => ?_,
    fun hnil => ?_, fun turn ht j hj => ?_, ?_, ?_⟩, ?_⟩
  · simp
  · dsimp only
    rw [hnext]
    exact dispatched_grant hr
  · simp [← h.all]
  · dsimp only
    rw [finished_append, arrived_append, arrived_singleton, finished_singleton, Option.toList_none,
      List.append_nil]
    refine .trans ?_ h.jobs
    refine ((List.perm_append_comm.append_left _).map Job.fresh).trans ?_
    rw [← List.append_assoc, List.map_append, @List.map_append _ _ Job.fresh (D.jobs m.info)]
    exact hserves.fresh.append_right _
  · dsimp only
    rw [arrived_append, arrived_singleton, Option.toList_none, List.append_nil]
    exact hend
  · dsimp only at hnil ⊢
    rw [arrived_append, arrived_singleton, Option.toList_none, List.append_nil, ← hend, hnil]
    exact le_rfl
  · rcases List.mem_append.mp ht with ht | ht
    · exact h.late turn ht j hj
    · cases List.mem_singleton.mp ht
      obtain ⟨hsame, hall⟩ := hserves.finished hj
      have harrival : j.fresh.arrivalTime = ran.fresh.arrivalTime := by rw [hsame]
      have hsize : j.fresh.jobTime = ran.fresh.jobTime := by rw [hsame]
      dsimp only [Job.fresh] at harrival hsize ⊢
      omega
  · have hlength := hserves.length
    dsimp only
    rw [tally_append, tally, h.unfinished, hlength]
    simp
  · dsimp only
    rw [arrived_append, arrived_singleton, Option.toList_none, List.append_nil]
    exact h.ends_complete _ _ hbusy hserves.length hend
  · have heffort := hserves.effort_lt
    simp only [potential]
    omega

end

end OperatingSystems.Scheduling
