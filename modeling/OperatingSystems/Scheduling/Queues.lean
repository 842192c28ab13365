import OperatingSystems.Scheduling.NonPreemptive
import OperatingSystems.Scheduling.Policies

namespace OperatingSystems.Scheduling

def fcfsSelection : Selection FCFSInfo where
  waiting := fun info => info.jobQueue.dropLast.reverse
  choose := List.head?
  Fits := fun _ => True
  Inv := fun _ => True

theorem head_rest (l : List Job) : l.head?.elim [] l.erase = l.tail := by
  cases l with
  | nil => rfl
  | cons j l => simp

theorem grant_fresh {ι : Type} {p : Policy ι} {C : Selection ι} {job : Job} (h : job.fresh = job)
    (now : Nat) : grant (C.discipline p) now job = .scheduleNextCompletion (wrap (now + job.jobTime)) := by
  have hsize : job.jobTime = job.remainingTime := congrArg Job.remainingTime h
  simp [grant, Selection.discipline, hsize]

theorem fcfs_nonPreemptive : NonPreemptive fcfs fcfsSelection := by
  constructor
  case create_running => rfl
  case create_waiting => rfl
  case create_inv => trivial
  case idle =>
    intro info _ hrun
    have hnil : info.jobQueue = [] := List.getLast?_eq_none_iff.mp hrun
    simp [fcfsSelection, hnil]
  case choose_none => exact fun _ => List.head?_eq_none_iff
  case choose_mem => exact List.mem_of_head?
  case fits => exact fun _ _ _ => trivial
  case start =>
    intro info since job now hoffer hrun
    have hnil : info.jobQueue = [] := List.getLast?_eq_none_iff.mp hrun
    refine ⟨⟨[job]⟩, ?_, rfl, rfl, trivial⟩
    rw [grant_fresh hoffer.fresh]
    simp [fcfs, schedulerFCFSScheduleJob, hnil]
  case wait =>
    intro info since job now r hoffer hrun
    have hne : info.jobQueue ≠ [] := by
      intro hnil
      simp [fcfs, hnil] at hrun
    refine ⟨⟨job :: info.jobQueue⟩, ?_, ?_, ?_, trivial⟩
    · simp [fcfs, schedulerFCFSScheduleJob, hne]
    · have hlast : info.jobQueue.getLast? = some r := hrun
      simp [fcfs, List.getLast?_cons, hlast]
    · simp [fcfsSelection, List.dropLast_cons_of_ne_nil hne]
  case complete =>
    intro info r now _ hrun
    have hlast : info.jobQueue.getLast? = some r := hrun
    refine ⟨⟨info.jobQueue.dropLast⟩, ?_, ?_, ?_, trivial⟩
    · simp only [fcfs, schedulerFCFSCompleteJob, hlast, fcfsSelection, List.head?_reverse]
      cases info.jobQueue.dropLast.getLast? <;> rfl
    · simp [fcfs, fcfsSelection]
    · simp only [fcfsSelection, Selection.rest, head_rest, List.tail_reverse]

section
variable {ι : Type}

structure Stack (ι : Type) where
  jobQueue : ι → List Job
  currentJob : ι → Option Job
  choose : List Job → Option Job
  Fits : Job → Prop

structure Stack.Inv (S : Stack ι) (info : ι) : Prop where
  distinct : ((S.jobQueue info).map Job.ref).Nodup
  fresh : ∀ j ∈ S.jobQueue info, j.fresh = j
  fits : ∀ j ∈ S.jobQueue info, S.Fits j
  current : ∀ r ∈ S.currentJob info, r ∈ S.jobQueue info
  idle : S.currentJob info = none → S.jobQueue info = []

def Stack.selection (S : Stack ι) : Selection ι where
  waiting := fun info => (S.currentJob info).elim [] fun r => ((S.jobQueue info).erase r).reverse
  choose := fun jobs => S.choose jobs.reverse
  Fits := S.Fits
  Inv := S.Inv

theorem erase_reverse {l : List Job} (h : l.Nodup) (job : Job) :
    (l.erase job).reverse = l.reverse.erase job := by
  rw [h.erase_eq_filter, (List.nodup_reverse.mpr h).erase_eq_filter, List.filter_reverse]

theorem listRemoveJob_erase {l : List Job} (h : (l.map Job.ref).Nodup) {job : Job} (hj : job ∈ l) :
    listRemoveJob l job = l.erase job := by
  induction l with
  | nil => cases hj
  | cons i l ih =>
    rw [List.map_cons, List.nodup_cons] at h
    rcases List.mem_cons.mp hj with rfl | hj
    · simp [listRemoveJob]
    · have hne : i.ref ≠ job.ref := fun he => h.1 (he ▸ List.mem_map_of_mem hj)
      have hother : i ≠ job := fun he => hne (congrArg Job.ref he)
      have hrest := ih h.2 hj
      simp only [listRemoveJob] at hrest ⊢
      rw [List.eraseP_cons_of_neg (by simpa using hne), List.erase_cons_tail (by simpa using hother),
        hrest]

structure Stacked (p : Policy ι) (S : Stack ι) : Prop where
  running : p.running = S.currentJob
  create_queue : S.jobQueue p.create = []
  create_current : S.currentJob p.create = none
  choose_none : ∀ {jobs}, (∀ j ∈ jobs, S.Fits j) → (S.choose jobs = none ↔ jobs = [])
  choose_mem : ∀ {jobs j}, S.choose jobs = some j → j ∈ jobs
  start : ∀ info job now, S.jobQueue info = [] → S.currentJob info = none →
    ∃ info', p.scheduleJob info job now =
        (info', [.scheduleNextCompletion (wrap (now + job.jobTime))]) ∧
      S.jobQueue info' = [job] ∧ S.currentJob info' = some job
  wait : ∀ info job now r, r ∈ S.jobQueue info → S.currentJob info = some r →
    ∃ info', p.scheduleJob info job now = (info', []) ∧
      S.jobQueue info' = job :: S.jobQueue info ∧ S.currentJob info' = some r
  complete : ∀ info r now, S.currentJob info = some r →
    ∃ info', p.completeJob info now = (info', some r,
        (S.currentJob info').toList.map fun j =>
          .scheduleNextCompletion (wrap (now + j.jobTime))) ∧
      S.jobQueue info' = listRemoveJob (S.jobQueue info) r ∧
      S.currentJob info' = S.choose (listRemoveJob (S.jobQueue info) r)

section
variable {p : Policy ι} {S : Stack ι} {info info' : ι} {since now : Nat} {job r : Job}

theorem Stacked.fits (h : Stacked p S) (hinv : S.Inv info) :
    ∀ j ∈ held p S.selection info, S.Fits j := by
  intro j hj
  rw [held, h.running] at hj
  cases hr : S.currentJob info with
  | none => simp [Stack.selection, hr] at hj
  | some r =>
    simp only [Stack.selection, hr, Option.toList_some, Option.elim_some, List.singleton_append,
      List.mem_cons, List.mem_reverse] at hj
    rcases hj with rfl | hj
    · exact hinv.fits _ (hinv.current _ hr)
    · exact hinv.fits _ (List.mem_of_mem_erase hj)

theorem Stacked.start_waiting (h : Stacked p S)
    (hoffer : Offer p (S.selection.discipline p) info since job now)
    (hrun : p.running info = none) : ∃ info',
      p.scheduleJob info job now = (info', [grant (S.selection.discipline p) now job]) ∧
        p.running info' = some job ∧ S.selection.waiting info' = [] ∧ S.Inv info' := by
  rw [h.running] at hrun ⊢
  obtain ⟨info', hs, hqueue, hcurrent⟩ := h.start info job now (hoffer.inv.idle hrun) hrun
  refine ⟨info', ?_, hcurrent, ?_, ?_⟩
  · rw [hs, grant_fresh hoffer.fresh]
  · simp [Stack.selection, hqueue, hcurrent]
  · refine ⟨?_, ?_, ?_, ?_, ?_⟩ <;> simp [hqueue, hcurrent, hoffer.fresh]
    exact hoffer.fits

theorem Stacked.offer_new (h : Stacked p S)
    (hoffer : Offer p (S.selection.discipline p) info since job now)
    (hrun : S.currentJob info = some r) (hr : r ∈ S.jobQueue info) :
    ∀ i ∈ S.jobQueue info, i.ref ≠ job.ref := by
  intro i hi
  have hheld : held p S.selection info = r :: ((S.jobQueue info).erase r).reverse := by
    rw [held, h.running, hrun]
    simp [Stack.selection, hrun]
  refine hoffer.distinct i ?_
  simp only [Selection.discipline, hheld, List.mem_cons, List.mem_reverse]
  exact List.mem_cons.mp ((List.perm_cons_erase hr).mem_iff.mp hi)

theorem Stack.Inv.push (hinv : S.Inv info) (hnew : ∀ i ∈ S.jobQueue info, i.ref ≠ job.ref)
    (hfresh : job.fresh = job) (hfits : S.Fits job) (hrun : S.currentJob info = some r)
    (hqueue : S.jobQueue info' = job :: S.jobQueue info) (hcurrent : S.currentJob info' = some r) :
    S.Inv info' := by
  constructor
  · rw [hqueue, List.map_cons, List.nodup_cons]
    refine ⟨fun hmem => ?_, hinv.distinct⟩
    obtain ⟨i, hi, he⟩ := List.mem_map.mp hmem
    exact hnew i hi he
  · rw [hqueue]
    exact List.forall_mem_cons.mpr ⟨hfresh, hinv.fresh⟩
  · rw [hqueue]
    exact List.forall_mem_cons.mpr ⟨hfits, hinv.fits⟩
  · rw [hqueue, hcurrent]
    rintro _ ⟨⟩
    exact List.mem_cons_of_mem _ (hinv.current r hrun)
  · simp [hcurrent]

theorem Stacked.wait_waiting (h : Stacked p S)
    (hoffer : Offer p (S.selection.discipline p) info since job now)
    (hrun : p.running info = some r) : ∃ info', p.scheduleJob info job now = (info', []) ∧
      p.running info' = some r ∧
      S.selection.waiting info' = S.selection.waiting info ++ [job] ∧ S.Inv info' := by
  rw [h.running] at hrun ⊢
  have hr := hoffer.inv.current r hrun
  have hnew := h.offer_new hoffer hrun hr
  have hne : job ≠ r := fun he => hnew r hr (congrArg Job.ref he.symm)
  obtain ⟨info', hs, hqueue, hcurrent⟩ := h.wait info job now r hr hrun
  refine ⟨info', hs, hcurrent, ?_, ?_⟩
  · simp [Stack.selection, hqueue, hcurrent, hrun, List.erase_cons, hne]
  · exact hoffer.inv.push hnew hoffer.fresh hoffer.fits hrun hqueue hcurrent

theorem Stacked.inv_complete (h : Stacked p S) (hinv : S.Inv info)
    (hqueue : S.jobQueue info' = (S.jobQueue info).erase r)
    (hcurrent : S.currentJob info' = S.choose ((S.jobQueue info).erase r)) : S.Inv info' := by
  have hfits : ∀ j ∈ (S.jobQueue info).erase r, S.Fits j :=
    fun j hj => hinv.fits j (List.mem_of_mem_erase hj)
  constructor
  · rw [hqueue]
    exact hinv.distinct.sublist (List.erase_sublist.map _)
  · rw [hqueue]
    exact fun j hj => hinv.fresh j (List.mem_of_mem_erase hj)
  · rw [hqueue]
    exact hfits
  · rw [hqueue, hcurrent]
    exact fun j hj => h.choose_mem hj
  · rw [hqueue, hcurrent]
    exact (h.choose_none hfits).mp

theorem Stacked.complete_waiting (h : Stacked p S) (now : Nat) (hinv : S.Inv info)
    (hrun : p.running info = some r) : ∃ info',
      p.completeJob info now = (info', some r,
        (S.selection.choose (S.selection.waiting info)).toList.map
          (grant (S.selection.discipline p) now)) ∧
      p.running info' = S.selection.choose (S.selection.waiting info) ∧
      S.selection.waiting info' = S.selection.rest (S.selection.waiting info) ∧ S.Inv info' := by
  rw [h.running] at hrun ⊢
  have hr := hinv.current r hrun
  obtain ⟨info', hs, hqueue, hcurrent⟩ := h.complete info r now hrun
  rw [listRemoveJob_erase hinv.distinct hr] at hqueue hcurrent
  have hwaiting : S.selection.waiting info = ((S.jobQueue info).erase r).reverse := by
    simp [Stack.selection, hrun]
  have hchoose : S.selection.choose (S.selection.waiting info) =
      S.choose ((S.jobQueue info).erase r) := by
    rw [hwaiting]
    simp [Stack.selection]
  have hinv' := h.inv_complete hinv hqueue hcurrent
  refine ⟨info', ?_, hcurrent.trans hchoose.symm, ?_, hinv'⟩
  · rw [hs, hchoose, ← hcurrent]
    congr 2
    apply List.map_congr_left
    intro j hj
    exact (grant_fresh (hinv'.fresh j (hinv'.current j (Option.mem_toList.mp hj))) now).symm
  · have hnodup : (S.jobQueue info).Nodup := hinv.distinct.of_map
    rw [Selection.rest, hchoose, hwaiting]
    simp only [Stack.selection, hcurrent, hqueue]
    cases S.choose ((S.jobQueue info).erase r) with
    | none => rfl
    | some j => exact erase_reverse (hnodup.erase r) j

theorem Stacked.nonPreemptive (h : Stacked p S) : NonPreemptive p S.selection := by
  constructor
  case create_running => rw [h.running, h.create_current]
  case create_waiting => simp [Stack.selection, h.create_current]
  case create_inv => constructor <;> simp [h.create_queue, h.create_current]
  case idle =>
    intro info _ hrun
    rw [h.running] at hrun
    simp [Stack.selection, hrun]
  case choose_none =>
    intro jobs hfits
    have := @h.choose_none jobs.reverse fun j hj => hfits j (List.mem_reverse.mp hj)
    simpa [Stack.selection] using this
  case choose_mem => exact fun hj => List.mem_reverse.mp (h.choose_mem hj)
  case fits => exact fun hinv => h.fits hinv
  case start => exact fun hoffer hrun => h.start_waiting hoffer hrun
  case wait => exact fun hoffer hrun => h.wait_waiting hoffer hrun
  case complete => exact fun now hinv hrun => h.complete_waiting now hinv hrun

end

end

def lcfsStack : Stack LCFSInfo where
  jobQueue := LCFSInfo.jobQueue
  currentJob := LCFSInfo.currentJob
  choose := List.head?
  Fits := fun _ => True

theorem lcfs_stacked : Stacked lcfs lcfsStack := by
  constructor
  case running => rfl
  case create_queue => rfl
  case create_current => rfl
  case choose_none => exact fun _ => List.head?_eq_none_iff
  case choose_mem => exact List.mem_of_head?
  case start =>
    intro info job now hnil _
    have hqueue : info.jobQueue = [] := hnil
    exact ⟨⟨[job], some job⟩, by simp [lcfs, schedulerLCFSScheduleJob, hqueue], rfl, rfl⟩
  case wait =>
    intro info job now r hr hcurrent
    have hne : info.jobQueue ≠ [] := List.ne_nil_of_mem hr
    exact ⟨⟨job :: info.jobQueue, info.currentJob⟩, by simp [lcfs, schedulerLCFSScheduleJob, hne], rfl,
      hcurrent⟩
  case complete =>
    intro info r now hcurrent
    have hcurrent : info.currentJob = some r := hcurrent
    simp only [lcfs, schedulerLCFSCompleteJob, hcurrent, lcfsStack]
    cases (listRemoveJob info.jobQueue r).head? with
    | none => exact ⟨⟨_, none⟩, rfl, rfl, rfl⟩
    | some next => exact ⟨⟨_, some next⟩, rfl, rfl, rfl⟩

theorem lcfs_nonPreemptive : NonPreemptive lcfs lcfsStack.selection := lcfs_stacked.nonPreemptive

def Job.shorter (i j : Job) : Prop := i.jobTime < j.jobTime ∨ i.jobTime = j.jobTime ∧ i.id ≤ j.id

theorem scanShortest_least {best : Job} {jobs : List Job} :
    ∃ j, scanShortest best.jobTime best.id (some best) jobs = some j ∧ j ∈ best :: jobs ∧
      ∀ i ∈ best :: jobs, j.shorter i := by
  induction jobs generalizing best with
  | nil => exact ⟨best, rfl, by simp, by simp [Job.shorter]⟩
  | cons candidate rest ih =>
    rw [scanShortest]
    split
    · rename_i hless
      obtain ⟨j, hj, hmem, hleast⟩ := @ih candidate
      refine ⟨j, hj, List.mem_cons_of_mem _ hmem, fun i hi => ?_⟩
      rcases List.mem_cons.mp hi with rfl | hi
      · have hfirst := hleast candidate (List.mem_cons_self ..)
        unfold Job.shorter at hfirst ⊢
        omega
      · exact hleast i hi
    · rename_i hless
      obtain ⟨j, hj, hmem, hleast⟩ := @ih best
      refine ⟨j, hj, ?_, fun i hi => ?_⟩
      · rcases List.mem_cons.mp hmem with rfl | hmem
        · exact List.mem_cons_self ..
        · exact List.mem_cons_of_mem _ (List.mem_cons_of_mem _ hmem)
      · rcases List.mem_cons.mp hi with rfl | hi
        · exact hleast i (List.mem_cons_self ..)
        · rcases List.mem_cons.mp hi with rfl | hi
          · have hfirst := hleast best (List.mem_cons_self ..)
            unfold Job.shorter at hfirst ⊢
            omega
          · exact hleast i (List.mem_cons_of_mem _ hi)

-- a job whose size is below the first `bestTime`
def Job.small (job : Job) : Prop := job.jobTime < 2 ^ 64 - 1

theorem scanShortest_spec {bestTime bestId : Nat} {jobs : List Job}
    (hsmall : ∀ j ∈ jobs, j.jobTime < bestTime) (hne : jobs ≠ []) :
    ∃ j, scanShortest bestTime bestId none jobs = some j ∧ j ∈ jobs ∧ ∀ i ∈ jobs, j.shorter i := by
  cases jobs with
  | nil => exact absurd rfl hne
  | cons first rest =>
    rw [scanShortest, if_pos (.inl (hsmall first (List.mem_cons_self ..)))]
    exact scanShortest_least

theorem scanShortest_mem {bestTime bestId : Nat} {nextJob : Option Job} {jobs : List Job} {j : Job}
    (h : scanShortest bestTime bestId nextJob jobs = some j) : nextJob = some j ∨ j ∈ jobs := by
  induction jobs generalizing bestTime bestId nextJob with
  | nil => exact .inl h
  | cons candidate rest ih =>
    rw [scanShortest] at h
    split at h
    · rcases ih h with h | h
      · cases h
        exact .inr (List.mem_cons_self ..)
      · exact .inr (List.mem_cons_of_mem _ h)
    · exact (ih h).imp_right (List.mem_cons_of_mem _)

theorem Regular.size_lt {records : List Record} {limit : Nat} (h : Regular limit records) {job : Job}
    (hj : job ∈ jobsOf 0 records) : job.jobTime < limit := by
  have hmem : job.record ∈ records := by
    have := List.mem_map_of_mem (f := Job.record) hj
    rwa [jobsOf_record] at this
  have hbound := h.bound_all hmem
  have hle : job.record.jobTime ≤ (records.map Record.jobTime).sum :=
    List.le_sum_of_mem (List.mem_map_of_mem hmem)
  have hsize : job.record.jobTime = job.jobTime := rfl
  omega

theorem Regular.small {records : List Record} (h : Regular (2 ^ 64 - 1) records) {job : Job}
    (hj : job ∈ jobsOf 0 records) : job.small := h.size_lt hj

def sjfStack : Stack SJFInfo where
  jobQueue := SJFInfo.jobQueue
  currentJob := SJFInfo.currentJob
  choose := scanShortest (2 ^ 64 - 1) (2 ^ 64 - 1) none
  Fits := Job.small

def sjfFrom (bestTime bestId : Nat) : Policy SJFInfo where
  create := schedulerSJFCreate
  scheduleJob := schedulerSJFScheduleJob
  completeJob := fun info currentTime =>
    let jobQueue := info.currentJob.elim info.jobQueue fun job => listRemoveJob info.jobQueue job
    match scanShortest bestTime bestId none jobQueue with
    | some nextJob =>
      (⟨jobQueue, some nextJob⟩, info.currentJob,
        [.scheduleNextCompletion (wrap (currentTime + nextJob.jobTime))])
    | none => (⟨jobQueue, none⟩, info.currentJob, [])
  running := SJFInfo.currentJob

def sjfStackFrom (bestTime bestId : Nat) : Stack SJFInfo where
  jobQueue := SJFInfo.jobQueue
  currentJob := SJFInfo.currentJob
  choose := scanShortest bestTime bestId none
  Fits := fun job => job.jobTime < bestTime

theorem sjfFrom_stacked (bestTime bestId : Nat) :
    Stacked (sjfFrom bestTime bestId) (sjfStackFrom bestTime bestId) := by
  constructor
  case running => rfl
  case create_queue => rfl
  case create_current => rfl
  case choose_none =>
    intro jobs hsmall
    constructor
    · intro hnone
      rcases eq_or_ne jobs [] with hnil | hne
      · exact hnil
      · obtain ⟨j, hj, -⟩ := @scanShortest_spec bestTime bestId jobs hsmall hne
        exact absurd (hnone.symm.trans hj) (by simp)
    · rintro rfl
      rfl
  case choose_mem =>
    intro jobs j hj
    exact (scanShortest_mem hj).resolve_left (by simp)
  case start =>
    intro info job now hnil hnone
    have hqueue : info.jobQueue = [] := hnil
    have hcurrent : info.currentJob = none := hnone
    exact ⟨⟨[job], some job⟩, by simp [sjfFrom, schedulerSJFScheduleJob, hqueue, hcurrent], rfl,
      rfl⟩
  case wait =>
    intro info job now r _ hr
    have hcurrent : info.currentJob = some r := hr
    exact ⟨⟨job :: info.jobQueue, some r⟩, by simp [sjfFrom, schedulerSJFScheduleJob, hcurrent],
      rfl, rfl⟩
  case complete =>
    intro info r now hr
    have hcurrent : info.currentJob = some r := hr
    simp only [sjfFrom, hcurrent, sjfStackFrom, Option.elim_some]
    cases scanShortest bestTime bestId none (listRemoveJob info.jobQueue r) with
    | none => exact ⟨⟨_, none⟩, rfl, rfl, rfl⟩
    | some next => exact ⟨⟨_, some next⟩, rfl, rfl, rfl⟩

theorem sjf_stacked : Stacked sjf sjfStack := sjfFrom_stacked (2 ^ 64 - 1) (2 ^ 64 - 1)

theorem sjf_nonPreemptive : NonPreemptive sjf sjfStack.selection := sjf_stacked.nonPreemptive

end OperatingSystems.Scheduling
