import OperatingSystems.Scheduling.Journal
import OperatingSystems.Scheduling.Queues

namespace OperatingSystems.Scheduling
open Transition BusyPeriod

section
variable {ι : Type} {p : Policy ι} {C : Selection ι} {all : List Job} {m m' : Machine ι}
  {since since' : Nat}

def remainder (C : Selection ι) (m : Machine ι) : List Nat :=
  m.completion.elim [] fun c => c :: departures c (work (C.waiting m.info))

structure InTurn (p : Policy ι) (C : Selection ι) (m : Machine ι) : Prop where
  order : finished m.history ++ held p C m.info = arrived m.history
  times : departures 0 (work (arrived m.history)) =
    (written m.history).map Prod.snd ++ remainder C m

theorem InTurn.last (h : InTurn p C m) {c : Nat} (hc : m.completion = some c) :
    lastDeparture 0 (work (arrived m.history)) = lastDeparture c (work (C.waiting m.info)) := by
  rw [← getLast_departures, h.times, remainder, hc, Option.elim_some, List.getLast?_append,
    List.getLast?_cons, getLast_departures]
  rfl

theorem departures_work (l : List Job) (job : Job) :
    departures 0 (work (l ++ [job])) = departures 0 (work l) ++
      [max job.arrivalTime (lastDeparture 0 (work l)) + job.jobTime] := by
  rw [work_append, departures_append]
  rfl

theorem arrive_inTurn (h : NonPreemptive p C) (hF : Feasible (C.discipline p) all)
    (hst : Steady p (C.discipline p) all m since) (hst' : Steady p (C.discipline p) all m' since')
    (ht : InTurn p C m) {job : Job} {rest : List Job} (ha : m.arrivals = job :: rest)
    (hc : ∀ c ∈ m.completion, job.arrivalTime < c) (hs : m.arrive p job rest = some m') :
    InTurn p C m' := by
  have hoffer := hst.offer hF.toProper ha hc
  have hruns := hst.settled.runs
  rw [Machine.arrive_eq] at hs
  cases hr : p.running m.info with
  | none =>
    obtain ⟨info', hsched, hrun, hwaiting, -⟩ := h.start hoffer hr
    have hdispatch : dispatched p info' [grant (C.discipline p) job.arrivalTime job] = some job := by
      simp [dispatched, grant, hrun]
    have hheld : held p C m.info = [] := by
      simp [held, hr, h.idle hst.settled.inv hr]
    have hnone : m.completion = none := by rw [hruns, hr]; rfl
    rw [hsched] at hs
    obtain ⟨completion, -, rfl⟩ := Option.map_eq_some_iff.mp hs
    have hcompletion := started_completion hst' rfl hdispatch hrun hoffer.fresh
    have hclear := hst.clear hheld
    have hnow := hst.future job (by simp [ha])
    have horder := ht.order
    have htimes := ht.times
    rw [hheld, List.append_nil] at horder
    rw [remainder, hnone, Option.elim_none, List.append_nil] at htimes
    constructor
    · simp [held, hrun, hwaiting, horder]
    · dsimp only at hcompletion ⊢
      rw [remainder, hcompletion, hwaiting, arrived_append, arrived_singleton, Option.toList_some,
        departures_work, htimes, max_eq_left (by omega)]
      simp [written, work, departures]
  | some r =>
    obtain ⟨info', hsched, hrun, hwaiting, -⟩ := h.wait hoffer hr
    obtain ⟨c, hcompletion⟩ : ∃ c, m.completion = some c := by
      rw [hruns, hr]
      exact ⟨_, rfl⟩
    rw [hsched] at hs
    obtain ⟨completion, hanswer, rfl⟩ := Option.map_eq_some_iff.mp hs
    have hsame : completion = some c := (Option.some.inj hanswer).symm.trans hcompletion
    have hlast := ht.last hcompletion
    have horder := ht.order
    have htimes := ht.times
    constructor
    · simp [held, hrun, hwaiting, ← horder, hr]
    · rw [remainder, hcompletion, Option.elim_some] at htimes
      dsimp only
      rw [remainder, hsame, hwaiting, arrived_append, arrived_singleton, Option.toList_some,
        departures_work, htimes, hlast, Option.elim_some, work_append, departures_append]
      simp [written, work, departures]

theorem complete_inTurn (h : NonPreemptive p C) (hchoose : ∀ jobs, C.choose jobs = jobs.head?)
    (hF : Feasible (C.discipline p) all)
    (hst : Steady p (C.discipline p) all m since) (hst' : Steady p (C.discipline p) all m' since')
    (ht : InTurn p C m) {now : Nat} (hc : m.completion = some now)
    (hs : m.complete p now = some m') : InTurn p C m' := by
  have hahead := hst.settled.ahead now hc
  obtain ⟨r, hr, -⟩ := hst.completing hc
  obtain ⟨info', hcomplete, hrun, hwaiting, -⟩ := h.complete now hst.settled.inv hr
  rw [Selection.rest, hchoose, head_rest] at hwaiting
  rw [hchoose] at hcomplete hrun
  have horder := ht.order
  have htimes := ht.times
  have hserved := hst.served
  rw [remainder, hc, Option.elim_some] at htimes
  rw [held, hr] at horder
  rw [Machine.complete_eq, hcomplete] at hs
  obtain ⟨completion, -, rfl⟩ := Option.map_eq_some_iff.mp hs
  cases hnext : C.waiting m.info with
  | nil =>
    rw [hnext] at hrun hwaiting htimes horder
    have hruns' := hst'.settled.runs
    dsimp only at hruns'
    rw [hrun] at hruns'
    constructor
    · simpa [held, hrun, hwaiting] using horder
    · dsimp only
      rw [remainder, hruns', arrived_append, arrived_singleton, Option.toList_none, List.append_nil,
        htimes]
      simp [written, work, departures]
  | cons next waiting =>
    rw [hnext] at hrun hwaiting htimes horder
    have hmem : next ∈ held p C m.info := by simp [held, hnext]
    have hknown : next ∈ arrived m.history := by simp [← horder]
    have hdispatch : dispatched p info' ((next :: waiting).head?.toList.map
        (grant (C.discipline p) now)) = some next := by
      simp [dispatched, grant, hrun]
    have hcompletion := started_completion hst' rfl (by dsimp only; rw [hnext]; exact hdispatch) hrun
      (arrived_fresh hF hst hknown)
    have hbefore : next.arrivalTime ≤ now := by
      have := hserved next hmem
      omega
    constructor
    · simpa [held, hrun, hwaiting] using horder
    · dsimp only at hcompletion ⊢
      rw [remainder, hcompletion, hwaiting, arrived_append, arrived_singleton, Option.toList_none,
        List.append_nil, htimes]
      simp [written, work, departures, max_eq_right hbefore]

theorem reachable_inTurn (h : NonPreemptive p C) (hchoose : ∀ jobs, C.choose jobs = jobs.head?)
    (hF : Feasible (C.discipline p) all) (hm : Reachable (Machine.system p all) m) :
    InTurn p C m := by
  refine reachable_along h.lawful hF ?_ ?_ hm
  · constructor <;> simp [Machine.create, held, h.create_running, h.create_waiting, finished, arrived,
      written, work, departures, remainder]
  · intro m since m' since' hst hst' ht hs
    cases hs with
    | arrival job rest ha hc hs => exact arrive_inTurn h hF hst hst' ht ha hc hs
    | completion now hc ha hs => exact complete_inTurn h hchoose hF hst hst' ht hc hs

end

theorem fcfs_correct {records : List Record} (h : Regular (2 ^ 64) records) :
    ∃ fuel w, traceRun fcfs records fuel = some w ∧ w.2.queue = [] ∧
      w.1.outFile = (records.map Record.id).zip
        (departures 0 (records.map fun r => (r.arrivalTime, r.jobTime))) := by
  have hL := fcfs_nonPreemptive
  have hF : Feasible (fcfsSelection.discipline fcfs) (jobsOf 0 records) :=
    h.feasible le_rfl fun _ _ => trivial
  obtain ⟨fuel, w, m, hrun, hfinal⟩ := traceRun_final hL.lawful hF
  obtain ⟨since, hst⟩ := reachable_steady hL.lawful hF hfinal.machine
  obtain ⟨-, harrived, -⟩ := hfinal.done hL.lawful hF
  have ht := reachable_inTurn hL (fun _ => rfl) hF hfinal.machine
  have hidle := hfinal.idle hL.lawful hF
  have hheld : held fcfs fcfsSelection m.info = [] := by
    simp [held, hidle, hL.idle hst.settled.inv hidle]
  have horder := ht.order
  have htimes := ht.times
  rw [hheld, List.append_nil, harrived] at horder
  rw [remainder, hfinal.completion, Option.elim_none, List.append_nil, harrived] at htimes
  refine ⟨fuel, w, hrun, hfinal.queue, ?_⟩
  have hids : (written m.history).map Prod.fst = records.map Record.id := by
    rw [← jobsOf_map Record.id 0, ← horder]
    simp [written, finished, List.map_filterMap, Function.comp_def, Job.record]
  rw [hfinal.models.outFile, ← hids, ← jobsOf_map (fun r => (r.arrivalTime, r.jobTime)) 0]
  rw [show (jobsOf 0 records).map (fun job => (job.record.arrivalTime, job.record.jobTime)) =
    work (jobsOf 0 records) from rfl, htimes, ← List.unzip_fst, ← List.unzip_snd, List.zip_unzip]

theorem fcfs_correct_three : ∃ fuel w,
    traceRun fcfs [⟨1, 3, 5⟩, ⟨2, 5, 7⟩, ⟨3, 20, 0⟩] fuel = some w ∧
      w.1.outFile = [(1, 8), (2, 15), (3, 20)] := by
  obtain ⟨fuel, w, hrun, -, hout⟩ := @fcfs_correct [⟨1, 3, 5⟩, ⟨2, 5, 7⟩, ⟨3, 20, 0⟩] (by decide)
  exact ⟨fuel, w, hrun, hout⟩

theorem lcfs_correct {records : List Record} (h : Regular (2 ^ 64) records) :
    ∃ fuel w, traceRun lcfs records fuel = some w ∧ w.2.queue = [] ∧
      w.1.outFile = written w.1.history ∧ arrived w.1.history = jobsOf 0 records ∧
      (finished w.1.history).Perm (jobsOf 0 records) ∧
      Conduct (fun waiting next => next = waiting.getLast?) w.1.history := by
  have hL := lcfs_nonPreemptive
  have hF : Feasible (lcfsStack.selection.discipline lcfs) (jobsOf 0 records) :=
    h.feasible le_rfl fun _ _ => trivial
  obtain ⟨fuel, w, m, hrun, hfinal⟩ := traceRun_final hL.lawful hF
  obtain ⟨hconduct, harrived, hfinished, hout⟩ := final_conduct
    (fun waiting next => next = waiting.getLast?) hL hF (fun jobs _ => List.head?_reverse) hfinal
  exact ⟨fuel, w, hrun, hfinal.queue, hout, harrived, hfinished, hconduct⟩

theorem lcfs_correct_three : ∃ fuel w,
    traceRun lcfs [⟨1, 3, 5⟩, ⟨2, 5, 7⟩, ⟨3, 8, 0⟩] fuel = some w ∧
      arrived w.1.history = jobsOf 0 [⟨1, 3, 5⟩, ⟨2, 5, 7⟩, ⟨3, 8, 0⟩] ∧
      Conduct (fun waiting next => next = waiting.getLast?) w.1.history := by
  obtain ⟨fuel, w, hrun, -, -, harrived, -, hconduct⟩ :=
    @lcfs_correct [⟨1, 3, 5⟩, ⟨2, 5, 7⟩, ⟨3, 8, 0⟩] (by decide)
  exact ⟨fuel, w, hrun, harrived, hconduct⟩

def shortest (waiting : List Job) (next : Option Job) : Prop :=
  next.elim (waiting = []) fun job => job ∈ waiting ∧ ∀ other ∈ waiting, job.shorter other

theorem sjf_correct {records : List Record} (h : Regular (2 ^ 64 - 1) records) :
    ∃ fuel w, traceRun sjf records fuel = some w ∧ w.2.queue = [] ∧
      w.1.outFile = written w.1.history ∧ arrived w.1.history = jobsOf 0 records ∧
      (finished w.1.history).Perm (jobsOf 0 records) ∧ Conduct shortest w.1.history := by
  have hL := sjf_nonPreemptive
  have hF : Feasible (sjfStack.selection.discipline sjf) (jobsOf 0 records) :=
    h.feasible (by decide) fun _ hj => h.small hj
  obtain ⟨fuel, w, m, hrun, hfinal⟩ := traceRun_final hL.lawful hF
  have hpicks : ∀ jobs, (∀ j ∈ jobs, j.small) → shortest jobs (sjfStack.selection.choose jobs) := by
    intro jobs hfits
    rcases eq_or_ne jobs.reverse [] with hnil | hne
    · rw [List.reverse_eq_nil_iff.mp hnil]
      rfl
    · obtain ⟨j, hj, hmem, hleast⟩ :=
        scanShortest_spec (fun i hi => hfits i (List.mem_reverse.mp hi)) hne
      have hchoose : sjfStack.selection.choose jobs = some j := hj
      rw [hchoose]
      exact ⟨List.mem_reverse.mp hmem, fun i hi => hleast i (List.mem_reverse.mpr hi)⟩
  obtain ⟨hconduct, harrived, hfinished, hout⟩ := final_conduct shortest hL hF hpicks hfinal
  exact ⟨fuel, w, hrun, hfinal.queue, hout, harrived, hfinished, hconduct⟩

theorem sjf_correct_four : ∃ fuel w,
    traceRun sjf [⟨1, 3, 5⟩, ⟨2, 5, 7⟩, ⟨3, 8, 2⟩, ⟨4, 8, 2⟩] fuel = some w ∧
      arrived w.1.history = jobsOf 0 [⟨1, 3, 5⟩, ⟨2, 5, 7⟩, ⟨3, 8, 2⟩, ⟨4, 8, 2⟩] ∧
      Conduct shortest w.1.history := by
  obtain ⟨fuel, w, hrun, -, -, harrived, -, hconduct⟩ :=
    @sjf_correct [⟨1, 3, 5⟩, ⟨2, 5, 7⟩, ⟨3, 8, 2⟩, ⟨4, 8, 2⟩] (by decide)
  exact ⟨fuel, w, hrun, harrived, hconduct⟩

end OperatingSystems.Scheduling
