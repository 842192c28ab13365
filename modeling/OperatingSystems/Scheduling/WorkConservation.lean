import OperatingSystems.Scheduling.Mlfq
import OperatingSystems.Scheduling.Queues

namespace OperatingSystems.Scheduling
open Transition BusyPeriod

def SchedulerName.discipline : (name : SchedulerName) → Discipline name.Info
  | .FCFS => fcfsSelection.discipline fcfs
  | .LCFS => lcfsStack.selection.discipline lcfs
  | .SJF => sjfStack.selection.discipline sjf
  | .MLFQ => mlfqDiscipline

theorem SchedulerName.lawful (name : SchedulerName) : Lawful name.policy name.discipline := by
  cases name with
  | FCFS => exact fcfs_nonPreemptive.lawful
  | LCFS => exact lcfs_nonPreemptive.lawful
  | SJF => exact sjf_nonPreemptive.lawful
  | MLFQ => exact mlfq_lawful

theorem SchedulerName.fits (name : SchedulerName) {job : Job} (h : job.small) :
    name.discipline.Fits job := by
  cases name with
  | SJF => exact h
  | FCFS | LCFS | MLFQ => trivial

theorem Regular.feasible_name {records : List Record} (h : Regular (2 ^ 64 - 1) records)
    (name : SchedulerName) : Feasible name.discipline (jobsOf 0 records) :=
  h.feasible (by decide) fun _ hj => name.fits (h.small hj)

theorem last_written (history : List Turn) (hdone : (history.foldl tally (0, [])).1 = 0) :
    ((written history).map Prod.snd).getLast? = (busyPeriodEnds history).getLast? := by
  induction history using List.reverseRec with
  | nil => rfl
  | append_singleton history turn ih =>
    rw [tally_append] at hdone
    rw [busyPeriodEnds, tally_append, written_append]
    cases hf : turn.finished with
    | some job =>
      simp only [tally, hf, Option.toList_some, List.length_singleton] at hdone
      simp [written, tally, hf, hdone]
    | none =>
      simp only [tally, hf, Option.toList_none, List.length_nil, Nat.sub_zero] at hdone
      have hold : (history.foldl tally (0, [])).1 = 0 := by omega
      simpa [written, busyPeriodEnds, tally, hf] using ih hold

theorem work_conserved {records : List Record} (h : Regular (2 ^ 64 - 1) records)
    (hids : (records.map Record.id).Nodup) (name : SchedulerName) :
    ∃ fuel w, traceRun name.policy records fuel = some w ∧ w.2.queue = [] ∧
      w.1.outFile = written w.1.history ∧
      (w.1.outFile.map Prod.fst).Perm (records.map Record.id) ∧
      (∀ r ∈ records, ∀ time, (r.id, time) ∈ w.1.outFile → r.arrivalTime + r.jobTime ≤ time) ∧
      busyPeriodEnds w.1.history =
        busyEnds 0 (records.map fun r => (r.arrivalTime, r.jobTime)) ∧
      (w.1.outFile.map Prod.snd).getLast? =
        (busyEnds 0 (records.map fun r => (r.arrivalTime, r.jobTime))).getLast? := by
  have hL := name.lawful
  have hF := h.feasible_name name
  obtain ⟨fuel, w, m, hrun, hfinal⟩ := traceRun_final hL hF
  obtain ⟨since, hst⟩ := reachable_steady hL hF hfinal.machine
  obtain ⟨hdone, harrived, hends⟩ := hfinal.done hL hF
  have hids' : ((written m.history).map Prod.fst).Perm (records.map Record.id) := by
    have hperm := hdone.map fun job => job.record.id
    rw [jobsOf_map Record.id, List.map_map] at hperm
    have hmap : (written m.history).map Prod.fst = (finished m.history).map fun job => job.id := by
      simp [written, finished, List.map_filterMap, Function.comp_def]
    rw [hmap]
    exact hperm
  rw [← jobsOf_map (fun r => (r.arrivalTime, r.jobTime)) 0]
  refine ⟨fuel, w, hrun, hfinal.queue, ?_⟩
  rw [hfinal.models.history, hfinal.models.outFile]
  refine ⟨rfl, hids', fun r hr time htime => ?_, hends, ?_⟩
  · obtain ⟨turn, hturn, hwritten⟩ := List.mem_filterMap.mp htime
    obtain ⟨job, hjob, he⟩ := Option.map_eq_some_iff.mp hwritten
    obtain ⟨hid, rfl⟩ := Prod.mk.inj he
    have hlate := hst.late turn hturn job hjob
    have hmem : job.record ∈ records := by
      have hfinished : job ∈ finished m.history := List.mem_filterMap.mpr ⟨turn, hturn, hjob⟩
      have hall := hdone.subset (List.mem_map_of_mem hfinished)
      have := List.mem_map_of_mem (f := Job.record) hall
      rwa [jobsOf_record] at this
    obtain rfl : job.record = r := List.inj_on_of_nodup_map hids hmem hr hid
    exact hlate
  · rw [last_written m.history, hends]
    · rfl
    · rw [hst.unfinished, (hL.idle hst.settled.inv).mp (hfinal.idle hL hF)]
      rfl

theorem work_conserved_three :
    ∃ fuel w, traceRun mlfq [⟨1, 0, 2⟩, ⟨2, 1, 3⟩, ⟨3, 9, 0⟩] fuel = some w ∧
      busyPeriodEnds w.1.history = [5, 9] := by
  obtain ⟨fuel, w, hrun, -, -, -, -, hends, -⟩ :=
    @work_conserved [⟨1, 0, 2⟩, ⟨2, 1, 3⟩, ⟨3, 9, 0⟩] (by decide) (by decide) .MLFQ
  exact ⟨fuel, w, hrun, hends⟩

end OperatingSystems.Scheduling
