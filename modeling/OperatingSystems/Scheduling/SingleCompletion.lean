import OperatingSystems.Scheduling.WorkConservation

namespace OperatingSystems.Scheduling
open Transition BusyPeriod

variable {ι : Type}

def completionNodes (sim : Simulator Callback) : List Nat :=
  (sim.queue.filter fun n => n.2.type = .completion).map Prod.fst

section
variable {p : Policy ι} {D : Discipline ι} {all : List Job} {m : Machine ι} {since : Nat}
  {w : World ι}

theorem models_completionNodes (h : Models [] w m) :
    completionNodes w.2 = w.1.scheduler.completionEvent.toList := by
  obtain ⟨executed, a, hw, ha⟩ := h.queue
  obtain ⟨c, hc, hperm⟩ := hw.queue
  rw [List.append_nil] at hperm
  have hkeep : ((c ++ a).filter fun n => n.2.type = .completion) = c := by
    rw [List.filter_append]
    generalize m.completion = completion at hc
    generalize m.arrivals = arrivals at ha
    generalize w.1.scheduler.completionEvent = event at hc
    cases hc <;> cases ha <;> rfl
  have hfilter := (hperm.filter fun n => n.2.type = .completion).map Prod.fst
  rw [hkeep] at hfilter
  unfold completionNodes
  generalize m.completion = completion at hc
  generalize w.1.scheduler.completionEvent = event at hc
  cases hc with
  | nothing => exact hfilter.eq_nil
  | completion node timestamp id => exact List.perm_singleton.mp hfilter

theorem models_completion (h : Models [] w m) :
    w.1.scheduler.completionEvent = none ↔ m.completion = none := by
  obtain ⟨executed, a, hw, -⟩ := h.queue
  obtain ⟨c, hc, -⟩ := hw.queue
  generalize m.completion = completion at hc
  generalize w.1.scheduler.completionEvent = event at hc
  cases hc <;> simp

theorem unfinishedJobs_nil (hL : Lawful p D) (hF : Feasible D all) (h : Steady p D all m since) :
    unfinishedJobs m.history = [] ↔ m.completion = none := by
  have hruns : m.completion = none ↔ D.jobs m.info = [] := by
    rw [h.settled.runs, Option.map_eq_none_iff, hL.idle h.settled.inv]
  rw [hruns, ← List.map_eq_nil_iff, ← List.length_eq_zero_iff, ← (h.unfinished_refs hF.toProper).length_eq,
    List.length_map, List.length_eq_zero_iff]

theorem executing_stays (hL : Lawful p D) (hF : Feasible D all) (hst : Steady p D all m since)
    (h : Models [] w m) {node : Nat} {event : Event Callback} {rest : List (Nat × Event Callback)}
    (hq : w.2.queue = (node, event) :: rest) :
    ∃ w', callbacks p event.callback (w.1, { w.2 with simTime := event.timestamp }) = some w' ∧
      node ∈ w'.2.queue.map Prod.fst := by
  rcases step_steady hL hF hst with ⟨hc, ha⟩ | ⟨m', since', hs, -, -⟩
  · rw [queue_nil h hc ha] at hq
    cases hq
  · obtain ⟨n, w', hx, -⟩ := step_models h (hst.chronological hF.toProper) hs
    unfold executeNext at hx
    rw [hq] at hx
    obtain ⟨w₁, hcall, hx⟩ := Option.bind_eq_some_iff.mp hx
    obtain ⟨sim, hr, -⟩ := Option.map_eq_some_iff.mp hx
    refine ⟨w₁, hcall, ?_⟩
    unfold Simulator.listRemove at hr
    split at hr
    · assumption
    · cases hr

end

end OperatingSystems.Scheduling
