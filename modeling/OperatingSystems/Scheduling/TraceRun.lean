import OperatingSystems.Scheduling.Discipline

namespace OperatingSystems.Scheduling
open Transition BusyPeriod

variable {ι : Type}

-- a trace whose events all happen before `limit`
structure Regular (limit : Nat) (records : List Record) : Prop where
  order : records.Pairwise fun r₁ r₂ => r₁.arrivalTime ≤ r₂.arrivalTime
  bound : ∀ r ∈ records.getLast?, r.arrivalTime + (records.map Record.jobTime).sum < limit

instance (limit : Nat) (records : List Record) : Decidable (Regular limit records) :=
  decidable_of_iff (records.Pairwise (fun r₁ r₂ => r₁.arrivalTime ≤ r₂.arrivalTime) ∧
    ∀ r ∈ records.getLast?, r.arrivalTime + (records.map Record.jobTime).sum < limit)
    ⟨fun h => ⟨h.1, h.2⟩, fun h => ⟨h.order, h.bound⟩⟩

def Job.record (job : Job) : Record := ⟨job.id, job.arrivalTime, job.jobTime⟩

theorem jobsOf_record (n : Nat) (records : List Record) :
    (jobsOf n records).map Job.record = records := by
  induction records generalizing n with
  | nil => rfl
  | cons record records ih => simp [jobsOf, ih, jobCreate, Job.record]

theorem jobsOf_ref (n : Nat) (records : List Record) :
    (jobsOf n records).map Job.ref = List.range' n records.length := by
  induction records generalizing n with
  | nil => rfl
  | cons record records ih => simp [jobsOf, ih, jobCreate, List.range'_succ]

theorem jobsOf_fresh {n : Nat} {records : List Record} {job : Job} (h : job ∈ jobsOf n records) :
    job.fresh = job := by
  induction records generalizing n with
  | nil => cases h
  | cons record records ih =>
    rcases List.mem_cons.mp h with rfl | h
    · rfl
    · exact ih h

theorem jobsOf_map {δ : Type} (f : Record → δ) (n : Nat) (records : List Record) :
    (jobsOf n records).map (fun job => f job.record) = records.map f := by
  conv_rhs => rw [← jobsOf_record n records, List.map_map]
  rfl

theorem Regular.bound_all {limit : Nat} {records : List Record} (h : Regular limit records)
    {record : Record} (hr : record ∈ records) :
    record.arrivalTime + (records.map Record.jobTime).sum < limit := by
  obtain ⟨l, last, rfl⟩ :=
    (List.eq_nil_or_concat records).resolve_left (List.ne_nil_of_mem hr)
  rw [List.concat_eq_append] at *
  have hlast := h.bound last (by simp)
  rcases List.mem_append.mp hr with hr | hr
  · have hle := (List.pairwise_append.mp h.order).2.2 record hr last (by simp)
    omega
  · rw [List.mem_singleton.mp hr]
    exact hlast

theorem jobsOf_proper {records : List Record} {D : Discipline ι}
    (horder : records.Pairwise fun r₁ r₂ => r₁.arrivalTime ≤ r₂.arrivalTime)
    (hfits : ∀ job ∈ jobsOf 0 records, D.Fits job) : Proper D (jobsOf 0 records) := by
  refine ⟨?_, hfits, fun job => jobsOf_fresh, ?_⟩
  · rw [← jobsOf_record 0 records, List.pairwise_map] at horder
    exact horder
  · rw [jobsOf_ref]
    exact List.nodup_range'

theorem Regular.feasible {limit : Nat} {records : List Record} {D : Discipline ι}
    (h : Regular limit records) (hlimit : limit ≤ 2 ^ 64)
    (hfits : ∀ job ∈ jobsOf 0 records, D.Fits job) : Feasible D (jobsOf 0 records) := by
  refine ⟨jobsOf_proper h.order hfits, fun job hj => ?_⟩
  have hmem : job.record ∈ records := by
    have := List.mem_map_of_mem (f := Job.record) hj
    rwa [jobsOf_record] at this
  have hbound := h.bound_all hmem
  rw [← jobsOf_map Record.jobTime 0] at hbound
  exact hbound.trans_le hlimit

section
variable {p : Policy ι} {D : Discipline ι} {all : List Job} {m : Machine ι} {since : Nat}
  {w : World ι} {records : List Record}

theorem step_steady (hL : Lawful p D) (hF : Feasible D all) (h : Steady p D all m since) :
    (m.completion = none ∧ m.arrivals = []) ∨ ∃ m' since', m.step p = some m' ∧
      Steady p D all m' since' ∧ potential D m' < potential D m := by
  have complete : ∀ now, m.completion = some now → (∀ job ∈ m.arrivals.head?, now ≤ job.arrivalTime) →
      ∃ m' since', m.step p = some m' ∧ Steady p D all m' since' ∧
        potential D m' < potential D m := by
    intro now hc ha
    obtain ⟨m', hs, hsteady, hlt⟩ := complete_steady hL hF.toProper h hc ha (complete_clock hL hF h hc)
    exact ⟨m', now, (Machine.completion_step hc ha).trans hs, hsteady, hlt⟩
  have arrive : ∀ job rest, m.arrivals = job :: rest → (∀ c ∈ m.completion, job.arrivalTime < c) →
      ∃ m' since', m.step p = some m' ∧ Steady p D all m' since' ∧
        potential D m' < potential D m := by
    intro job rest ha hc
    have hmem : job ∈ all := by simp [← h.all, ha]
    obtain ⟨m', since', hs, hsteady, hlt⟩ :=
      arrive_steady hL hF.toProper h ha hc fun _ => arrive_clock hL hF hmem
    exact ⟨m', since', (Machine.arrival_step ha hc).trans hs, hsteady, hlt⟩
  cases hc : m.completion with
  | none =>
    cases ha : m.arrivals with
    | nil => exact .inl ⟨rfl, rfl⟩
    | cons job rest => exact .inr (arrive job rest ha (by simp [hc]))
  | some now =>
    cases ha : m.arrivals with
    | nil => exact .inr (complete now hc (by simp [ha]))
    | cons job rest =>
      rcases Nat.lt_or_ge job.arrivalTime now with hlt | hle
      · exact .inr (arrive job rest ha (by simpa [hc] using hlt))
      · exact .inr (complete now hc (by simpa [ha] using hle))

theorem reachable_steady (hL : Lawful p D) (hF : Feasible D all)
    (h : Reachable (Machine.system p all) m) : ∃ since, Steady p D all m since := by
  refine h.always (P := fun m => ∃ since, Steady p D all m since) (fun m hm => ?_)
    fun m a o m' _ ⟨since, hsteady⟩ hs => ?_
  · obtain rfl : m = Machine.create p all := hm
    exact ⟨0, create_steady hL all⟩
  · obtain ⟨m₁, hs, he⟩ := Option.map_eq_some_iff.mp hs
    cases he
    rcases step_steady hL hF hsteady with ⟨hc, ha⟩ | ⟨m₂, since', hs', hsteady', -⟩
    · simp [Machine.step, hc, ha] at hs
    · rw [hs] at hs'
      cases hs'
      exact ⟨since', hsteady'⟩

theorem machine_next (h : Reachable (Machine.system p all) m) {m' : Machine ι}
    (hs : m.step p = some m') : Reachable (Machine.system p all) m' := by
  refine h.next (a := ()) (o := ()) ?_
  simp [Machine.system, hs]

theorem reachable_along {P : Machine ι → Prop} (hL : Lawful p D) (hF : Feasible D all)
    (base : P (Machine.create p all))
    (ind : ∀ m since m' since', Steady p D all m since → Steady p D all m' since' → P m →
      Machine.Next p m m' → P m')
    (h : Reachable (Machine.system p all) m) : P m := by
  refine h.always (P := P) (fun m hm => ?_) fun m a o m' hm hp hs => ?_
  · obtain rfl : m = Machine.create p all := hm
    exact base
  · obtain ⟨m₁, hs, he⟩ := Option.map_eq_some_iff.mp hs
    cases he
    obtain ⟨since, hsteady⟩ := reachable_steady hL hF hm
    obtain ⟨since', hsteady'⟩ := reachable_steady hL hF (machine_next hm hs)
    exact ind m since m' since' hsteady hsteady' hp (Machine.step_next hs)

theorem reachable_models (hL : Lawful p D) (hF : Feasible D (jobsOf 0 records))
    (h : Reachable (simulation p records) w) :
    ∃ m, Reachable (Machine.system p (jobsOf 0 records)) m ∧ Models [] w m := by
  refine h.simulated (N := Machine.system p (jobsOf 0 records)) (R := Models [])
    (fun w hw => ?_) fun w m a n w' hm hmodels hs => ?_
  · obtain ⟨w', hs, hmodels⟩ := start_models p records
    obtain rfl : w' = w := Option.some.inj (hs.symm.trans hw)
    exact ⟨_, rfl, hmodels⟩
  · have hs : executeNext (callbacks p) w = some (n, w') := hs
    obtain ⟨since, hsteady⟩ := reachable_steady hL hF hm
    rcases step_steady hL hF hsteady with ⟨hc, ha⟩ | ⟨m', since', hs', -, -⟩
    · obtain ⟨rest, hq⟩ := loop_step hs
      rw [queue_nil hmodels hc ha] at hq
      cases hq
    · obtain ⟨n₁, w₁, hs₁, hmodels'⟩ := step_models hmodels (hsteady.chronological hF.toProper) hs'
      rw [hs] at hs₁
      cases hs₁
      exact ⟨(), (), m', by simp [Machine.system, hs'], hmodels'⟩

structure Final (p : Policy ι) (records : List Record) (w : World ι) (m : Machine ι) : Prop where
  reachable : Reachable (simulation p records) w
  machine : Reachable (Machine.system p (jobsOf 0 records)) m
  models : Models [] w m
  completion : m.completion = none
  arrivals : m.arrivals = []

theorem runs_out (hL : Lawful p D) (hF : Feasible D (jobsOf 0 records)) {n : Nat}
    (hn : potential D m ≤ n) (hw : Reachable (simulation p records) w)
    (hm : Reachable (Machine.system p (jobsOf 0 records)) m) (h : Models [] w m) :
    ∃ fuel w' m', simulatorRun (callbacks p) fuel w = some w' ∧ Final p records w' m' := by
  induction n generalizing w m with
  | zero =>
    obtain ⟨since, hsteady⟩ := reachable_steady hL hF hm
    rcases step_steady hL hF hsteady with ⟨hc, ha⟩ | ⟨m', since', -, -, hlt⟩
    · exact ⟨1, w, m, by simp [simulatorRun, queue_nil h hc ha], hw, hm, h, hc, ha⟩
    · omega
  | succ n ih =>
    obtain ⟨since, hsteady⟩ := reachable_steady hL hF hm
    rcases step_steady hL hF hsteady with ⟨hc, ha⟩ | ⟨m', since', hs, -, hlt⟩
    · exact ⟨1, w, m, by simp [simulatorRun, queue_nil h hc ha], hw, hm, h, hc, ha⟩
    · obtain ⟨node, w', hx, h'⟩ := step_models h (hsteady.chronological hF.toProper) hs
      obtain ⟨fuel, w'', m'', hrun, hfinal⟩ :=
        ih (by omega) (hw.next (a := ()) (o := node) hx) (machine_next hm hs) h'
      obtain ⟨rest, hq⟩ := loop_step hx
      refine ⟨fuel + 1, w'', m'', ?_, hfinal⟩
      rw [simulatorRun, if_neg (by simp [hq]), hx]
      exact hrun

theorem traceRun_final (hL : Lawful p D) (hF : Feasible D (jobsOf 0 records)) :
    ∃ fuel w m, traceRun p records fuel = some w ∧ Final p records w m := by
  obtain ⟨w, hs, hmodels⟩ := start_models p records
  obtain ⟨fuel, w', m, hrun, hfinal⟩ := runs_out hL hF le_rfl ⟨[], .start hs⟩ ⟨[], .start rfl⟩ hmodels
  refine ⟨fuel, w', m, ?_, hfinal⟩
  rw [traceRun, hs]
  exact hrun

theorem Final.queue {w : World ι} (h : Final p records w m) : w.2.queue = [] :=
  queue_nil h.models h.completion h.arrivals

theorem Final.idle (hL : Lawful p D) (hF : Feasible D (jobsOf 0 records))
    (h : Final p records w m) : p.running m.info = none := by
  obtain ⟨since, hsteady⟩ := reachable_steady hL hF h.machine
  have hruns := hsteady.settled.runs
  rw [h.completion] at hruns
  exact Option.map_eq_none_iff.mp hruns.symm

theorem Final.done (hL : Lawful p D) (hF : Feasible D (jobsOf 0 records))
    (h : Final p records w m) :
    ((finished m.history).map Job.fresh).Perm (jobsOf 0 records) ∧
      arrived m.history = jobsOf 0 records ∧
      busyPeriodEnds m.history = busyEnds 0 (work (jobsOf 0 records)) := by
  obtain ⟨since, hsteady⟩ := reachable_steady hL hF h.machine
  have hall := hsteady.all
  rw [h.arrivals, List.append_nil] at hall
  have hidle := (hL.idle hsteady.settled.inv).mp (h.idle hL hF)
  have hjobs := hsteady.jobs
  have hends := hsteady.ends
  rw [hidle, List.nil_append, hall] at hjobs
  rw [if_pos hidle, List.append_nil, hall] at hends
  exact ⟨hjobs, hall, hends⟩

end

end OperatingSystems.Scheduling
