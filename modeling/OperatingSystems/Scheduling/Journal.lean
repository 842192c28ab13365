import OperatingSystems.Scheduling.NonPreemptive

namespace OperatingSystems.Scheduling
open Transition BusyPeriod

variable {ι : Type}

def waitingJobs (history : List Turn) : List Job :=
  (arrived history).filter fun job => job ∉ started history

-- the job started in `turn` is completed after exactly its size, with nothing started or completed
-- in between, and an arrival at that time comes after the completion
def Served (turn : Turn) (job : Job) (later : List Turn) : Prop :=
  ∃ between done rest, later = between ++ done :: rest ∧ (∀ t ∈ between, Quiet done.time t) ∧
    done.finished = some job ∧ done.time = turn.time + job.jobTime

-- what a run does, where `picks` says which of the waiting jobs may be started
structure Conduct (picks : List Job → Option Job → Prop) (history : List Turn) : Prop where
  served : ∀ h₁ turn h₂ job, history = h₁ ++ turn :: h₂ → turn.started = some job →
    Served turn job h₂
  busy : ∀ h₁ h₂, history = h₁ ++ h₂ → waitingJobs h₁ ≠ [] →
    ∃ job, started h₁ = finished h₁ ++ [job]
  choice : ∀ h₁ turn h₂, history = h₁ ++ turn :: h₂ → turn.arrived = none →
    picks (waitingJobs h₁) turn.started

theorem snoc_split {δ : Type} {l h₁ h₂ : List δ} {x y : δ} (h : l ++ [x] = h₁ ++ y :: h₂) :
    (l = h₁ ∧ x = y ∧ h₂ = []) ∨ ∃ h₃, h₂ = h₃ ++ [x] ∧ l = h₁ ++ y :: h₃ := by
  rcases List.eq_nil_or_concat h₂ with rfl | ⟨h₃, z, rfl⟩
  · obtain ⟨hl, hx⟩ := List.append_inj' h rfl
    exact .inl ⟨hl, List.singleton_inj.mp hx, rfl⟩
  · rw [List.concat_eq_append, ← List.cons_append, ← List.append_assoc] at h
    obtain ⟨hl, hx⟩ := List.append_inj' h rfl
    obtain rfl := List.singleton_inj.mp hx
    exact .inr ⟨h₃, List.concat_eq_append, hl⟩

section
variable {p : Policy ι} {D : Discipline ι} {all : List Job} {m : Machine ι} {since : Nat}

theorem Steady.since_eq (h : Steady p D all m since) {history : List Turn} {turn : Turn}
    (hlast : m.history = history ++ [turn]) (hstarted : turn.started ≠ none) {r : Job}
    (hr : p.running m.info = some r) : since = turn.time := by
  obtain ⟨h₁, t, h₂, hsplit, -, htime, hquiet⟩ := h.dispatch r hr
  rw [hlast] at hsplit
  rcases snoc_split hsplit with ⟨-, rfl, -⟩ | ⟨h₃, rfl, -⟩
  · exact htime.symm
  · exact absurd (hquiet turn (by simp)).started hstarted

end

variable {p : Policy ι} {C : Selection ι}

structure Journal (p : Policy ι) (C : Selection ι) (m : Machine ι) : Prop where
  known : ∀ job ∈ started m.history, job ∈ arrived m.history
  running : started m.history = finished m.history ++ (p.running m.info).toList
  waiting : waitingJobs m.history = C.waiting m.info
  served : ∀ h₁ turn h₂ job, m.history = h₁ ++ turn :: h₂ → turn.started = some job →
    Served turn job h₂ ∨ p.running m.info = some job ∧
      m.completion = some (turn.time + job.jobTime) ∧
      ∀ t ∈ h₂, Quiet (turn.time + job.jobTime) t
  busy : ∀ h₁ h₂, m.history = h₁ ++ h₂ → waitingJobs h₁ ≠ [] →
    ∃ job, started h₁ = finished h₁ ++ [job]
  choice : ∀ h₁ turn h₂, m.history = h₁ ++ turn :: h₂ → turn.arrived = none →
    turn.started = C.choose (waitingJobs h₁)

theorem create_journal (h : NonPreemptive p C) (all : List Job) :
    Journal p C (Machine.create p all) := by
  constructor <;>
    simp [Machine.create, h.create_running, h.create_waiting, started, finished, arrived, waitingJobs]

theorem Served.append {turn : Turn} {job : Job} {later : List Turn} (h : Served turn job later)
    (more : List Turn) : Served turn job (later ++ more) := by
  obtain ⟨between, done, rest, rfl, hquiet, hdone⟩ := h
  exact ⟨between, done, rest ++ more, by simp, hquiet, hdone⟩

theorem Journal.snoc {m m' : Machine ι} {turn : Turn} (h : Journal p C m)
    (hhistory : m'.history = m.history ++ [turn])
    (hrunning : started m'.history = finished m'.history ++ (p.running m'.info).toList)
    (hwaiting : waitingJobs m'.history = C.waiting m'.info)
    (hidle : p.running m'.info = none → C.waiting m'.info = [])
    (hserved : ∀ h₁ t h₂ job, m.history = h₁ ++ t :: h₂ → t.started = some job →
      p.running m.info = some job → m.completion = some (t.time + job.jobTime) →
      (∀ t' ∈ h₂, Quiet (t.time + job.jobTime) t') →
      Served t job (h₂ ++ [turn]) ∨ p.running m'.info = some job ∧
        m'.completion = some (t.time + job.jobTime) ∧ Quiet (t.time + job.jobTime) turn)
    (hstarts : ∀ job, turn.started = some job → job ∈ arrived m'.history ∧
      p.running m'.info = some job ∧ m'.completion = some (turn.time + job.jobTime))
    (hchoice : turn.arrived = none → turn.started = C.choose (waitingJobs m.history)) :
    Journal p C m' := by
  refine ⟨fun job hjob => ?_, hrunning, hwaiting, fun h₁ t h₂ job hsplit hjob => ?_, fun h₁ h₂ hsplit hne => ?_,
    fun h₁ t h₂ hsplit harrived => ?_⟩
  · rw [hhistory, started_append, List.mem_append, started_singleton, Option.mem_toList] at hjob
    rcases hjob with hjob | hjob
    · rw [hhistory, arrived_append]
      exact List.mem_append_left _ (h.known job hjob)
    · exact (hstarts job hjob).1
  · rw [hhistory] at hsplit
    rcases snoc_split hsplit with ⟨-, rfl, rfl⟩ | ⟨h₃, rfl, hold⟩
    · obtain ⟨-, hrun, hcompletion⟩ := hstarts job hjob
      exact .inr ⟨hrun, hcompletion, by simp⟩
    · rcases h.served h₁ t h₃ job hold hjob with hdone | ⟨hrun, hcompletion, hquiet⟩
      · exact .inl (hdone.append _)
      · rcases hserved h₁ t h₃ job hold hjob hrun hcompletion hquiet with hdone | ⟨hrun', hc', hq⟩
        · exact .inl hdone
        · refine .inr ⟨hrun', hc', fun t' ht' => ?_⟩
          rcases List.mem_append.mp ht' with ht' | ht'
          · exact hquiet t' ht'
          · exact List.mem_singleton.mp ht' ▸ hq
  · rcases List.eq_nil_or_concat h₂ with rfl | ⟨h₃, t, rfl⟩
    · rw [List.append_nil] at hsplit
      subst hsplit
      rw [hwaiting] at hne
      obtain ⟨job, hjob⟩ := Option.ne_none_iff_exists'.mp (mt hidle hne)
      exact ⟨job, by rw [hrunning, hjob]; rfl⟩
    · rw [hhistory, List.concat_eq_append, ← List.append_assoc] at hsplit
      exact h.busy h₁ h₃ (List.append_inj' hsplit rfl).1 hne
  · rw [hhistory] at hsplit
    rcases snoc_split hsplit with ⟨rfl, rfl, -⟩ | ⟨h₃, -, hold⟩
    · exact hchoice harrived
    · exact h.choice h₁ t h₃ hold harrived

section
variable {all : List Job} {m m' : Machine ι} {since since' : Nat}

theorem started_completion (h : Steady p (C.discipline p) all m since) {history : List Turn}
    {turn : Turn} (hlast : m.history = history ++ [turn]) {job : Job}
    (hstarted : turn.started = some job) (hrun : p.running m.info = some job)
    (hfresh : job.fresh = job) : m.completion = some (turn.time + job.jobTime) := by
  have hsize : job.jobTime = job.remainingTime := congrArg Job.remainingTime hfresh
  rw [h.settled.runs, hrun, h.since_eq hlast (by simp [hstarted]) hrun, hsize]
  rfl

theorem arrived_fresh (hF : Feasible (C.discipline p) all)
    (h : Steady p (C.discipline p) all m since) {job : Job} (hj : job ∈ arrived m.history) :
    job.fresh = job :=
  hF.fresh job (h.arrived_initial.subset hj)

theorem arrived_nodup (hF : Feasible (C.discipline p) all)
    (h : Steady p (C.discipline p) all m since) : (arrived m.history).Nodup := by
  have hnodup : all.Nodup := hF.distinct.of_map
  exact hnodup.sublist h.arrived_initial.sublist

theorem arriving_new (hF : Feasible (C.discipline p) all)
    (h : Steady p (C.discipline p) all m since) (hj : Journal p C m) {job : Job} {rest : List Job}
    (ha : m.arrivals = job :: rest) : job ∉ started m.history := by
  intro hmem
  have hnodup : all.Nodup := hF.distinct.of_map
  rw [← h.all, ha, List.nodup_append] at hnodup
  exact hnodup.2.2 job (hj.known job hmem) job (List.mem_cons_self ..) rfl

theorem waitingJobs_append (history : List Turn) (turn : Turn) :
    waitingJobs (history ++ [turn]) = (arrived history ++ turn.arrived.toList).filter fun job =>
      job ∉ started history ++ turn.started.toList := by
  simp [waitingJobs]

theorem arrive_journal (h : NonPreemptive p C) (hF : Feasible (C.discipline p) all)
    (hst : Steady p (C.discipline p) all m since) (hst' : Steady p (C.discipline p) all m' since')
    (hj : Journal p C m) {job : Job} {rest : List Job} (ha : m.arrivals = job :: rest)
    (hc : ∀ c ∈ m.completion, job.arrivalTime < c) (hs : m.arrive p job rest = some m') :
    Journal p C m' := by
  have hoffer := hst.offer hF.toProper ha hc
  have hinv := hst.settled.inv
  have hnew := arriving_new hF hst hj ha
  rw [Machine.arrive_eq] at hs
  cases hr : p.running m.info with
  | none =>
    obtain ⟨info', hsched, hrun, hwaiting, -⟩ := h.start hoffer hr
    have hdispatch : dispatched p info' [grant (C.discipline p) job.arrivalTime job] = some job := by
      simp [dispatched, grant, hrun]
    have hold : waitingJobs m.history = [] := by rw [hj.waiting, h.idle hinv hr]
    rw [hsched] at hs
    obtain ⟨completion, -, rfl⟩ := Option.map_eq_some_iff.mp hs
    refine hj.snoc rfl ?_ ?_ (fun _ => hwaiting) ?_ ?_ ?_
    · simp [hj.running, hr, hrun, hdispatch]
    · dsimp only
      rw [waitingJobs_append, hwaiting, hdispatch]
      simp only [waitingJobs, List.filter_eq_nil_iff] at hold ⊢
      intro j hj' hnot
      rcases List.mem_append.mp hj' with hj' | hj'
      · refine hold j hj' ?_
        simp only [List.mem_append, not_or, decide_eq_true_eq] at hnot ⊢
        exact hnot.1
      · simp [List.mem_singleton.mp hj'] at hnot
    · intro h₁ t h₂ j _ _ hrun'
      rw [hr] at hrun'
      cases hrun'
    · intro j hj'
      obtain rfl : job = j := by simpa [hdispatch] using hj'
      exact ⟨by simp, hrun, started_completion hst' rfl hdispatch hrun hoffer.fresh⟩
    · intro hnone
      cases hnone
  | some r =>
    obtain ⟨info', hsched, hrun, hwaiting, -⟩ := h.wait hoffer hr
    rw [hsched] at hs
    obtain ⟨completion, hanswer, rfl⟩ := Option.map_eq_some_iff.mp hs
    have hsame : m.completion = completion := Option.some.inj hanswer
    refine hj.snoc rfl ?_ ?_ ?_ ?_ ?_ ?_
    · simp [hj.running, hr, hrun, dispatched]
    · dsimp only
      rw [waitingJobs_append, hwaiting, ← hj.waiting]
      simp [dispatched, waitingJobs, List.filter_append, hnew]
    · intro hnone
      rw [hrun] at hnone
      cases hnone
    · intro h₁ t h₂ j _ _ hrun' hcompletion _
      refine .inr ⟨hrun.trans (hr.symm.trans hrun'), hsame.symm.trans hcompletion, rfl, rfl, ?_⟩
      exact hc _ hcompletion
    · intro j hj'
      cases hj'
    · intro hnone
      cases hnone

theorem complete_journal (h : NonPreemptive p C) (hF : Feasible (C.discipline p) all)
    (hst : Steady p (C.discipline p) all m since) (hst' : Steady p (C.discipline p) all m' since')
    (hj : Journal p C m) {now : Nat} (hc : m.completion = some now)
    (hs : m.complete p now = some m') : Journal p C m' := by
  obtain ⟨r, hr, -⟩ := hst.completing hc
  obtain ⟨info', hcomplete, hrun, hwaiting, hinv'⟩ := h.complete now hst.settled.inv hr
  have hdispatch : dispatched p info' ((C.choose (C.waiting m.info)).toList.map
      (grant (C.discipline p) now)) = C.choose (C.waiting m.info) := by
    rw [← hrun]
    cases hnext : p.running info' with
    | none => rfl
    | some next => simp [dispatched, grant, hnext]
  rw [Machine.complete_eq, hcomplete, hr] at hs
  obtain ⟨completion, -, rfl⟩ := Option.map_eq_some_iff.mp hs
  refine hj.snoc rfl ?_ ?_ (h.idle hinv') ?_ ?_ ?_
  · simp [hj.running, hr, hrun, hdispatch]
  · dsimp only
    rw [waitingJobs_append, hwaiting, hdispatch, ← hj.waiting, Selection.rest, Option.toList_none,
      List.append_nil]
    cases hnext : C.choose (waitingJobs m.history) with
    | none =>
      rw [hj.waiting] at hnext
      rw [Option.toList_none, List.append_nil]
      exact hj.waiting.trans ((h.choose_none (h.waiting_fits hst.settled.inv)).mp hnext)
    | some next =>
      have hnodup := (arrived_nodup hF hst).filter fun job => job ∉ started m.history
      rw [waitingJobs, Option.elim_some, hnodup.erase_eq_filter, List.filter_filter]
      apply List.filter_congr
      intro j _
      simp only [Option.toList_some, List.mem_append, List.mem_singleton, not_or]
      rw [Bool.eq_iff_iff]
      simp [and_comm]
  · intro h₁ t h₂ j _ _ hrun' hcompletion hquiet
    rw [hr] at hrun'
    rw [hc] at hcompletion
    cases hrun'
    cases hcompletion
    exact .inl ⟨h₂, _, [], rfl, hquiet, rfl, rfl⟩
  · intro j hj'
    have hchosen : C.choose (C.waiting m.info) = some j := hdispatch.symm.trans hj'
    have hrun' : p.running info' = some j := hrun.trans hchosen
    have hmem : j ∈ arrived m.history := by
      have := h.choose_mem hchosen
      rw [← hj.waiting] at this
      exact List.mem_of_mem_filter this
    exact ⟨by simpa using hmem, hrun', started_completion hst' rfl hj' hrun' (arrived_fresh hF hst hmem)⟩
  · intro _
    rw [hj.waiting]
    exact hdispatch

theorem reachable_journal (h : NonPreemptive p C) (hF : Feasible (C.discipline p) all)
    (hm : Reachable (Machine.system p all) m) : Journal p C m := by
  refine reachable_along h.lawful hF (create_journal h all) ?_ hm
  intro m since m' since' hst hst' hj hs
  cases hs with
  | arrival job rest ha hc hs => exact arrive_journal h hF hst hst' hj ha hc hs
  | completion now hc ha hs => exact complete_journal h hF hst hst' hj hc hs

theorem final_conduct {records : List Record} {w : World ι} (picks : List Job → Option Job → Prop)
    (h : NonPreemptive p C) (hF : Feasible (C.discipline p) (jobsOf 0 records))
    (hpicks : ∀ jobs, (∀ j ∈ jobs, C.Fits j) → picks jobs (C.choose jobs))
    (hfinal : Final p records w m) :
    Conduct picks w.1.history ∧ arrived w.1.history = jobsOf 0 records ∧
      (finished w.1.history).Perm (jobsOf 0 records) ∧ w.1.outFile = written w.1.history := by
  have hj := reachable_journal h hF hfinal.machine
  obtain ⟨since, hst⟩ := reachable_steady h.lawful hF hfinal.machine
  obtain ⟨hdone, hall, -⟩ := hfinal.done h.lawful hF
  have hidle := hfinal.idle h.lawful hF
  have hfresh : (finished m.history).map Job.fresh = finished m.history := by
    conv_rhs => rw [← List.map_id (finished m.history)]
    apply List.map_congr_left
    intro job hjob
    refine arrived_fresh hF hst (hj.known job ?_)
    rw [hj.running]
    exact List.mem_append_left _ hjob
  rw [hfinal.models.history, hfinal.models.outFile]
  refine ⟨⟨fun h₁ t h₂ job hsplit hjob => ?_, hj.busy, fun h₁ t h₂ hsplit hnone => ?_⟩, hall,
    hfresh ▸ hdone, rfl⟩
  · refine (hj.served h₁ t h₂ job hsplit hjob).resolve_right fun hrun => ?_
    rw [hidle] at hrun
    cases hrun.1
  · rw [hj.choice h₁ t h₂ hsplit hnone]
    refine hpicks _ fun j hj' => hF.fits j ?_
    rw [← hall, hsplit, arrived_append]
    exact List.mem_append_left _ (List.mem_of_mem_filter hj')

end

end OperatingSystems.Scheduling
