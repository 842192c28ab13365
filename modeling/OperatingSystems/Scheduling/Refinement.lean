import OperatingSystems.Scheduling.Machine

namespace OperatingSystems.Scheduling
open Transition

variable {ι : Type}

inductive Awaits : Option Nat → Option Nat → List (Nat × Event Callback) → Prop
  | nothing : Awaits none none []
  | completion (node timestamp id : Nat) : Awaits (some node) (some timestamp)
      [(node, ⟨timestamp, .completion, id, .schedulerCompleteJob⟩)]

inductive Arriving (trace : Trace ι) : List Job → List (Nat × Event Callback) → Prop
  | nothing : trace.traceFile = [] → Arriving trace [] []
  | arrival (job : Job) (node id : Nat) : trace.currentJob = some job →
      Arriving trace (job :: jobsOf trace.created trace.traceFile)
        [(node, ⟨job.arrivalTime, .arrival, id, .traceArrivalCallback⟩)]

structure Waits (s : Scheduler ι) (sim : Simulator Callback) (executed : List Nat)
    (completion : Option Nat) (others : List (Nat × Event Callback)) : Prop where
  ledger : Ledger sim executed
  queue : ∃ c, Awaits s.completionEvent completion c ∧ sim.queue.Perm (c ++ others)
  answers : ∀ b ∈ s.answers, b = true

-- `executing` is the node of the event whose callback runs, if one does
structure Models (executing : List (Nat × Event Callback)) (w : World ι) (m : Machine ι) :
    Prop where
  queue : ∃ executed a, Waits w.1.scheduler w.2 executed m.completion (a ++ executing) ∧
    Arriving w.1 m.arrivals a
  now : w.2.simTime = m.now
  info : w.1.scheduler.schedulerInfo = m.info
  history : w.1.history = m.history
  outFile : w.1.outFile = written m.history

section
variable {s : Scheduler ι} {sim : Simulator Callback} {executed : List Nat}
  {completion completion' : Option Nat} {others : List (Nat × Event Callback)}

theorem scheduleNextCompletion_waits (h : Waits s sim executed none others) {timestamp : Nat}
    (hnow : sim.simTime ≤ timestamp) :
    ∃ s' sim', schedulerScheduleNextCompletion timestamp (s, sim) = some (s', sim') ∧
      Waits s' sim' executed (some timestamp) others ∧ sim'.simTime = sim.simTime ∧
      s'.schedulerInfo = s.schedulerInfo := by
  obtain ⟨c, hc, hq⟩ := h.queue
  generalize hevent : s.completionEvent = event at hc
  cases hc
  obtain ⟨⟨node, sim'⟩, hs⟩ : ∃ r, sim.schedule timestamp .completion .schedulerCompleteJob = some r := by
    unfold Simulator.schedule
    rw [if_pos hnow]
    exact ⟨_, rfl⟩
  obtain ⟨hledger, htime, hperm⟩ := schedule_ledger h.ledger hs
  refine ⟨{ s with completionEvent := some node, answers := s.answers ++ [true] }, sim', ?_,
    ⟨hledger, ⟨_, .completion node timestamp sim.id, hperm.trans (hq.cons _)⟩, ?_⟩, htime, rfl⟩
  · simp [schedulerScheduleNextCompletion, hevent, hs]
  · intro b hb
    rcases List.mem_append.mp hb with hb | hb
    · exact h.answers b hb
    · exact List.mem_singleton.mp hb

theorem cancelNextCompletion_waits {timestamp : Nat}
    (h : Waits s sim executed (some timestamp) others) :
    ∃ s' sim', schedulerCancelNextCompletion (s, sim) = some (s', sim') ∧
      Waits s' sim' executed none others ∧ sim'.simTime = sim.simTime ∧
      s'.schedulerInfo = s.schedulerInfo := by
  obtain ⟨c, hc, hq⟩ := h.queue
  generalize hevent : s.completionEvent = event at hc
  cases hc with
  | completion node timestamp id =>
    obtain ⟨sim', hr, hperm, he⟩ := h.ledger.remove hq
    have hgone := h.ledger.take executed (sim.removed ++ [node]) hr
      (by rw [← List.append_assoc]; exact List.perm_append_singleton _ _)
    have hremoved : sim'.removed = sim.removed := by rw [he]
    refine ⟨{ s with completionEvent := none }, { sim' with removed := sim.removed ++ [node] }, ?_,
      ⟨hgone, ⟨[], .nothing, hperm⟩, h.answers⟩, by rw [he], rfl⟩
    simp [schedulerCancelNextCompletion, hevent, Simulator.removeEvent, hr, hremoved]

theorem serve_waits {requests : List Request} (h : Waits s sim executed completion others)
    (ha : Machine.answer sim.simTime completion requests = some completion') :
    ∃ s' sim', serve requests (s, sim) = some (s', sim') ∧
      Waits s' sim' executed completion' others ∧ sim'.simTime = sim.simTime ∧
      s'.schedulerInfo = s.schedulerInfo := by
  induction requests generalizing s sim completion with
  | nil =>
    cases ha
    exact ⟨s, sim, rfl, h, rfl, rfl⟩
  | cons request rest ih =>
    cases request with
    | scheduleNextCompletion timestamp =>
      cases completion with
      | some c => cases ha
      | none =>
        simp only [Machine.answer] at ha
        split at ha
        · rename_i hnow
          obtain ⟨s₁, sim₁, hone, hw, htime, hinfo⟩ := scheduleNextCompletion_waits h hnow
          rw [← htime] at ha
          obtain ⟨s₂, sim₂, hrest, hw', htime', hinfo'⟩ := ih hw ha
          refine ⟨s₂, sim₂, ?_, hw', htime'.trans htime, hinfo'.trans hinfo⟩
          simp [serve, hone, hrest]
        · cases ha
    | cancelNextCompletion =>
      cases completion with
      | none => cases ha
      | some c =>
        obtain ⟨s₁, sim₁, hone, hw, htime, hinfo⟩ := cancelNextCompletion_waits h
        simp only [Machine.answer] at ha
        rw [← htime] at ha
        obtain ⟨s₂, sim₂, hrest, hw', htime', hinfo'⟩ := ih hw ha
        refine ⟨s₂, sim₂, ?_, hw', htime'.trans htime, hinfo'.trans hinfo⟩
        simp [serve, hone, hrest]

end

theorem scheduleNextArrival_waits {w : World ι} {executed : List Nat} {completion : Option Nat}
    {others : List (Nat × Event Callback)}
    (h : Waits w.1.scheduler w.2 executed completion others)
    (hnext : ∀ job ∈ (jobsOf w.1.created w.1.traceFile).head?, w.2.simTime ≤ job.arrivalTime) :
    ∃ w' a, traceScheduleNextArrival w = some w' ∧
      Waits w'.1.scheduler w'.2 executed completion (a ++ others) ∧
      Arriving w'.1 (jobsOf w.1.created w.1.traceFile) a ∧ w'.2.simTime = w.2.simTime ∧
      w'.1.scheduler = w.1.scheduler ∧ w'.1.history = w.1.history ∧
      w'.1.outFile = w.1.outFile := by
  unfold traceScheduleNextArrival
  cases hfile : w.1.traceFile with
  | nil => exact ⟨w, [], rfl, h, .nothing hfile, rfl, rfl, rfl, rfl⟩
  | cons record rest =>
    obtain ⟨job, hjob⟩ : ∃ job, job = jobCreate w.1.created record.arrivalTime record.jobTime
      record.id := ⟨_, rfl⟩
    have hnow : w.2.simTime ≤ job.arrivalTime := hnext job (by simp [hfile, jobsOf, hjob])
    simp only [jobsOf, ← hjob]
    obtain ⟨⟨node, sim'⟩, hs⟩ :
        ∃ r, w.2.schedule job.arrivalTime .arrival .traceArrivalCallback = some r := by
      unfold Simulator.schedule
      rw [if_pos hnow]
      exact ⟨_, rfl⟩
    obtain ⟨hledger, htime, hperm⟩ := schedule_ledger h.ledger hs
    obtain ⟨c, hc, hq⟩ := h.queue
    rw [hs]
    refine ⟨_, _, rfl, ⟨hledger, ⟨c, hc, ?_⟩, h.answers⟩, .arrival job node w.2.id rfl, htime, rfl,
      rfl, rfl⟩
    exact hperm.trans ((hq.cons _).trans List.perm_middle.symm)

theorem queue_first {queue others : List (Nat × Event Callback)} {n : Nat × Event Callback}
    (horder : InOrder queue) (hq : queue.Perm (n :: others)) (hlast : ∀ m ∈ others, ¬ m.2.le n.2) :
    ∃ rest, queue = n :: rest := by
  cases queue with
  | nil => cases hq.symm.subset (List.mem_cons_self ..)
  | cons m rest =>
    rcases List.mem_cons.mp (hq.subset (List.mem_cons_self ..)) with rfl | hm
    · exact ⟨rest, rfl⟩
    · rcases List.mem_cons.mp (hq.symm.subset (List.mem_cons_self ..)) with rfl | hn
      · exact ⟨rest, rfl⟩
      · exact absurd ((List.pairwise_cons.mp horder).1 n hn) (hlast m hm)

variable {p : Policy ι} {w : World ι} {m m' : Machine ι}

theorem Arriving.congr {trace trace' : Trace ι} {jobs : List Job} {a : List (Nat × Event Callback)}
    (h : Arriving trace jobs a) (hfile : trace'.traceFile = trace.traceFile)
    (hjob : trace'.currentJob = trace.currentJob) (hcreated : trace'.created = trace.created) :
    Arriving trace' jobs a := by
  cases h with
  | nothing hf => exact .nothing (hfile.trans hf)
  | arrival job node id hj =>
    rw [← hfile, ← hcreated]
    exact .arrival job node id (hjob.trans hj)

theorem executed_models {n : Nat × Event Callback} {rest : List (Nat × Event Callback)}
    {w₁ : World ι} (hq : w.2.queue = n :: rest)
    (hcall : callbacks p n.2.callback (w.1, { w.2 with simTime := n.2.timestamp }) = some w₁)
    (h : Models [n] w₁ m) :
    ∃ w', executeNext (callbacks p) w = some (n, w') ∧ Models [] w' m := by
  obtain ⟨executed, a, hw, ha⟩ := h.queue
  obtain ⟨c, hc, hperm⟩ := hw.queue
  have hmid : w₁.2.queue.Perm (n :: (c ++ a)) := by
    rw [← List.append_assoc] at hperm
    exact hperm.trans (List.perm_append_singleton _ _)
  obtain ⟨sim', hr, hothers, he⟩ := hw.ledger.remove hmid
  have hremoved : sim'.removed = w₁.2.removed := by rw [he]
  have hgone := hw.ledger.take (executed ++ [n.1]) w₁.2.removed hr
    (by rw [List.append_assoc]; exact List.perm_middle)
  rw [← hremoved] at hgone
  refine ⟨(w₁.1, sim'), ?_, ⟨⟨executed ++ [n.1], a, ⟨hgone, ⟨c, hc, ?_⟩, hw.answers⟩, ha⟩, ?_, h.info,
    h.history, h.outFile⟩⟩
  · unfold executeNext
    rw [hq]
    dsimp only
    rw [hcall]
    simp [hr]
  · rw [List.append_nil]
    exact hothers
  · rw [he]
    exact h.now

theorem schedulerCompleteJob_models {executed : List Nat} {a executing : List (Nat × Event Callback)}
    (hw : Waits { w.1.scheduler with completionEvent := none } w.2 executed none (a ++ executing))
    (ha : Arriving w.1 m.arrivals a) (hinfo : w.1.scheduler.schedulerInfo = m.info)
    (hhistory : w.1.history = m.history) (hout : w.1.outFile = written m.history)
    (hm : m.complete p w.2.simTime = some m') :
    ∃ w', schedulerCompleteJob p w = some w' ∧ Models executing w' m' := by
  obtain ⟨completion', hanswer, rfl⟩ := Option.map_eq_some_iff.mp hm
  have hstart : Waits { w.1.scheduler with
      schedulerInfo := (p.completeJob m.info w.2.simTime).1, completionEvent := none } w.2 executed
      none (a ++ executing) := ⟨hw.ledger, hw.queue, hw.answers⟩
  obtain ⟨s, sim, hserve, hs, htime, hi⟩ := serve_waits hstart hanswer
  have hfinished : (p.completeJob m.info w.2.simTime).2.1 = none ∨
      ∃ job, (p.completeJob m.info w.2.simTime).2.1 = some job :=
    Option.eq_none_or_eq_some _
  refine ⟨_, by simp only [schedulerCompleteJob, hinfo, hserve]; rfl, ?_⟩
  rcases hfinished with hjob | ⟨job, hjob⟩ <;> simp only [hjob, Option.elim]
  · exact ⟨⟨executed, a, hs, ha.congr rfl rfl rfl⟩, htime, hi, by rw [hhistory],
      by simp [written, hout]⟩
  · exact ⟨⟨executed, a, hs, ha.congr rfl rfl rfl⟩, htime, hi, by simp [traceCompletionCallback, hhistory],
      by simp [traceCompletionCallback, written, hout, htime]⟩

theorem completion_models (h : Models [] w m) {now : Nat} (hc : m.completion = some now)
    (hfirst : ∀ job ∈ m.arrivals.head?, now ≤ job.arrivalTime)
    (hm : m.complete p now = some m') :
    ∃ n w', executeNext (callbacks p) w = some (n, w') ∧ Models [] w' m' := by
  obtain ⟨executed, a, hw, ha⟩ := h.queue
  obtain ⟨c, hawaits, hq⟩ := hw.queue
  rw [List.append_nil] at hq
  generalize w.1.scheduler.completionEvent = event at hawaits
  rw [hc] at hawaits
  cases hawaits with
  | completion node _ id =>
    obtain ⟨rest, hqueue⟩ := queue_first hw.ledger.inOrder hq fun n hn => by
      generalize m.arrivals = arrivals at ha hfirst
      cases ha with
      | nothing => cases hn
      | arrival job _ _ _ =>
        obtain rfl := List.mem_singleton.mp hn
        have hle := hfirst job rfl
        unfold Event.le
        dsimp only [EventType.code]
        omega
    have hstart : Waits { w.1.scheduler with completionEvent := none } { w.2 with simTime := now }
        executed none (a ++ [(node, ⟨now, .completion, id, .schedulerCompleteJob⟩)]) :=
      ⟨hw.ledger.advance hqueue, ⟨[], .nothing, hq.trans (List.perm_append_singleton _ _).symm⟩,
        hw.answers⟩
    obtain ⟨w₁, hcall, hmodels⟩ := @schedulerCompleteJob_models ι p
      (w.1, { w.2 with simTime := now }) m m' _ _ _ hstart ha h.info h.history h.outFile hm
    obtain ⟨w', hstep, hw'⟩ := executed_models hqueue hcall hmodels
    exact ⟨_, w', hstep, hw'⟩

theorem schedulerScheduleJob_waits {executed : List Nat} {completion completion' : Option Nat}
    {others : List (Nat × Event Callback)} {info : ι} (job : Job)
    (hw : Waits w.1.scheduler w.2 executed completion others)
    (hinfo : w.1.scheduler.schedulerInfo = info)
    (ha : Machine.answer w.2.simTime completion (p.scheduleJob info job w.2.simTime).2 =
      some completion') :
    ∃ s sim turn, schedulerScheduleJob p job w =
        some ({ w.1 with scheduler := s, history := w.1.history ++ [turn] }, sim) ∧
      Waits s sim executed completion' others ∧ sim.simTime = w.2.simTime ∧
      s.schedulerInfo = (p.scheduleJob info job w.2.simTime).1 ∧
      turn = ⟨w.2.simTime, some job, none, none, dispatched p (p.scheduleJob info job w.2.simTime).1
        (p.scheduleJob info job w.2.simTime).2⟩ := by
  have hstart : Waits { w.1.scheduler with
      schedulerInfo := (p.scheduleJob info job w.2.simTime).1 } w.2 executed completion others :=
    ⟨hw.ledger, hw.queue, hw.answers⟩
  obtain ⟨s, sim, hserve, hs, htime, hi⟩ := serve_waits hstart ha
  refine ⟨s, sim, _, ?_, hs, htime, hi, rfl⟩
  simp only [schedulerScheduleJob, hinfo, hserve]
  rfl

theorem traceArrivalCallback_models {executed : List Nat} {job : Job}
    {executing : List (Nat × Event Callback)}
    (hw : Waits w.1.scheduler w.2 executed m.completion executing)
    (hjob : w.1.currentJob = some job) (hnow : w.2.simTime = job.arrivalTime)
    (hnext : ∀ next ∈ (jobsOf w.1.created w.1.traceFile).head?, job.arrivalTime ≤ next.arrivalTime)
    (hinfo : w.1.scheduler.schedulerInfo = m.info) (hhistory : w.1.history = m.history)
    (hout : w.1.outFile = written m.history)
    (hm : m.arrive p job (jobsOf w.1.created w.1.traceFile) = some m') :
    ∃ w', traceArrivalCallback p w = some w' ∧ Models executing w' m' := by
  obtain ⟨completion', hanswer, rfl⟩ := Option.map_eq_some_iff.mp hm
  rw [← hnow] at hanswer
  obtain ⟨s, sim, turn, hjobdone, hs, htime, hi, hturn⟩ :=
    schedulerScheduleJob_waits job hw hinfo hanswer
  rw [hnow] at hi hturn htime
  obtain ⟨w', a, harrival, hw', ha, htime', hsched, hhist, hfile⟩ := scheduleNextArrival_waits
    (w := ({ w.1 with scheduler := s, history := w.1.history ++ [turn] }, sim)) hs
    (by dsimp only; rw [htime]; exact hnext)
  refine ⟨w', ?_, ⟨⟨executed, a, hw', ha⟩, htime'.trans htime, ?_, ?_, ?_⟩⟩
  · unfold traceArrivalCallback
    rw [hjob, Option.bind_some, hjobdone]
    exact harrival
  · rw [hsched, hi]
  · rw [hhist, hhistory, hturn]
  · rw [hfile, hout]
    simp [written]

theorem arrival_models (h : Models [] w m) {job : Job} {rest : List Job}
    (hjobs : m.arrivals = job :: rest) (hc : ∀ c ∈ m.completion, job.arrivalTime < c)
    (hnext : ∀ next ∈ rest.head?, job.arrivalTime ≤ next.arrivalTime)
    (hm : m.arrive p job rest = some m') :
    ∃ n w', executeNext (callbacks p) w = some (n, w') ∧ Models [] w' m' := by
  obtain ⟨executed, a, hw, ha⟩ := h.queue
  obtain ⟨c, hawaits, hq⟩ := hw.queue
  rw [List.append_nil] at hq hw
  rw [hjobs] at ha
  cases ha with
  | arrival job node id hjob =>
    obtain ⟨queue, hqueue⟩ := queue_first hw.ledger.inOrder
      (hq.trans (List.perm_append_singleton _ _)) fun n hn => by
        generalize m.completion = completion at hawaits hc
        generalize w.1.scheduler.completionEvent = event at hawaits
        cases hawaits with
        | nothing => cases hn
        | completion _ timestamp _ =>
          obtain rfl := List.mem_singleton.mp hn
          have hlt := hc timestamp rfl
          unfold Event.le
          dsimp only
          omega
    have hstart : Waits w.1.scheduler { w.2 with simTime := job.arrivalTime } executed
        m.completion [(node, ⟨job.arrivalTime, .arrival, id, .traceArrivalCallback⟩)] :=
      ⟨hw.ledger.advance hqueue, ⟨c, hawaits, hq⟩, hw.answers⟩
    obtain ⟨w₁, hcall, hmodels⟩ := @traceArrivalCallback_models ι p
      (w.1, { w.2 with simTime := job.arrivalTime }) m m' _ _ _ hstart hjob rfl hnext h.info
      h.history h.outFile hm
    obtain ⟨w', hstep, hw'⟩ := executed_models hqueue hcall hmodels
    exact ⟨_, w', hstep, hw'⟩

theorem first_event (h : Models [] w m) {n : Nat × Event Callback} {rest : List (Nat × Event Callback)}
    (hq : w.2.queue = n :: rest) :
    (n.2.type = .arrival ∧ n.2.callback = .traceArrivalCallback ∧
      ∃ job rest', m.arrivals = job :: rest' ∧ w.1.currentJob = some job ∧
        n.2.timestamp = job.arrivalTime ∧ ∀ c ∈ m.completion, job.arrivalTime < c) ∨
    (n.2.type = .completion ∧ n.2.callback = .schedulerCompleteJob ∧
      m.completion = some n.2.timestamp ∧
      ∀ job ∈ m.arrivals.head?, n.2.timestamp ≤ job.arrivalTime) := by
  obtain ⟨executed, a, hw, ha⟩ := h.queue
  obtain ⟨c, hc, hperm⟩ := hw.queue
  rw [List.append_nil] at hperm
  have horder := hw.ledger.inOrder
  have hfirst : ∀ k ∈ c ++ a, n.2.le k.2 := by
    intro k hk
    have hmem := hperm.symm.subset hk
    rw [hq] at hmem horder
    rcases List.mem_cons.mp hmem with rfl | hmem
    · unfold Event.le
      omega
    · exact (List.pairwise_cons.mp horder).1 k hmem
  have hn : n ∈ c ++ a := hperm.subset (by simp [hq])
  generalize m.completion = completion at hc
  generalize m.arrivals = arrivals at ha
  generalize w.1.scheduler.completionEvent = event at hc
  rcases List.mem_append.mp hn with hn | hn
  · cases hc with
    | nothing => cases hn
    | completion node timestamp id =>
      obtain rfl := List.mem_singleton.mp hn
      refine .inr ⟨rfl, rfl, rfl, fun job hjob => ?_⟩
      cases ha with
      | nothing => cases hjob
      | arrival _ node' id' _ =>
        cases hjob
        have hle := hfirst (node', _) (List.mem_append_right _ (List.mem_cons_self ..))
        unfold Event.le at hle
        dsimp only at hle ⊢
        omega
  · cases ha with
    | nothing => cases hn
    | arrival job node id hjob =>
      obtain rfl := List.mem_singleton.mp hn
      refine .inl ⟨rfl, rfl, job, _, rfl, hjob, rfl, fun t ht => ?_⟩
      cases hc with
      | nothing => cases ht
      | completion node' timestamp id' =>
        cases ht
        have hle := hfirst (node', _) (List.mem_append_left _ (List.mem_cons_self ..))
        unfold Event.le at hle
        dsimp only [EventType.code] at hle
        omega

abbrev Chronological (jobs : List Job) : Prop :=
  jobs.Pairwise fun i j => i.arrivalTime ≤ j.arrivalTime

theorem step_models (h : Models [] w m) (horder : Chronological m.arrivals)
    (hm : m.step p = some m') :
    ∃ n w', executeNext (callbacks p) w = some (n, w') ∧ Models [] w' m' := by
  cases Machine.step_next hm with
  | arrival job rest ha hc hs =>
    rw [ha] at horder
    refine arrival_models h ha hc (fun next hnext => ?_) hs
    exact (List.pairwise_cons.mp horder).1 next (List.mem_of_mem_head? hnext)
  | completion now hc ha hs => exact completion_models h hc ha hs

theorem start_models (p : Policy ι) (records : List Record) :
    ∃ w, traceStart p records = some w ∧ Models [] w (Machine.create p (jobsOf 0 records)) := by
  have hstart : Waits (schedulerCreate p) simulatorCreate [] none [] :=
    ⟨create_ledger, ⟨[], .nothing, .nil⟩, by simp [schedulerCreate]⟩
  obtain ⟨w, a, hs, hw, ha, htime, hsched, hhist, hfile⟩ := scheduleNextArrival_waits
    (w := ({ traceFile := records
             outFile := []
             scheduler := schedulerCreate p
             currentJob := none
             created := 0
             history := [] }, simulatorCreate)) hstart (fun _ _ => Nat.zero_le _)
  refine ⟨w, hs, ⟨[], a, hw, ha⟩, htime, ?_, hhist, hfile⟩
  rw [hsched]
  rfl

theorem queue_nil (h : Models [] w m) (hc : m.completion = none) (ha : m.arrivals = []) :
    w.2.queue = [] := by
  obtain ⟨executed, a, hw, harriving⟩ := h.queue
  obtain ⟨c, hawaits, hq⟩ := hw.queue
  rw [ha] at harriving
  rw [hc] at hawaits
  generalize w.1.scheduler.completionEvent = event at hawaits
  cases harriving
  cases hawaits
  exact hq.eq_nil

end OperatingSystems.Scheduling
