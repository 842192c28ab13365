import Mathlib.Data.List.Infix
import OperatingSystems.Scheduling.MlfqState

namespace OperatingSystems.Scheduling
open Transition Buckets

def AtDispatches (P : List Turn → Job → Prop) (history : List Turn) : Prop :=
  ∀ h, h <+: history → ∀ turn ∈ h.getLast?, ∀ job ∈ turn.started, P h job

instance (P : List Turn → Job → Prop) [∀ h job, Decidable (P h job)] (history : List Turn) :
    Decidable (AtDispatches P history) :=
  decidable_of_iff (∀ h ∈ history.inits, ∀ turn ∈ h.getLast?, ∀ job ∈ turn.started, P h job)
    (by simp only [AtDispatches, List.mem_inits])

theorem Moved.snoc {info info' : MLFQInfo} {history history' : List Turn} {type : EventType}
    (h : Moved info history type info' history') : ∃ turn, history' = history ++ [turn] ∧
      ∀ job ∈ turn.started, mlfq.running info' = some job := by
  cases h with
  | arrival job now started o _ _ _ hstarted => exact ⟨_, rfl, hstarted⟩
  | completion w now started o _ _ hstarted => exact ⟨_, rfl, hstarted⟩

theorem atDispatches_nil (P : List Turn → Job → Prop) : AtDispatches P [] := by
  intro h hprefix turn hturn
  rw [List.prefix_nil.mp hprefix] at hturn
  cases hturn

theorem AtDispatches.snoc {P : List Turn → Job → Prop} {history : List Turn} {turn : Turn}
    (h : AtDispatches P history) (hlast : ∀ job ∈ turn.started, P (history ++ [turn]) job) :
    AtDispatches P (history ++ [turn]) := by
  intro h' hprefix t ht job hjob
  rcases List.prefix_concat_iff.mp hprefix with rfl | hprefix
  · rw [List.getLast?_concat] at ht
    cases ht
    exact hlast job hjob
  · exact h h' hprefix t ht job hjob

theorem dispatches_hold {records : List Record} {P : MLFQInfo → List Turn → Prop}
    {Q : List Turn → Job → Prop} {ok : World MLFQInfo → Unit → Prop} {w : World MLFQInfo}
    {tr : List (Transition.Event (World MLFQInfo) Unit (Nat × Event Callback))}
    (horder : records.Pairwise fun r₁ r₂ => r₁.arrivalTime ≤ r₂.arrivalTime)
    (base : P schedulerMLFQCreate [])
    (ind : ∀ w n info' history', w.1.scheduler.schedulerInfo.Consistent w.1.history →
      P w.1.scheduler.schedulerInfo w.1.history → ok w () → w.2.queue.head? = some n →
      Moved w.1.scheduler.schedulerInfo w.1.history n.2.type info' history' → P info' history')
    (hrunning : ∀ info history job, info.Consistent history → P info history →
      mlfq.running info = some job → Q history job)
    (hrun : Run (simulation mlfq records) tr w) (hok : Meets ok tr) :
    AtDispatches Q w.1.history := by
  obtain ⟨m, since, hm, -, -, -, hdispatches⟩ := mlfq_tracked
    (P := fun info history => P info history ∧ AtDispatches Q history) horder
    ⟨base, atDispatches_nil Q⟩
    (fun w n info' history' hc ⟨hp, hdispatches⟩ hok hq hmoved hc' => by
      have hp' := ind w n info' history' hc hp hok hq hmoved
      obtain ⟨turn, rfl, hstarted⟩ := hmoved.snoc
      exact ⟨hp', hdispatches.snoc fun job hjob =>
        hrunning info' _ job hc' hp' (hstarted job hjob)⟩) hrun hok
  rw [hm.history]
  exact hdispatches

structure Lined (before : MLFQJob → MLFQJob → Prop) (info : MLFQInfo) : Prop where
  queue : ∀ l, (info.queues l).Pairwise before
  running : ∀ r ∈ info.running, ∀ v ∈ info.queues r.level, before r v

theorem create_lined (before : MLFQJob → MLFQJob → Prop) : Lined before schedulerMLFQCreate := by
  constructor <;> simp [schedulerMLFQCreate]

section
variable {before before' : MLFQJob → MLFQJob → Prop} {info info' : MLFQInfo}
  {history : List Turn} {now : Nat}

theorem queue_held {l : Fin maxMLFQLevels} {v : MLFQJob} (hv : v ∈ info.queues l) :
    v ∈ info.held :=
  List.mem_append_right _ (mem_contents.mpr ⟨l, hv⟩)

theorem Lined.mono (h : Lined before info)
    (himp : ∀ a ∈ info.held, ∀ b ∈ info.held, before a b → before' a b) : Lined before' info := by
  constructor
  · intro l
    exact (h.queue l).imp_of_mem fun ha hb => himp _ (queue_held ha) _ (queue_held hb)
  · intro r hr v hv
    exact himp r (running_mem_held hr) v (queue_held hv) (h.running r hr v hv)

theorem insert_lined (h : ∀ l, (info.queues l).Pairwise before) {w : MLFQJob}
    (hlast : ∀ v ∈ info.queues w.level, before v w) :
    ∀ l, ((info.insert w).queues l).Pairwise before := by
  intro l
  simp only [MLFQInfo.insert]
  rcases eq_or_ne l w.level with rfl | hne
  · rw [Function.update_self, List.pairwise_append]
    refine ⟨h w.level, List.pairwise_singleton _ _, fun v hv w' hw' => ?_⟩
    rw [List.mem_singleton.mp hw']
    exact hlast v hv
  · rw [Function.update_of_ne hne]
    exact h l

theorem Picked.lined {requests : List Request} (hpicked : Picked info now (info', requests))
    (hplaced : ∀ l, ∀ v ∈ info.queues l, v.level = l)
    (h : ∀ l, (info.queues l).Pairwise before) : Lined before info' := by
  cases hpicked with
  | none hnil => exact ⟨h, by simp⟩
  | some l next rest hqueue hbefore =>
    have hsorted := h l
    rw [hqueue, List.pairwise_cons] at hsorted
    constructor
    · intro l'
      dsimp only
      rcases eq_or_ne l' l with rfl | hne
      · rw [Function.update_self]
        exact hsorted.2
      · rw [Function.update_of_ne hne]
        exact h l'
    · rintro r ⟨⟩ v hv
      have hlevel : next.level = l := hplaced l next (by simp [hqueue])
      rw [hlevel] at hv
      dsimp only at hv
      rw [Function.update_self] at hv
      exact hsorted.1 v hv

theorem admitted_lined {job : Job} {o : MLFQInfo × List Request} (hc : info.Consistent history)
    (h : Lined before info) (hnew : ∀ v ∈ info.held, v.level = 0 → before v ⟨job, 0⟩)
    (hdisplace : ∀ r ∈ info.running, 0 < r.level → ∀ v ∈ info.queues r.level, before v r)
    (ha : Admitted info job now o) : Lined before o.1 := by
  cases ha with
  | idle hr =>
    refine ⟨h.queue, fun r _ v hv => ?_⟩
    dsimp only at hv
    rw [hc.idle hr] at hv
    cases hv
  | wait r hr hlevel =>
    have hzero : ∀ v ∈ info.queues 0, before v ⟨job, 0⟩ := fun v hv =>
      hnew v (queue_held hv) (hc.placed 0 v hv)
    refine ⟨insert_lined h.queue hzero, fun r' hr' v hv => ?_⟩
    obtain rfl : r = r' := Option.some.inj (hr.symm.trans hr')
    rw [hlevel] at hv
    simp only [MLFQInfo.insert, Function.update_self] at hv
    rcases List.mem_append.mp hv with hv | hv
    · exact h.running r hr v (hlevel ▸ hv)
    · rw [List.mem_singleton.mp hv]
      exact hnew r (running_mem_held hr) hlevel
  | displace r hr hlevel =>
    refine ⟨insert_lined h.queue (hdisplace r hr hlevel), ?_⟩
    rintro _ ⟨⟩ v hv
    have hne : (0 : Fin maxMLFQLevels) ≠ r.level := (Fin.pos_iff_ne_zero.mp hlevel).symm
    simp only [MLFQInfo.insert] at hv
    rw [Function.update_of_ne hne] at hv
    have hle := hc.lowest r hr 0 v hv
    rw [hc.placed 0 v hv] at hle
    exact absurd hle (not_le.mpr hlevel)

theorem sliced_lined {w : MLFQJob} {o : MLFQInfo × Option Job × List Request}
    (hc : info.Consistent history) (h : ∀ l, (info.queues l).Pairwise before)
    (hback : ∀ w' ∈ w.resume, ∀ v ∈ info.queues w'.level, before v w')
    (hs : Sliced info w now o) : Lined before o.1 := by
  cases hs with
  | demote info' requests hrem hpicked =>
    apply hpicked.lined (insert_placed hc.placed _)
    apply insert_lined h
    apply hback
    simp [MLFQJob.resume, hrem]
  | finish info' requests hrem hpicked => exact hpicked.lined hc.placed h

theorem MLFQInfo.Consistent.waits (hc : info.Consistent history) {r : MLFQJob}
    (hr : info.running = some r) {other : Job} (ho : other ∈ unfinishedJobs history)
    (hne : other.ref ≠ r.job.ref) :
    ∃ v ∈ info.queues v.level, v.job.ref = other.ref := by
  obtain ⟨v, hv, rfl⟩ := List.mem_map.mp (hc.unfinished.symm.subset ho)
  rw [running_held hr] at hv
  rcases List.mem_cons.mp hv with rfl | hv
  · exact absurd rfl hne
  · obtain ⟨l, hl⟩ := mem_contents.mp hv
    exact ⟨v, (hc.placed l v hl).symm ▸ hl, rfl⟩

theorem MLFQInfo.Consistent.arrived (hc : info.Consistent history) {v : MLFQJob}
    (hv : v ∈ info.held) : v.job.ref ∈ (arrived history).map Job.ref := by
  have hmem : v.job.fresh ∈ unfinishedJobs history :=
    hc.unfinished.subset (List.mem_map.mpr ⟨v, hv, rfl⟩)
  exact List.mem_map.mpr ⟨v.job.fresh, List.mem_of_mem_filter hmem, rfl⟩

end

end OperatingSystems.Scheduling
