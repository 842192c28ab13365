import OperatingSystems.Scheduling.TraceRun

namespace OperatingSystems.Scheduling
open Transition BusyPeriod

variable {ι : Type}

-- the jobs that wait, the first to arrive first, and the one of them that is started next
structure Selection (ι : Type) where
  waiting : ι → List Job
  choose : List Job → Option Job
  Fits : Job → Prop
  Inv : ι → Prop

variable {p : Policy ι} {C : Selection ι}

def held (p : Policy ι) (C : Selection ι) (info : ι) : List Job :=
  (p.running info).toList ++ C.waiting info

def Selection.rest (C : Selection ι) (jobs : List Job) : List Job :=
  (C.choose jobs).elim [] jobs.erase

def Selection.discipline (p : Policy ι) (C : Selection ι) : Discipline ι where
  jobs := held p C
  slice := Job.remainingTime
  Fits := C.Fits
  Inv := fun info _ => C.Inv info

structure NonPreemptive (p : Policy ι) (C : Selection ι) : Prop where
  create_running : p.running p.create = none
  create_waiting : C.waiting p.create = []
  create_inv : C.Inv p.create
  idle : ∀ {info}, C.Inv info → p.running info = none → C.waiting info = []
  choose_none : ∀ {jobs}, (∀ j ∈ jobs, C.Fits j) → (C.choose jobs = none ↔ jobs = [])
  choose_mem : ∀ {jobs j}, C.choose jobs = some j → j ∈ jobs
  fits : ∀ {info}, C.Inv info → ∀ j ∈ held p C info, C.Fits j
  start : ∀ {info since job now}, Offer p (C.discipline p) info since job now → p.running info = none →
    ∃ info', p.scheduleJob info job now = (info', [grant (C.discipline p) now job]) ∧
      p.running info' = some job ∧ C.waiting info' = [] ∧ C.Inv info'
  wait : ∀ {info since job now r}, Offer p (C.discipline p) info since job now → p.running info = some r →
    ∃ info', p.scheduleJob info job now = (info', []) ∧ p.running info' = some r ∧
      C.waiting info' = C.waiting info ++ [job] ∧ C.Inv info'
  complete : ∀ {info r} (now : Nat), C.Inv info → p.running info = some r →
    ∃ info', p.completeJob info now = (info', some r,
        (C.choose (C.waiting info)).toList.map (grant (C.discipline p) now)) ∧
      p.running info' = C.choose (C.waiting info) ∧
      C.waiting info' = C.rest (C.waiting info) ∧ C.Inv info'

theorem NonPreemptive.choose_perm (h : NonPreemptive p C) {jobs : List Job}
    (hfits : ∀ j ∈ jobs, C.Fits j) : ((C.choose jobs).toList ++ C.rest jobs).Perm jobs := by
  unfold Selection.rest
  cases hj : C.choose jobs with
  | none => rw [(h.choose_none hfits).mp hj]; exact .nil
  | some j => exact (List.perm_cons_erase (h.choose_mem hj)).symm

theorem NonPreemptive.waiting_fits (h : NonPreemptive p C) {info : ι} (hinv : C.Inv info) :
    ∀ j ∈ C.waiting info, C.Fits j :=
  fun j hj => h.fits hinv j (List.mem_append_right _ hj)

theorem NonPreemptive.lawful (h : NonPreemptive p C) : Lawful p (C.discipline p) := by
  constructor
  case slice_le => exact fun job => le_rfl
  case create_jobs => simp [Selection.discipline, held, h.create_running, h.create_waiting]
  case create_inv => exact h.create_inv
  case idle =>
    intro info since hinv
    constructor
    · intro hrun
      simp [Selection.discipline, held, hrun, h.idle hinv hrun]
    · intro hnil
      exact Option.toList_eq_nil_iff.mp (List.append_eq_nil_iff.mp hnil).1
  case running_mem =>
    intro info since r _ hr
    simp [Selection.discipline, held, hr]
  case accepts =>
    intro info since job now hoffer
    cases hr : p.running info with
    | none =>
      obtain ⟨info', hs, hrun, -, hinv⟩ := h.start hoffer hr
      rw [hs]
      exact .start info' hr hrun hinv
    | some r =>
      obtain ⟨info', hs, hrun, -, hinv⟩ := h.wait hoffer hr
      rw [hs]
      exact .wait info' (by simp [hr]) (hrun.trans hr.symm) hinv
  case accepts_jobs =>
    intro info since job now hoffer
    cases hr : p.running info with
    | none =>
      obtain ⟨info', hs, hrun, hwaiting, -⟩ := h.start hoffer hr
      simp [hs, Selection.discipline, held, hrun, hwaiting, hr, h.idle hoffer.inv hr]
    | some r =>
      obtain ⟨info', hs, hrun, hwaiting, -⟩ := h.wait hoffer hr
      simp only [hs, Selection.discipline, held, hrun, hwaiting, hr]
      rw [← List.append_assoc]
      exact List.perm_append_singleton _ _
  case serves =>
    intro info since r hinv hr
    obtain ⟨info', hs, hrun, hwaiting, -⟩ := h.complete _ hinv hr
    rw [hs]
    refine .finish info' r rfl rfl ?_
    simp only [Selection.discipline, held, hr, hrun, hwaiting]
    exact (h.choose_perm (h.waiting_fits hinv)).symm.cons r
  case serves_inv =>
    intro info since r hinv hr
    obtain ⟨info', hs, -, -, hinv'⟩ := h.complete _ hinv hr
    rw [hs]
    exact hinv'
  case serves_next =>
    intro info since r hinv hr
    obtain ⟨info', hs, hrun, -, -⟩ := h.complete _ hinv hr
    rw [hs, hrun]

end OperatingSystems.Scheduling
