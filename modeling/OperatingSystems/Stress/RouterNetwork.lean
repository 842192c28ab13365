import Mathlib.Logic.Relation
import OperatingSystems.Stress.RouterEnd

namespace OperatingSystems.Stress
open Calling Concurrency Transition

variable {n : Nat} {topology : Topology n} {w w' : Network n}

def Network.routers (w : Network n) (i : Fin n) : Router n := w.thread (.router i)

theorem routers_set (w : Network n) (queue : Chan n → List (Message n)) (closed : Chan n → Bool)
    (m : Memory n) (i : Fin n) (r : Router n) :
    Network.routers ({ w with queue := queue, closed := closed, memory := m }.set (.router i) r) =
      Function.update w.routers i r := by
  funext k
  by_cases hk : k = i
  · subst hk
    simp [Network.routers]
  · simp [Network.routers, hk]

theorem routers_main (w : Network n) (queue : Chan n → List (Message n)) (closed : Chan n → Bool)
    (m : Memory n) (l : Main n) :
    Network.routers ({ w with queue := queue, closed := closed, memory := m }.set .main l) =
      w.routers := by
  funext k
  simp [Network.routers]

structure Running (topology : Topology n) (w : Network n) : Prop where
  stated : ∀ i, Stated topology i w.memory (w.routers i)
  roomy : Roomy w.queue
  posted : Posted topology w.queue w.routers
  measured : Measured topology w.memory w.routers
  absorbed : Absorbed topology w.queue w.memory w.routers
  phase : Testing w.queue w.closed w.memory w.routers (w.thread .main) ∨
    (w.thread .main).pc.stage = none ∧
      (Steady w.routers → Ended w.queue w.closed w.memory w.routers (w.thread .main))

theorem steady_before {i : Fin n} {router : Fin n → Router n} {r' : Router n}
    {queue queue' : Chan n → List (Message n)} {closed : Chan n → Bool} {m m' : Memory n}
    (step : RouterStep topology i queue closed m (router i) queue' m' r')
    (h : Steady (Function.update router i r')) : Steady router := by
  intro j
  have hj := h j
  by_cases hji : j = i
  · subst hji
    rw [Function.update_self] at hj
    rcases step_replies step with ⟨hr, -⟩ | ⟨-, hr, -⟩
    · rwa [hr] at hj
    · rw [hr, replied_replies] at hj
      exact hj.left_of_append
  · rwa [Function.update_of_ne hji] at hj

variable [NeZero n]

theorem init_running (queue : ∀ c, w.queue c = []) (closed : ∀ c, w.closed c = false)
    (init : (program topology).init w.thread w.memory) : Running topology w := by
  obtain ⟨hmain, hrouter, hmemory⟩ := init
  have hrouters : w.routers = Router.start topology := funext hrouter
  refine ⟨fun i => ?_, ⟨by simp [queue], queue _⟩, ?_, ?_, ?_, .inl ?_⟩
  · rw [hrouters, hmemory]
    exact start_stated topology i
  · rw [hrouters]
    exact start_posted topology queue
  · rw [hrouters, hmemory]
    exact start_measured topology
  · rw [hrouters]
    exact start_absorbed topology _ _
  · rw [hrouters, hmain]
    have hnone : answerers (Router.start topology) 0 = ∅ := by simp [answerers, Router.start]
    refine ⟨closed, by simp [hmemory, Memory.start], by simp [Router.start],
      ⟨_, rfl, ⟨fun j => ?_, by simp [Main.start], ?_, by simp [queue], by simp [Router.start],
        by simp [Router.start], by simp, by simp [Router.start]⟩, by simp⟩,
      by simp [Main.start], by simp [Main.start]⟩
    · simp [Main.start, Router.nulls, Router.start, queue]
    · simp [Main.start, hnone, queue]

theorem main_stage {solution : Matrix n} {queue queue' : Chan n → List (Message n)}
    {closed closed' : Chan n → Bool} {m : Memory n} {l l' : Main n} (h : l.pc.stage = none)
    (step : MainStep solution queue closed m l queue' closed' l') : l'.pc.stage = none := by
  cases step with
  | flush second i pc | gather second i data pc | note i p pc | index i p pc
    | oldEpoch i p index q pc | newEpoch i p epoch pc =>
    rw [pc] at h
    cases h
  | check src dst q pc =>
    unfold Main.checked
    split <;> rfl
  | join i pc =>
    unfold Main.joined
    split <;> rfl
  | closeNode i pc =>
    unfold Main.closed
    split <;> rfl
  | closeDone | closeCompleted | fail => rfl

theorem step_runs (hsym : topology.Mutual) (h : Running topology w) (step : Step topology w w') :
    Running topology w' := by
  cases step with
  | @router i queue m r step =>
    have hset := routers_set w queue w.closed m i r
    refine ⟨fun j => ?_, step_roomy h.roomy step, ?_, ?_, ?_, ?_⟩
    · rw [hset]
      by_cases hj : j = i
      · subst hj
        rw [Function.update_self]
        exact step_stated (h.stated j) step
      · rw [Function.update_of_ne hj]
        exact (h.stated j).memory fun s => step_writes step (by simp [hj])
    · rw [hset]
      exact step_posted h.posted (h.stated i) step
    · rw [hset]
      exact step_measured h.measured h.stated h.posted step
    · rw [hset]
      exact step_absorbed h.absorbed h.stated h.posted h.measured step
    · rw [hset]
      have hmain : ({ w with queue := queue, memory := m }.set (.router i) r).thread .main =
          w.thread .main := by simp
      rw [hmain]
      exact h.phase.imp (fun ht => step_testing ht hsym h.stated h.posted step)
        fun he => ⟨he.1, fun hsteady => step_ended (he.2 (steady_before step hsteady)) step⟩
  | @main queue closed l step =>
    have hset := routers_main w queue closed w.memory l
    have hmain : ({ w with queue := queue, closed := closed }.set .main l).thread .main = l := by
      simp
    refine ⟨fun j => ?_, main_roomy h.roomy step, ?_, ?_, ?_, ?_⟩
    · rw [hset]
      exact h.stated j
    · rw [hset]
      exact main_posted h.posted step
    · rw [hset]
      exact h.measured
    · rw [hset]
      exact main_absorbed h.absorbed step
    · rw [hset, hmain]
      rcases h.phase with ht | ⟨hstage, he⟩
      · rcases main_testing ht h.stated step with ht' | ⟨hclosed, hpc, ha⟩
        · exact .inl ht'
        · refine .inr ⟨by rw [hpc]; rfl, fun hsteady => accepted_ended h.stated
            (main_roomy h.roomy step) hsteady ha (fun c => ?_) ht.unfreed ht.running ⟨0, 0, hpc⟩⟩
          rw [hclosed]
          exact ht.isOpen c
      · exact .inr ⟨main_stage hstage step, fun hsteady =>
          (main_ended (he hsteady) hsym h.absorbed h.stated h.measured step).1⟩

theorem reached_running (hsym : topology.Mutual)
    (h : Reached (program topology) (fun _ => 1) w) : Running topology w :=
  reached_always program_plain (fun _ => init_running)
    (fun _ _ hr h => step_runs hsym hr (took_step (fun i => (hr.stated i).shaped) hr.roomy h)) h

theorem turn_step (hr : Running topology w) (turn : Turn (program topology) (fun _ => 1) w w') :
    Step topology w w' :=
  took_step (fun i => (hr.stated i).shaped) hr.roomy (turn_took program_plain turn)

theorem step_accepts (hr : Running topology w)
    (htest : (w.thread .main).pc.stage.isSome = true) (step : Step topology w w') :
    (w'.thread .main).pc.stage.isSome = true ∨ (w'.thread .main).pc = .check 0 0 ∧
      Accepted w'.queue w'.routers (w'.thread .main) := by
  have ht := hr.phase.resolve_right fun he => by simp [he.1] at htest
  cases step with
  | @router i queue m r step =>
    left
    simpa using htest
  | @main queue closed l step =>
    have hmain : ({ w with queue := queue, closed := closed }.set .main l).thread .main = l := by
      simp
    rw [routers_main w queue closed w.memory l, hmain]
    rcases main_testing ht hr.stated step with ht' | ⟨-, hpc, ha⟩
    · obtain ⟨s, hstage, -⟩ := ht'.tested
      exact .inl (by simp [hstage])
    · exact .inr ⟨hpc, ha⟩

theorem reached_accepts (hsym : topology.Mutual)
    (h : Reached (program topology) (fun _ => 1) w) : (w.thread .main).pc.stage.isSome = true ∨
      ∃ w₀ : Network n, Reached (program topology) (fun _ => 1) w₀ ∧ (w₀.thread .main).pc = .check 0 0 ∧
        Accepted w₀.queue w₀.routers (w₀.thread .main) ∧
        Relation.ReflTransGen (Turn (program topology) fun _ => 1) w₀ w := by
  induction h with
  | start queue closed init =>
    left
    rw [show _ = Main.start from init.1]
    rfl
  | turn before turn ih =>
    rcases ih with htest | ⟨w₀, hreached, hpc, ha, hlater⟩
    · have hr := reached_running hsym before
      refine (step_accepts hr htest (turn_step hr turn)).imp_right fun ⟨hpc, ha⟩ => ?_
      exact ⟨_, before.turn turn, hpc, ha, .refl⟩
    · exact .inr ⟨w₀, hreached, hpc, ha, hlater.tail turn⟩

end OperatingSystems.Stress
