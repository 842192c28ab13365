import OperatingSystems.Stress.RouterDeadlock
import OperatingSystems.Stress.RouterDescent

namespace OperatingSystems.Stress
open Calling Concurrency Transition

variable {n : Nat} [NeZero n] {topology : Topology n} {w w' : Network n}

theorem reached_descending (hsym : topology.Mutual) (h : Reached (program topology) (fun _ => 1) w) :
    Running topology w ∧ ∀ i, Descending topology i w.memory (w.routers i) := by
  refine reached_always (I := fun w : Network n => Running topology w ∧
    ∀ i, Descending topology i w.memory (Network.routers w i)) program_plain
    (fun w queue closed init => ⟨init_running queue closed init, fun i => ?_⟩)
    (fun w w' hr h => ?_) h
  · obtain ⟨-, hrouter, hmemory⟩ := init
    rw [hmemory, show Network.routers w i = _ from hrouter i]
    exact start_descending topology i
  · obtain ⟨hr, hd⟩ := hr
    have hstep := took_step (fun i => (hr.stated i).shaped) hr.roomy h
    refine ⟨step_runs hsym hr hstep, fun j => ?_⟩
    cases hstep with
    | @router i queue m r step =>
      rw [routers_set w queue w.closed m i r]
      by_cases hj : j = i
      · subst hj
        rw [Function.update_self]
        exact step_descending (hd j) (hr.stated j) step
      · rw [Function.update_of_ne hj]
        exact (hd j).memory fun s => step_writes step (by simp [hj])
    | @main queue closed l step =>
      rw [routers_main w queue closed w.memory l]
      exact hd j

-- on the channels of `channel.c`
abbrev network (topology : Topology n) (s : State (Thread n) (Chan n) (Message n))
    (g : (∀ t : Thread n, Local t) × Memory n) : Network n := (program topology).world s.queues g

-- where `run_stress` begins, and a thread that uses the channels for `k` steps
def begin (topology : Topology n) : (∀ t : Thread n, Local t) × Memory n :=
  (fun
    | .main => Main.start
    | .router i => Router.start topology i, Memory.start topology)

def use (t : Thread n) (k : Nat) : List (Act (Thread n) (Action (Thread n) (Chan n) (Message n))) :=
  [.call t] ++ List.replicate k (.run (.run t fun _ => true)) ++ [.ret t]

def complete (n : Nat) : Topology n := createTopology fun src dst => if src = dst then 0 else 1

theorem complete_mutual (n : Nat) : (complete n).Mutual := by
  intro i j h
  rw [complete, createTopology, Topology.link, Matrix.getDistance_ofFn] at h
  split at h <;> cases h

theorem first_sent : ∃ (s : State (Thread 2) (Chan 2) (Message 2))
    (g : (∀ t : Thread 2, Local t) × Memory 2),
    Reachable (hosted (threads fun _ => 1) (program (complete 2)).client) (s, g) ∧
      ((network (complete 2) s g).routers 1).pc.hand = some ⟨0, 2⟩ := by
  obtain ⟨tr, p, hr, -, hhand⟩ :=
    replay_run (M := hosted (threads fun _ => 1) (program (complete 2)).client)
      (s := (State.initial (fun _ => 1) none, begin (complete 2)))
      ⟨initial_init _ none, rfl, fun _ => rfl, rfl⟩
      (use (.router 0) 13 ++ use (.router 1) 12 ++ [.move (.router 1)])
      (fun _ p => ((network (complete 2) p.1 p.2).routers 1).pc.hand = some ⟨0, 2⟩)
      (by decide +kernel)
  exact ⟨p.1, p.2, ⟨tr, hr⟩, hhand⟩

-- two linked routers send each other their vectors
def introduce : List (Act (Thread 2) (Action (Thread 2) (Chan 2) (Message 2))) :=
  use (.router 0) 13 ++ use (.router 1) 12 ++ List.replicate 5 (.move (.router 1)) ++
    use (.router 1) 13 ++ use (.router 0) 10 ++ List.replicate 5 (.move (.router 0))

-- a test: both are asked, and the main thread takes `looks` steps with each answer
def asked (looks : Nat) : List (Act (Thread 2) (Action (Thread 2) (Chan 2) (Message 2))) :=
  use .main 3 ++ use .main 3 ++
    use (.router 0) 10 ++ use (.router 0) 3 ++ use .main 3 ++ List.replicate looks (.move .main) ++
    use (.router 1) 10 ++ use (.router 1) 3 ++ use .main 3 ++ List.replicate looks (.move .main)

def leave : List (Act (Thread 2) (Action (Thread 2) (Chan 2) (Message 2))) :=
  use .main 7 ++ use (.router 0) 7 ++ [.move (.router 0)] ++ use (.router 1) 7 ++
    [.move (.router 1), .move .main, .move .main] ++ use .main 7 ++ use .main 7 ++ use .main 7

theorem linked_ends : ∃ (s : State (Thread 2) (Chan 2) (Message 2))
    (g : (∀ t : Thread 2, Local t) × Memory 2),
    Reachable (hosted (threads fun _ => 1) (program (complete 2)).client) (s, g) ∧
      Stuck (threads fun _ => 1) (program (complete 2)).client Action.due s g ∧
      Steady (network (complete 2) s g).routers ∧
      ((network (complete 2) s g).thread .main).pc = .returned := by
  obtain ⟨tr, p, hr, -, hover, hsteady, hrun, hret, hcall, hmove⟩ :=
    replay_run (M := hosted (threads fun _ => 1) (program (complete 2)).client)
      (s := (State.initial (fun _ => 1) none, begin (complete 2)))
      ⟨initial_init _ none, rfl, fun _ => rfl, rfl⟩
      (introduce ++ asked 1 ++ asked 3 ++ List.replicate 4 (.move .main) ++ leave)
      (fun _ p => ((network (complete 2) p.1 p.2).thread .main).pc = .returned ∧
        (∀ i, ((network (complete 2) p.1 p.2).routers i).replies.IsChain
          fun a b => b.1 < a.1 + 4) ∧
        (∀ t wake, ((threads fun _ => 1).run p.1 (.run t wake)).isNone) ∧
        (∀ t, ((threads fun _ => 1).ret p.1 t).isNone) ∧
        (∀ t, ((program (complete 2)).client.ask p.2 t).isNone) ∧
        ∀ t, ((program (complete 2)).client.move p.2 t).isNone)
      (by decide +kernel)
  refine ⟨p.1, p.2, ⟨tr, hr⟩, ⟨⟨fun a ha => ?_, fun t => by simpa using hret t⟩, fun t k hk => ?_,
    fun t => by simpa using hmove t⟩, hsteady, hover⟩
  · cases a with
    | call t k => rfl
    | run t wake => simpa using hrun t wake
    | spurious t => exact ha.elim
  · simpa [hk] using hcall t

section
variable {s : State (Thread n) (Chan n) (Message n)} {g : (∀ t : Thread n, Local t) × Memory n}
  (hsym : topology.Mutual)
  (h : Reachable (hosted (threads fun _ => 1) (program topology).client) (s, g))
include hsym h

theorem network_running : Running topology (network topology s g) :=
  reached_running hsym (channels_reached (fun _ => Nat.one_ne_zero) h)

-- no other router is at a state that its router writes to; the main thread, which keeps the vectors
-- of its first test, may be
theorem states_unshared (i j : Fin n) (p : VectorPtr n)
    (named : ((network topology s g).routers j).pc.hand = some p ∨
      s.queues.queue (.node j) = [some p]) : p ≠ ⟨i, ((network topology s g).routers i).next⟩ := by
  have hr := network_running hsym h
  rcases named with hhand | hqueue
  · exact hand_ne_next hr.posted (hr.stated i) hhand
  · exact queued_ne_next hr.posted (hr.stated i) hqueue

omit hsym h in
theorem states_unshared_sent : ∃ (s : State (Thread 2) (Chan 2) (Message 2))
    (g : (∀ t : Thread 2, Local t) × Memory 2),
    ((network (complete 2) s g).routers 1).pc.hand = some ⟨0, 2⟩ ∧
      (⟨0, 2⟩ : VectorPtr 2) ≠ ⟨0, ((network (complete 2) s g).routers 0).next⟩ := by
  obtain ⟨s, g, hr, hhand⟩ := first_sent
  exact ⟨s, g, hhand, states_unshared (complete_mutual 2) hr 0 1 ⟨0, 2⟩ (.inl hhand)⟩

theorem distances_descend (i : Fin n) :
    (∀ slot d, (floydWarshall topology).getDistance i d ≤ (g.2.vector ⟨i, slot⟩).dist d ∧
      (g.2.vector ⟨i, slot⟩).dist d ∈ topology.walks i d) ∧
    ((network topology s g).routers i).cycles ≤ ∑ d, topology.link i d := by
  obtain ⟨hr, hd⟩ := reached_descending hsym (channels_reached (fun _ => Nat.one_ne_zero) h)
  refine ⟨fun slot d => ?_, (Nat.le_add_right _ _).trans (hd i).spent⟩
  have hwalk := hr.measured.walk ⟨i, slot⟩ d
  exact ⟨(floydWarshall_least topology i d).2 hwalk, hwalk⟩

omit hsym h in
theorem distances_descend_sent : ∃ (s : State (Thread 2) (Chan 2) (Message 2))
    (g : (∀ t : Thread 2, Local t) × Memory 2),
    ((network (complete 2) s g).routers 1).pc.hand = some ⟨0, 2⟩ ∧
      ((network (complete 2) s g).routers 1).cycles ≤ 1 := by
  obtain ⟨s, g, hr, hhand⟩ := first_sent
  exact ⟨s, g, hhand, (distances_descend (complete_mutual 2) hr 1).2⟩

-- the main thread goes from its tests to `.check 0 0` and nowhere else, however often the routers
-- turn their states: before that no assertion of it fails
theorem main_accepts : ((network topology s g).thread .main).pc.stage.isSome = true ∨
    ∃ w : Network n, Reached (program topology) (fun _ => 1) w ∧ (w.thread .main).pc = .check 0 0 ∧
      Accepted w.queue w.routers (w.thread .main) ∧
      Relation.ReflTransGen (Turn (program topology) fun _ => 1) w (network topology s g) :=
  reached_accepts hsym (channels_reached (fun _ => Nat.one_ne_zero) h)

theorem check_done_right
    (hcase : ((network topology s g).thread .main).pc.stage.isSome = true ∨
      Steady (network topology s g).routers) :
    (∀ i, ((network topology s g).routers i).pc ≠ .failed) ∧
      ((network topology s g).thread .main).pc ≠ .failed ∧
      (((network topology s g).thread .main).pc.stage = none → ∀ i d,
        ((network topology s g).thread .main).completed i =
            some ⟨i, ((network topology s g).routers i).curr⟩ ∧
          (g.2.vector ⟨i, ((network topology s g).routers i).curr⟩).dist d =
            (floydWarshall topology).getDistance i d) := by
  have hr := network_running hsym h
  rcases hr.phase with ht | ⟨hstage, he⟩
  · obtain ⟨st, hst, -⟩ := ht.tested
    refine ⟨fun i => (ht.running i).2.2, fun hpc => ?_, fun hstage => ?_⟩
    · rw [hpc] at hst
      cases hst
    · rw [hstage] at hst
      cases hst
  · have hsteady := hcase.resolve_left (by simp [hstage])
    have he := he hsteady
    have alive (i : Fin n) : ((network topology s g).routers i).pc ≠ .failed := fun hi => by
      rcases he.place i with hp | ⟨hp | hp, -⟩ <;> cases hi.symm.trans hp
    refine ⟨alive, fun hpc => ?_, fun _ i d => ⟨he.noted i, ?_⟩⟩
    · obtain ⟨c, hc, -⟩ := he.closing
      rw [hpc] at hc
      cases hc
    · exact idle_solution hsym hr.absorbed hr.stated hr.measured alive he.idle i d

omit hsym h in
theorem check_done_right_linked : ∃ (s : State (Thread 2) (Chan 2) (Message 2))
    (g : (∀ t : Thread 2, Local t) × Memory 2),
    ((network (complete 2) s g).thread .main).pc = .returned ∧
      (g.2.vector ⟨0, ((network (complete 2) s g).routers 0).curr⟩).dist 1 = 1 := by
  obtain ⟨s, g, hr, -, hsteady, hover⟩ := linked_ends
  obtain ⟨-, -, hright⟩ := check_done_right (complete_mutual 2) hr (.inr hsteady)
  obtain ⟨-, hdist⟩ := hright (by rw [hover]; rfl) 0 1
  exact ⟨s, g, hover, hdist.trans (by decide +kernel)⟩

theorem run_stress_ends (hsteady : Steady (network topology s g).routers)
    (hstuck : Stuck (threads fun _ => 1) (program topology).client Action.due s g) :
    ((network topology s g).thread .main).pc = .returned ∧
      ∀ i, ((network topology s g).routers i).pc = .exited :=
  stuck_routed (fun w' ht => channels_stuck (fun _ => Nat.one_ne_zero) h hstuck w' (took_turn ht))
    (network_running hsym h) hsteady

omit hsym h in
theorem run_stress_ends_linked : ∃ (s : State (Thread 2) (Chan 2) (Message 2))
    (g : (∀ t : Thread 2, Local t) × Memory 2),
    ((network (complete 2) s g).thread .main).pc = .returned ∧
      ∀ i, ((network (complete 2) s g).routers i).pc = .exited := by
  obtain ⟨s, g, hr, hstuck, hsteady, -⟩ := linked_ends
  exact ⟨s, g, run_stress_ends (complete_mutual 2) hr hsteady hstuck⟩

end

end OperatingSystems.Stress
