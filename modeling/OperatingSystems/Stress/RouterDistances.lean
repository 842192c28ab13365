import OperatingSystems.Stress.RouterBuffers

namespace OperatingSystems.Stress
open Concurrency WeightedWalk

variable {n : Nat} {topology : Topology n} {i j : Fin n} {m m' : Memory n} {r r' : Router n}
  {queue queue' : Chan n → List (Message n)} {closed closed' : Chan n → Bool}
  {router : Fin n → Router n} {l l' : Main n}

structure Measured (topology : Topology n) (m : Memory n) (router : Fin n → Router n) : Prop where
  walk : ∀ p d, (m.vector p).dist d ∈ topology.walks p.owner d
  le_link : ∀ p d, (m.vector p).dist d ≤ topology.link p.owner d
  loading : ∀ j p x k, (router j).pc = .load p x k →
    x = topology.link j p.owner ∧ x ≠ infDistance
  storing : ∀ j p x k y, (router j).pc = .store p x k y →
    x = topology.link j p.owner ∧ x ≠ infDistance ∧ y = x + (m.vector p).dist k

theorem start_measured (topology : Topology n) :
    Measured topology (Memory.start topology) (Router.start topology) :=
  ⟨fun p d => Walk.arc p.owner d, fun _ _ => Nat.le_refl _, by simp [Router.start],
    by simp [Router.start]⟩

theorem curr_ne_next (hs : Loose topology i m r) :
    (⟨i, r.curr⟩ : VectorPtr n) ≠ ⟨i, r.next⟩ := by
  rw [hs.next]
  intro h
  exact (by decide : ∀ c : Fin 4, c ≠ c + 1) r.curr (congrArg VectorPtr.slot h)

theorem step_dist (h : Measured topology m router)
    (step : RouterStep topology i queue closed m (router i) queue' m' r') (p : VectorPtr n)
    (d : Fin n) : (m'.vector p).dist d ∈ topology.walks p.owner d ∧
      (m'.vector p).dist d ≤ topology.link p.owner d := by
  by_cases hp : p = ⟨i, (router i).next⟩
  · subst hp
    have hwalk := h.walk ⟨i, (router i).next⟩ d
    have hle := h.le_link ⟨i, (router i).next⟩ d
    cases step with
    | improve q x k y pc less =>
      obtain ⟨rfl, -, rfl⟩ := h.storing i q x k y pc
      simp only [Memory.write_vector, Function.update_self]
      by_cases hd : d = k
      · subst hd
        rw [Function.update_self]
        exact ⟨Walk.step i (Set.mem_univ _) (h.walk q d), (Nat.le_of_lt less).trans hle⟩
      · rw [Function.update_of_ne hd]
        exact ⟨hwalk, hle⟩
    | cycle pc => simpa using ⟨hwalk, hle⟩
    | copy k pc =>
      simp only [Memory.write_vector, Function.update_self]
      by_cases hd : d = k
      · subst hd
        rw [Function.update_self]
        exact ⟨h.walk ⟨i, _⟩ d, h.le_link ⟨i, _⟩ d⟩
      · rw [Function.update_of_ne hd]
        exact ⟨hwalk, hle⟩
    | _ => exact ⟨hwalk, hle⟩
  · rw [step_writes step hp]
    exact ⟨h.walk p d, h.le_link p d⟩

theorem relaxed_pc (r : Router n) (p : VectorPtr n) (x : Nat) (k : Fin n) :
    (∃ k', (r.relaxed p x k).pc = .load p x k') ∨ (r.relaxed p x k).pc.hand = none := by
  rcases relaxed_cases r p x k with ⟨k', -, hr⟩ | ⟨-, hr⟩
  · rw [hr]
    exact .inl ⟨k', rfl⟩
  · rw [hr]
    exact .inr (settle_hand r)

theorem step_reads (h : Measured topology m router)
    (hsrc : ∀ p, (m.vector p).src = p.owner)
    (step : RouterStep topology i queue closed m (router i) queue' m' r') :
    (∀ p x k, r'.pc = .load p x k → x = topology.link i p.owner ∧ x ≠ infDistance) ∧
      ∀ p x k y, r'.pc = .store p x k y →
        x = topology.link i p.owner ∧ x ≠ infDistance ∧ y = x + (m.vector p).dist k := by
  have idle (hand : r'.pc.hand = none) :
      (∀ p x k, r'.pc = .load p x k → x = topology.link i p.owner ∧ x ≠ infDistance) ∧
        ∀ p x k y, r'.pc = .store p x k y →
          x = topology.link i p.owner ∧ x ≠ infDistance ∧ y = x + (m.vector p).dist k := by
    refine ⟨fun p x k hpc => ?_, fun p x k y hpc => ?_⟩ <;> rw [hpc] at hand <;> cases hand
  have goesOn {p : VectorPtr n} {x : Nat} (hx : x = topology.link i p.owner ∧ x ≠ infDistance)
      (hpc : (∃ k, r'.pc = .load p x k) ∨ r'.pc.hand = none) :
      (∀ p x k, r'.pc = .load p x k → x = topology.link i p.owner ∧ x ≠ infDistance) ∧
        ∀ p x k y, r'.pc = .store p x k y →
          x = topology.link i p.owner ∧ x ≠ infDistance ∧ y = x + (m.vector p).dist k := by
    rcases hpc with ⟨k, hpc⟩ | hpc
    · refine ⟨fun p' x' k' hpc' => ?_, fun p' x' k' y' hpc' => ?_⟩
      · cases hpc.symm.trans hpc'
        exact hx
      · cases hpc.symm.trans hpc'
    · exact idle hpc
  cases step with
  | send => exact idle (settle_hand _)
  | report => exact idle (settle_hand _)
  | null | leave | cycle | free | fail => exact idle rfl
  | vector p pc head => exact ⟨by simp, by simp⟩
  | source p pc alive finite =>
    exact goesOn ⟨by rw [hsrc], finite⟩ (.inl ⟨_, rfl⟩)
  | load p x k pc alive =>
    obtain ⟨hx, hfinite⟩ := h.loading i p x k pc
    refine ⟨by simp, fun p' x' k' y' hpc' => ?_⟩
    cases hpc'
    refine ⟨hx, hfinite, Matrix.addDistance_eq ?_ ?_⟩
    · rw [hx]
      exact topology.bounded i p.owner
    · exact (h.le_link p k).trans (topology.bounded p.owner k)
  | improve p x k y pc less =>
    obtain ⟨hx, hfinite, -⟩ := h.storing i p x k y pc
    exact goesOn ⟨hx, hfinite⟩ (relaxed_pc _ p x k)
  | keep p x k y pc least =>
    obtain ⟨hx, hfinite, -⟩ := h.storing i p x k y pc
    exact goesOn ⟨hx, hfinite⟩ (relaxed_pc _ p x k)
  | copy k pc =>
    refine idle ?_
    rcases copied_cases topology i (router i) k with ⟨k', -, hr⟩ | ⟨-, hr⟩ <;> rw [hr] <;> rfl

theorem step_measured (h : Measured topology m router) (hs : ∀ i, Stated topology i m (router i))
    (hp : Posted topology queue router)
    (step : RouterStep topology i queue closed m (router i) queue' m' r') :
    Measured topology m' (Function.update router i r') := by
  obtain ⟨hload, hstore⟩ := step_reads h (fun p => (hs p.owner).src p.slot) step
  refine ⟨fun p d => (step_dist h step p d).1, fun p d => (step_dist h step p d).2,
    fun j p x k hpc => ?_, fun j p x k y hpc => ?_⟩
  · by_cases hj : j = i
    · subst hj
      rw [Function.update_self] at hpc
      exact hload p x k hpc
    · rw [Function.update_of_ne hj] at hpc
      exact h.loading j p x k hpc
  · by_cases hj : j = i
    · subst hj
      rw [Function.update_self] at hpc
      have hsame : m'.vector p = m.vector p := by
        cases step with
        | improve p' x' k' y' pc less =>
          rcases relaxed_pc { router j with changed := true } p' x' k' with ⟨k'', hr⟩ | hr
          · cases hr.symm.trans hpc
          · rw [hpc] at hr
            cases hr
        | cycle pc => cases hpc
        | copy k' pc =>
          rcases copied_cases topology j (router j) k' with ⟨k'', -, hr⟩ | ⟨-, hr⟩
          · rw [hr] at hpc
            cases hpc
          · rw [hr] at hpc
            cases hpc
        | _ => rfl
      rw [hsame]
      exact hstore p x k y hpc
    · rw [Function.update_of_ne hj] at hpc
      rw [step_writes step (hand_ne_next hp (hs i) (by rw [hpc]; rfl))]
      exact h.storing j p x k y hpc

def now (m : Memory n) (i : Fin n) (r : Router n) : Fin n → Nat :=
  (m.vector ⟨i, if r.pc.cycling then r.curr else r.next⟩).dist

theorem settle_now (cycling : r.pc.cycling = false) : now m i r.settle = now m i r := by
  rcases settle_cases r with ⟨-, -, hs⟩ | ⟨-, hs⟩ <;> rw [hs, now, now, cycling] <;> rfl

theorem relaxed_now (cycling : r.pc.cycling = false) (p : VectorPtr n) (x : Nat) (k : Fin n) :
    now m i (r.relaxed p x k) = now m i r := by
  rcases relaxed_cases r p x k with ⟨k', -, hr⟩ | ⟨-, hr⟩
  · rw [hr, now, now, cycling]
    rfl
  · rw [hr, settle_now cycling]

theorem goes_now {pc : RouterPc n} (cycling : pc.cycling = r.pc.cycling) :
    now m i { r with pc := pc } = now m i r := by
  rw [now, now]
  dsimp only
  rw [cycling]

theorem step_now (hs : Stated topology i m r)
    (step : RouterStep topology i queue closed m r queue' m' r') (d : Fin n) :
    now m' i r' d ≤ now m i r d := by
  have hne := curr_ne_next hs.toLoose
  cases step with
  | send x j pc two_le count channel empty =>
    have hpc : (r.sent x).pc.cycling = false := by rw [Router.sent, pc]; rfl
    rw [settle_now hpc]
    exact le_rfl
  | report pc empty =>
    have hpc : r.pc.cycling = false := by rw [pc]; rfl
    rw [Router.replied, settle_now (by exact hpc)]
    exact le_rfl
  | vector p pc head => exact (congrFun (goes_now (by rw [pc]; rfl)) d).le
  | null pc head => exact (congrFun (goes_now (by rw [pc]; rfl)) d).le
  | leave pc shut same => exact (congrFun (goes_now (by rw [pc]; rfl)) d).le
  | source p pc alive finite => exact (congrFun (goes_now (by rw [pc]; rfl)) d).le
  | load p x k pc alive => exact (congrFun (goes_now (by rw [pc]; rfl)) d).le
  | free pc => exact (congrFun (goes_now (m := m) (by rw [pc]; rfl)) d).le
  | fail fault => exact (congrFun (goes_now (by rw [fault_cycling fault]; rfl)) d).le
  | keep p x k y pc least =>
    rw [relaxed_now (by rw [pc]; rfl)]
  | improve p x k y pc less =>
    have hpc : r.pc.cycling = false := by rw [pc]; rfl
    rw [relaxed_now (by exact hpc), now, now]
    simp only [hpc, Bool.false_eq_true, if_false, Memory.write_vector, Function.update_self]
    by_cases hd : d = k
    · subst hd
      rw [Function.update_self]
      exact Nat.le_of_lt less
    · rw [Function.update_of_ne hd]
  | cycle pc =>
    rw [now, now]
    simp [pc, RouterPc.cycling, hne]
  | copy k pc =>
    have hstated := copied_stated hs pc
    rcases copied_cases topology i r k with ⟨k', -, hr⟩ | ⟨-, hr⟩
    · rw [hr, now, now]
      simp [pc, RouterPc.cycling, hne]
    · rw [hr] at hstated ⊢
      have hfresh := hstated.fresh rfl
      have hcurr : (Router.reset topology i r).curr = r.curr := rfl
      rw [now, now]
      rw [show (Router.reset topology i r).pc.cycling = false from rfl]
      simp only [Bool.false_eq_true, if_false, hfresh, hcurr]
      simp [pc, RouterPc.cycling, hne]

end OperatingSystems.Stress
