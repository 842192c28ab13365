import OperatingSystems.Stress.RouterDistances

namespace OperatingSystems.Stress
open Concurrency WeightedWalk

variable {n : Nat} {topology : Topology n} {i j k : Fin n} {m m' : Memory n} {r r' : Router n}
  {queue queue' : Chan n → List (Message n)} {closed closed' : Chan n → Bool}
  {router : Fin n → Router n} {l l' : Main n}

def RouterPc.before : RouterPc n → Fin n → Prop
  | .load _ _ k, d => d < k
  | .store _ _ k _, d => d < k
  | _, _ => False

-- how far the current state of `i` has come to `j`
inductive Received (topology : Topology n) (queue : Chan n → List (Message n)) (m : Memory n)
    (router : Fin n → Router n) (i j : Fin n) : Prop
  | queued (p : VectorPtr n) (head : queue (.node j) = [some p]) (owner : p.owner = i)
  | held (p : VectorPtr n) (hand : (router j).pc.hand = some p) (owner : p.owner = i)
      (part : ∀ d, (router j).pc.before d →
        now m j (router j) d ≤ topology.link j i + (m.vector p).dist d)
  | whole (least : ∀ d,
      now m j (router j) d ≤ topology.link j i + (m.vector ⟨i, (router i).curr⟩).dist d)

def Absorbed (topology : Topology n) (queue : Chan n → List (Message n)) (m : Memory n)
    (router : Fin n → Router n) : Prop :=
  ∀ i j, topology.Linked i j → (router i).pc.cycling = false → ¬ (router i).Pending j →
    (router j).pc ≠ .failed → Received topology queue m router i j

theorem start_absorbed (topology : Topology n) (queue : Chan n → List (Message n)) (m : Memory n) :
    Absorbed topology queue m (Router.start topology) :=
  fun _ _ hlinked _ hpending => absurd (start_pending.mpr hlinked) hpending

theorem step_current (hs : Stated topology i m r)
    (step : RouterStep topology i queue closed m r queue' m' r') (hlinked : topology.Linked i j)
    (cycling : r'.pc.cycling = false) (pending : ¬ r'.Pending j) : r'.curr = r.curr ∧
      (r.pc.cycling = false ∧ ¬ r.Pending j ∨ queue' (.node j) = [some ⟨i, r.curr⟩]) := by
  have settled {r₁ : Router n} (hc : r₁.settle.pc.cycling = false) :
      r₁.settle = { r₁ with pc := .select } := by
    rcases settle_cases r₁ with ⟨-, -, hr⟩ | ⟨-, hr⟩
    · rw [hr] at hc
      cases hc
    · exact hr
  have relaxed {r₁ : Router n} {p : VectorPtr n} {x : Nat} {k : Fin n}
      (hc : (r₁.relaxed p x k).pc.cycling = false) :
      ∃ pc, r₁.relaxed p x k = { r₁ with pc := pc } := by
    rcases relaxed_cases r₁ p x k with ⟨k', -, hr⟩ | ⟨-, hr⟩
    · exact ⟨_, hr⟩
    · rw [hr] at hc
      exact ⟨_, hr.trans (settled hc)⟩
  cases step with
  | send x j' pc two_le count channel empty =>
    rw [settled cycling] at pending ⊢
    refine ⟨rfl, ?_⟩
    by_cases hj : j = j'
    · subst hj
      exact .inr (Function.update_self _ _ _)
    · refine .inl ⟨by rw [pc]; rfl, fun hpend => pending ?_⟩
      exact (pending_keep rfl rfl).mpr ((sent_pending hs.shaped two_le count channel).mpr ⟨hpend, hj⟩)
  | report pc empty =>
    rw [Router.replied, settled cycling] at pending ⊢
    exact ⟨rfl, .inl ⟨by rw [pc]; rfl, pending⟩⟩
  | improve p x k y pc less =>
    obtain ⟨pc', hr⟩ := relaxed cycling
    rw [hr] at pending ⊢
    exact ⟨rfl, .inl ⟨by rw [pc]; rfl, pending⟩⟩
  | keep p x k y pc least =>
    obtain ⟨pc', hr⟩ := relaxed cycling
    rw [hr] at pending ⊢
    exact ⟨rfl, .inl ⟨by rw [pc]; rfl, pending⟩⟩
  | cycle pc => cases cycling
  | copy k pc =>
    rcases copied_cases topology i r k with ⟨k', -, hr⟩ | ⟨-, hr⟩
    · rw [hr] at cycling
      cases cycling
    · rw [hr] at pending
      exact absurd ((reset_pending hs.shaped).mpr hlinked) pending
  | vector p pc head => exact ⟨rfl, .inl ⟨by rw [pc]; rfl, pending⟩⟩
  | null pc head => exact ⟨rfl, .inl ⟨by rw [pc]; rfl, pending⟩⟩
  | leave pc shut same => exact ⟨rfl, .inl ⟨by rw [pc]; rfl, pending⟩⟩
  | source p pc alive finite => exact ⟨rfl, .inl ⟨by rw [pc]; rfl, pending⟩⟩
  | load p x k pc alive => exact ⟨rfl, .inl ⟨by rw [pc]; rfl, pending⟩⟩
  | free pc => exact ⟨rfl, .inl ⟨by rw [pc]; rfl, pending⟩⟩
  | fail fault => exact ⟨rfl, .inl ⟨fault_cycling fault, pending⟩⟩

theorem step_part (hs : Stated topology j m r) (hm : Measured topology m router)
    (hr : router j = r) (step : RouterStep topology j queue closed m r queue' m' r')
    {p : VectorPtr n} (hand : r.pc.hand = some p)
    (part : ∀ d, r.pc.before d → now m j r d ≤ topology.link j p.owner + (m.vector p).dist d) :
    r'.pc = .failed ∨
      (r'.pc.hand = some p ∧ ∀ d, r'.pc.before d →
        now m' j r' d ≤ topology.link j p.owner + (m.vector p).dist d) ∨
      (r'.pc.hand = none ∧
        ∀ d, now m' j r' d ≤ topology.link j p.owner + (m.vector p).dist d) := by
  have hnow := step_now hs step
  have compared {r₁ : Router n} {x : Nat} {k : Fin n} (hr' : r' = r₁.relaxed p x k)
      (before : ∀ d < k, r.pc.before d)
      (hk : now m' j r' k ≤ topology.link j p.owner + (m.vector p).dist k) :
      r'.pc = .failed ∨
        (r'.pc.hand = some p ∧ ∀ d, r'.pc.before d →
          now m' j r' d ≤ topology.link j p.owner + (m.vector p).dist d) ∨
        (r'.pc.hand = none ∧
          ∀ d, now m' j r' d ≤ topology.link j p.owner + (m.vector p).dist d) := by
    have upTo (d : Fin n) (hd : (d : Nat) < k + 1) :
        now m' j r' d ≤ topology.link j p.owner + (m.vector p).dist d := by
      rcases Nat.lt_succ_iff_lt_or_eq.mp hd with hlt | heq
      · exact (hnow d).trans (part d (before d (Fin.lt_def.mpr hlt)))
      · obtain rfl := Fin.ext heq
        exact hk
    rcases relaxed_cases r₁ p x k with ⟨k', hk', hcase⟩ | ⟨hn, hcase⟩
    · refine .inr (.inl ?_)
      rw [hr', hcase] at upTo ⊢
      exact ⟨rfl, fun d hd => upTo d (by have := Fin.lt_def.mp hd; omega)⟩
    · refine .inr (.inr ⟨?_, fun d => upTo d (by have := d.isLt; omega)⟩)
      rw [hr', hcase]
      exact settle_hand r₁
  cases step with
  | source q pc alive finite =>
    rw [pc] at hand
    cases hand
    exact .inr (.inl ⟨rfl, fun d hd => absurd (Fin.lt_def.mp hd) (Nat.not_lt_zero _)⟩)
  | load q x k pc alive =>
    rw [pc] at hand part
    cases hand
    refine .inr (.inl ⟨rfl, fun d hd => (hnow d).trans (part d hd)⟩)
  | improve q x k y pc less =>
    rw [pc] at hand
    cases hand
    obtain ⟨rfl, -, rfl⟩ := hm.storing j _ x k y (by rw [hr, pc])
    refine compared rfl (fun d hd => by rw [pc]; exact hd) ?_
    have hpc : r.pc.cycling = false := by rw [pc]; rfl
    rw [relaxed_now (by exact hpc), now]
    simp [hpc]
  | keep q x k y pc least =>
    rw [pc] at hand
    cases hand
    obtain ⟨rfl, -, rfl⟩ := hm.storing j _ x k y (by rw [hr, pc])
    refine compared rfl (fun d hd => by rw [pc]; exact hd) ?_
    have hpc : r.pc.cycling = false := by rw [pc]; rfl
    rw [relaxed_now (by exact hpc), now]
    simpa [hpc] using least
  | fail fault => exact .inl rfl
  | send x j' pc | vector p' pc | null pc | report pc | leave pc | cycle pc | copy k' pc | free pc =>
    rw [pc] at hand
    cases hand

theorem step_pc (step : RouterStep topology i queue closed m r queue' m' r') : r.pc ≠ .failed := by
  cases step with
  | fail fault =>
    cases fault with
    | freed p hand =>
      intro hpc
      rw [hpc] at hand
      cases hand
    | done pc | node _ pc | completed pc | infinite _ pc => simp [pc]
  | send x j pc | vector p pc | null pc | report pc | leave pc | source p pc | load p x k pc
    | improve p x k y pc | keep p x k y pc | cycle pc | copy k pc | free pc => simp [pc]

theorem received_others (hs : ∀ i, Stated topology i m (router i))
    (hp : Posted topology queue router)
    (step : RouterStep topology k queue closed m (router k) queue' m' r')
    (hjk : j ≠ k) (hcurr : (Function.update router k r' i).curr = (router i).curr)
    (h : Received topology queue m router i j) :
    Received topology queue' m' (Function.update router k r') i j := by
  have hthread : Function.update router k r' j = router j := Function.update_of_ne hjk _ _
  have hnow : now m' j (router j) = now m j (router j) := by
    rw [now, step_writes step (by simp [hjk])]
    rfl
  cases h with
  | queued p head owner =>
    refine .queued p ?_ owner
    cases step_passed (hs k) step with
    | sends j' pending empty queued =>
      rw [queued, Function.update_of_ne]
      · exact head
      · rintro he
        cases he
        rw [empty] at head
        cases head
    | takes q head' queued =>
      rw [queued, Function.update_of_ne (by simpa using hjk)]
      exact head
    | stays queued => exact (queued j p).mpr head
  | held p hand owner part =>
    refine .held p (by rw [hthread]; exact hand) owner ?_
    rw [hthread, hnow, step_writes step (hand_ne_next hp (hs k) hand)]
    exact part
  | whole least =>
    refine .whole ?_
    rw [hthread, hnow, hcurr, step_writes step]
    · exact least
    · intro he
      obtain rfl : i = k := congrArg VectorPtr.owner he
      exact curr_ne_next (hs i).toLoose he

theorem received_self (hs : ∀ i, Stated topology i m (router i))
    (hp : Posted topology queue router) (hm : Measured topology m router)
    (step : RouterStep topology j queue closed m (router j) queue' m' r')
    (hlinked : topology.Linked i j) (hsent : (router i).sentSlot j = (router i).curr)
    (alive : r'.pc ≠ .failed) (h : Received topology queue m router i j) :
    Received topology queue' m' (Function.update router j r') i j := by
  have hij : i ≠ j := fun he => hlinked.1 he.symm
  have hcurr : Function.update router j r' i = router i := Function.update_of_ne hij _ _
  have hself : Function.update router j r' j = r' := Function.update_self _ _ _
  have hvector {s : Fin 4} : m'.vector ⟨i, s⟩ = m.vector ⟨i, s⟩ :=
    step_writes step (by simp [hij])
  have hqueue {p : VectorPtr n} (head : queue (.node j) = [some p]) (owner : p.owner = i) :
      Received topology queue' m' (Function.update router j r') i j := by
    cases step_passed (hs j) step with
    | sends j' pending empty queued =>
      refine .queued p ?_ owner
      rw [queued, Function.update_of_ne]
      · exact head
      · rintro he
        cases he
        rw [empty] at head
        cases head
    | takes q head' queued before pc =>
      cases head.symm.trans head'
      exact .held p (by rw [hself, pc]; rfl) owner (by
        rw [hself, pc]
        exact fun d hd => hd.elim)
    | stays queued => exact .queued p ((queued j p).mpr head) owner
  cases h with
  | queued p head owner => exact hqueue head owner
  | held p hand owner part =>
    subst owner
    have hsame : m'.vector p = m.vector p := hvector
    rcases step_part (hs j) hm rfl step hand part with hf | ⟨hhand, hpart⟩ | ⟨-, hwhole⟩
    · exact absurd hf alive
    · exact .held p (by rw [hself, hhand]) rfl (by rw [hself, hsame]; exact hpart)
    · by_cases hq : ∃ q, queue (.node j) = [some q] ∧ q.owner = p.owner
      · obtain ⟨q, head, owner⟩ := hq
        exact hqueue head owner
      · have hslot := hp.last j p hand fun q head owner => hq ⟨q, head, owner⟩
        have hptr : p = ⟨p.owner, (router p.owner).curr⟩ := by rw [← hsent, ← hslot]
        refine .whole ?_
        rw [hself, hcurr, ← hptr, hsame]
        exact hwhole
  | whole least =>
    refine .whole fun d => ?_
    rw [hself, hcurr, hvector]
    exact (step_now (hs j) step d).trans (least d)

theorem step_absorbed (ha : Absorbed topology queue m router)
    (hs : ∀ i, Stated topology i m (router i)) (hp : Posted topology queue router)
    (hm : Measured topology m router)
    (step : RouterStep topology k queue closed m (router k) queue' m' r') :
    Absorbed topology queue' m' (Function.update router k r') := by
  intro i j hlinked cycling pending alive
  by_cases hik : i = k
  · subst hik
    have hji := hlinked.1
    rw [Function.update_self] at cycling pending
    rw [Function.update_of_ne hji] at alive
    obtain ⟨hcurr, ⟨hc, hp'⟩ | hq⟩ := step_current (hs i) step hlinked cycling pending
    · exact received_others hs hp step hji (by rw [Function.update_self, hcurr])
        (ha i j hlinked hc hp' alive)
    · exact .queued _ hq rfl
  · rw [Function.update_of_ne hik] at cycling pending
    by_cases hjk : j = k
    · subst hjk
      rw [Function.update_self] at alive
      exact received_self hs hp hm step hlinked (sentSlot_sent cycling pending) alive
        (ha i j hlinked cycling pending (step_pc step))
    · rw [Function.update_of_ne hjk] at alive
      exact received_others hs hp step hjk (by rw [Function.update_of_ne hik])
        (ha i j hlinked cycling pending alive)

theorem main_absorbed [NeZero n] {solution : Matrix n} (ha : Absorbed topology queue m router)
    (step : MainStep solution queue closed m l queue' closed' l') :
    Absorbed topology queue' m router := by
  intro i j hlinked cycling pending alive
  cases ha i j hlinked cycling pending alive with
  | queued p head owner => exact .queued p ((main_queued step j p).mpr head) owner
  | held p hand owner part => exact .held p hand owner part
  | whole least => exact .whole least

structure Idle (queue : Chan n → List (Message n)) (i : Fin n) (r : Router n) : Prop where
  count : r.selectCount = 2
  same : r.changed = false
  cycling : r.pc.cycling = false
  hand : r.pc.hand = none
  queued : ∀ p, queue (.node i) ≠ [some p]

theorem idle_solution (hsym : ∀ i j, topology.link i j = infDistance → topology.link j i = infDistance)
    (ha : Absorbed topology queue m router) (hs : ∀ i, Stated topology i m (router i))
    (hm : Measured topology m router) (alive : ∀ i, (router i).pc ≠ .failed)
    (hidle : ∀ i, Idle queue i (router i)) (i d : Fin n) :
    (m.vector ⟨i, (router i).curr⟩).dist d = (floydWarshall topology).getDistance i d := by
  have hnow (i : Fin n) : now m i (router i) = (m.vector ⟨i, (router i).curr⟩).dist := by
    rw [now, (hidle i).cycling, ← (hs i).fresh (hidle i).same]
    rfl
  have hleast : IsLeast (topology.walks i d) ((m.vector ⟨i, (router i).curr⟩).dist d) := by
    refine ⟨hm.walk ⟨i, (router i).curr⟩ d, fun x hx => ?_⟩
    refine Walk.le_of_relaxed (D := fun i d => (m.vector ⟨i, (router i).curr⟩).dist d)
      (fun a b => hm.le_link _ b) (fun a b c _ => ?_) hx
    by_cases hca : c = a
    · subst hca
      exact Nat.le_add_left _ _
    by_cases hinf : topology.link a c = infDistance
    · rw [hinf]
      exact ((hm.le_link ⟨a, _⟩ b).trans (topology.bounded a b)).trans (Nat.le_add_right _ _)
    · have hlinked : topology.Linked c a := ⟨Ne.symm hca, fun h => hinf (hsym c a h)⟩
      rcases ha c a hlinked (hidle c).cycling (none_pending (hidle c).count) (alive a) with
        ⟨p, head, -⟩ | ⟨p, hand, -, -⟩ | hwhole
      · exact absurd head ((hidle a).queued p)
      · rw [(hidle a).hand] at hand
        cases hand
      · have hle := hwhole b
        rw [hnow] at hle
        exact hle
  exact hleast.unique (floydWarshall_least topology i d)

end OperatingSystems.Stress
