import OperatingSystems.Stress.RouterStates

namespace OperatingSystems.Stress
open Concurrency

variable {n : Nat} {topology : Topology n} {i j : Fin n} {m m' : Memory n} {r r' : Router n}
  {queue queue' : Chan n → List (Message n)} {closed closed' : Chan n → Bool} {l l' : Main n}

theorem step_roomy (h : Roomy queue) (step : RouterStep topology i queue closed m r queue' m' r') :
    Roomy queue' := by
  cases step with
  | send | vector | null | report => exact h.update (by simp) (by simp)
  | _ => exact h

theorem main_roomy [NeZero n] {solution : Matrix n} (h : Roomy queue)
    (step : MainStep solution queue closed m l queue' closed' l') : Roomy queue' := by
  cases step with
  | flush | gather => exact h.update (by simp) (by simp)
  | _ => exact h

open Classical in
noncomputable def Router.sentSlot (r : Router n) (j : Fin n) : Fin 4 :=
  if r.pc.cycling = true ∨ r.Pending j then r.prev else r.curr

theorem sentSlot_pending (h : r.Pending j) : r.sentSlot j = r.prev := if_pos (.inr h)

theorem sentSlot_cycling (h : r.pc.cycling = true) : r.sentSlot j = r.prev := if_pos (.inl h)

theorem sentSlot_sent (cycling : r.pc.cycling = false) (pending : ¬ r.Pending j) :
    r.sentSlot j = r.curr := if_neg (by simp [cycling, pending])

theorem none_pending (h : r.selectCount = 2) : ¬ r.Pending j := by
  rintro ⟨x, hx, hlt, -⟩
  omega

theorem sentSlot_keep (pending : r'.Pending j ↔ r.Pending j) (prev : r'.prev = r.prev)
    (curr : r'.curr = r.curr) (cycling : r'.pc.cycling = r.pc.cycling) :
    r'.sentSlot j = r.sentSlot j := by
  by_cases h : r.pc.cycling = true ∨ r.Pending j
  · have h' : r'.pc.cycling = true ∨ r'.Pending j := by rwa [cycling, pending]
    rw [Router.sentSlot, Router.sentSlot, if_pos h, if_pos h', prev]
  · have h' : ¬ (r'.pc.cycling = true ∨ r'.Pending j) := by rwa [cycling, pending]
    rw [Router.sentSlot, Router.sentSlot, if_neg h, if_neg h', curr]

theorem settle_sentSlot (cycling : r.pc.cycling = false) : r.settle.sentSlot j = r.sentSlot j := by
  rcases settle_cases r with ⟨hcount, -, hs⟩ | ⟨-, hs⟩
  · rw [hs, sentSlot_cycling rfl, sentSlot_sent cycling (none_pending hcount)]
  · rw [hs]
    exact sentSlot_keep (pending_keep rfl rfl) rfl rfl (by rw [cycling]; rfl)

theorem settle_hand (r : Router n) : r.settle.pc.hand = none := by
  rcases settle_cases r with ⟨-, -, hs⟩ | ⟨-, hs⟩ <;> rw [hs] <;> rfl

theorem relaxed_sentSlot (cycling : r.pc.cycling = false) (p : VectorPtr n) (d : Nat) (k : Fin n) :
    (r.relaxed p d k).sentSlot j = r.sentSlot j := by
  rcases relaxed_cases r p d k with ⟨k', -, hr⟩ | ⟨-, hr⟩
  · rw [hr]
    exact sentSlot_keep (pending_keep rfl rfl) rfl rfl (by rw [cycling]; rfl)
  · rw [hr, settle_sentSlot cycling]

theorem relaxed_hand (r : Router n) (p : VectorPtr n) (d : Nat) (k : Fin n) :
    (r.relaxed p d k).pc.hand = some p ∨ (r.relaxed p d k).pc.hand = none := by
  rcases relaxed_cases r p d k with ⟨k', -, hr⟩ | ⟨-, hr⟩
  · rw [hr]
    exact .inl rfl
  · rw [hr]
    exact .inr (settle_hand r)

inductive Passed (topology : Topology n) (i : Fin n) (queue : Chan n → List (Message n))
    (r : Router n) (queue' : Chan n → List (Message n)) (r' : Router n) : Prop
  | sends (j : Fin n) (pending : r.Pending j) (empty : queue (.node j) = [])
      (queued : queue' = Function.update queue (.node j) [some ⟨i, r.curr⟩])
      (hand : r'.pc.hand = none) (slot : r'.sentSlot j = r.curr)
      (others : ∀ j', j' ≠ j → r'.sentSlot j' = r.sentSlot j')
  | takes (p : VectorPtr n) (head : queue (.node i) = [some p])
      (queued : queue' = Function.update queue (.node i) []) (before : r.pc.hand = none)
      (pc : r'.pc = .source p) (slots : ∀ j, r'.sentSlot j = r.sentSlot j)
  | stays (queued : ∀ j p, queue' (.node j) = [some p] ↔ queue (.node j) = [some p])
      (hand : r'.pc.hand = r.pc.hand ∨ r'.pc.hand = none)
      (slots : ∀ j, topology.Linked i j → r'.sentSlot j = r.sentSlot j)

theorem step_passed (h : Stated topology i m r)
    (step : RouterStep topology i queue closed m r queue' m' r') :
    Passed topology i queue r queue' r' := by
  have keeps {pc : RouterPc n} (hand : pc.hand = r.pc.hand ∨ pc.hand = none)
      (cycling : pc.cycling = r.pc.cycling) : Passed topology i queue r queue { r with pc := pc } :=
    .stays (fun _ _ => .rfl) hand fun _ _ => sentSlot_keep (pending_keep rfl rfl) rfl rfl cycling
  cases step with
  | send x j pc two_le count channel empty =>
    have hpc : r.pc.cycling = false := by rw [pc]; rfl
    have hsent (j' : Fin n) : (r.sent x).settle.sentSlot j' = (r.sent x).sentSlot j' :=
      settle_sentSlot hpc
    have hpending (j' : Fin n) := sent_pending (j := j') h.shaped two_le count channel
    refine .sends j ⟨x, two_le, count, channel⟩ empty rfl (settle_hand _) ?_ fun j' hj' => ?_
    · exact (hsent j).trans (sentSlot_sent hpc (by simp [hpending]))
    · exact (hsent j').trans (sentSlot_keep (by simp [hpending, hj']) rfl rfl rfl)
  | vector p pc head =>
    exact .takes p head rfl (by rw [pc]; rfl) rfl fun _ =>
      sentSlot_keep (pending_keep rfl rfl) rfl rfl (by rw [pc]; rfl)
  | null pc head =>
    refine .stays (fun j p => ?_) (.inr rfl) fun _ _ =>
      sentSlot_keep (pending_keep rfl rfl) rfl rfl (by rw [pc]; rfl)
    by_cases hj : j = i
    · subst hj
      simp [head]
    · simp [hj]
  | report pc empty =>
    have hpc : r.pc.cycling = false := by rw [pc]; rfl
    exact .stays (fun j p => by simp) (.inr (settle_hand _)) fun _ _ => settle_sentSlot hpc
  | leave pc shut same => exact keeps (.inr rfl) (by rw [pc]; rfl)
  | source p pc alive finite => exact keeps (.inl (by rw [pc]; rfl)) (by rw [pc]; rfl)
  | load p d k pc alive => exact keeps (.inl (by rw [pc]; rfl)) (by rw [pc]; rfl)
  | improve p d k x pc less =>
    have hpc : r.pc.cycling = false := by rw [pc]; rfl
    refine .stays (fun _ _ => .rfl) ?_ fun j _ =>
      (relaxed_sentSlot (r := { r with changed := true }) hpc p d k).trans
        (sentSlot_keep (pending_keep rfl rfl) rfl rfl rfl)
    rw [pc]
    exact relaxed_hand _ p d k
  | keep p d k x pc least =>
    have hpc : r.pc.cycling = false := by rw [pc]; rfl
    refine .stays (fun _ _ => .rfl) ?_ fun _ _ => relaxed_sentSlot hpc p d k
    rw [pc]
    exact relaxed_hand _ p d k
  | cycle pc => exact keeps (.inr rfl) (by rw [pc]; rfl)
  | copy k pc =>
    rcases copied_cases topology i r k with ⟨k', -, hr⟩ | ⟨-, hr⟩
    · rw [hr]
      exact keeps (.inr rfl) (by rw [pc]; rfl)
    · rw [hr]
      refine .stays (fun _ _ => .rfl) (.inr rfl) fun j hj => ?_
      rw [sentSlot_pending ((reset_pending h.shaped).mpr hj), sentSlot_cycling (by rw [pc]; rfl)]
      rfl
  | free pc => exact keeps (.inr rfl) (by rw [pc]; rfl)
  | fail fault => exact keeps (.inr rfl) (by rw [fault_cycling fault]; rfl)

-- a state in a queue is the one sent last, one in a hand is that or, behind it, the one before
structure Posted (topology : Topology n) (queue : Chan n → List (Message n))
    (router : Fin n → Router n) : Prop where
  queued : ∀ j p, queue (.node j) = [some p] →
    topology.Linked p.owner j ∧ p.slot = (router p.owner).sentSlot j
  held : ∀ j p, (router j).pc.hand = some p → topology.Linked p.owner j
  behind : ∀ j p q, (router j).pc.hand = some p → queue (.node j) = [some q] →
    q.owner = p.owner → p.slot = (router p.owner).sentSlot j + 3
  last : ∀ j p, (router j).pc.hand = some p →
    (∀ q, queue (.node j) = [some q] → q.owner ≠ p.owner) →
    p.slot = (router p.owner).sentSlot j

variable {router : Fin n → Router n}

theorem start_posted (topology : Topology n) (h : ∀ c, queue c = []) :
    Posted topology queue (Router.start topology) :=
  ⟨by simp [h], by simp [Router.start, RouterPc.hand], by simp [Router.start, RouterPc.hand],
    by simp [Router.start, RouterPc.hand]⟩

theorem posted_sends (h : Posted topology queue router) (hs : Stated topology i m (router i))
    (pending : (router i).Pending j) (empty : queue (.node j) = []) (hand : r'.pc.hand = none)
    (slot : r'.sentSlot j = (router i).curr)
    (others : ∀ j', j' ≠ j → r'.sentSlot j' = (router i).sentSlot j') :
    Posted topology (Function.update queue (.node j) [some ⟨i, (router i).curr⟩])
      (Function.update router i r') := by
  have hlinked := hs.shaped.linked pending
  have hprev : (router i).sentSlot j = (router i).curr + 3 := by
    rw [sentSlot_pending pending, hs.prev]
  have hslot {k j' : Fin n} (hkj : k ≠ i ∨ j' ≠ j) :
      (Function.update router i r' k).sentSlot j' = (router k).sentSlot j' := by
    by_cases hk : k = i
    · subst hk
      rw [Function.update_self]
      exact others j' (hkj.resolve_left (· rfl))
    · rw [Function.update_of_ne hk]
  have hhand {j' : Fin n} {p : VectorPtr n}
      (hp : (Function.update router i r' j').pc.hand = some p) : (router j').pc.hand = some p := by
    by_cases hj : j' = i
    · subst hj
      rw [Function.update_self, hand] at hp
      cases hp
    · rwa [Function.update_of_ne hj] at hp
  have hqueue {j' : Fin n} (hj : j' ≠ j) :
      Function.update queue (.node j) [some ⟨i, (router i).curr⟩] (.node j') = queue (.node j') :=
    Function.update_of_ne (by simpa using hj) _ _
  refine ⟨fun j' p hp => ?_, fun j' p hp => h.held j' p (hhand hp), fun j' p q hp hq hown => ?_,
    fun j' p hp hq => ?_⟩
  · by_cases hj : j' = j
    · subst hj
      rw [Function.update_self] at hp
      cases hp
      simpa using ⟨hlinked, slot.symm⟩
    · rw [hqueue hj] at hp
      rw [hslot (.inr hj)]
      exact h.queued j' p hp
  · by_cases hj : j' = j
    · subst hj
      rw [Function.update_self] at hq
      cases hq
      have hown : i = p.owner := hown
      rw [← hown, Function.update_self, slot, ← hprev, hown]
      exact h.last j' p (hhand hp) (by simp [empty])
    · rw [hqueue hj] at hq
      rw [hslot (.inr hj)]
      exact h.behind j' p q (hhand hp) hq hown
  · by_cases hj : j' = j
    · subst hj
      have hown : i ≠ p.owner := hq _ (Function.update_self _ _ _)
      rw [hslot (.inl hown.symm)]
      exact h.last j' p (hhand hp) (by simp [empty])
    · rw [hslot (.inr hj)]
      exact h.last j' p (hhand hp) fun q hq' => hq q (by rw [hqueue hj, hq'])

theorem posted_takes (h : Posted topology queue router) {p : VectorPtr n}
    (head : queue (.node i) = [some p]) (hand : r'.pc.hand = some p)
    (slots : ∀ j, r'.sentSlot j = (router i).sentSlot j) :
    Posted topology (Function.update queue (.node i) []) (Function.update router i r') := by
  have hslot (k j : Fin n) :
      (Function.update router i r' k).sentSlot j = (router k).sentSlot j := by
    by_cases hk : k = i
    · subst hk
      rw [Function.update_self, slots]
    · rw [Function.update_of_ne hk]
  have hqueue {j : Fin n} (hj : j ≠ i) :
      Function.update queue (.node i) [] (.node j) = queue (.node j) :=
    Function.update_of_ne (by simpa using hj) _ _
  refine ⟨fun j q hq => ?_, fun j q hq => ?_, fun j q q' hq hq' hown => ?_, fun j q hq hnone => ?_⟩
  · by_cases hj : j = i
    · subst hj
      rw [Function.update_self] at hq
      cases hq
    · rw [hqueue hj] at hq
      rw [hslot]
      exact h.queued j q hq
  · by_cases hj : j = i
    · subst hj
      rw [Function.update_self, hand] at hq
      cases hq
      exact (h.queued j p head).1
    · rw [Function.update_of_ne hj] at hq
      exact h.held j q hq
  · by_cases hj : j = i
    · subst hj
      rw [Function.update_self] at hq'
      cases hq'
    · rw [Function.update_of_ne hj] at hq
      rw [hqueue hj] at hq'
      rw [hslot]
      exact h.behind j q q' hq hq' hown
  · by_cases hj : j = i
    · subst hj
      rw [Function.update_self, hand] at hq
      cases hq
      rw [hslot]
      exact (h.queued j p head).2
    · rw [Function.update_of_ne hj] at hq
      rw [hslot]
      exact h.last j q hq fun q' hq' => hnone q' (by rw [hqueue hj, hq'])

theorem posted_stays (h : Posted topology queue router)
    (queued : ∀ j p, queue' (.node j) = [some p] ↔ queue (.node j) = [some p])
    (hand : r'.pc.hand = (router i).pc.hand ∨ r'.pc.hand = none)
    (slots : ∀ j, topology.Linked i j → r'.sentSlot j = (router i).sentSlot j) :
    Posted topology queue' (Function.update router i r') := by
  have hslot {k j : Fin n} (hkj : topology.Linked k j) :
      (Function.update router i r' k).sentSlot j = (router k).sentSlot j := by
    by_cases hk : k = i
    · subst hk
      rw [Function.update_self, slots j hkj]
    · rw [Function.update_of_ne hk]
  have hhand {j : Fin n} {p : VectorPtr n} (hp : (Function.update router i r' j).pc.hand = some p) :
      (router j).pc.hand = some p := by
    by_cases hj : j = i
    · subst hj
      rw [Function.update_self] at hp
      rcases hand with hh | hh
      · rwa [hh] at hp
      · rw [hh] at hp
        cases hp
    · rwa [Function.update_of_ne hj] at hp
  refine ⟨fun j p hp => ?_, fun j p hp => h.held j p (hhand hp), fun j p q hp hq hown => ?_,
    fun j p hp hnone => ?_⟩
  · obtain ⟨hlinked, hp⟩ := h.queued j p ((queued j p).mp hp)
    exact ⟨hlinked, by rw [hslot hlinked, hp]⟩
  · rw [hslot (h.held j p (hhand hp))]
    exact h.behind j p q (hhand hp) ((queued j q).mp hq) hown
  · rw [hslot (h.held j p (hhand hp))]
    exact h.last j p (hhand hp) fun q hq => hnone q ((queued j q).mpr hq)

theorem step_posted (h : Posted topology queue router) (hs : Stated topology i m (router i))
    (step : RouterStep topology i queue closed m (router i) queue' m' r') :
    Posted topology queue' (Function.update router i r') := by
  cases step_passed hs step with
  | sends j pending empty queued hand slot others =>
    rw [queued]
    exact posted_sends h hs pending empty hand slot others
  | takes p head queued before pc slots =>
    rw [queued]
    exact posted_takes h head (by rw [pc]; rfl) slots
  | stays queued hand slots => exact posted_stays h queued hand slots

theorem main_queued [NeZero n] {solution : Matrix n}
    (step : MainStep solution queue closed m l queue' closed' l') (j : Fin n) (p : VectorPtr n) :
    queue' (.node j) = [some p] ↔ queue (.node j) = [some p] := by
  cases step with
  | flush second i pc empty =>
    by_cases hj : j = i
    · subst hj
      simp [empty]
    · simp [hj]
  | gather => simp
  | _ => rfl

theorem main_posted [NeZero n] {solution : Matrix n} (h : Posted topology queue router)
    (step : MainStep solution queue closed m l queue' closed' l') :
    Posted topology queue' router := by
  have hq := main_queued step
  exact ⟨fun j p hp => h.queued j p ((hq j p).mp hp), h.held,
    fun j p q hp hq' => h.behind j p q hp ((hq j q).mp hq'),
    fun j p hp hnone => h.last j p hp fun q hq' => hnone q ((hq j q).mpr hq')⟩

theorem sentSlot_cases (hs : Stated topology i m r) (j : Fin n) :
    r.sentSlot j = r.curr ∨ r.sentSlot j = r.curr + 3 := by
  by_cases h : r.pc.cycling = true ∨ r.Pending j
  · rw [Router.sentSlot, if_pos h, hs.prev]
    exact .inr rfl
  · exact .inl (if_neg h)

theorem hand_ne_next (h : Posted topology queue router)
    (hs : Stated topology i m (router i)) {p : VectorPtr n}
    (hand : (router j).pc.hand = some p) : p ≠ ⟨i, (router i).next⟩ := by
  rintro rfl
  have hnext := hs.next
  have hslots : ∀ c : Fin 4, c + 1 ≠ c ∧ c + 1 ≠ c + 3 ∧ c + 1 ≠ c + 3 + 3 := by decide
  obtain ⟨h0, h3, h6⟩ := hslots (router i).curr
  by_cases hq : ∃ q, queue (.node j) = [some q] ∧ q.owner = i
  · obtain ⟨q, hq, hown⟩ := hq
    have hslot := h.behind j _ q hand hq hown
    rw [hnext] at hslot
    rcases sentSlot_cases hs j with hc | hc
    · exact h3 (hslot.trans (by rw [hc]))
    · exact h6 (hslot.trans (by rw [hc]))
  · have hslot := h.last j _ hand fun q hq' hown => hq ⟨q, hq', hown⟩
    rw [hnext] at hslot
    rcases sentSlot_cases hs j with hc | hc
    · exact h0 (hslot.trans hc)
    · exact h3 (hslot.trans hc)

theorem queued_ne_next (h : Posted topology queue router)
    (hs : Stated topology i m (router i)) {p : VectorPtr n}
    (head : queue (.node j) = [some p]) : p ≠ ⟨i, (router i).next⟩ := by
  rintro rfl
  have hslot := (h.queued j _ head).2
  have hslots : ∀ c : Fin 4, c + 1 ≠ c ∧ c + 1 ≠ c + 3 := by decide
  obtain ⟨h0, h3⟩ := hslots (router i).curr
  rw [hs.next] at hslot
  rcases sentSlot_cases hs j with hc | hc
  · exact h0 (hslot.trans hc)
  · exact h3 (hslot.trans hc)

end OperatingSystems.Stress
