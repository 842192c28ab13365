import Mathlib.Data.List.Chain
import OperatingSystems.Stress.RouterAcceptance

namespace OperatingSystems.Stress
open Concurrency

variable {n : Nat} {topology : Topology n} {i j k : Fin n} {m m' : Memory n} {r r' : Router n}
  {queue queue' : Chan n → List (Message n)} {closed closed' : Chan n → Bool}
  {router : Fin n → Router n} {l l' : Main n}

-- a router turns its four states less than four times from one answer to the next: the epochs that
-- `check_done` compares are then those of the answers
def Steady (router : Fin n → Router n) : Prop :=
  ∀ i, (router i).replies.IsChain fun a b => b.1 < a.1 + 4

structure Closing where
  done : Bool
  joined : Nat
  completed : Bool
  nodes : Nat

def MainPc.closing : MainPc n → Option Closing
  | .check _ _ => some ⟨false, 0, false, 0⟩
  | .closeDone => some ⟨false, 0, false, 0⟩
  | .join i => some ⟨true, i, false, 0⟩
  | .closeCompleted => some ⟨true, n, false, 0⟩
  | .closeNode i => some ⟨true, n, true, i⟩
  | .returned => some ⟨true, n, true, n⟩
  | _ => none

structure Closed (closed : Chan n → Bool) (m : Memory n) (c : Closing) : Prop where
  done : closed .done = c.done
  joined : ∀ j : Fin n, j < c.joined → m.freed j = true
  completed : closed .completed = c.completed
  nodes : ∀ j : Fin n, closed (.node j) = decide (j < c.nodes)

structure Ended (queue : Chan n → List (Message n)) (closed : Chan n → Bool) (m : Memory n)
    (router : Fin n → Router n) (l : Main n) : Prop where
  idle : ∀ i, Idle queue i (router i)
  empty : ∀ c, queue c = []
  place : ∀ i, (router i).pc = .select ∨
    ((router i).pc = .exit ∨ (router i).pc = .exited) ∧ closed .done = true
  freed : ∀ i, m.freed i = true ↔ (router i).pc = .exited
  noted : ∀ i, l.completed i = some ⟨i, (router i).curr⟩
  closing : ∃ c, l.pc.closing = some c ∧ Closed closed m c

theorem slotOf_eq {c c' : Nat} (h : slotOf c = slotOf c') (hle : c ≤ c') (hlt : c' < c + 4) :
    c' = c := by
  have h := congrArg Fin.val h
  simp only [slotOf, Fin.ofNat_eq_cast, Fin.val_natCast] at h
  omega

theorem same_answers (hs : ∀ i, Stated topology i m (router i)) (hsteady : Steady router)
    (ha : Accepted queue router l) (i : Fin n) : ∃ c,
      (router i).replies[l.rounds - 1]? = some (c, true) ∧
      (router i).replies[l.rounds]? = some (c, true) ∧ l.completed i = some ⟨i, slotOf c⟩ := by
  obtain ⟨c₁, c, hc₁, hc, hslot, hcompleted⟩ := ha.answers i
  have hrounds := ha.rounds
  obtain ⟨hlt₁, he₁⟩ := List.getElem?_eq_some_iff.mp hc₁
  obtain ⟨hlt, he⟩ := List.getElem?_eq_some_iff.mp hc
  have hle := List.pairwise_iff_getElem.mp (hs i).sorted _ _ hlt₁ hlt (by omega)
  have hnear := List.isChain_iff_getElem.mp (hsteady i) (l.rounds - 1) (by omega)
  simp only [show l.rounds - 1 + 1 = l.rounds by omega] at hnear
  rw [he₁, he] at hle hnear
  obtain rfl := slotOf_eq hslot hle hnear
  exact ⟨_, hc₁, hc, hcompleted⟩

theorem accepted_ended (hs : ∀ i, Stated topology i m (router i)) (hq : Roomy queue)
    (hsteady : Steady router) (ha : Accepted queue router l) (isOpen : ∀ c, closed c = false)
    (unfreed : ∀ i, m.freed i = false)
    (running : ∀ i, (router i).pc ≠ .exit ∧ (router i).pc ≠ .exited ∧ (router i).pc ≠ .failed)
    (pc : ∃ src dst, l.pc = .check src dst) : Ended queue closed m router l := by
  have hcalm : Calm queue router l.rounds := by
    rcases ha.calm with h | ⟨j, c, hc, hmoved⟩
    · exact h
    · obtain ⟨c₁, hc₁, hc₂, -⟩ := same_answers hs hsteady ha j
      cases hc.symm.trans hc₁
      rcases hmoved with ⟨c', b, hc', hne⟩ | ⟨hlen, -⟩
      · cases hc'.symm.trans hc₂
        exact absurd rfl hne
      · have := ha.length j
        omega
  have hidle (i : Fin n) : Idle queue i (router i) := by
    obtain ⟨c, hc, -⟩ := same_answers hs hsteady ha i
    obtain ⟨hhand, hchanged, hnone⟩ := hcalm.answered i (.inl (ha.length i))
    obtain ⟨hcount, hcycling⟩ := ((hs i).answered _ (List.mem_of_getElem? hc)).2 rfl
      (hcalm.unmoved i c true hc)
    exact ⟨hcount, hchanged, hcycling, hhand, hnone⟩
  refine ⟨hidle, fun c => ?_, fun i => .inl ?_, fun i => ?_, fun i => ?_, ?_⟩
  · cases c with
    | done => exact hq.done
    | completed => exact ha.empty
    | node i =>
      have hlen := hq.length_le (.node i)
      have hnull := (ha.quiet i).1
      have hvector := (hidle i).queued
      cases hqueue : queue (.node i) with
      | nil => rfl
      | cons v rest =>
        obtain rfl := hq.full hqueue
        cases v with
        | none => simp [hqueue] at hnull
        | some p => exact absurd hqueue (hvector p)
  · have hcycling := (hidle i).cycling
    have hhand := (hidle i).hand
    have hreply := (ha.quiet i).2
    obtain ⟨hexit, hexited, hfailed⟩ := running i
    cases hpc : (router i).pc with
    | select => rfl
    | source | load | store => rw [hpc] at hhand; cases hhand
    | reply => exact absurd hpc hreply
    | cycle | copy => rw [hpc] at hcycling; cases hcycling
    | exit => exact absurd hpc hexit
    | exited => exact absurd hpc hexited
    | failed => exact absurd hpc hfailed
  · simp [unfreed, (running i).2.1]
  · obtain ⟨c, hc, -, hcompleted⟩ := same_answers hs hsteady ha i
    rw [hcompleted, (hs i).curr, hcalm.unmoved i c true hc]
    rfl
  · obtain ⟨src, dst, pc⟩ := pc
    exact ⟨_, by rw [pc]; rfl, isOpen _, fun j hj => absurd hj (Nat.not_lt_zero _), isOpen _,
      fun j => by simp [isOpen]⟩

theorem ended_step (h : Ended queue closed m router l)
    (step : RouterStep topology i queue closed m (router i) queue' m' r') :
    queue' = queue ∧
      (((router i).pc = .select ∧ closed .done = true ∧ m' = m ∧ r' = { router i with pc := .exit }) ∨
        ((router i).pc = .exit ∧ r' = { router i with pc := .exited } ∧
          m' = { m with freed := Function.update m.freed i true })) := by
  have hidle := h.idle i
  have hplace := h.place i
  have impossible {P : Prop} {pc : RouterPc n} (hpc : (router i).pc = pc)
      (hne : pc ≠ .select ∧ pc ≠ .exit ∧ pc ≠ .exited) : P := by
    rw [hpc] at hplace
    rcases hplace with hp | ⟨hp | hp, -⟩
    · exact absurd hp hne.1
    · exact absurd hp hne.2.1
    · exact absurd hp hne.2.2
  cases step with
  | send x j pc two_le count channel empty =>
    have := hidle.count
    omega
  | vector p pc head => exact absurd head (hidle.queued p)
  | null pc head =>
    rw [h.empty] at head
    cases head
  | leave pc shut same => exact ⟨rfl, .inl ⟨pc, shut, rfl, rfl⟩⟩
  | free pc => exact ⟨rfl, .inr ⟨pc, rfl, rfl⟩⟩
  | report pc | source p pc | load p x k pc | improve p x k y pc | keep p x k y pc | cycle pc
    | copy k pc => exact impossible pc (by simp)
  | fail fault =>
    cases fault with
    | done pc shut changed =>
      rw [hidle.same] at changed
      cases changed
    | node j pc shut =>
      obtain ⟨c, hc, hclosed⟩ := h.closing
      rw [hclosed.nodes] at shut
      have hjoined : c.joined = n := by
        generalize l.pc = lpc at hc
        cases lpc <;> cases hc <;> first | rfl | simp at shut
      have hfreed := (h.freed i).mp (hclosed.joined i (by rw [hjoined]; exact i.isLt))
      rw [pc] at hfreed
      cases hfreed
    | completed pc shut => exact impossible pc (by simp)
    | freed p hand freed =>
      rw [hidle.hand] at hand
      cases hand
    | infinite p pc infinite => exact impossible pc (by simp)

theorem idle_pc {pc : RouterPc n} (h : Idle queue i r) (cycling : pc.cycling = false)
    (hand : pc.hand = none) : Idle queue i { r with pc := pc } :=
  ⟨h.count, h.same, cycling, hand, h.queued⟩

theorem step_ended (h : Ended queue closed m router l)
    (step : RouterStep topology i queue closed m (router i) queue' m' r') :
    Ended queue' closed m' (Function.update router i r') l := by
  obtain ⟨rfl, ⟨pc, shut, rfl, rfl⟩ | ⟨pc, rfl, rfl⟩⟩ := ended_step h step
  · refine ⟨fun j => ?_, h.empty, fun j => ?_, fun j => ?_, fun j => ?_, h.closing⟩
    · by_cases hj : j = i
      · subst hj
        rw [Function.update_self]
        exact idle_pc (h.idle j) rfl rfl
      · rw [Function.update_of_ne hj]
        exact h.idle j
    · by_cases hj : j = i
      · subst hj
        rw [Function.update_self]
        exact .inr ⟨.inl rfl, shut⟩
      · rw [Function.update_of_ne hj]
        exact h.place j
    · by_cases hj : j = i
      · subst hj
        simp [h.freed, pc]
      · rw [Function.update_of_ne hj]
        exact h.freed j
    · by_cases hj : j = i
      · subst hj
        rw [Function.update_self]
        exact h.noted j
      · rw [Function.update_of_ne hj]
        exact h.noted j
  · obtain ⟨c, hc, hclosed⟩ := h.closing
    have hshut : closed .done = true := by
      rcases h.place i with hp | ⟨-, hp⟩
      · cases hp.symm.trans pc
      · exact hp
    refine ⟨fun j => ?_, h.empty, fun j => ?_, fun j => ?_, fun j => ?_, c, hc, hclosed.done,
      fun j hj => ?_, hclosed.completed, hclosed.nodes⟩
    · by_cases hj : j = i
      · subst hj
        rw [Function.update_self]
        exact idle_pc (h.idle j) rfl rfl
      · rw [Function.update_of_ne hj]
        exact h.idle j
    · by_cases hj : j = i
      · subst hj
        rw [Function.update_self]
        exact .inr ⟨.inr rfl, hshut⟩
      · rw [Function.update_of_ne hj]
        exact h.place j
    · by_cases hj : j = i
      · subst hj
        simp
      · simpa [hj] using h.freed j
    · by_cases hj : j = i
      · subst hj
        rw [Function.update_self]
        exact h.noted j
      · rw [Function.update_of_ne hj]
        exact h.noted j
    · by_cases hji : j = i
      · subst hji
        simp
      · simpa [hji] using hclosed.joined j hj

variable [NeZero n]

theorem main_ended (h : Ended queue closed m router l) (hsym : topology.Mutual)
    (ha : Absorbed topology queue m router) (hs : ∀ i, Stated topology i m (router i))
    (hm : Measured topology m router)
    (step : MainStep (floydWarshall topology) queue closed m l queue' closed' l') :
    Ended queue' closed' m router l' ∧ l'.completed = l.completed := by
  obtain ⟨c, hc, hclosed⟩ := h.closing
  have none {pc : MainPc n} {P : Prop} (hpc : l.pc = pc) (hnone : pc.closing = none) : P := by
    rw [hpc, hnone] at hc
    cases hc
  have goesOn (c' : Closing) {closed' : Chan n → Bool} {pc : MainPc n}
      (hc' : pc.closing = some c') (hclosed' : Closed closed' m c')
      (hdone : closed .done = true → closed' .done = true) :
      Ended queue closed' m router { l with pc := pc } :=
    ⟨h.idle, h.empty, fun i => (h.place i).imp_right fun hp => ⟨hp.1, hdone hp.2⟩, h.freed, h.noted,
      c', hc', hclosed'⟩
  have alive {i : Fin n} (hdone : closed .done = false) : m.freed i = false := by
    by_contra hf
    have hp := (h.freed i).mp (by simpa using hf)
    rcases h.place i with hs | ⟨-, hd⟩
    · rw [hp] at hs
      cases hs
    · rw [hdone] at hd
      cases hd
  cases step with
  | flush second i pc | gather second i data pc | note i p pc | index i p pc | oldEpoch i p index q pc
    | newEpoch i p epoch pc => exact none pc rfl
  | check src dst q pc noted halive right =>
    rw [pc] at hc
    cases hc
    unfold Main.checked
    split
    · exact ⟨goesOn _ rfl hclosed id, rfl⟩
    · exact ⟨goesOn _ rfl hclosed id, rfl⟩
    · exact ⟨goesOn _ rfl hclosed id, rfl⟩
  | closeDone pc isOpen =>
    rw [pc] at hc
    cases hc
    refine ⟨goesOn ⟨true, 0, false, 0⟩ rfl ⟨by simp, fun j hj => absurd hj (Nat.not_lt_zero _),
      by simpa using hclosed.completed, fun j => by simpa using hclosed.nodes j⟩ (by simp), rfl⟩
  | join i pc freed =>
    rw [pc] at hc
    cases hc
    have hjoined (j : Fin n) (hj : (j : Nat) < i + 1) : m.freed j = true := by
      rcases Nat.lt_succ_iff_lt_or_eq.mp hj with hlt | heq
      · exact hclosed.joined j hlt
      · rwa [Fin.ext heq]
    unfold Main.joined
    rcases after_cases i with ⟨i', hafter, hi'⟩ | ⟨hafter, hn⟩
    · rw [hafter]
      exact ⟨goesOn _ rfl ⟨hclosed.done, fun j hj => hjoined j (hi' ▸ hj), hclosed.completed,
        hclosed.nodes⟩ id, rfl⟩
    · rw [hafter]
      exact ⟨goesOn _ rfl ⟨hclosed.done, fun j hj => hjoined j (by rw [hn]; exact hj), hclosed.completed,
        hclosed.nodes⟩ id, rfl⟩
  | closeCompleted pc isOpen =>
    rw [pc] at hc
    cases hc
    refine ⟨goesOn ⟨true, n, true, 0⟩ rfl ⟨by simpa using hclosed.done, hclosed.joined,
      by simp, fun j => by simpa using hclosed.nodes j⟩ (by simp), rfl⟩
  | closeNode i pc isOpen =>
    rw [pc] at hc
    cases hc
    have hnodes (j : Fin n) : Function.update closed (.node i) true (.node j) =
        decide ((j : Nat) < i + 1) := by
      by_cases hj : j = i
      · subst hj
        simp
      · have hne : (j : Nat) ≠ i := fun he => hj (Fin.ext he)
        rw [Function.update_of_ne (by simpa using hj), hclosed.nodes]
        simp only [decide_eq_decide]
        omega
    have hdone : Function.update closed (.node i) true .done = true := by
      simpa using hclosed.done
    have hcompleted : Function.update closed (.node i) true .completed = true := by
      simpa using hclosed.completed
    unfold Main.closed
    rcases after_cases i with ⟨i', hafter, hi'⟩ | ⟨hafter, hn⟩
    · rw [hafter]
      exact ⟨goesOn ⟨true, n, true, i'⟩ rfl ⟨hdone, hclosed.joined, hcompleted,
        fun j => by rw [hnodes, hi']⟩ (by simp), rfl⟩
    · rw [hafter]
      exact ⟨goesOn ⟨true, n, true, n⟩ rfl ⟨hdone, hclosed.joined, hcompleted,
        fun j => by rw [hnodes, hn]⟩ (by simp), rfl⟩
  | fail fault =>
    cases fault with
    | flush second i pc | gather second i pc | source second i p pc | oldEpoch i p index pc
      | newEpoch i p epoch pc => exact none pc rfl
    | closeDone pc shut =>
      rw [pc] at hc
      cases hc
      rw [hclosed.done] at shut
      cases shut
    | closeCompleted pc shut =>
      rw [pc] at hc
      cases hc
      rw [hclosed.completed] at shut
      cases shut
    | closeNode i pc shut =>
      rw [pc] at hc
      cases hc
      rw [hclosed.nodes] at shut
      simp at shut
    | check src dst pc wrong =>
      rw [pc] at hc
      cases hc
      rcases wrong _ (h.noted src) with hfreed | hdist
      · rw [alive hclosed.done] at hfreed
        cases hfreed
      · refine absurd (idle_solution hsym ha hs hm (fun i hi => ?_) h.idle src dst) hdist
        rcases h.place i with hp | ⟨hp | hp, -⟩ <;> cases hi.symm.trans hp

end OperatingSystems.Stress
