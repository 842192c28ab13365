import OperatingSystems.Stress.RouterConvergence

namespace OperatingSystems.Stress
open Concurrency

variable {n : Nat} {topology : Topology n} {i j k : Fin n} {m m' : Memory n} {r r' : Router n}
  {queue queue' : Chan n → List (Message n)} {closed closed' : Chan n → Bool}
  {router : Fin n → Router n} {l l' : Main n}

def slotOf (cycles : Nat) : Fin 4 := Fin.ofNat 4 (cycles + 2)

-- where the main thread is in a test: whom it has asked, how many answers it has taken, and the
-- one it looks at
structure Stage (n : Nat) where
  second : Bool
  asked : Fin n → Bool
  taken : Nat
  newData : Message n

def MainPc.stage : MainPc n → Option (Stage n)
  | .flush second i => some ⟨second, fun j => j < i, 0, none⟩
  | .gather second i => some ⟨second, fun _ => true, i, none⟩
  | .source second i p => some ⟨second, fun _ => true, i + 1, some p⟩
  | .oldEpoch i p _ => some ⟨true, fun _ => true, i + 1, some p⟩
  | .newEpoch i p _ => some ⟨true, fun _ => true, i + 1, some p⟩
  | _ => none

def Router.nulls (queue : Chan n → List (Message n)) (i : Fin n) (r : Router n) : Nat :=
  r.replies.length + (queue (.node i)).count none + if r.pc = .reply then 1 else 0

def answerers (router : Fin n → Router n) (rounds : Nat) : Finset (Fin n) :=
  Finset.univ.filter fun j => (router j).replies.length = rounds + 1

-- the answers of a test: each is in the channel, looked at, or noted
structure Round (queue : Chan n → List (Message n)) (router : Fin n → Router n) (l : Main n)
    (s : Stage n) : Prop where
  token : ∀ j, l.rounds + (s.asked j).toNat = (router j).nulls queue j
  old : ∀ j, l.rounds ≤ (router j).replies.length
  counted : (answerers router l.rounds).card = s.taken + (queue .completed).length
  genuine : ∀ p, queue .completed = [some p] ∨ s.newData = some p →
    ∃ c, (router p.owner).replies[l.rounds]? = some (c, true) ∧ p.slot = slotOf c
  refused : ∀ j c, (router j).replies[l.rounds]? = some (c, false) →
    queue .completed = [none] ∨ l.valid = false
  noted : s.second = false → ∀ j c, (router j).replies[l.rounds]? = some (c, true) →
    queue .completed = [some ⟨j, slotOf c⟩] ∨ s.newData = some ⟨j, slotOf c⟩ ∨
      l.completed j = some ⟨j, slotOf c⟩
  first : s.second = true → 1 ≤ l.rounds ∧ ∀ j, ∃ c,
    (router j).replies[l.rounds - 1]? = some (c, true) ∧ l.completed j = some ⟨j, slotOf c⟩
  compared : s.second = true → l.valid = true → ∀ j c c₁,
    (router j).replies[l.rounds]? = some (c, true) →
    (router j).replies[l.rounds - 1]? = some (c₁, true) →
    queue .completed = [some ⟨j, slotOf c⟩] ∨ s.newData = some ⟨j, slotOf c⟩ ∨
      slotOf c₁ = slotOf c

theorem settle_pc (r : Router n) : r.settle.pc = .select ∨ r.settle.pc = .cycle := by
  rcases settle_cases r with ⟨-, -, hr⟩ | ⟨-, hr⟩
  · exact .inr (by rw [hr])
  · exact .inl (by rw [hr])

theorem settle_replies (r : Router n) : r.settle.replies = r.replies := by
  rcases settle_cases r with ⟨-, -, hr⟩ | ⟨-, hr⟩ <;> rw [hr]

theorem relaxed_replies (r : Router n) (p : VectorPtr n) (x : Nat) (k : Fin n) :
    (r.relaxed p x k).replies = r.replies := by
  rcases relaxed_cases r p x k with ⟨k', -, hr⟩ | ⟨-, hr⟩
  · rw [hr]
  · rw [hr, settle_replies]

theorem copied_replies (topology : Topology n) (i : Fin n) (r : Router n) (k : Fin n) :
    (r.copied topology i k).replies = r.replies := by
  rcases copied_cases topology i r k with ⟨k', -, hr⟩ | ⟨-, hr⟩
  · rw [hr]
  · rw [hr]
    rfl

theorem step_replies (step : RouterStep topology i queue closed m r queue' m' r') :
    (r'.replies = r.replies ∧ queue' .completed = queue .completed) ∨
      (r.pc = .reply ∧ r' = r.replied ∧ m' = m ∧ queue .completed = [] ∧
        queue' = Function.update queue .completed [r.report i]) := by
  cases step with
  | report pc empty => exact .inr ⟨pc, rfl, rfl, empty, rfl⟩
  | send => exact .inl ⟨settle_replies _, by simp⟩
  | vector | null => exact .inl ⟨rfl, by simp⟩
  | improve | keep => exact .inl ⟨relaxed_replies _ _ _ _, rfl⟩
  | copy => exact .inl ⟨copied_replies _ _ _ _, rfl⟩
  | leave | source | load | cycle | free | fail => exact .inl ⟨rfl, rfl⟩

theorem replied_replies (r : Router n) :
    r.replied.replies = r.replies ++ [(r.cycles, r.converged)] := settle_replies _

theorem relaxed_ne_reply (r : Router n) (p : VectorPtr n) (x : Nat) (k : Fin n) :
    (r.relaxed p x k).pc ≠ .reply := by
  rcases relaxed_cases r p x k with ⟨k', -, hr⟩ | ⟨-, hr⟩
  · simp [hr]
  · rcases settle_pc r with hs | hs <;> simp [hr, hs]

theorem settle_ne_reply (r : Router n) : r.settle.pc ≠ .reply := by
  rcases settle_pc r with hs | hs <;> simp [hs]

theorem copied_ne_reply (topology : Topology n) (i : Fin n) (r : Router n) (k : Fin n) :
    (r.copied topology i k).pc ≠ .reply := by
  rcases copied_cases topology i r k with ⟨k', -, hr⟩ | ⟨-, hr⟩ <;> simp [hr, Router.reset]

theorem step_nulls (step : RouterStep topology i queue closed m r queue' m' r')
    (alive : r'.pc ≠ .failed) : r'.nulls queue' i = r.nulls queue i ∧
      ∀ j, j ≠ i → (queue' (.node j)).count none = (queue (.node j)).count none := by
  have keeps (hpc : r.pc ≠ .reply) (hpc' : r'.pc ≠ .reply) (hreplies : r'.replies = r.replies)
      (hcount : ∀ j, (queue' (.node j)).count none = (queue (.node j)).count none) :
      r'.nulls queue' i = r.nulls queue i ∧
        ∀ j, j ≠ i → (queue' (.node j)).count none = (queue (.node j)).count none :=
    ⟨by rw [Router.nulls, Router.nulls, hcount, hreplies, if_neg hpc, if_neg hpc'],
      fun j _ => hcount j⟩
  cases step with
  | send x j' pc two_le count channel empty =>
    refine keeps (by simp [pc]) (settle_ne_reply _) (settle_replies _) fun j => ?_
    by_cases hj : j = j'
    · subst hj
      simp [empty]
    · simp [hj]
  | vector p pc head =>
    refine keeps (by simp [pc]) (by simp) rfl fun j => ?_
    by_cases hj : j = i
    · subst hj
      simp [head]
    · simp [hj]
  | null pc head =>
    refine ⟨?_, fun j hj => by simp [hj]⟩
    simp [Router.nulls, pc, head]
  | report pc empty =>
    refine ⟨?_, fun j _ => by simp⟩
    rw [Router.nulls, Router.nulls, replied_replies, if_pos pc, if_neg (show r.replied.pc ≠ .reply from settle_ne_reply _)]
    simp
    omega
  | leave pc | source p pc | load p x k pc | cycle pc | free pc =>
    exact keeps (by simp [pc]) (by simp) rfl fun j => rfl
  | improve p x k y pc less =>
    exact keeps (by simp [pc]) (relaxed_ne_reply _ _ _ _) (relaxed_replies _ _ _ _) fun j => rfl
  | keep p x k y pc least =>
    exact keeps (by simp [pc]) (relaxed_ne_reply _ _ _ _) (relaxed_replies _ _ _ _) fun j => rfl
  | copy k pc =>
    exact keeps (by simp [pc]) (copied_ne_reply _ _ _ _) (copied_replies _ _ _ _) fun j => rfl
  | fail fault => exact absurd rfl alive

section
variable {s : Stage n}

theorem round_keeps (h : Round queue router l s) (replies : r'.replies = (router i).replies)
    (completed : queue' .completed = queue .completed)
    (nulls : r'.nulls queue' i = (router i).nulls queue i)
    (others : ∀ j, j ≠ i → (queue' (.node j)).count none = (queue (.node j)).count none) :
    Round queue' (Function.update router i r') l s := by
  have hreplies (j : Fin n) : (Function.update router i r' j).replies = (router j).replies := by
    by_cases hj : j = i
    · subst hj
      rw [Function.update_self, replies]
    · rw [Function.update_of_ne hj]
  have hanswerers : answerers (Function.update router i r') l.rounds = answerers router l.rounds := by
    simp only [answerers, hreplies]
  refine ⟨fun j => ?_, ?_, ?_, ?_, ?_, ?_, ?_, ?_⟩
  · rw [h.token j]
    by_cases hj : j = i
    · subst hj
      rw [Function.update_self, nulls]
    · rw [Function.update_of_ne hj, Router.nulls, Router.nulls, others j hj]
  · simpa only [hreplies] using h.old
  · rw [hanswerers, completed]
    exact h.counted
  · simpa only [hreplies, completed] using h.genuine
  · simpa only [hreplies, completed] using h.refused
  · simpa only [hreplies, completed] using h.noted
  · simpa only [hreplies] using h.first
  · simpa only [hreplies, completed] using h.compared

theorem reply_due (h : Round queue router l s) (pc : (router i).pc = .reply) :
    (router i).replies.length = l.rounds := by
  have htoken := h.token i
  have hold := h.old i
  rw [Router.nulls, if_pos pc] at htoken
  have := Bool.toNat_le (s.asked i)
  omega

theorem round_reports (h : Round queue router l s) (hs : Stated topology i m (router i))
    (pc : (router i).pc = .reply) (empty : queue .completed = [])
    (nulls : (router i).replied.nulls
      (Function.update queue .completed [(router i).report i]) i = (router i).nulls queue i) :
    Round (Function.update queue .completed [(router i).report i])
      (Function.update router i (router i).replied) l s := by
  have hdue := reply_due h pc
  have hself : (Function.update router i (router i).replied i).replies =
      (router i).replies ++ [((router i).cycles, (router i).converged)] := by
    rw [Function.update_self, replied_replies]
  have hother {j : Fin n} (hj : j ≠ i) :
      (Function.update router i (router i).replied j).replies = (router j).replies := by
    rw [Function.update_of_ne hj]
  have hnone : (router i).replies[l.rounds]? = none := by simp [hdue]
  have hnew : (Function.update router i (router i).replied i).replies[l.rounds]? =
      some ((router i).cycles, (router i).converged) := by
    rw [hself, ← hdue, List.getElem?_concat_length]
  have hbefore (j : Fin n) (hr : 1 ≤ l.rounds) :
      (Function.update router i (router i).replied j).replies[l.rounds - 1]? =
        (router j).replies[l.rounds - 1]? := by
    by_cases hj : j = i
    · subst hj
      rw [hself, List.getElem?_append_left (by omega)]
    · rw [hother hj]
  have hcurr : (router i).curr = slotOf (router i).cycles := hs.curr
  refine ⟨fun j => ?_, fun j => ?_, ?_, fun p hp => ?_, fun j c hj => ?_, fun hsecond j c hj => ?_,
    fun hsecond => ?_, fun hsecond hvalid j c c₁ hj hj₁ => ?_⟩
  · rw [h.token j]
    by_cases hj : j = i
    · subst hj
      rw [Function.update_self, nulls]
    · rw [Function.update_of_ne hj, Router.nulls, Router.nulls,
        Function.update_of_ne (by simp)]
  · by_cases hj : j = i
    · subst hj
      rw [hself, List.length_append]
      exact (h.old j).trans (Nat.le_add_right _ _)
    · rw [hother hj]
      exact h.old j
  · have hinsert : answerers (Function.update router i (router i).replied) l.rounds =
        insert i (answerers router l.rounds) := by
      ext j
      by_cases hj : j = i
      · subst hj
        simp only [answerers, Finset.mem_filter, Finset.mem_univ, true_and, Finset.mem_insert,
          true_or, iff_true]
        rw [hself]
        simp [hdue]
      · simp only [answerers, Finset.mem_filter, Finset.mem_univ, true_and, Finset.mem_insert, hj,
          false_or]
        rw [hother hj]
    have hcount := h.counted
    rw [empty] at hcount
    rw [hinsert, Finset.card_insert_of_notMem (by simp [answerers, hdue]), hcount]
    simp
  · rcases hp with hp | hp
    · rw [Function.update_self] at hp
      have hp : (router i).report i = some p := by simpa using hp
      unfold Router.report at hp
      split at hp
      · rename_i hconverged
        cases hp
        exact ⟨_, by rw [hnew, hconverged], hcurr⟩
      · cases hp
    · obtain ⟨c, hc, hslot⟩ := h.genuine p (.inr hp)
      refine ⟨c, ?_, hslot⟩
      by_cases hj : p.owner = i
      · rw [hj, hnone] at hc
        cases hc
      · rw [hother hj, hc]
  · by_cases hji : j = i
    · subst hji
      rw [hnew] at hj
      left
      simp only [Option.some.injEq, Prod.mk.injEq] at hj
      rw [Function.update_self, Router.report, if_neg (by simp [hj.2])]
    · rw [hother hji] at hj
      rcases h.refused j c hj with hq | hv
      · rw [empty] at hq
        cases hq
      · exact .inr hv
  · by_cases hji : j = i
    · subst hji
      rw [hnew] at hj
      left
      simp only [Option.some.injEq, Prod.mk.injEq] at hj
      rw [Function.update_self, Router.report, if_pos hj.2, hcurr, hj.1]
    · rw [hother hji] at hj
      rcases h.noted hsecond j c hj with hq | hn
      · rw [empty] at hq
        cases hq
      · exact .inr hn
  · obtain ⟨hr, hall⟩ := h.first hsecond
    refine ⟨hr, fun j => ?_⟩
    rw [hbefore j hr]
    exact hall j
  · obtain ⟨hr, -⟩ := h.first hsecond
    rw [hbefore j hr] at hj₁
    by_cases hji : j = i
    · subst hji
      rw [hnew] at hj
      left
      simp only [Option.some.injEq, Prod.mk.injEq] at hj
      rw [Function.update_self, Router.report, if_pos hj.2, hcurr, hj.1]
    · rw [hother hji] at hj
      rcases h.compared hsecond hvalid j c c₁ hj hj₁ with hq | hn
      · rw [empty] at hq
        cases hq
      · exact .inr hn

theorem step_round (h : Round queue router l s) (hs : Stated topology i m (router i))
    (step : RouterStep topology i queue closed m (router i) queue' m' r')
    (alive : r'.pc ≠ .failed) : Round queue' (Function.update router i r') l s := by
  obtain ⟨hnulls, hothers⟩ := step_nulls step alive
  rcases step_replies step with ⟨hreplies, hcompleted⟩ | ⟨pc, rfl, -, empty, rfl⟩
  · exact round_keeps h hreplies hcompleted hnulls hothers
  · exact round_reports h hs pc empty hnulls

end

end OperatingSystems.Stress
