import OperatingSystems.Concurrency.Cells

namespace OperatingSystems.Concurrency
open Channel Transition

variable {τ χ α : Type}

-- the order of the broadcasts of `channel_close`
def Cond.rank : Cond → Nat
  | .notEmpty => 0
  | .notFull => 1
  | .rendezvousWait => 2
  | .rendezvousComplete => 3

-- the thread is in `channel_close`, before its broadcast of `k`
def Pc.closing (c : χ) (k : Cond) : Pc χ → Prop
  | .closeNotify _ c' => c' = c
  | .closeBroadcast k' c' => c' = c ∧ k'.rank ≤ k.rank
  | _ => False

def Roused (c : χ) (w : Wait) (s : State τ χ α) : Prop :=
  (s.chan c).closedFlag = true → ∀ t o, s.pc t = .enter (.wait w) o → o.chan = c →
    s.woken t = false → ∃ u, (s.pc u).closing c (w.cond o.dir)

theorem rank_inj {k k' : Cond} (h : k.rank = k'.rank) : k = k' := by
  cases k <;> cases k' <;> first | rfl | cases h

theorem closing_next {c : χ} {k k' : Cond} (h : k'.rank < k.rank) :
    ((k'.nextInClose).elim (Pc.ret none .success) (Pc.closeBroadcast · c)).closing c k := by
  cases k' <;> cases k <;> first | exact ⟨rfl, by decide⟩ | exact absurd h (by decide)

theorem leave_closing (o : Op χ) (st : Status) (c : χ) (k : Cond) : ¬ (o.leave st).closing c k := by
  rcases leave_cases o st with ⟨-, h⟩ | ⟨-, h⟩ <;> simp [h, Pc.closing]

theorem scanAt_closing (s : State τ χ α) (t : τ) (i : Nat) (c : χ) (k : Cond) :
    ¬ (s.scanAt t i).closing c k := by
  rcases scanAt_cases s t i with ⟨e, -, h⟩ | ⟨-, h⟩ <;> simp [h, Pc.closing]

theorem refused_closing (s : State τ χ α) (t : τ) (o : Op χ) (c : χ) (k : Cond) :
    ¬ (s.refused t o).closing c k := by
  rcases refused_cases s t o with ⟨-, h⟩ | ⟨-, h⟩
  · simp [h, Pc.closing]
  · simp [h, scanAt_closing]

theorem start_closing [DecidableEq τ] (s : State τ χ α) (t : τ) (k' : Call χ α) (c : χ) (k : Cond) :
    ¬ ((s.start t k').pc t).closing c k := by
  rcases start_cases s t k' with ⟨o, -, h⟩ | h | h | ⟨c', h⟩ <;> simp [h, Pc.closing]

theorem next_closing {o : Op χ} {refused : Pc χ} {c : χ} {k : Cond} (hr : ¬ refused.closing c k)
    (m : Move α) : ¬ (o.next refused m).closing c k := by
  cases m with
  | refuse => exact hr
  | closed | exchange | complete => exact leave_closing o _ c k
  | _ => simp [Op.next, Pc.closing]

variable [DecidableEq τ] [DecidableEq χ] [Fintype τ] {size : χ → Nat} {s s' : State τ χ α}
  {a : Action τ χ α} {l : Label τ χ α}

theorem stepped_closes {c : χ} (h : Stepped s a l s') (hopen : (s.chan c).closedFlag = false)
    (hclosed : (s'.chan c).closedFlag = true) :
    (s.pc a.actor = .closeLock c ∧ (s.chan c).chanMutex = none) ∧
      s'.pc a.actor = .closeNotify .recv c ∧ s'.woken = s.woken := by
  have same {ch : χ → Channel τ α} (hc : ch = s'.chan)
      (hsame : (ch c).closedFlag = (s.chan c).closedFlag) : False := by
    rw [← hc, hsame, hopen] at hclosed
    cases hclosed
  cases h with
  | close t wake c' hpc hfree =>
    by_cases hc : c = c'
    · subst hc
      exact ⟨⟨hpc, hfree⟩, by simp, rfl⟩
    · simp [hc, hopen] at hclosed
  | critical t wake p o m l s' hpc hadm hout hact =>
    refine (same (acted_chan hact).symm ?_).elim
    exact update_chan Channel.closedFlag (by simp)
  | publish t wake o hpc => exact (same rfl (update_chan Channel.closedFlag rfl)).elim
  | register t wake i e hpc => exact (same rfl (update_chan Channel.closedFlag rfl)).elim
  | cleanup t wake i o st e hpc => exact (same rfl (update_chan Channel.closedFlag rfl)).elim
  | call t k => exact (same (start_chan s t k).symm rfl).elim
  | signal t wake o => exact (same (finish_chan _ t o .success).symm rfl).elim
  | _ => exact (same rfl rfl).elim

theorem stepped_closing {c : χ} {k : Cond} (h : Stepped s a l s')
    (hv : (s.pc a.actor).closing c k) :
    (s'.pc a.actor).closing c k ∨ s'.woken = (s.broadcast c k).woken := by
  cases h with
  | closeNotify t wake d c' hpc =>
    rw [Action.actor, hpc] at hv
    refine .inl ?_
    rw [State.goto_pc, Action.actor, Function.update_self]
    cases d with
    | recv => exact hv
    | send => exact ⟨hv, Nat.zero_le _⟩
  | closeBroadcast t wake k' c' hpc =>
    rw [Action.actor, hpc] at hv
    obtain ⟨rfl, hle⟩ := hv
    rcases hle.lt_or_eq with hlt | heq
    · refine .inl ?_
      rw [State.goto_pc, Action.actor, Function.update_self]
      exact closing_next hlt
    · cases rank_inj heq
      exact .inr rfl
  | call t k' hpc | spurious t w o hpc | critical t wake p o m l s' hpc | publish t wake o hpc
  | notify t wake o hpc | signal t wake o hpc | closeAgain t wake c' hpc | close t wake c' hpc
  | register t wake i e hpc | registered t wake i hpc | semWait t wake hpc
  | cleanup t wake i o st e hpc | cleaned t wake i o st hpc | ret t wake o st hpc =>
    rw [Action.actor, hpc] at hv
    cases hv

theorem stepped_sleeps {t : τ} {wake : τ → Bool} {w : Wait} {o : Op χ}
    (h : Stepped s (.run t wake) l s') (hpc : s'.pc t = .enter (.wait w) o) :
    (s.pc t = .publish o ∧ w = .complete) ∨
      ∃ p, s.pc t = .enter p o ∧
        Outcome ((s.chan o.chan).arrive o.dir p) o (s.data t o.index) p (.block w) := by
  have hst : (s'.pc t).stays o.chan = some (w, o) := by simp [hpc, Pc.stays]
  cases h with
  | critical t wake p o' m l s' hpc' hadm hout hact =>
    rw [acted_pc hact, Function.update_self, next_stays (refused_stays s t o' _)] at hst
    split at hst
    · cases m with
      | block w' =>
        cases hst
        exact .inr ⟨p, hpc', hout⟩
      | publish =>
        rw [acted_pc hact, Function.update_self] at hpc
        cases hpc
      | _ => cases hst
    · cases hst
  | publish t wake o' hpc' =>
    rw [State.sleep_pc, Function.update_self] at hpc
    cases hpc
    exact .inl ⟨hpc', rfl⟩
  | closeNotify t wake d c hpc' => cases d <;> simp [Pc.stays] at hst
  | closeBroadcast t wake k c hpc' => cases k <;> simp [Cond.nextInClose, Pc.stays] at hst
  | notify | closeAgain | close | register | cleanup | cleaned | ret =>
    simp [State.addSelect, State.removeSelect, Pc.stays] at hst
  | signal | registered | semWait => simp at hst

theorem stepped_roused {c : χ} {w : Wait} (hr : Roused c w s) (h : Stepped s a l s')
    (sleeps : ∀ t wake o, a = .run t wake → s'.pc t = .enter (.wait w) o → o.chan = c →
      (s.chan c).closedFlag = false) : Roused c w s' := by
  have hf := stepped_frame h
  intro hclosed u o hpc hc hw
  by_cases hbefore : (s.chan c).closedFlag = true
  · have hu : u ≠ a.actor := by
      rintro rfl
      cases a with
      | run t wake =>
        rw [sleeps t wake o rfl hpc hc] at hbefore
        cases hbefore
      | call t k =>
        cases h
        have hno := start_stays s t k c
        rw [show (s.start t k).pc t = _ from hpc] at hno
        simp [Pc.stays, hc] at hno
      | spurious t =>
        cases h
        simp at hw
    rw [hf.pc u hu] at hpc
    have hsleep : s.woken u = false := by
      by_contra hn
      simp [hf.woken u hu (by simpa using hn)] at hw
    obtain ⟨v, hv⟩ := hr hbefore u o hpc hc hsleep
    by_cases hva : v = a.actor
    · subst hva
      rcases stepped_closing h hv with hv' | hall
      · exact ⟨_, hv'⟩
      · rw [hall] at hw
        simp [State.broadcast, State.blockedOn, hpc, Pc.waitsOn, hc] at hw
    · exact ⟨v, by rwa [hf.pc v hva]⟩
  · obtain ⟨-, hv, -⟩ := stepped_closes h (by simpa using hbefore) hclosed
    exact ⟨_, by rw [hv]; rfl⟩

end OperatingSystems.Concurrency
