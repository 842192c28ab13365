import OperatingSystems.Concurrency.Channel

namespace OperatingSystems.Concurrency.Channel

variable {τ χ α : Type}

-- `buffer_add` or `buffer_remove` would fail
def stuck (ch : Channel τ α) : Dir → Prop
  | .send => ch.buffer.capacity ≤ ch.buffer.size
  | .recv => ch.buffer.size = 0

instance (ch : Channel τ α) : ∀ d, Decidable (ch.stuck d)
  | .send => inferInstanceAs (Decidable (_ ≤ _))
  | .recv => inferInstanceAs (Decidable (_ = _))

theorem transfer_send {ch : Channel τ α} {b : Buffer α} {v w : α}
    (h : ch.transfer .send v = some (b, w)) : w = v ∧ ch.buffer.add v = some b := by
  obtain ⟨b', hb, he⟩ := Option.map_eq_some_iff.mp h
  cases he
  exact ⟨rfl, hb⟩

theorem transfer_recv {ch : Channel τ α} {b : Buffer α} {v w : α}
    (h : ch.transfer .recv v = some (b, w)) : ch.buffer.remove = some (w, b) := by
  obtain ⟨r, hr, he⟩ := Option.map_eq_some_iff.mp h
  cases he
  exact hr

theorem transfer_eq_none {ch : Channel τ α} {d : Dir} {v : α} :
    ch.transfer d v = none ↔ ch.stuck d := by
  cases d with
  | send => exact Option.map_eq_none_iff.trans Buffer.add_eq_none
  | recv => exact Option.map_eq_none_iff.trans Buffer.remove_eq_none

theorem partnerActive_behind {ch : Channel τ α} {d : Dir} (hp : ch.partnerActive d)
    (h : ch.unbufStage = 1 → ch.activeUnbufOp = some d) : False := by
  have hd := h hp.1
  rw [hp.2] at hd
  cases d <;> cases hd

-- the critical section reaches `unbuffered_sync`
def Enters (ch : Channel τ α) (o : Op χ) (p : Point) : Prop :=
  (p = .lock ∧ ch.closedFlag = false ∧ ch.isUnbuffered = true ∧
    (o.mode = .blocking ∨ o.mode = .select ∧ ch.ready o.dir)) ∨
  (p = .recheck ∧ ch.ready o.dir) ∨ p = .wait .rendezvous

def Passes (ch : Channel τ α) (o : Op χ) (p : Point) : Prop :=
  (p = .recheck ∨ p = .lock ∧ ch.closedFlag = false ∧ ch.isUnbuffered = true ∧
    o.mode = .select) ∧ ¬ ch.ready o.dir

-- it reaches the `while` of a non-blocking operation
def Loops (ch : Channel τ α) (o : Op χ) (p : Point) : Prop :=
  (p = .lock ∧ ch.closedFlag = false ∧ ch.isUnbuffered = true ∧ o.mode = .nonblocking) ∨
    p = .wait .loop

-- it reaches `buffer_add` or `buffer_remove`
def Attempts (ch : Channel τ α) (p : Point) : Prop :=
  (p = .lock ∧ ch.closedFlag = false ∧ ch.isUnbuffered = false) ∨ p = .wait .retry

inductive Outcome (ch : Channel τ α) (o : Op χ) (v : α) (p : Point) : Move α → Prop
  | shut (lock : p = .lock) (closed : ch.closedFlag = true) : Outcome ch o v p .closed
  | publish (enters : ch.Enters o p) (stage : ch.unbufStage = 0) : Outcome ch o v p .publish
  | exchange (enters : ch.Enters o p) (stage : ch.unbufStage = 1)
      (active : ch.activeUnbufOp ≠ some o.dir) : Outcome ch o v p .exchange
  | behind (enters : ch.Enters o p) (stage : ch.unbufStage ≠ 0)
      (active : ch.unbufStage = 1 → ch.activeUnbufOp = some o.dir) :
      Outcome ch o v p (.block .rendezvous)
  | pass (passes : ch.Passes o p) : Outcome ch o v p .refuse
  | stall (loops : ch.Loops o p) (waiting : 0 < ch.waiting o.dir.flip)
      (stage : ch.unbufStage = 0) (selectors : (ch.selectors o.dir.flip).length = 0) :
      Outcome ch o v p (.block .loop)
  | hold (loops : ch.Loops o p) (goesOn : ¬ (0 < ch.waiting o.dir.flip ∧ ch.unbufStage = 0 ∧
      ¬ 0 < (ch.selectors o.dir.flip).length)) : Outcome ch o v p .hold
  | transfer (b : Buffer α) (w : α) (attempts : ch.Attempts p)
      (done : ch.transfer o.dir v = some (b, w)) : Outcome ch o v p (.transfer b w)
  | refuse (attempts : ch.Attempts p) (mode : o.mode ≠ .blocking)
      (failed : ch.transfer o.dir v = none) : Outcome ch o v p .refuse
  | closedRetry (attempts : ch.Attempts p) (mode : o.mode = .blocking)
      (failed : ch.transfer o.dir v = none) (closed : ch.closedFlag = true) :
      Outcome ch o v p .closed
  | retry (attempts : ch.Attempts p) (mode : o.mode = .blocking)
      (failed : ch.transfer o.dir v = none) (isOpen : ch.closedFlag = false) :
      Outcome ch o v p (.block .retry)
  | complete (point : p = .wait .complete) : Outcome ch o v p .complete

variable {ch : Channel τ α} {o : Op χ} {v : α} {p : Point}

theorem unbufferedSync_outcome (h : ch.Enters o p) :
    Outcome ch o v p (ch.unbufferedSync o.dir) := by
  unfold unbufferedSync
  split
  · exact .publish h ‹_›
  · split
    · split
      · exact .behind h ‹_› fun _ => ‹_›
      · exact .exchange h ‹_› ‹_›
    · exact .behind h ‹_› fun hs => absurd hs ‹_›

theorem readySync_outcome (he : ch.ready o.dir → ch.Enters o p)
    (hp : ¬ ch.ready o.dir → ch.Passes o p) : Outcome ch o v p (ch.readySync o.dir) := by
  unfold readySync
  split
  · exact unbufferedSync_outcome (he ‹_›)
  · exact .pass (hp ‹_›)

theorem nonBlockingLoop_outcome (h : ch.Loops o p) :
    Outcome ch o v p (ch.nonBlockingLoop o.dir) := by
  unfold nonBlockingLoop
  split
  · rename_i hc
    obtain ⟨hw, hs, hl⟩ := hc
    exact .stall h hw hs (Nat.eq_zero_of_not_pos hl)
  · exact .hold h ‹_›

theorem buffered_outcome (h : ch.Attempts p) : Outcome ch o v p (ch.buffered o v) := by
  unfold buffered
  split
  · rename_i b w ht
    exact .transfer b w h ht
  · rename_i ht
    cases hm : o.mode with
    | blocking =>
      cases hc : ch.closedFlag with
      | true => exact .closedRetry h hm ht hc
      | false => exact .retry h hm ht hc
    | nonblocking => exact .refuse h (by simp [hm]) ht
    | select => exact .refuse h (by simp [hm]) ht

theorem move_outcome (ch : Channel τ α) (o : Op χ) (v : α) (p : Point) :
    Outcome ch o v p (ch.move o v p) := by
  cases p with
  | lock =>
    simp only [move]
    split
    · exact .shut rfl ‹_›
    · have hopen : ch.closedFlag = false := Bool.eq_false_iff.mpr ‹_›
      split
      · rename_i hu
        unfold unbuffered
        cases hm : o.mode with
        | blocking => exact unbufferedSync_outcome (.inl ⟨rfl, hopen, hu, .inl hm⟩)
        | nonblocking => exact nonBlockingLoop_outcome (.inl ⟨rfl, hopen, hu, hm⟩)
        | select =>
          exact readySync_outcome (fun hr => .inl ⟨rfl, hopen, hu, .inr ⟨hm, hr⟩⟩)
            (fun hr => ⟨.inr ⟨rfl, hopen, hu, hm⟩, hr⟩)
      · exact buffered_outcome (.inl ⟨rfl, hopen, Bool.eq_false_iff.mpr ‹_›⟩)
  | recheck =>
    exact readySync_outcome (fun hr => .inr (.inl ⟨rfl, hr⟩)) (fun hr => ⟨.inl rfl, hr⟩)
  | wait w =>
    cases w with
    | retry => exact buffered_outcome (.inr rfl)
    | loop => exact nonBlockingLoop_outcome (.inr rfl)
    | rendezvous => exact unbufferedSync_outcome (.inr (.inr rfl))
    | complete => exact .complete rfl

theorem outcome_retry {m : Move α} (h : Outcome ch o v (.wait .retry) m)
    (hm : o.mode = .blocking) (hfree : ¬ ch.stuck o.dir) : ∃ b w, m = .transfer b w := by
  cases h with
  | transfer b w => exact ⟨b, w, rfl⟩
  | refuse _ mode => exact absurd hm mode
  | closedRetry _ _ failed | retry _ _ failed => exact absurd (transfer_eq_none.mp failed) hfree
  | shut lock => cases lock
  | publish enters | exchange enters | behind enters => simp [Enters] at enters
  | pass passes => simp [Passes] at passes
  | stall loops | hold loops => simp [Loops] at loops
  | complete point => cases point

theorem outcome_complete {m : Move α} (h : Outcome ch o v (.wait .complete) m) :
    m = .complete := by
  cases h with
  | complete => rfl
  | shut lock => cases lock
  | publish enters | exchange enters | behind enters => simp [Enters] at enters
  | pass passes => simp [Passes] at passes
  | stall loops | hold loops => simp [Loops] at loops
  | transfer b w attempts | refuse attempts | closedRetry attempts | retry attempts =>
    simp [Attempts] at attempts

end OperatingSystems.Concurrency.Channel
