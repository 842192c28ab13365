import OperatingSystems.Concurrency.Shape

namespace OperatingSystems.Concurrency
open Channel Transition

variable {τ χ α : Type} [DecidableEq χ]

def Label.chan : Label τ χ α → Option χ
  | .took _ _ o _ => some o.chan
  | .refused _ _ o => some o.chan
  | .denied _ _ o => some o.chan
  | .paired c _ _ _ => some c
  | _ => none

def Channel.sync (ch : Channel τ α) : Nat × Option Dir × Option (τ × Nat) :=
  (ch.unbufStage, ch.activeUnbufOp, ch.unbufData)

def Pc.stays (c : χ) : Pc χ → Option (Wait × Op χ)
  | .enter (.wait w) o => if o.chan = c then some (w, o) else none
  | .publish o => if o.chan = c then some (.complete, o) else none
  | _ => none

@[simp] theorem leave_stays (c : χ) (o : Op χ) (st : Status) : (o.leave st).stays c = none := by
  rcases leave_cases o st with ⟨-, h⟩ | ⟨-, h⟩ <;> rw [h] <;> rfl

@[simp] theorem scanAt_stays (s : State τ χ α) (t : τ) (i : Nat) (c : χ) :
    (s.scanAt t i).stays c = none := by
  rcases scanAt_cases s t i with ⟨e, -, h⟩ | ⟨-, h⟩ <;> rw [h] <;> rfl

@[simp] theorem refused_stays (s : State τ χ α) (t : τ) (o : Op χ) (c : χ) :
    (s.refused t o).stays c = none := by
  rcases refused_cases s t o with ⟨-, h⟩ | ⟨-, h⟩
  · rw [h]
    rfl
  · rw [h, scanAt_stays]

@[simp] theorem start_stays [DecidableEq τ] (s : State τ χ α) (t : τ) (k : Call χ α) (c : χ) :
    ((s.start t k).pc t).stays c = none := by
  rcases start_cases s t k with ⟨o, -, h⟩ | h | h | ⟨c', h⟩ <;> rw [h] <;> rfl

def Move.stays (o : Op χ) : Move α → Option (Wait × Op χ)
  | .publish => some (.complete, o)
  | .block w => some (w, o)
  | _ => none

theorem next_stays {o : Op χ} {refused : Pc χ} {c : χ} (hr : refused.stays c = none)
    (m : Move α) : (o.next refused m).stays c = if o.chan = c then m.stays o else none := by
  cases m with
  | refuse => simpa [Move.stays, Op.next] using hr
  | closed | exchange | complete => simp [Move.stays, Op.next]
  | _ => simp [Move.stays, Op.next, Pc.stays]

theorem stays_chan {c : χ} {pc : Pc χ} {w : Wait} {o : Op χ} (h : pc.stays c = some (w, o)) :
    o.chan = c := by
  unfold Pc.stays at h
  split at h
  · split at h
    · cases h; assumption
    · cases h
  · split at h
    · cases h; assumption
    · cases h
  · cases h

theorem stays_wait {c : χ} {pc : Pc χ} {w : Wait} {o : Op χ} (h : pc.stays c = some (w, o))
    (hw : w ≠ .complete ∨ pc.holds c = false) : pc = .enter (.wait w) o := by
  unfold Pc.stays at h
  split at h
  · split at h
    · cases h; rfl
    · cases h
  · split at h
    · cases h; simp_all [Pc.holds]
    · cases h
  · cases h

variable [DecidableEq τ] [Fintype τ]

-- the part of a step that concerns `c`: nothing, or one critical section on its mutex
inductive On (s : State τ χ α) (c : χ) (a : Action τ χ α) (l : Label τ χ α) (s' : State τ χ α) : Prop
  | quiet (sync : (s'.chan c).sync = (s.chan c).sync)
      (buffer : (s'.chan c).buffer = (s.chan c).buffer) (label : l.chan ≠ some c)
      (stays : ∀ u, (s'.pc u).stays c = (s.pc u).stays c)
      (keeps : ∀ u w o, s.pc u = .enter (.wait w) o → o.chan = c →
        s'.pc u = s.pc u ∧ (s.woken u = true → s'.woken u = true))
  | critical (t : τ) (wake : τ → Bool) (p : Point) (o : Op χ) (m : Move α)
      (action : a = .run t wake) (pc : s.pc t = .enter p o) (chan : o.chan = c)
      (admitted : s.admitted t c p)
      (outcome : Outcome ((s.chan c).arrive o.dir p) o (s.data t o.index) p m)
      (acted : Acted s t o ((s.chan c).arrive o.dir p)
        (((s.chan c).arrive o.dir p).after t o m) m l s')

variable {s s' : State τ χ α} {a : Action τ χ α} {l : Label τ χ α}

theorem acted_label {t : τ} {o : Op χ} {ch left : Channel τ α} {m : Move α}
    (h : Acted s t o ch left m l s') : l = .tau ∨ l.chan = some o.chan := by
  cases h with
  | exchange wake partner =>
    unfold State.exchangeLabel
    cases o.dir <;> exact .inr rfl
  | _ => simp [Label.chan]

theorem On.other {c : χ} {t : τ} (hf : Frame s s' t)
    (hsync : (s'.chan c).sync = (s.chan c).sync)
    (hbuffer : (s'.chan c).buffer = (s.chan c).buffer) (hlabel : l.chan ≠ some c)
    (hstays : (s'.pc t).stays c = (s.pc t).stays c)
    (hkeeps : ∀ w o, s.pc t = .enter (.wait w) o → o.chan = c →
      s'.pc t = s.pc t ∧ s'.woken t = true) :
    On s c a l s' := by
  refine .quiet hsync hbuffer hlabel (fun u => ?_) fun u w o hpc hc => ?_
  · by_cases hu : u = t
    · rw [hu, hstays]
    · rw [hf.pc u hu]
  · by_cases hut : u = t
    · subst hut
      exact (hkeeps w o hpc hc).imp_right fun h _ => h
    · exact ⟨hf.pc u hut, hf.woken u hut⟩

theorem stepped_on (h : Stepped s a l s') (c : χ) : On s c a l s' := by
  have hf := stepped_frame h
  cases h with
  | call t k hpc =>
    refine .other hf (by simp) (by simp) (by simp [Label.chan]) ?_ (by simp [hpc])
    rw [Action.actor, start_stays, hpc]
    rfl
  | spurious t w o hpc => exact .other hf rfl rfl (by simp [Label.chan]) rfl (by simp)
  | critical t wake p o m l s' hpc hadm hout hact =>
    by_cases hc : o.chan = c
    · subst hc
      exact .critical t wake p o m rfl hpc rfl hadm hout hact
    · have hchan : s'.chan c = s.chan c := by
        rw [acted_chan hact, Function.update_of_ne (Ne.symm hc)]
      refine .other hf (by rw [hchan]) (by rw [hchan]) ?_ ?_ ?_
      · rcases acted_label hact with rfl | hl
        · simp [Label.chan]
        · simp [hl, hc]
      · simp only [Action.actor]
        rw [acted_pc hact, Function.update_self, next_stays (refused_stays s t o c), hpc]
        cases p <;> simp [Pc.stays, hc]
      · simp only [Action.actor]
        rintro w o' hpc' rfl
        rw [hpc] at hpc'
        cases hpc'
        exact absurd rfl hc
  | publish t wake o hpc =>
    exact .other hf (update_chan Channel.sync rfl) (update_chan Channel.buffer rfl)
      (by simp [Label.chan]) (by simp [hpc, Pc.stays]) (by simp [hpc])
  | close t wake c' hpc | register t wake i e hpc | cleanup t wake i o st e hpc =>
    exact .other hf (update_chan Channel.sync rfl) (update_chan Channel.buffer rfl)
      (by simp [Label.chan]) (by simp [State.addSelect, State.removeSelect, hpc, Pc.stays])
      (by simp [hpc])
  | closeNotify t wake d c' hpc =>
    refine .other hf (by simp) (by simp) (by simp [Label.chan]) ?_ (by simp [hpc])
    cases d <;> simp [hpc, Pc.stays]
  | closeBroadcast t wake k c' hpc =>
    refine .other hf (by simp [State.broadcast]) (by simp [State.broadcast]) (by simp [Label.chan])
      ?_ (by simp [hpc])
    cases k <;> simp [hpc, Pc.stays, Cond.nextInClose]
  | notify t wake o hpc | signal t wake o hpc | closeAgain t wake c' hpc | registered t wake i hpc
  | semWait t wake hpc | cleaned t wake i o st hpc | ret t wake o st hpc =>
    refine .other hf (by simp) (by simp) (by simp [Label.chan]) ?_ (by simp [hpc])
    simp [hpc]
    rfl

theorem stepped_enter {t : τ} {wake : τ → Bool} {p : Point} {o : Op χ}
    (h : Stepped s (.run t wake) l s') (hpc : s.pc t = .enter p o) :
    ∃ m, s.admitted t o.chan p ∧
      Outcome ((s.chan o.chan).arrive o.dir p) o (s.data t o.index) p m ∧
      Acted s t o ((s.chan o.chan).arrive o.dir p)
        (((s.chan o.chan).arrive o.dir p).after t o m) m l s' := by
  cases h with
  | critical t wake p' o' m l s' hpc' hadm hout hact =>
    cases hpc.symm.trans hpc'
    exact ⟨m, hadm, hout, hact⟩
  | publish _ _ _ hpc' | notify _ _ _ hpc' | signal _ _ _ hpc' | closeAgain _ _ _ hpc'
  | close _ _ _ hpc' | closeNotify _ _ _ _ hpc' | closeBroadcast _ _ _ _ hpc'
  | register _ _ _ _ hpc' | registered _ _ _ hpc' | semWait _ _ hpc' | cleanup _ _ _ _ _ _ hpc'
  | cleaned _ _ _ _ _ hpc' | ret _ _ _ _ hpc' => cases hpc.symm.trans hpc'

end OperatingSystems.Concurrency
