import OperatingSystems.Concurrency.Decision
import OperatingSystems.Concurrency.System

namespace OperatingSystems.Concurrency
open Channel Transition

variable {τ χ α : Type}

theorem update_chan [DecidableEq χ] {s : State τ χ α} {c c' : χ} {ch : Channel τ α} {β : Sort*}
    (f : Channel τ α → β) (h : f ch = f (s.chan c)) :
    f (Function.update s.chan c ch c') = f (s.chan c') := by
  by_cases hc : c' = c
  · subst hc
    simpa using h
  · simp [hc]

theorem scanAt_cases (s : State τ χ α) (t : τ) (i : Nat) :
    (∃ e, (s.entries t)[i]? = some e ∧
        s.scanAt t i = .enter .lock ⟨.select, e.dir, e.channel, i⟩) ∨
      (s.entries t)[i]? = none ∧ s.scanAt t i = .semWait := by
  unfold State.scanAt
  cases (s.entries t)[i]? with
  | none => exact .inr ⟨rfl, rfl⟩
  | some e => exact .inl ⟨e, rfl, rfl⟩

theorem leave_cases (o : Op χ) (st : Status) :
    o.mode ≠ .select ∧ o.leave st = .ret (some o) st ∨
      o.mode = .select ∧ o.leave st = .cleanup 0 o st := by
  unfold Op.leave
  cases o.mode with
  | select => exact .inr ⟨rfl, rfl⟩
  | blocking | nonblocking => exact .inl ⟨by simp, rfl⟩

theorem refused_cases (s : State τ χ α) (t : τ) (o : Op χ) :
    o.mode ≠ .select ∧ s.refused t o = .ret (some o) .channelFull ∨
      o.mode = .select ∧ s.refused t o = s.scanAt t (o.index + 1) := by
  unfold State.refused
  cases o.mode with
  | select => exact .inr ⟨rfl, rfl⟩
  | blocking | nonblocking => exact .inl ⟨by simp, rfl⟩

variable [DecidableEq τ]

theorem start_cases (s : State τ χ α) (t : τ) (k : Call χ α) :
    (∃ o : Op χ, o.mode ≠ .select ∧ (s.start t k).pc t = .enter .lock o) ∨
      (s.start t k).pc t = .ret none .genericError ∨ (s.start t k).pc t = .register 0 ∨
      ∃ c, (s.start t k).pc t = .closeLock c := by
  unfold State.start
  cases k with
  | select es =>
    dsimp only
    split
    · exact .inr (.inl (Function.update_self t _ s.pc))
    · exact .inr (.inr (.inl (Function.update_self t _ s.pc)))
  | close c => exact .inr (.inr (.inr ⟨c, Function.update_self t _ s.pc⟩))
  | _ => exact .inl ⟨_, by simp, Function.update_self t _ s.pc⟩

structure Frame (s s' : State τ χ α) (t : τ) : Prop where
  pc : ∀ u, u ≠ t → s'.pc u = s.pc u
  entries : ∀ u, u ≠ t → s'.entries u = s.entries u
  calls : ∀ u, u ≠ t → s'.calls u = s.calls u
  woken : ∀ u, u ≠ t → s.woken u = true → s'.woken u = true
  sem : ∀ u, u ≠ t → s.sem u ≤ s'.sem u
  isUnbuffered : ∀ c, (s'.chan c).isUnbuffered = (s.chan c).isUnbuffered
  closedFlag : ∀ c, (s.chan c).closedFlag = true → (s'.chan c).closedFlag = true
  selectors : ∀ u, u ≠ t → ∀ c d,
    ((s'.chan c).selectors d).count u = ((s.chan c).selectors d).count u

theorem Frame.of_chan {s s' : State τ χ α} {t : τ} (hpc : ∀ u, u ≠ t → s'.pc u = s.pc u)
    (hentries : ∀ u, u ≠ t → s'.entries u = s.entries u)
    (hcalls : ∀ u, u ≠ t → s'.calls u = s.calls u)
    (hwoken : ∀ u, u ≠ t → s.woken u = true → s'.woken u = true)
    (hsem : ∀ u, u ≠ t → s.sem u ≤ s'.sem u) (hchan : s'.chan = s.chan) : Frame s s' t :=
  ⟨hpc, hentries, hcalls, hwoken, hsem, fun c => by rw [hchan], fun c => by simp [hchan],
    fun u _ c d => by rw [hchan]⟩

section
variable (s : State τ χ α) (t : τ) (o : Op χ) (st : Status)

@[simp] theorem finish_chan : (s.finish t o st).chan = s.chan := by
  unfold State.finish
  cases o.mode <;> rfl

@[simp] theorem finish_pc : (s.finish t o st).pc = Function.update s.pc t (o.leave st) := by
  unfold State.finish
  cases o.mode <;> rfl

@[simp] theorem finish_woken : (s.finish t o st).woken = s.woken := by
  unfold State.finish
  cases o.mode <;> rfl

@[simp] theorem finish_sem : (s.finish t o st).sem = s.sem := by
  unfold State.finish
  cases o.mode <;> rfl

@[simp] theorem finish_data : (s.finish t o st).data = s.data := by
  unfold State.finish
  cases o.mode <;> rfl

@[simp] theorem finish_entries : (s.finish t o st).entries = s.entries := by
  unfold State.finish
  cases o.mode <;> rfl

@[simp] theorem finish_calls : (s.finish t o st).calls = s.calls := by
  unfold State.finish
  cases o.mode <;> rfl

@[simp] theorem exchangeData_chan (p : τ × Nat) : (s.exchangeData t o p).chan = s.chan := by
  unfold State.exchangeData
  cases o.dir <;> rfl

@[simp] theorem exchangeData_pc (p : τ × Nat) : (s.exchangeData t o p).pc = s.pc := by
  unfold State.exchangeData
  cases o.dir <;> rfl

@[simp] theorem exchangeData_woken (p : τ × Nat) : (s.exchangeData t o p).woken = s.woken := by
  unfold State.exchangeData
  cases o.dir <;> rfl

@[simp] theorem exchangeData_sem (p : τ × Nat) : (s.exchangeData t o p).sem = s.sem := by
  unfold State.exchangeData
  cases o.dir <;> rfl

@[simp] theorem exchangeData_entries (p : τ × Nat) : (s.exchangeData t o p).entries = s.entries := by
  unfold State.exchangeData
  cases o.dir <;> rfl

@[simp] theorem exchangeData_selIdx (p : τ × Nat) : (s.exchangeData t o p).selIdx = s.selIdx := by
  unfold State.exchangeData
  cases o.dir <;> rfl

@[simp] theorem exchangeData_calls (p : τ × Nat) : (s.exchangeData t o p).calls = s.calls := by
  unfold State.exchangeData
  cases o.dir <;> rfl

@[simp] theorem start_chan (k : Call χ α) : (s.start t k).chan = s.chan := by
  unfold State.start
  cases k with
  | select es => dsimp only; split <;> rfl
  | _ => rfl

@[simp] theorem start_woken (k : Call χ α) : (s.start t k).woken = s.woken := by
  unfold State.start
  cases k with
  | select es => dsimp only; split <;> rfl
  | _ => rfl

@[simp] theorem start_calls (k : Call χ α) :
    (s.start t k).calls = Function.update s.calls t (s.calls t + 1) := by
  unfold State.start
  cases k with
  | select es => dsimp only; split <;> rfl
  | _ => rfl

theorem start_pc (k : Call χ α) :
    ∃ p, (s.start t k).pc = Function.update s.pc t p := by
  unfold State.start
  cases k with
  | select es => dsimp only; split <;> exact ⟨_, rfl⟩
  | _ => exact ⟨_, rfl⟩

theorem start_other {u : τ} (hu : u ≠ t) (k : Call χ α) :
    (s.start t k).entries u = s.entries u ∧ (s.start t k).sem u = s.sem u ∧
      (s.start t k).selIdx u = s.selIdx u ∧ (s.start t k).data u = s.data u := by
  unfold State.start
  cases k with
  | select es => dsimp only; split <;> simp [hu]
  | _ => simp [hu]

end

variable [DecidableEq χ]

@[simp]
def Action.actor : Action τ χ α → τ
  | .call t _ => t
  | .run t _ => t
  | .spurious t => t

inductive Acted [Fintype τ] (s : State τ χ α) (t : τ) (o : Op χ) (ch left : Channel τ α) :
    Move α → Label τ χ α → State τ χ α → Prop
  | transfer (b : Buffer α) (v : α) :
      Acted s t o ch left (.transfer b v) (.took t (s.calls t) o v)
        (((s.setChan o.chan left).setData t o.index v).goto t (.notify o))
  | refuse :
      Acted s t o ch left .refuse (.refused t (s.calls t) o)
        ((s.setChan o.chan left).goto t (s.refused t o))
  | closedUnbuffered (unbuffered : ch.isUnbuffered = true) :
      Acted s t o ch left .closed (.denied t (s.calls t) o)
        ((s.setChan o.chan left).goto t (o.leave .closedError))
  | closedBuffered (buffered : ch.isUnbuffered = false) :
      Acted s t o ch left .closed (.denied t (s.calls t) o)
        ((s.setChan o.chan left).finish t o .closedError)
  | block (w : Wait) :
      Acted s t o ch left (.block w) .tau ((s.setChan o.chan left).sleep t w o)
  | publish :
      Acted s t o ch left .publish .tau ((s.setChan o.chan left).goto t (.publish o))
  | exchange (wake : τ → Bool) (partner : τ × Nat) (data : ch.unbufData = some partner)
      (legal : s.legal o.chan .rendezvousComplete wake) :
      Acted s t o ch left .exchange (s.exchangeLabel t o partner)
        ((((s.setChan o.chan left).wake o.chan .rendezvousComplete wake).exchangeData t o
          partner).finish t o .success)
  | hold :
      Acted s t o ch left .hold .tau ((s.setChan o.chan left).goto t (.enter .recheck o))
  | complete :
      Acted s t o ch left .complete .tau
        (((s.setChan o.chan left).broadcast o.chan .rendezvousWait).finish t o .success)

theorem acted_of_act [Fintype τ] {s s' : State τ χ α} {t : τ} {o : Op χ} {ch : Channel τ α}
    {wake : τ → Bool} {m : Move α} {l : Label τ χ α} (h : s.act t o ch wake m = some (l, s')) :
    Acted s t o ch (ch.after t o m) m l s' := by
  cases m with
  | transfer b v => cases h; exact .transfer b v
  | refuse => cases h; exact .refuse
  | closed =>
    simp only [State.act, Option.some.injEq, Prod.mk.injEq] at h
    obtain ⟨rfl, rfl⟩ := h
    split
    · exact .closedUnbuffered ‹_›
    · exact .closedBuffered (Bool.eq_false_iff.mpr ‹_›)
  | block w => cases h; exact .block w
  | publish => cases h; exact .publish
  | exchange =>
    simp only [State.act] at h
    split at h
    · rename_i hlegal
      obtain ⟨partner, hp, he⟩ := Option.map_eq_some_iff.mp h
      cases he
      exact .exchange wake partner hp hlegal
    · cases h
  | hold => cases h; exact .hold
  | complete => cases h; exact .complete

inductive Stepped [Fintype τ] (s : State τ χ α) :
    Action τ χ α → Label τ χ α → State τ χ α → Prop
  | call (t : τ) (k : Call χ α) (pc : s.pc t = .idle) :
      Stepped s (.call t k) (.called t (s.calls t + 1) k) (s.start t k)
  | spurious (t : τ) (w : Wait) (o : Op χ) (pc : s.pc t = .enter (.wait w) o)
      (asleep : s.woken t = false) :
      Stepped s (.spurious t) .tau { s with woken := Function.update s.woken t true }
  | critical (t : τ) (wake : τ → Bool) (p : Point) (o : Op χ) (m : Move α) (l : Label τ χ α)
      (s' : State τ χ α) (pc : s.pc t = .enter p o) (admitted : s.admitted t o.chan p)
      (outcome : Outcome ((s.chan o.chan).arrive o.dir p) o (s.data t o.index) p m)
      (acted : Acted s t o ((s.chan o.chan).arrive o.dir p)
        (((s.chan o.chan).arrive o.dir p).after t o m) m l s') :
      Stepped s (.run t wake) l s'
  | publish (t : τ) (wake : τ → Bool) (o : Op χ) (pc : s.pc t = .publish o) :
      Stepped s (.run t wake) .tau
        ((((s.notifySelect o.dir.flip o.chan).broadcast o.chan o.dir.announces).setChan o.chan
          { s.chan o.chan with chanMutex := none }).sleep t .complete o)
  | notify (t : τ) (wake : τ → Bool) (o : Op χ) (pc : s.pc t = .notify o) :
      Stepped s (.run t wake) .tau ((s.notifySelect o.dir.flip o.chan).goto t (.signal o))
  | signal (t : τ) (wake : τ → Bool) (o : Op χ) (pc : s.pc t = .signal o)
      (legal : s.legal o.chan o.dir.announces wake) :
      Stepped s (.run t wake) .tau
        ((s.wake o.chan o.dir.announces wake).finish t o .success)
  | closeAgain (t : τ) (wake : τ → Bool) (c : χ) (pc : s.pc t = .closeLock c)
      (free : (s.chan c).chanMutex = none) (closed : (s.chan c).closedFlag = true) :
      Stepped s (.run t wake) .tau (s.goto t (.ret none .closedError))
  | close (t : τ) (wake : τ → Bool) (c : χ) (pc : s.pc t = .closeLock c)
      (free : (s.chan c).chanMutex = none) (open_ : (s.chan c).closedFlag = false) :
      Stepped s (.run t wake) (.shut t (s.calls t) c)
        ((s.setChan c { s.chan c with closedFlag := true }).goto t (.closeNotify .recv c))
  | closeNotify (t : τ) (wake : τ → Bool) (d : Dir) (c : χ) (pc : s.pc t = .closeNotify d c) :
      Stepped s (.run t wake) .tau ((s.notifySelect d c).goto t
        (match d with
        | .recv => .closeNotify .send c
        | .send => .closeBroadcast .notEmpty c))
  | closeBroadcast (t : τ) (wake : τ → Bool) (k : Cond) (c : χ)
      (pc : s.pc t = .closeBroadcast k c) :
      Stepped s (.run t wake) .tau ((s.broadcast c k).goto t
        ((k.nextInClose).elim (.ret none .success) (Pc.closeBroadcast · c)))
  | register (t : τ) (wake : τ → Bool) (i : Nat) (e : Entry χ α) (pc : s.pc t = .register i)
      (entry : (s.entries t)[i]? = some e) :
      Stepped s (.run t wake) .tau ((s.addSelect t e).goto t (.register (i + 1)))
  | registered (t : τ) (wake : τ → Bool) (i : Nat) (pc : s.pc t = .register i)
      (last : (s.entries t)[i]? = none) :
      Stepped s (.run t wake) .tau (s.goto t (s.scanAt t 0))
  | semWait (t : τ) (wake : τ → Bool) (pc : s.pc t = .semWait) (posted : 0 < s.sem t) :
      Stepped s (.run t wake) .tau
        ({ s with sem := Function.update s.sem t (s.sem t - 1) }.goto t (s.scanAt t 0))
  | cleanup (t : τ) (wake : τ → Bool) (i : Nat) (o : Op χ) (st : Status) (e : Entry χ α)
      (pc : s.pc t = .cleanup i o st) (entry : (s.entries t)[i]? = some e) :
      Stepped s (.run t wake) .tau ((s.removeSelect t e).goto t (.cleanup (i + 1) o st))
  | cleaned (t : τ) (wake : τ → Bool) (i : Nat) (o : Op χ) (st : Status)
      (pc : s.pc t = .cleanup i o st) (last : (s.entries t)[i]? = none) :
      Stepped s (.run t wake) .tau (s.goto t (.ret (some o) st))
  | ret (t : τ) (wake : τ → Bool) (o : Option (Op χ)) (st : Status) (pc : s.pc t = .ret o st) :
      Stepped s (.run t wake) (.returned t (s.calls t) o st) (s.goto t .idle)

theorem stepped_of_step [Fintype τ] {s s' : State τ χ α} {a : Action τ χ α} {l : Label τ χ α}
    (h : s.step a = some (l, s')) : Stepped s a l s' := by
  cases a with
  | call t k =>
    simp only [State.step] at h
    split at h
    · cases h; exact .call t k ‹_›
    · cases h
  | spurious t =>
    simp only [State.step] at h
    split at h
    · rename_i w o hpc
      split at h
      · cases h
      · cases h; exact .spurious t w o hpc (Bool.eq_false_iff.mpr ‹_›)
    · cases h
  | run t wake =>
    simp only [State.step, State.run] at h
    split at h
    · cases h
    · rename_i p o hpc
      unfold State.critical at h
      split at h
      · exact .critical t wake p o _ l s' hpc ‹_› (move_outcome _ _ _ _) (acted_of_act h)
      · cases h
    · cases h; exact .publish t wake _ ‹_›
    · cases h; exact .notify t wake _ ‹_›
    · split at h
      · cases h; exact .signal t wake _ ‹_› ‹_›
      · cases h
    · unfold State.closeSection at h
      split at h
      · split at h
        · cases h; exact .closeAgain t wake _ ‹_› ‹_› ‹_›
        · cases h; exact .close t wake _ ‹_› ‹_› (Bool.eq_false_iff.mpr ‹_›)
      · cases h
    · cases h; exact .closeNotify t wake .recv _ ‹_›
    · cases h; exact .closeNotify t wake .send _ ‹_›
    · cases h; exact .closeBroadcast t wake _ _ ‹_›
    · split at h
      · cases h; exact .register t wake _ _ ‹_› ‹_›
      · cases h; exact .registered t wake _ ‹_› ‹_›
    · split at h
      · cases h; exact .semWait t wake ‹_› ‹_›
      · cases h
    · split at h
      · cases h; exact .cleanup t wake _ _ _ _ ‹_› ‹_›
      · cases h; exact .cleaned t wake _ _ _ ‹_› ‹_›
    · cases h; exact .ret t wake _ _ ‹_›

theorem addSelect_count {s : State τ χ α} {t u : τ} {e : Entry χ α} (hu : u ≠ t) (c : χ) (d : Dir) :
    (((s.addSelect t e).chan c).selectors d).count u = ((s.chan c).selectors d).count u := by
  refine update_chan (fun ch => (ch.selectors d).count u) ?_
  by_cases hd : d = e.dir
  · subst hd
    simp [List.count_append, hu.symm]
  · simp [hd]

theorem removeSelect_count {s : State τ χ α} {t u : τ} {e : Entry χ α} (hu : u ≠ t) (c : χ)
    (d : Dir) :
    (((s.removeSelect t e).chan c).selectors d).count u = ((s.chan c).selectors d).count u := by
  refine update_chan (fun ch => (ch.selectors d).count u) ?_
  by_cases hd : d = e.dir
  · subst hd
    simp [List.count_erase_of_ne hu]
  · simp [hd]

section
variable [Fintype τ] {s s' : State τ χ α} {a : Action τ χ α} {l : Label τ χ α}

def Op.next (o : Op χ) (refused : Pc χ) : Move α → Pc χ
  | .transfer _ _ => .notify o
  | .refuse => refused
  | .closed => o.leave .closedError
  | .block w => .enter (.wait w) o
  | .publish => .publish o
  | .exchange => o.leave .success
  | .hold => .enter .recheck o
  | .complete => o.leave .success

section
variable {t : τ} {o : Op χ} {ch left : Channel τ α} {m : Move α}
  (h : Acted s t o ch left m l s')
include h

theorem acted_pc : s'.pc = Function.update s.pc t (o.next (s.refused t o) m) := by
  cases h <;> simp [State.broadcast, Op.next]

theorem acted_chan : s'.chan = Function.update s.chan o.chan left := by
  cases h <;> simp [State.broadcast]

theorem acted_entries : s'.entries = s.entries := by
  cases h <;> simp [State.broadcast]

theorem acted_calls : s'.calls = s.calls := by
  cases h <;> simp [State.broadcast]

theorem acted_sem : s'.sem = s.sem := by
  cases h <;> simp [State.broadcast]

theorem acted_woken {u : τ} (hu : u ≠ t) (hw : s.woken u = true) : s'.woken u = true := by
  cases h <;> simp [State.broadcast, hu, hw]

end

theorem stepped_frame (h : Stepped s a l s') : Frame s s' a.actor := by
  cases h with
  | call t k hpc =>
    have hother := fun u (hu : u ≠ t) => start_other s t hu k
    obtain ⟨p, hp⟩ := start_pc s t k
    exact .of_chan (fun u hu => by rw [hp]; exact Function.update_of_ne hu _ _)
      (fun u hu => (hother u hu).1) (fun u hu => by simp [Action.actor] at hu; simp [hu])
      (fun u _ hw => by simpa using hw) (fun u hu => (hother u hu).2.1.ge) (start_chan s t k)
  | critical t wake p o m l s' hpc hadm hout hact =>
    have hc := acted_chan hact
    refine ⟨fun u hu => ?_, fun u _ => by rw [acted_entries hact], fun u _ => by rw [acted_calls hact],
      fun u hu hw => acted_woken hact hu hw, fun u _ => by rw [acted_sem hact], fun c => ?_,
      fun c => ?_, fun u _ c d => ?_⟩
    · rw [acted_pc hact]
      exact Function.update_of_ne hu _ _
    · rw [hc]
      exact update_chan Channel.isUnbuffered (by simp)
    · rw [hc, update_chan Channel.closedFlag (by simp)]
      exact id
    · rw [hc]
      exact update_chan (fun ch => (ch.selectors d).count u) (by simp)
  | publish t wake o hpc =>
    refine ⟨fun u hu => Function.update_of_ne hu _ _, fun _ _ => rfl, fun _ _ => rfl,
      fun u hu hw => ?_, fun u _ => Nat.le_add_right _ _, fun c => update_chan Channel.isUnbuffered rfl,
      fun c => Eq.trans (b := (s.chan c).closedFlag) (update_chan Channel.closedFlag rfl),
      fun u _ c d => update_chan (fun ch => (ch.selectors d).count u) rfl⟩
    simp [Action.actor] at hu
    simp [State.broadcast, hu, hw]
  | close t wake c hpc hfree hopen =>
    refine ⟨fun u hu => Function.update_of_ne hu _ _, fun _ _ => rfl, fun _ _ => rfl,
      fun _ _ => id, fun _ _ => le_rfl, fun c => update_chan Channel.isUnbuffered rfl,
      fun c' hc => ?_, fun u _ c d => update_chan (fun ch => (ch.selectors d).count u) rfl⟩
    by_cases hcc : c' = c
    · simp [hcc]
    · simpa [hcc] using hc
  | register t wake i e hpc he =>
    exact ⟨fun u hu => Function.update_of_ne hu _ _, fun _ _ => rfl, fun _ _ => rfl,
      fun _ _ => id, fun _ _ => le_rfl, fun c => update_chan Channel.isUnbuffered rfl,
      fun c => Eq.trans (b := (s.chan c).closedFlag) (update_chan Channel.closedFlag rfl),
      fun u hu => addSelect_count hu⟩
  | cleanup t wake i o st e hpc he =>
    exact ⟨fun u hu => Function.update_of_ne hu _ _, fun _ _ => rfl, fun _ _ => rfl,
      fun _ _ => id, fun _ _ => le_rfl, fun c => update_chan Channel.isUnbuffered rfl,
      fun c => Eq.trans (b := (s.chan c).closedFlag) (update_chan Channel.closedFlag rfl),
      fun u hu => removeSelect_count hu⟩
  | _ =>
    refine .of_chan ?_ ?_ ?_ ?_ ?_ ?_ <;> simp +contextual [Action.actor, State.broadcast]

end

end OperatingSystems.Concurrency
