import OperatingSystems.Concurrency.Step

namespace OperatingSystems.Concurrency
open Channel Transition

variable {τ χ α : Type}

structure Init (size : χ → Nat) (s : State τ χ α) : Prop where
  chan : ∀ c, ∃ garbage, s.chan c = Channel.create (size c) garbage
  pc : ∀ t, s.pc t = .idle
  entries : ∀ t, s.entries t = []
  calls : ∀ t, s.calls t = 0

def State.initial (size : χ → Nat) (v : α) : State τ χ α where
  chan := fun c => .create (size c) fun _ => v
  pc := fun _ => .idle
  woken := fun _ => false
  sem := fun _ => 0
  data := fun _ _ => v
  entries := fun _ => []
  selIdx := fun _ => none
  calls := fun _ => 0

theorem initial_init (size : χ → Nat) (v : α) : Init size (State.initial size v : State τ χ α) :=
  ⟨fun _ => ⟨_, rfl⟩, fun _ => rfl, fun _ => rfl, fun _ => rfl⟩

structure Owned (es : List (Entry χ α)) (o : Op χ) : Prop where
  entry : ∃ e, es[o.index]? = some e ∧ e.channel = o.chan ∧ e.dir = o.dir
  plain : o.mode ≠ .select → ∀ e ∈ es, e.channel = o.chan ∧ e.dir = o.dir

def Point.fits (size : χ → Nat) (o : Op χ) : Point → Prop
  | .lock => True
  | .recheck => o.mode = .nonblocking ∧ size o.chan = 0
  | .wait .retry => o.mode = .blocking ∧ size o.chan ≠ 0
  | .wait .loop => o.mode = .nonblocking ∧ size o.chan = 0
  | .wait .rendezvous => size o.chan = 0
  | .wait .complete => size o.chan = 0

def Pc.fits (size : χ → Nat) (es : List (Entry χ α)) : Pc χ → Prop
  | .enter p o => Owned es o ∧ p.fits size o
  | .publish o => Owned es o ∧ size o.chan = 0
  | .notify o => Owned es o ∧ size o.chan ≠ 0
  | .signal o => Owned es o ∧ size o.chan ≠ 0
  | .cleanup _ o _ => Owned es o ∧ o.mode = .select
  | .ret (some o) _ => Owned es o
  | _ => True

-- the thread has `chan_mutex` of `c` between two of its steps
def Pc.holds [DecidableEq χ] (c : χ) : Pc χ → Bool
  | .enter .recheck o => o.chan = c
  | .publish o => o.chan = c
  | _ => false

def Held [DecidableEq χ] (s : State τ χ α) : Prop :=
  ∀ c t, (s.chan c).chanMutex = some t ↔ (s.pc t).holds c = true

structure Shape [DecidableEq χ] (size : χ → Nat) (s : State τ χ α) : Prop where
  kind : ∀ c, (s.chan c).isUnbuffered = (size c == 0)
  fits : ∀ t, (s.pc t).fits size (s.entries t)
  held : Held s

theorem owned_select {es : List (Entry χ α)} {i : Nat} {e : Entry χ α} (h : es[i]? = some e) :
    Owned es ⟨.select, e.dir, e.channel, i⟩ :=
  ⟨⟨e, h, rfl, rfl⟩, fun hm => absurd rfl hm⟩

theorem owned_single (m : Mode) (e : Entry χ α) : Owned [e] ⟨m, e.dir, e.channel, 0⟩ := by
  refine ⟨⟨e, rfl, rfl, rfl⟩, fun _ e' he => ?_⟩
  cases List.mem_singleton.mp he
  exact ⟨rfl, rfl⟩

theorem Owned.leave_fits {size : χ → Nat} {es : List (Entry χ α)} {o : Op χ} (h : Owned es o)
    (st : Status) : (o.leave st).fits size es := by
  unfold Op.leave
  cases hm : o.mode with
  | blocking => exact h
  | nonblocking => exact h
  | select => exact ⟨h, hm⟩

section
variable [DecidableEq χ]

@[simp] theorem leave_holds (c : χ) (o : Op χ) (st : Status) : (o.leave st).holds c = false := by
  rcases leave_cases o st with ⟨-, h⟩ | ⟨-, h⟩ <;> rw [h] <;> rfl

@[simp] theorem scanAt_holds (s : State τ χ α) (t : τ) (i : Nat) (c : χ) :
    (s.scanAt t i).holds c = false := by
  rcases scanAt_cases s t i with ⟨e, -, h⟩ | ⟨-, h⟩ <;> rw [h] <;> rfl

@[simp] theorem refused_holds (s : State τ χ α) (t : τ) (o : Op χ) (c : χ) :
    (s.refused t o).holds c = false := by
  rcases refused_cases s t o with ⟨-, h⟩ | ⟨-, h⟩
  · rw [h]
    rfl
  · rw [h, scanAt_holds]

end

theorem next_holds [DecidableEq χ] {o : Op χ} {refused : Pc χ} {c : χ}
    (hr : refused.holds c = false) (m : Move α) : (o.next refused m).holds c =
      match m with
      | .publish => decide (o.chan = c)
      | .hold => decide (o.chan = c)
      | _ => false := by
  cases m with
  | refuse => exact hr
  | closed => exact leave_holds c o _
  | exchange => exact leave_holds c o _
  | complete => exact leave_holds c o _
  | _ => rfl

theorem scanAt_fits (size : χ → Nat) (s : State τ χ α) (t : τ) (i : Nat) :
    (s.scanAt t i).fits size (s.entries t) := by
  rcases scanAt_cases s t i with ⟨e, he, h⟩ | ⟨-, h⟩ <;> rw [h]
  · exact ⟨owned_select he, trivial⟩
  · trivial

theorem refused_fits (size : χ → Nat) {s : State τ χ α} {t : τ} {o : Op χ}
    (h : Owned (s.entries t) o) : (s.refused t o).fits size (s.entries t) := by
  rcases refused_cases s t o with ⟨-, hr⟩ | ⟨-, hr⟩ <;> rw [hr]
  · exact h
  · exact scanAt_fits size s t _

theorem start_fits [DecidableEq τ] (size : χ → Nat) (s : State τ χ α) (t : τ) (k : Call χ α) :
    ((s.start t k).pc t).fits size ((s.start t k).entries t) := by
  unfold State.start
  cases k with
  | select es => dsimp only; split <;> simp [Pc.fits]
  | close c => simp [Pc.fits]
  | send c v => simpa [Pc.fits, Point.fits] using owned_single .blocking ⟨c, .send, v⟩
  | receive c => simpa [Pc.fits, Point.fits] using owned_single .blocking ⟨c, .recv, s.data t 0⟩
  | nonBlockingSend c v =>
    simpa [Pc.fits, Point.fits] using owned_single .nonblocking ⟨c, .send, v⟩
  | nonBlockingReceive c =>
    simpa [Pc.fits, Point.fits] using owned_single .nonblocking ⟨c, .recv, s.data t 0⟩

section
variable {size : χ → Nat} {ch : Channel τ α} {o : Op χ} {v : α} {p : Point}

theorem enters_unbuffered (h : ch.Enters o p) (hk : ch.isUnbuffered = (size o.chan == 0))
    (hp : p.fits size o) : size o.chan = 0 := by
  rcases h with ⟨-, -, hu, -⟩ | ⟨rfl, -⟩ | rfl
  · simpa [hk] using hu
  · exact hp.2
  · exact hp

theorem loops_unbuffered (h : ch.Loops o p) (hk : ch.isUnbuffered = (size o.chan == 0))
    (hp : p.fits size o) : o.mode = .nonblocking ∧ size o.chan = 0 := by
  rcases h with ⟨-, -, hu, hm⟩ | rfl
  · exact ⟨hm, by simpa [hk] using hu⟩
  · exact hp

theorem attempts_buffered (h : ch.Attempts p) (hk : ch.isUnbuffered = (size o.chan == 0))
    (hp : p.fits size o) : size o.chan ≠ 0 := by
  rcases h with ⟨-, -, hu⟩ | rfl
  · simpa [hk] using hu
  · exact hp.2

inductive BufferedOutcome (ch : Channel τ α) (o : Op χ) (v : α) (p : Point) : Move α → Prop
  | shut (closed : ch.closedFlag = true) : BufferedOutcome ch o v p .closed
  | transfer (b : Buffer α) (w : α) (attempts : ch.Attempts p)
      (done : ch.transfer o.dir v = some (b, w)) : BufferedOutcome ch o v p (.transfer b w)
  | refuse (lock : p = .lock) (isOpen : ch.closedFlag = false) (mode : o.mode ≠ .blocking)
      (stuck : ch.stuck o.dir) : BufferedOutcome ch o v p .refuse
  | retry (isOpen : ch.closedFlag = false) (mode : o.mode = .blocking) (stuck : ch.stuck o.dir) :
      BufferedOutcome ch o v p (.block .retry)

theorem outcome_buffered {m : Move α} (hbuf : size o.chan ≠ 0)
    (hk : ch.isUnbuffered = (size o.chan == 0)) (hp : p.fits size o)
    (h : Outcome ch o v p m) : BufferedOutcome ch o v p m := by
  cases h with
  | shut _ closed | closedRetry _ _ _ closed => exact .shut closed
  | transfer b w attempts done => exact .transfer b w attempts done
  | retry _ mode failed isOpen => exact .retry isOpen mode (transfer_eq_none.mp failed)
  | publish enters | exchange enters | behind enters =>
    exact absurd (enters_unbuffered enters hk hp) hbuf
  | stall loops | hold loops => exact absurd (loops_unbuffered loops hk hp).2 hbuf
  | complete point =>
    subst point
    exact absurd hp hbuf
  | pass passes =>
    rcases passes.1 with rfl | ⟨-, -, hu, -⟩
    · exact absurd hp.2 hbuf
    · rw [hk] at hu
      exact absurd (by simpa using hu) hbuf
  | refuse attempts mode failed =>
    rcases attempts with ⟨rfl, hopen, -⟩ | rfl
    · exact .refuse rfl hopen mode (transfer_eq_none.mp failed)
    · exact absurd hp.1 mode

theorem next_fits {m : Move α} {es : List (Entry χ α)} {refused : Pc χ} (ho : Owned es o)
    (hr : refused.fits size es) (hk : ch.isUnbuffered = (size o.chan == 0)) (hp : p.fits size o)
    (h : Outcome ch o v p m) : (o.next refused m).fits size es := by
  cases h with
  | shut => exact ho.leave_fits _
  | publish he => exact ⟨ho, enters_unbuffered he hk hp⟩
  | exchange he => exact ho.leave_fits _
  | behind he => exact ⟨ho, enters_unbuffered he hk hp⟩
  | pass => exact hr
  | stall hl => exact ⟨ho, loops_unbuffered hl hk hp⟩
  | hold hl => exact ⟨ho, loops_unbuffered hl hk hp⟩
  | transfer b w ha => exact ⟨ho, attempts_buffered ha hk hp⟩
  | refuse => exact hr
  | closedRetry => exact ho.leave_fits _
  | retry ha hm => exact ⟨ho, hm, attempts_buffered ha hk hp⟩
  | complete => exact ho.leave_fits _

end

theorem admitted_free {s : State τ χ α} {t : τ} {c : χ} {p : Point} (h : s.admitted t c p)
    (u : τ) (hu : u ≠ t) :
    (s.chan c).chanMutex ≠ some u := by
  cases p with
  | lock => simp [show _ = _ from h]
  | recheck => simp [show _ = _ from h, hu.symm]
  | wait w => simp [show _ = _ from h.2]

variable [DecidableEq χ] {size : χ → Nat} {s s' : State τ χ α}

theorem init_shape (h : Init size s) : Shape size s := by
  refine ⟨fun c => ?_, fun t => ?_, fun c t => ?_⟩
  · obtain ⟨g, hg⟩ := h.chan c
    rw [hg]
    rfl
  · rw [h.pc t]
    trivial
  · obtain ⟨g, hg⟩ := h.chan c
    rw [hg, h.pc t]
    simp [Channel.create, Pc.holds]

theorem Held.of_step {t : τ} (h : Held s) (hpc : ∀ u, u ≠ t → s'.pc u = s.pc u)
    (hm : ∀ c, (s'.chan c).chanMutex = (s.chan c).chanMutex ∧
        (s'.pc t).holds c = (s.pc t).holds c ∨
      (∀ u, u ≠ t → (s.chan c).chanMutex ≠ some u) ∧
        (s'.chan c).chanMutex = if (s'.pc t).holds c then some t else none) : Held s' := by
  intro c u
  rcases hm c with ⟨hm, hh⟩ | ⟨hfree, hm⟩
  · rw [hm, h c u]
    by_cases hu : u = t
    · rw [hu, hh]
    · rw [hpc u hu]
  · rw [hm]
    by_cases hu : u = t
    · subst hu
      split <;> simp [*]
    · have hnot := (not_congr (h c u)).mp (hfree u hu)
      rw [hpc u hu]
      split <;> simp [hnot, Ne.symm hu]

variable [DecidableEq τ] [Fintype τ] {a : Action τ χ α} {l : Label τ χ α}

def system (size : χ → Nat) : System (State τ χ α) (Action τ χ α) (Label τ χ α) where
  init := Init size
  step := State.step

theorem stepped_fits (hs : Shape size s) (h : Stepped s a l s') :
    (s'.pc a.actor).fits size (s'.entries a.actor) := by
  cases h with
  | call t k hpc => exact start_fits size s t k
  | spurious t w o hpc =>
    exact hs.fits t
  | critical t wake p o m l s' hpc hadm hout hact =>
    have hf := hs.fits t
    rw [hpc] at hf
    dsimp only [Action.actor]
    rw [acted_pc hact, acted_entries hact, Function.update_self]
    exact next_fits hf.1 (refused_fits size hf.1) (by simpa using hs.kind o.chan) hf.2 hout
  | publish t wake o hpc =>
    have hf := hs.fits t
    rw [hpc] at hf
    simpa [State.broadcast, Pc.fits, Point.fits] using hf
  | notify t wake o hpc =>
    have hf := hs.fits t
    rw [hpc] at hf
    simpa [Pc.fits] using hf
  | signal t wake o hpc =>
    have hf := hs.fits t
    rw [hpc] at hf
    simpa using hf.1.leave_fits .success
  | closeNotify t wake d c hpc => cases d <;> simp [Pc.fits]
  | closeBroadcast t wake k c hpc => cases k <;> simp [Pc.fits, Cond.nextInClose]
  | registered t wake i hpc => simpa using scanAt_fits size s t 0
  | semWait t wake hpc => simpa using scanAt_fits size s t 0
  | cleanup t wake i o st e hpc he =>
    have hf := hs.fits t
    rw [hpc] at hf
    simpa [State.removeSelect, Pc.fits] using hf
  | cleaned t wake i o st hpc =>
    have hf := hs.fits t
    rw [hpc] at hf
    simpa [Pc.fits] using hf.1
  | _ => simp [State.addSelect, Pc.fits]

theorem stepped_held (hs : Shape size s) (h : Stepped s a l s') : Held s' := by
  have hf := stepped_frame h
  cases h with
  | call t k hpc =>
    refine hs.held.of_step (t := t) hf.pc fun c => .inl ⟨by simp, ?_⟩
    rw [hpc]
    unfold State.start
    cases k with
    | select es => dsimp only; split <;> simp [Pc.holds]
    | _ => simp [Pc.holds]
  | spurious t w o hpc => exact hs.held
  | critical t wake p o m l s' hpc hadm hout hact =>
    refine hs.held.of_step (t := t) hf.pc fun c => ?_
    rw [acted_pc hact, acted_chan hact, Function.update_self, next_holds (refused_holds s t o c)]
    by_cases hc : c = o.chan
    · subst hc
      refine .inr ⟨admitted_free hadm, ?_⟩
      rw [Function.update_self, after_chanMutex]
      cases m <;> simp
    · refine .inl ⟨by rw [Function.update_of_ne hc], ?_⟩
      rw [hpc]
      cases m <;> cases p <;> simp [Pc.holds, Ne.symm hc]
  | publish t wake o hpc =>
    refine hs.held.of_step (t := t) hf.pc fun c => ?_
    by_cases hc : c = o.chan
    · subst hc
      have hown := (hs.held o.chan t).mpr (by simp [hpc, Pc.holds])
      refine .inr ⟨fun u hu => ?_, ?_⟩
      · simpa [hown] using Ne.symm hu
      · simp [State.broadcast, Pc.holds]
    · refine .inl ⟨?_, ?_⟩ <;> simp [State.broadcast, hpc, hc, Pc.holds, Ne.symm hc]
  | close t wake c hpc | register t wake i e hpc | cleanup t wake i o st e hpc =>
    refine hs.held.of_step (t := t) hf.pc fun c' => .inl ⟨update_chan Channel.chanMutex rfl, ?_⟩
    simp [State.addSelect, State.removeSelect, hpc]
    rfl
  | closeNotify t wake d c hpc =>
    refine hs.held.of_step (t := t) hf.pc fun c' => .inl ⟨by simp, ?_⟩
    cases d <;> simp [hpc, Pc.holds]
  | closeBroadcast t wake k c hpc =>
    refine hs.held.of_step (t := t) hf.pc fun c' => .inl ⟨by simp [State.broadcast], ?_⟩
    cases k <;> simp [hpc, Pc.holds, Cond.nextInClose]
  | notify t wake o hpc | signal t wake o hpc | closeAgain t wake c hpc | registered t wake i hpc
  | semWait t wake hpc | cleaned t wake i o st hpc | ret t wake o st hpc =>
    refine hs.held.of_step (t := t) hf.pc fun c' => .inl ⟨by simp, ?_⟩
    simp [hpc]
    rfl

theorem stepped_shape (hs : Shape size s) (h : Stepped s a l s') : Shape size s' := by
  have hf := stepped_frame h
  refine ⟨fun c => (hf.isUnbuffered c).trans (hs.kind c), fun u => ?_, stepped_held hs h⟩
  by_cases hu : u = a.actor
  · rw [hu]
    exact stepped_fits hs h
  · rw [hf.pc u hu, hf.entries u hu]
    exact hs.fits u

end OperatingSystems.Concurrency
